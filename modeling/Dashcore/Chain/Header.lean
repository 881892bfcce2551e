import Dashcore.Primitives

/-!
# Block headers

The header hash (X11) belongs to an external library, so it is a parameter
`blockHash : Header → BlockHash` of everything that computes it.
-/

namespace Dashcore

/-- A block header. `bits` is the compact target. -/
structure Header where
  version : Int
  prevBlockhash : BlockHash
  merkleRoot : Hash256
  time : Nat
  bits : Nat
  nonce : Nat
  deriving DecidableEq

/-- A header with its cached hash. -/
structure HashedBlockHeader where
  header : Header
  hash : BlockHash
  deriving DecidableEq

section

variable (blockHash : Header → BlockHash)

/-- Hash a header once and cache the result. -/
def HashedBlockHeader.ofHeader (header : Header) :
    HashedBlockHeader :=
  { header, hash := blockHash header }

@[simp] theorem HashedBlockHeader.ofHeader_header
    (header : Header) : (ofHeader blockHash header).header = header := rfl

@[simp] theorem HashedBlockHeader.ofHeader_hash
    (header : Header) : (ofHeader blockHash header).hash = blockHash header := rfl

end

/-- A header names the other one as its predecessor. -/
def Follows (prev header : HashedBlockHeader) : Prop := header.header.prevBlockhash = prev.hash

end Dashcore
