import Mathlib.Algebra.Order.Ring.Int
import Mathlib.Data.Fin.Basic
import Mathlib.Data.Prod.Lex
import Mathlib.Order.Fin.Basic

/-!
# Hashes, byte strings and the cryptographic boundary

A 32-byte hash is kept as the number its bytes spell in big-endian order: the derived
byte-wise order of the hash newtypes is then the order of the numbers. The hash
function and the BLS library are not translated. They enter every definition that
uses them through `Crypto`, so whatever is proved holds for every hash function and
every signature scheme.
-/

namespace Dashcore

/-- A computation that succeeds goes on with the result of its first step. -/
theorem bind_eq_ok {ε α β : Type} {x : Except ε α} {f : α → Except ε β} {b : β}
    (h : x >>= f = .ok b) : ∃ a, x = .ok a ∧ f a = .ok b := by
  cases x with
  | error e => cases h
  | ok a => exact ⟨a, rfl, h⟩

/-- A 32-byte hash, as the number its bytes spell in big-endian order. -/
abbrev Hash256 := Fin (2 ^ 256)

instance neZeroHash : NeZero (2 ^ 256) := ⟨by decide⟩

abbrev BlockHash := Hash256

abbrev QuorumHash := BlockHash

abbrev CycleHash := BlockHash

abbrev Txid := Hash256

/-- A compressed BLS public key. -/
abbrev BLSPublicKey := Vector UInt8 48

/-- A compressed BLS signature. -/
abbrev BLSSignature := Vector UInt8 96

/-- A reference to an output of a transaction. -/
structure OutPoint where
  txid : Txid
  vout : Nat
  deriving DecidableEq

/-- Outpoints compare by transaction, then by index. -/
instance : LinearOrder OutPoint :=
  LinearOrder.lift' (fun o : OutPoint => toLex (o.txid, o.vout)) fun a b h => by
    cases a
    cases b
    simpa using h

/-- The `width` low bytes of a number, most significant first. -/
def beBytes (width n : Nat) : List UInt8 :=
  (List.range width).map fun i => UInt8.ofNat (n / 256 ^ (width - 1 - i))

/-- The `width` low bytes of a number, least significant first. -/
def leBytes (width n : Nat) : List UInt8 :=
  (List.range width).map fun i => UInt8.ofNat (n / 256 ^ i)

/-- The number a byte string spells, least significant byte first. -/
def fromLeBytes : List UInt8 → Nat
  | [] => 0
  | b :: bs => b.toNat + 256 * fromLeBytes bs

/-- The 32 bytes of a hash. -/
def toByteArray (h : Hash256) : List UInt8 := beBytes 32 h

/-- Consensus encoding of a variable-length integer. -/
def varInt (n : Nat) : List UInt8 :=
  if n ≤ 0xFC then leBytes 1 n
  else if n ≤ 0xFFFF then 0xFD :: leBytes 2 n
  else if n ≤ 0xFFFFFFFF then 0xFE :: leBytes 4 n
  else 0xFF :: leBytes 8 n

/-- The bytes of an ASCII text given by its characters. -/
def asciiBytes (text : List Char) : List UInt8 := text.map fun c => UInt8.ofNat c.toNat

/-- The Dash network to act on. -/
inductive Network
  | mainnet
  | testnet
  | devnet
  | regtest
  deriving DecidableEq, Repr

/-- The functions of the cryptographic libraries the node calls: double SHA-256, the
parsing of BLS points and the BLS check itself. Nothing is assumed about them. -/
structure Crypto where
  /-- Double SHA-256 of a byte string. -/
  sha256d : List UInt8 → Hash256
  /-- Parsed public keys. -/
  PublicKey : Type
  /-- Parsed signatures. -/
  Signature : Type
  /-- Parse a public key; the error is the library's message. -/
  publicKeyTryFrom : BLSPublicKey → Except String PublicKey
  /-- Decompress a signature point. -/
  signatureFromCompressed : BLSSignature → Option Signature
  /-- Check a signature on a digest; the error is the library's message. -/
  verify : Signature → PublicKey → List UInt8 → Except String Unit

end Dashcore
