import Mathlib.Algebra.BigOperators.Group.List.Basic
import Dashcore.Chain.Header

/-!
# Proof of work

Targets and work are 256-bit numbers. The arithmetic is the machine's: sums wrap, and a
shift takes its distance modulo 256.
-/

namespace Dashcore

/-- A 256-bit unsigned number. -/
abbrev U256 := BitVec 256

/-- The number of significant bits. -/
def U256.bits (x : U256) : Nat := if x = 0 then 0 else x.toNat.log2 + 1

/-- The multiplicative counterpart of a target; 0 and 1 have the greatest one. -/
def U256.inverse (x : U256) : U256 :=
  if x = 0 then BitVec.allOnes 256
  else if x = 1 then BitVec.allOnes 256
  else if x = BitVec.allOnes 256 then 1
  else ~~~x / (x + 1) + 1

abbrev Target := U256

namespace Target

/-- Decode a compact target. A mantissa with the sign bit set decodes to zero. -/
def fromCompact (bits : Nat) : Target :=
  let unshiftedExpt := bits >>> 24
  let (mant, expt) :=
    if unshiftedExpt ≤ 3 then ((bits &&& 0xFFFFFF) >>> (8 * (3 - unshiftedExpt)), 0)
    else (bits &&& 0xFFFFFF, 8 * (unshiftedExpt - 3))
  if mant > 0x7FFFFF then 0 else BitVec.ofNat 256 mant <<< (expt % 256)

variable (target : Target)

/-- Encode a target, rounding to three significant bytes. -/
def toCompactLossy : Nat :=
  let size := (U256.bits target + 7) / 8
  let compact :=
    if size ≤ 3 then (target.toNat % 2 ^ 64) <<< (8 * (3 - size)) % 2 ^ 32
    else (target >>> (8 * (size - 3))).toNat % 2 ^ 32
  -- the mantissa is signed, so a set top bit moves into the next byte
  let (compact, size) :=
    if compact &&& 0x00800000 ≠ 0 then (compact >>> 8, size + 1) else (compact, size)
  compact ||| (size <<< 24)

/-- Whether a block hash, read as a little-endian number, is at most the target. -/
def isMetBy (hash : BlockHash) : Bool :=
  fromLeBytes (toByteArray hash) ≤ target.toNat

/-- The work it takes to meet a target. -/
def toWork : U256 := U256.inverse target

end Target

/-- The target a header claims to meet. -/
def Header.target (header : Header) : Target := Target.fromCompact header.bits

/-- Cumulative work, compared as a big-endian number. -/
abbrev ChainWork := U256

namespace ChainWork

/-- The work of one header. -/
def fromHeader (header : Header) : ChainWork := header.target.toWork

/-- Add the work of headers to a base. -/
def accumulate (base : ChainWork) (headers : List Header) : ChainWork :=
  headers.foldl (fun acc header => acc + fromHeader header) base

/-- The work of headers as a natural number. -/
def total (headers : List Header) : Nat :=
  (headers.map fun header => (fromHeader header).toNat).sum

@[simp] theorem total_nil : total [] = 0 := rfl

@[simp] theorem total_cons (header : Header) (headers : List Header) :
    total (header :: headers) = (fromHeader header).toNat + total headers := by
  simp [total]

@[simp] theorem total_append (headers headers' : List Header) :
    total (headers ++ headers') = total headers + total headers' := by
  simp [total]

/-- Accumulation is the sum of the works, wrapped at 256 bits. -/
theorem toNat_accumulate (base : ChainWork) (headers : List Header) :
    (accumulate base headers).toNat = (base.toNat + total headers) % 2 ^ 256 := by
  induction headers generalizing base with
  | nil => simp [accumulate, Nat.mod_eq_of_lt base.isLt]
  | cons header rest ih =>
    have hstep : accumulate base (header :: rest) = accumulate (base + fromHeader header) rest :=
      rfl
    rw [hstep, ih, total_cons, BitVec.toNat_add, Nat.mod_add_mod, Nat.add_assoc]

end ChainWork

end Dashcore
