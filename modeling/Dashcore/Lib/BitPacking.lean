import Mathlib.Data.Nat.Bitwise
import Mathlib.Data.List.Basic

/-!
# Bit lists packed into bytes

Eight bits to a byte, the first in the lowest place; the last byte is filled up with zeros.
Unpacking gives the bits back. Packing again gives the bytes back exactly when the bits
that were left out are zero.
-/

/-- Bit `p` of a byte string, counted from the lowest bit of the first byte. -/
def bitAt (bytes : List UInt8) (p : Nat) : Bool := (bytes.getD (p / 8) 0).toNat.testBit (p % 8)

/-- Pack bits into bytes. -/
def packBits (bits : List Bool) : List UInt8 :=
  (List.range ((bits.length + 7) / 8)).map fun i =>
    UInt8.ofNat (Nat.ofBits fun j : Fin 8 => bits.getD (8 * i + j) false)

/-- The first `size` bits of a byte string. -/
def unpackBits (size : Nat) (bytes : List UInt8) : List Bool :=
  (List.range size).map (bitAt bytes)

section

variable (bits : List Bool)

@[simp] theorem length_packBits :
    (packBits bits).length = (bits.length + 7) / 8 := by
  simp [packBits]

@[simp] theorem length_unpackBits (size : Nat) (bytes : List UInt8) :
    (unpackBits size bytes).length = size := by
  simp [unpackBits]

theorem getD_unpackBits (size : Nat) (bytes : List UInt8) (p : Nat) :
    (unpackBits size bytes).getD p false = (decide (p < size) && bitAt bytes p) := by
  by_cases hp : p < size
  · simp [unpackBits, hp]
  · simp [unpackBits, hp]

/-- The bits of a packed list are those of the list, and zeros after them. -/
theorem bitAt_packBits (p : Nat) :
    bitAt (packBits bits) p = bits.getD p false := by
  have hp : 8 * (p / 8) + p % 8 = p := Nat.div_add_mod p 8
  have hmod : p % 8 < 8 := Nat.mod_lt p (by decide)
  by_cases hbyte : p / 8 < (bits.length + 7) / 8
  · have hget : (packBits bits).getD (p / 8) 0 =
        UInt8.ofNat (Nat.ofBits fun j : Fin 8 => bits.getD (8 * (p / 8) + j) false) := by
      simp [packBits, hbyte]
    have hlt := Nat.ofBits_lt_two_pow fun j : Fin 8 => bits.getD (8 * (p / 8) + j) false
    rw [bitAt, hget, UInt8.toNat_ofNat_of_lt' hlt, Nat.testBit_ofBits_lt _ _ hmod, hp]
  · have hpast : bits.length ≤ p := by omega
    have hget : (packBits bits).getD (p / 8) 0 = 0 := by
      simp [packBits, hbyte]
    rw [bitAt, hget, List.getD_eq_default _ _ hpast]
    simp

theorem unpackBits_packBits :
    unpackBits bits.length (packBits bits) = bits := by
  apply List.ext_getElem
  · simp
  · intro p h₁ h₂
    simp [unpackBits, bitAt_packBits, h₂]

end

/-- Byte strings of one length with the same bits are equal. -/
theorem eq_of_bitAt_eq {a b : List UInt8} (hlen : a.length = b.length)
    (hbits : ∀ p, p < 8 * a.length → bitAt a p = bitAt b p) : a = b := by
  apply List.ext_getElem hlen
  intro i ha hb
  apply UInt8.toNat_inj.mp
  apply Nat.eq_of_testBit_eq
  intro j
  by_cases hj : j < 8
  · have hbit := hbits (8 * i + j) (by omega)
    have hdiv : (8 * i + j) / 8 = i := by omega
    have hmod : (8 * i + j) % 8 = j := by omega
    simpa [bitAt, hdiv, hmod, ha, hb] using hbit
  · have hzero : ∀ x : UInt8, x.toNat.testBit j = false := by
      intro x
      apply Nat.testBit_lt_two_pow
      exact Nat.lt_of_lt_of_le x.toNat_lt (Nat.pow_le_pow_right (by decide) (by omega))
    rw [hzero, hzero]

/-- Only zero bits may be left out of a byte string that is to come back. -/
theorem packBits_unpackBits_iff {size : Nat} {bytes : List UInt8}
    (hlen : bytes.length = (size + 7) / 8) :
    packBits (unpackBits size bytes) = bytes ↔
      ∀ p, size ≤ p → p < 8 * bytes.length → bitAt bytes p = false := by
  have hbits : ∀ p, bitAt (packBits (unpackBits size bytes)) p =
      (decide (p < size) && bitAt bytes p) := by
    intro p
    rw [bitAt_packBits, getD_unpackBits]
  constructor
  · intro h p hsize _
    have hp := hbits p
    rw [h] at hp
    rw [hp, decide_eq_false (by omega), Bool.false_and]
  · intro h
    apply eq_of_bitAt_eq (by simp [hlen])
    intro p hp
    rw [hbits]
    by_cases hsize : p < size
    · simp [hsize]
    · rw [decide_eq_false hsize, Bool.false_and, h p (by omega) (by simpa [hlen] using hp)]
