import Mathlib.Data.Nat.Bitwise
import Mathlib.Tactic.IntervalCases
import Dashcore.Chain.Work

/-!
# Compact targets

The compact form of a target is a mantissa of 23 bits and an exponent to the base 256. Reading a
compact form back gives the greatest such number up to the target.
-/

namespace Dashcore

open Nat

/-- The numbers that have a compact form. -/
def IsCompact (x : Nat) : Prop := ∃ m ≤ 0x7FFFFF, ∃ e, x = m * 256 ^ e

/-- Cutting off the least number of low bytes that makes a mantissa of the rest gives the
greatest compact number. -/
theorem isGreatest_isCompact {n e : Nat} (hfits : n / 256 ^ e ≤ 0x7FFFFF)
    (hleast : e = 0 ∨ 0x7FFFFF < n / 256 ^ (e - 1)) :
    IsGreatest {x | IsCompact x ∧ x ≤ n} (n / 256 ^ e * 256 ^ e) := by
  have hpow : ∀ k, 0 < 256 ^ k := fun k => Nat.pow_pos (by decide)
  refine ⟨⟨⟨_, hfits, e, rfl⟩, div_mul_le_self n _⟩, ?_⟩
  rintro _ ⟨⟨m, hm, e', rfl⟩, hle⟩
  by_cases he : e ≤ e'
  · -- it is a multiple of the same power
    obtain ⟨d, rfl⟩ := Nat.exists_eq_add_of_le he
    rw [pow_add, Nat.mul_comm (256 ^ e), ← Nat.mul_assoc] at hle ⊢
    exact mul_le_mul_right _ ((le_div_iff_mul_le (hpow e)).mpr hle)
  · -- its mantissa is too small to get beyond `0x8000 * 256 ^ e`
    obtain ⟨d, rfl⟩ := Nat.exists_eq_add_of_lt (not_le.mp he)
    have hroom := hleast.resolve_left (by omega)
    rw [Nat.add_sub_cancel, Nat.lt_iff_add_one_le, le_div_iff_mul_le (hpow _)] at hroom
    have hbound : m * 256 ^ e' ≤ 0x7FFFFF * 256 ^ (e' + d) :=
      Nat.mul_le_mul hm (Nat.pow_le_pow_right (by decide) (Nat.le_add_right e' d))
    have hfar : 0x8000 ≤ n / 256 ^ (e' + d + 1) := by
      rw [le_div_iff_mul_le (hpow _), pow_succ]
      omega
    refine le_trans ?_ (mul_le_mul_right _ hfar)
    omega

namespace Target

/-- A mantissa below the sign bit is shifted by the exponent. -/
theorem toNat_fromCompact {bits c size : Nat} (hbits : bits = size * 2 ^ 24 + c)
    (hc : c ≤ 0x7FFFFF) (hsize : size ≤ 33) : (fromCompact bits).toNat =
      if size ≤ 3 then c / 256 ^ (3 - size) else c * 256 ^ (size - 3) % 2 ^ 256 := by
  have hexp : bits >>> 24 = size := by
    omega
  have hmant : bits &&& 0xFFFFFF = c := by
    rw [(by norm_num : 0xFFFFFF = 2 ^ 24 - 1), Nat.and_two_pow_sub_one_eq_mod]
    omega
  have hpow : ∀ k, 2 ^ (8 * k) = 256 ^ k := fun k => pow_mul 2 8 k
  have hfits : ∀ x ≤ c, (BitVec.ofNat 256 x).toNat = x := by
    intro x hx
    rw [BitVec.toNat_ofNat, mod_eq_of_lt (lt_of_le_of_lt (hx.trans hc) (by norm_num))]
  unfold fromCompact
  rw [hexp, hmant]
  by_cases hsmall : size ≤ 3
  · have hle : c >>> (8 * (3 - size)) ≤ c := Nat.shiftRight_le c _
    simp only [if_pos hsmall]
    rw [if_neg (by omega), Nat.zero_mod, BitVec.shiftLeft_zero, hfits _ hle,
      shiftRight_eq_div_pow, hpow]
  · simp only [if_neg hsmall]
    rw [if_neg (by omega), mod_eq_of_lt (by omega : 8 * (size - 3) < 256),
      BitVec.toNat_shiftLeft, hfits c le_rfl, shiftLeft_eq, hpow]

/-- A target fills its bytes. -/
theorem size_bounds (t : Target) {size : Nat} (hsize : (U256.bits t + 7) / 8 = size) :
    t.toNat < 256 ^ size ∧ size ≤ 32 ∧ (0 < size → 256 ^ (size - 1) ≤ t.toNat) := by
  have hpow : ∀ k, 256 ^ k = 2 ^ (8 * k) := fun k => (pow_mul 2 8 k).symm
  unfold U256.bits at hsize
  split_ifs at hsize with hzero
  · subst hsize hzero
    simp
  · have hne : t.toNat ≠ 0 := fun h => hzero (BitVec.eq_of_toNat_eq h)
    have hlog : t.toNat.log2 < 256 := (log2_lt hne).mpr t.isLt
    rw [hpow, hpow, ← log2_lt hne, ← Nat.le_log2 hne]
    omega

/-- The three highest bytes of a target. -/
theorem exists_highBytes (t : Target) {size : Nat} (hsize : (U256.bits t + 7) / 8 = size) :
    ∃ c, (if size ≤ 3 then (t.toNat % 2 ^ 64) <<< (8 * (3 - size)) % 2 ^ 32
        else (t >>> (8 * (size - 3))).toNat % 2 ^ 32) = c ∧ c < 2 ^ 24 ∧ size ≤ 32 ∧
      (size ≤ 3 ∧ c = t.toNat * 256 ^ (3 - size) ∨
        ∃ e, size = e + 4 ∧ c = t.toNat / 256 ^ (e + 1) ∧ 2 ^ 16 ≤ c) := by
  obtain ⟨hlt, hle, hfills⟩ := size_bounds t hsize
  have hpow : ∀ k, 2 ^ (8 * k) = 256 ^ k := fun k => pow_mul 2 8 k
  have hpos : ∀ k, 0 < 256 ^ k := fun k => Nat.pow_pos (by decide)
  refine ⟨_, rfl, ?_⟩
  split_ifs with hsmall
  · have hself := Nat.le_mul_of_pos_right t.toNat (hpos (3 - size))
    have hbound : t.toNat * 256 ^ (3 - size) < 2 ^ 24 := by
      interval_cases size <;> omega
    rw [shiftLeft_eq, hpow, mod_eq_of_lt (by omega : t.toNat < 2 ^ 64), mod_eq_of_lt (by omega)]
    exact ⟨hbound, hle, .inl ⟨hsmall, rfl⟩⟩
  · obtain ⟨e, rfl⟩ : ∃ e, size = e + 4 := Nat.exists_eq_add_of_le' (not_le.mp hsmall)
    have hhigh : t.toNat / 256 ^ (e + 1) < 2 ^ 24 := by
      rw [Nat.div_lt_iff_lt_mul (hpos _), ← hpow, ← pow_add]
      exact hlt.trans_eq ((hpow _).symm.trans (congrArg _ (by omega)))
    have hlow : 2 ^ 16 ≤ t.toNat / 256 ^ (e + 1) := by
      rw [le_div_iff_mul_le (hpos _), ← hpow, ← pow_add]
      exact ((congrArg _ (by omega)).trans (hpow _)).le.trans (hfills (by omega))
    rw [BitVec.toNat_ushiftRight, shiftRight_eq_div_pow, hpow, (by omega : e + 4 - 3 = e + 1),
      mod_eq_of_lt (by omega)]
    exact ⟨hhigh, hle, .inr ⟨e, rfl, rfl, hlow⟩⟩

/-- The mantissa and the number of bytes that a target is encoded with. -/
theorem exists_mantissa (t : Target) : ∃ c size, t.toCompactLossy = size * 2 ^ 24 + c ∧
    c ≤ 0x7FFFFF ∧ size ≤ 33 ∧ (size ≤ 3 ∧ c = t.toNat * 256 ^ (3 - size) ∨
      ∃ e, size = e + 4 ∧ c = t.toNat / 256 ^ (e + 1) ∧ 0x7FFFFF < t.toNat / 256 ^ e) := by
  unfold toCompactLossy
  generalize hsize : (U256.bits t + 7) / 8 = size
  obtain ⟨c, hc, hbound, hle, hvalue⟩ := exists_highBytes t hsize
  simp only [hc]
  have hbit : c &&& 0x00800000 ≠ 0 ↔ 2 ^ 23 ≤ c := by
    rw [(by norm_num : 0x00800000 = 2 ^ 23), Nat.and_two_pow, testBit_eq_decide_div_mod_eq]
    have htest : c / 2 ^ 23 % 2 = 1 ↔ 2 ^ 23 ≤ c := by omega
    simpa using htest
  have hjoin : ∀ c' size', c' < 2 ^ 24 → c' ||| size' <<< 24 = size' * 2 ^ 24 + c' := by
    intro c' size' h
    rw [Nat.or_comm, ← Nat.shiftLeft_add_eq_or_of_lt h, shiftLeft_eq]
  have hcut : ∀ e, t.toNat / 256 ^ (e + 1) = t.toNat / 256 ^ e / 2 ^ 8 := fun e =>
    (Nat.div_div_eq_div_mul _ _ _).symm
  by_cases htop : 2 ^ 23 ≤ c
  · -- the sign bit would be set, so the mantissa gives up its last byte
    simp only [if_pos (hbit.mpr htop)]
    refine ⟨c >>> 8, size + 1, hjoin _ _ ?_, ?_, by omega, ?_⟩ <;> rw [shiftRight_eq_div_pow]
    · omega
    · omega
    obtain ⟨hsmall, rfl⟩ | ⟨e, rfl, rfl, -⟩ := hvalue
    · rcases Nat.lt_or_eq_of_le hsmall with hlt | rfl
      · refine .inl ⟨hlt, ?_⟩
        interval_cases size <;> omega
      · exact .inr ⟨0, rfl, by omega, by omega⟩
    · exact .inr ⟨e + 1, rfl, (hcut _).symm, htop⟩
  · simp only [if_neg (fun h => htop (hbit.mp h))]
    refine ⟨c, size, hjoin _ _ hbound, by omega, by omega, hvalue.imp_right ?_⟩
    rintro ⟨e, rfl, rfl, hlow⟩
    refine ⟨e, rfl, rfl, ?_⟩
    rw [hcut] at hlow
    omega

/-- Encoding a target and decoding it again. -/
def roundCompact (t : Target) : Target := fromCompact t.toCompactLossy

theorem isGreatest_roundCompact (t : Target) :
    IsGreatest {x | IsCompact x ∧ x ≤ t.toNat} t.roundCompact.toNat := by
  obtain ⟨c, size, heq, hc, hsize, ⟨hsmall, rfl⟩ | ⟨e, rfl, rfl, hleast⟩⟩ := t.exists_mantissa
  · rw [roundCompact, toNat_fromCompact heq hc hsize, if_pos hsmall,
      Nat.mul_div_cancel _ (Nat.pow_pos (by decide))]
    have hfits : t.toNat ≤ 0x7FFFFF := (Nat.le_mul_of_pos_right _ (Nat.pow_pos (by decide))).trans hc
    simpa using isGreatest_isCompact (e := 0) (by simpa using hfits) (.inl rfl)
  · rw [roundCompact, toNat_fromCompact heq hc hsize, if_neg (by omega),
      (by omega : e + 4 - 3 = e + 1), mod_eq_of_lt (lt_of_le_of_lt (div_mul_le_self _ _) t.isLt)]
    exact isGreatest_isCompact hc (.inr hleast)

/-- Encoding rounds a target down to the nearest number with a compact form. -/
theorem roundCompact_greatest :
    (∀ t : Target, IsGreatest {x | IsCompact x ∧ x ≤ t.toNat} t.roundCompact.toNat) ∧
      (∀ t : Target, t.roundCompact.roundCompact = t.roundCompact) ∧
      (∀ t t' : Target, t ≤ t' → t.roundCompact ≤ t'.roundCompact) ∧
      ∀ t : Target, t.toCompactLossy.testBit 23 = false := by
  refine ⟨isGreatest_roundCompact, fun t => ?_, fun t t' hle => ?_, fun t => ?_⟩
  · have h := isGreatest_roundCompact t.roundCompact
    exact BitVec.eq_of_toNat_eq
      (le_antisymm h.1.2 (h.2 ⟨(isGreatest_roundCompact t).1.1, le_rfl⟩))
  · obtain ⟨⟨hcompact, hbelow⟩, -⟩ := isGreatest_roundCompact t
    exact BitVec.le_def.mpr ((isGreatest_roundCompact t').2 ⟨hcompact, hbelow.trans hle⟩)
  · obtain ⟨c, size, heq, hc, -⟩ := t.exists_mantissa
    rw [heq, testBit_eq_decide_div_mod_eq]
    simp only [decide_eq_false_iff_not]
    omega

end Target

end Dashcore
