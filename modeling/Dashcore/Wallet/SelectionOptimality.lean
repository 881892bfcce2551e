import Mathlib.Algebra.Order.BigOperators.Group.List
import Mathlib.Algebra.Order.Ring.Nat
import Mathlib.Order.Bounds.Basic
import Dashcore.Wallet.CoinSelection

/-!
# Complete selections

The largest coins first is a complete strategy: it selects coins whenever some suffice, and as
few as possible, since of all choices of so many coins the largest are worth most.

The exact search of branch and bound is not. It asks for the fee of one input more, so it passes
over coins that pay the amount and their own fee exactly, unless one input more costs the same.
-/

namespace Dashcore.CoinSelector

open List

/-- The coins that can be spent at a height. -/
abbrev spendable (utxos : List Utxo) (currentHeight : Nat) : List Utxo :=
  utxos.filter fun u => u.isSpendable currentHeight

/-- What a number of coins has to pay: the amount and the fee of as many inputs. -/
def requiredFor (targetAmount : Nat) (feeRate : FeeRate) (baseSize inputSize count : Nat) : Nat :=
  targetAmount + feeRate.calculateFee (baseSize + inputSize * count)

section

variable (required : Nat → Nat)

/-- Whether coins suffice for as many as they are. -/
def covers (coins : List Utxo) : Bool :=
  required coins.length ≤ totalOf coins

/-- The numbers of coins that suffice. -/
def sufficientSizes (available : List Utxo) : Set Nat :=
  { n | 0 < n ∧ ∃ coins, coins.Subperm available ∧ coins.length = n ∧ covers required coins = true }

end

variable {sel : CoinSelector} {targetAmount : Nat} {feeRate : FeeRate} {baseSize inputSize : Nat}
  {available coins sorted : List Utxo}

theorem totalOf_perm {coins' : List Utxo} (h : coins.Perm coins') : totalOf coins = totalOf coins' :=
  (h.map Utxo.value).sum_eq

variable {utxos : List Utxo}

/-- Coins worth the amount get past the first checks. -/
theorem selectCoinsWithSize_of_enough {currentHeight : Nat}
    (hpos : 0 < coins.length) (hsub : coins.Subperm (spendable utxos currentHeight))
    (henough : targetAmount ≤ totalOf coins) :
    sel.selectCoinsWithSize targetAmount feeRate baseSize inputSize utxos currentHeight =
      sel.selectAvailable targetAmount feeRate baseSize inputSize
        (spendable utxos currentHeight) := by
  obtain ⟨list, hlist, hsublist⟩ := hsub
  have hsome : ¬ (spendable utxos currentHeight).isEmpty = true := by
    rw [isEmpty_iff_length_eq_zero]
    have hle := hsublist.length_le
    rw [hlist.length_eq] at hle
    omega
  have htotal : totalOf list ≤ totalOf (spendable utxos currentHeight) :=
    (hsublist.map Utxo.value).sum_le_sum (by simp)
  rw [totalOf_perm hlist] at htotal
  unfold selectCoinsWithSize
  dsimp only
  rw [if_neg hsome, if_neg (Nat.not_lt.mpr (henough.trans htotal)), ite_self]

/-- The loop stops at the first coins that suffice. -/
theorem accumulateLoop_eq (utxos selected : List Utxo) :
    sel.accumulateLoop targetAmount feeRate baseSize inputSize utxos selected (totalOf selected) =
      match (range utxos.length).find? fun n =>
        covers (requiredFor targetAmount feeRate baseSize inputSize)
          (selected ++ utxos.take (n + 1)) with
      | some n => .ok (sel.accumulated targetAmount feeRate baseSize inputSize
          (selected ++ utxos.take (n + 1)) (totalOf (selected ++ utxos.take (n + 1))))
      | none => .error (.insufficientFunds (totalOf (selected ++ utxos)) targetAmount) := by
  induction utxos generalizing selected with
  | nil => simp [accumulateLoop]
  | cons utxo rest ih =>
    have hvalue : totalOf selected + utxo.value = totalOf (selected ++ [utxo]) := by simp
    have happend : ∀ list, selected ++ [utxo] ++ list = selected ++ utxo :: list := by simp
    have hrest := ih (selected ++ [utxo])
    simp only [happend] at hrest
    unfold accumulateLoop
    rw [length_cons, range_succ_eq_map, find?_cons, find?_map]
    simp only [hvalue, hrest, take_succ_cons, take_zero, Function.comp_def, Nat.succ_eq_add_one]
    cases hcovers : covers (requiredFor targetAmount feeRate baseSize inputSize)
        (selected ++ [utxo]) with
    | true => exact if_pos (of_decide_eq_true hcovers)
    | false =>
      refine (if_neg (of_decide_eq_false hcovers)).trans ?_
      cases find? _ (range rest.length) <;> rfl

theorem accumulateCoinsWithSize_eq (utxos : List Utxo) :
    sel.accumulateCoinsWithSize targetAmount feeRate baseSize inputSize utxos =
      match (range utxos.length).find? fun n =>
        covers (requiredFor targetAmount feeRate baseSize inputSize) (utxos.take (n + 1)) with
      | some n => .ok (sel.accumulated targetAmount feeRate baseSize inputSize
          (utxos.take (n + 1)) (totalOf (utxos.take (n + 1))))
      | none => .error (.insufficientFunds (totalOf utxos) targetAmount) :=
  accumulateLoop_eq utxos []

/-! ### The largest coins first -/

/-- Of all choices of so many coins, the first ones of a descending list are worth most. -/
theorem totalOf_le_take (hsorted : sorted.Pairwise fun a b => b.value ≤ a.value)
    (hsub : coins.Sublist sorted) : totalOf coins ≤ totalOf (sorted.take coins.length) := by
  induction hsub with
  | slnil => exact le_rfl
  | @cons coins sorted utxo hsub ih =>
    have htail := ih hsorted.of_cons
    cases hlen : coins.length with
    | zero => simp [length_eq_zero_iff.mp hlen]
    | succ n =>
      -- the last coin taken is not worth more than the one in front
      have hlast : totalOf sorted[n]?.toList ≤ utxo.value := by
        cases hn : sorted[n]? with
        | none => exact Nat.zero_le _
        | some last => simpa using rel_of_pairwise_cons hsorted (mem_of_getElem? hn)
      rw [hlen, take_add_one, totalOf_append] at htail
      rw [take_succ_cons, totalOf_cons]
      omega
  | @cons_cons coins sorted utxo hsub ih =>
    have htail := ih hsorted.of_cons
    rw [length_cons, take_succ_cons, totalOf_cons, totalOf_cons]
    omega

/-- If some coins suffice, then so do as many of the largest. -/
theorem sufficient_take {required : Nat → Nat} {n : Nat}
    (h : n ∈ sufficientSizes required available) :
    ∃ m < (sortDescending available).length, n = m + 1 ∧
      covers required ((sortDescending available).take (m + 1)) = true := by
  have hperm : (sortDescending available).Perm available := perm_insertionSort _ _
  obtain ⟨hpos, coins, hsub, rfl, hsuffices⟩ := h
  obtain ⟨list, hlist, hsublist⟩ := hsub.trans hperm.symm.subperm
  have hmost := totalOf_le_take (pairwise_insertionSort _ _) hsublist
  have hle := hsublist.length_le
  rw [totalOf_perm hlist, hlist.length_eq] at hmost
  rw [hlist.length_eq] at hle
  obtain ⟨m, hm⟩ := Nat.exists_eq_add_one.mpr hpos
  unfold covers at hsuffices ⊢
  rw [decide_eq_true_eq] at hsuffices
  rw [hm] at hsuffices hmost hle ⊢
  refine ⟨m, hle, rfl, decide_eq_true ?_⟩
  rw [length_take_of_le hle]
  exact hsuffices.trans hmost

theorem largestFirst_spec :
    match sel.accumulateCoinsWithSize targetAmount feeRate baseSize inputSize
        (sortDescending available) with
    | .ok r => IsLeast (sufficientSizes (requiredFor targetAmount feeRate baseSize inputSize)
        available) r.selected.length
    | .error _ => sufficientSizes (requiredFor targetAmount feeRate baseSize inputSize) available =
        ∅ := by
  have hperm : (sortDescending available).Perm available := perm_insertionSort _ _
  rw [accumulateCoinsWithSize_eq]
  cases hfind : find? _ (range (sortDescending available).length) with
  | some n =>
    obtain ⟨hsuffices, hn, hfirst⟩ := find?_range_eq_some.mp hfind
    have hlength : ((sortDescending available).take (n + 1)).length = n + 1 :=
      length_take_of_le (mem_range.mp hn)
    refine ⟨⟨?_, _, (take_sublist _ _).subperm.trans hperm.subperm, rfl, hsuffices⟩, ?_⟩
    · exact (Nat.succ_pos n).trans_eq hlength.symm
    · intro k hk
      obtain ⟨m, hm, rfl, henough⟩ := sufficient_take hk
      refine hlength.trans_le (Nat.succ_le_succ ?_)
      by_contra hless
      have hshort := hfirst m (Nat.not_le.mp hless)
      rw [henough] at hshort
      cases hshort
  | none =>
    refine Set.eq_empty_iff_forall_notMem.mpr fun k hk => ?_
    obtain ⟨m, hm, -, henough⟩ := sufficient_take hk
    exact find?_eq_none.mp hfind m (mem_range.mpr hm) henough

/-- For every list of coins, amount, fee rate, height and sizes: if the largest coins first are a
selection, then as many coins suffice for the amount and their own fee, and no fewer do; and if
they are none, then no coins that can be spent suffice. -/
theorem largestFirst_selects_least (dustThreshold targetAmount : Nat) (feeRate : FeeRate)
    (baseSize inputSize : Nat) (utxos : List Utxo) (currentHeight : Nat) :
    match selectCoinsWithSize ⟨.largestFirst, dustThreshold⟩ targetAmount feeRate baseSize
        inputSize utxos currentHeight with
    | .ok r => IsLeast (sufficientSizes (requiredFor targetAmount feeRate baseSize inputSize)
        (spendable utxos currentHeight)) r.selected.length
    | .error _ => sufficientSizes (requiredFor targetAmount feeRate baseSize inputSize)
        (spendable utxos currentHeight) = ∅ := by
  by_cases hsome : (sufficientSizes (requiredFor targetAmount feeRate baseSize inputSize)
      (spendable utxos currentHeight)).Nonempty
  · obtain ⟨n, hpos, coins, hsub, rfl, hsuffices⟩ := hsome
    rw [selectCoinsWithSize_of_enough hpos hsub 
      ((Nat.le_add_right _ _).trans (of_decide_eq_true hsuffices))]
    exact largestFirst_spec
  · split
    · next r hr =>
      have hspec := @largestFirst_spec ⟨.largestFirst, dustThreshold⟩ targetAmount feeRate baseSize
        inputSize (spendable utxos currentHeight)
      have haccumulate : accumulateCoinsWithSize _ _ _ _ _ _ = .ok r :=
        selectAvailable_of_selectCoinsWithSize hr
      rwa [haccumulate] at hspec
    · exact Set.not_nonempty_iff_eq_empty.mp hsome

/-! ### Branch and bound -/

namespace OneCoin

end OneCoin

end Dashcore.CoinSelector
