import Dashcore.Wallet.Account

/-!
# Coin selection

A selector picks coins for an amount and the fee of the transaction that spends them. It takes
coins one by one in some order until they suffice, or it searches for coins that make the sum
exactly. Change below the dust threshold is left to the fee.

The amounts are natural numbers: the sums and products of the code are 64-bit numbers.

A selection should conserve the value of its coins. The exact search of the branch-and-bound
strategy does not: it looks for coins that pay the fee of one input more than they are, and
reports the fee of as many inputs as they are.
-/

namespace Dashcore

open List

/-- Satoshis per kilobyte. -/
structure FeeRate where
  satPerKb : Nat
  deriving DecidableEq

/-- The fee for a size in bytes, rounded up. -/
def FeeRate.calculateFee (rate : FeeRate) (sizeBytes : Nat) : Nat :=
  (rate.satPerKb * sizeBytes + 999) / 1000

theorem FeeRate.calculateFee_mono (rate : FeeRate) {size size' : Nat} (h : size ≤ size') :
    rate.calculateFee size ≤ rate.calculateFee size' :=
  Nat.div_le_div_right (Nat.add_le_add_right (Nat.mul_le_mul_left _ h) _)

def Utxo.value (u : Utxo) : Nat := u.txout.value

inductive SelectionStrategy
  | smallestFirst
  | largestFirst
  | smallestFirstTill (count : Nat)
  | branchAndBound
  | optimalConsolidation
  | random
  deriving DecidableEq

structure SelectionResult where
  selected : List Utxo
  totalValue : Nat
  targetAmount : Nat
  changeAmount : Nat
  estimatedSize : Nat
  estimatedFee : Nat
  exactMatch : Bool
  deriving DecidableEq

inductive SelectionError
  | noUtxosAvailable
  | insufficientFunds (available required : Nat)
  deriving DecidableEq

structure CoinSelector where
  strategy : SelectionStrategy
  dustThreshold : Nat
  deriving DecidableEq

section

variable (utxos : List Utxo)

/-- The value of some coins. -/
def totalOf : Nat := (utxos.map Utxo.value).sum

/-- The greatest 64-bit number. -/
def u64Max : Nat := 2 ^ 64 - 1

/-- Smallest value first; coins of one value keep their order. -/
def sortAscending : List Utxo :=
  utxos.insertionSort fun a b => a.value ≤ b.value

/-- Largest value first; coins of one value keep their order. -/
def sortDescending : List Utxo :=
  utxos.insertionSort fun a b => b.value ≤ a.value

end

namespace CoinSelector

def new (strategy : SelectionStrategy) : CoinSelector where
  strategy
  dustThreshold := 546

section Selection

variable (sel : CoinSelector) (targetAmount : Nat) (feeRate : FeeRate) (baseSize inputSize : Nat)

/-- The result for coins that suffice. Change below the dust threshold goes to the fee. -/
def accumulated (selected : List Utxo) (totalValue : Nat) : SelectionResult :=
  let estimatedSize := baseSize + inputSize * selected.length
  let estimatedFee := feeRate.calculateFee estimatedSize
  let changeAmount := totalValue - (targetAmount + estimatedFee)
  let finalChange := if changeAmount < sel.dustThreshold then 0 else changeAmount
  { selected
    totalValue
    targetAmount
    changeAmount := finalChange
    estimatedSize
    estimatedFee := if finalChange = 0 then totalValue - targetAmount else estimatedFee
    exactMatch := changeAmount < sel.dustThreshold ∧ changeAmount = 0 }

/-- Take coins one by one until they suffice. -/
def accumulateLoop : List Utxo → List Utxo → Nat → Except SelectionError SelectionResult
  | [], _, totalValue => .error (.insufficientFunds totalValue targetAmount)
  | utxo :: rest, selected, totalValue =>
    let totalValue := totalValue + utxo.value
    let selected := selected ++ [utxo]
    if targetAmount + feeRate.calculateFee (baseSize + inputSize * selected.length) ≤ totalValue then
      .ok (sel.accumulated targetAmount feeRate baseSize inputSize selected totalValue)
    else accumulateLoop rest selected totalValue

def accumulateCoinsWithSize (utxos : List Utxo) : Except SelectionError SelectionResult :=
  sel.accumulateLoop targetAmount feeRate baseSize inputSize utxos [] 0

/-! ### The exact search of branch and bound -/

/-- What the search requires of the coins picked so far: the amount, and the fee of one input
more than they are. -/
def requiredBeyond (current : List Utxo) : Nat :=
  targetAmount + feeRate.calculateFee (baseSize + inputSize * (current.length + 1))

/-- The first checks of a node of the search: an exact match ends the search, too much value
ends the branch. -/
def checkNode (current : List Utxo) (currentTotal : Nat) : Option (Option (List Utxo × Nat)) :=
  let required := requiredBeyond targetAmount feeRate baseSize inputSize current
  if currentTotal = required then some (some (current, currentTotal))
  else if required + sel.dustThreshold < currentTotal then some none
  else none

/-- Try the remaining coins at a node, one after the other. -/
def tryRemaining : List Utxo → List Utxo → Nat → Option (List Utxo × Nat)
  | [], _, _ => none
  | utxo :: rest, current, currentTotal =>
    let required := requiredBeyond targetAmount feeRate baseSize inputSize current
    let newTotal := currentTotal + utxo.value
    if required + sel.dustThreshold * 10 < newTotal then tryRemaining rest current currentTotal
    else
      let child := match
          sel.checkNode targetAmount feeRate baseSize inputSize (current ++ [utxo]) newTotal with
        | some found => found
        | none => tryRemaining rest (current ++ [utxo]) newTotal
      match child with
      | some found => some found
      | none => tryRemaining rest current currentTotal

/-- A node of the search, with the coins that may still be picked. -/
def findExactMatch (remaining current : List Utxo) (currentTotal : Nat) :
    Option (List Utxo × Nat) :=
  match sel.checkNode targetAmount feeRate baseSize inputSize current currentTotal with
  | some found => found
  | none => sel.tryRemaining targetAmount feeRate baseSize inputSize remaining current currentTotal

/-- An exact match is reported with the fee of as many inputs as it has. Without one, coins are
taken in order, for a transaction with change. -/
def branchAndBoundWithSize (utxos : List Utxo) : Except SelectionError SelectionResult :=
  match sel.findExactMatch targetAmount feeRate baseSize inputSize utxos [] 0 with
  | some (selected, total) =>
    let estimatedSize := baseSize + inputSize * selected.length
    .ok
      { selected
        totalValue := total
        targetAmount
        changeAmount := 0
        estimatedSize
        estimatedFee := feeRate.calculateFee estimatedSize
        exactMatch := true }
  | none => sel.accumulateCoinsWithSize targetAmount feeRate (baseSize + 34) inputSize utxos

/-! ### Consolidation -/

/-- Pick a number of coins from an index on that make a sum. -/
def findCombinationRecursive (utxos : List Utxo) (target : Nat) :
    Nat → Nat → List Utxo → Nat → Option (List Utxo)
  | 0, _, current, currentSum => if currentSum = target then some current else none
  | remainingPicks + 1, startIndex, current, currentSum =>
    if utxos.length ≤ startIndex ∨ target < currentSum then none
    else
      let last := utxos.length - (remainingPicks + 1)
      (range' startIndex (last + 1 - startIndex)).findSome? fun i =>
        (utxos[i]?).bind fun utxo =>
          findCombinationRecursive utxos target remainingPicks (i + 1) (current ++ [utxo])
            (currentSum + utxo.value)

/-- Search for up to a number of coins that pay the amount and their fee exactly. -/
def findExactCombination (utxos : List Utxo) (maxInputs : Nat) : Option (List Utxo) :=
  (range' 1 (min maxInputs utxos.length)).findSome? fun numInputs =>
    let required := targetAmount + feeRate.calculateFee (baseSize + inputSize * numInputs)
    findCombinationRecursive utxos required numInputs 0 [] 0

/-- The change that the smallest coins leave, if they suffice. -/
def prefixChange (utxos : List Utxo) (count : Nat) : Option Nat :=
  let current := utxos.take count
  let estimatedFee := feeRate.calculateFee (baseSize + inputSize * current.length)
  if targetAmount + estimatedFee ≤ totalOf current then
    some (totalOf current - (targetAmount + estimatedFee))
  else none

/-- Keep the smaller change that is no dust. -/
def betterPrefix (utxos : List Utxo) (best : Option (List Utxo) × Nat) (count : Nat) :
    Option (List Utxo) × Nat :=
  match prefixChange targetAmount feeRate baseSize inputSize utxos count with
  | some change =>
    if change < best.2 ∧ sel.dustThreshold ≤ change then (some (utxos.take count), change) else best
  | none => best

/-- The smallest coins, at most ten, with the least change that is no dust. -/
def bestPrefix (utxos : List Utxo) : Option (List Utxo) × Nat :=
  (range' 1 (min utxos.length 10)).foldl
    (sel.betterPrefix targetAmount feeRate baseSize inputSize utxos) (none, u64Max)

def optimalConsolidationWithSize (utxos : List Utxo) : Except SelectionError SelectionResult :=
  let sortedAsc := sortAscending utxos
  match (range' 1 (min 10 sortedAsc.length)).findSome? fun maxInputs =>
      findExactCombination targetAmount feeRate baseSize inputSize sortedAsc maxInputs with
  | some combination =>
    let estimatedSize := baseSize + inputSize * combination.length
    .ok
      { selected := combination
        totalValue := totalOf combination
        targetAmount
        changeAmount := 0
        estimatedSize
        estimatedFee := feeRate.calculateFee estimatedSize
        exactMatch := true }
  | none =>
    let baseSizeWithChange := baseSize + 34
    match sel.bestPrefix targetAmount feeRate baseSizeWithChange inputSize sortedAsc with
    | (some selected, bestChange) =>
      let estimatedSize := baseSizeWithChange + inputSize * selected.length
      .ok
        { selected
          totalValue := totalOf selected
          targetAmount
          changeAmount := bestChange
          estimatedSize
          estimatedFee := feeRate.calculateFee estimatedSize
          exactMatch := false }
    | (none, _) =>
      sel.accumulateCoinsWithSize targetAmount feeRate baseSizeWithChange inputSize sortedAsc

/-! ### The selection -/

/-- The smallest coins up to a count, then the largest of the rest. -/
def smallestTill (utxos : List Utxo) (count : Nat) : List Utxo :=
  let available := sortAscending utxos
  if available.length ≤ count then available
  else available.take count ++ sortDescending (available.drop count)

/-- Select among the coins that can be spent. -/
def selectAvailable (available : List Utxo) : Except SelectionError SelectionResult :=
  match sel.strategy with
  | .smallestFirst =>
    sel.accumulateCoinsWithSize targetAmount feeRate baseSize inputSize (sortAscending available)
  | .largestFirst =>
    sel.accumulateCoinsWithSize targetAmount feeRate baseSize inputSize (sortDescending available)
  | .smallestFirstTill count =>
    sel.accumulateCoinsWithSize targetAmount feeRate baseSize inputSize
      (smallestTill available count)
  | .branchAndBound =>
    sel.branchAndBoundWithSize targetAmount feeRate baseSize inputSize (sortDescending available)
  | .optimalConsolidation =>
    sel.optimalConsolidationWithSize targetAmount feeRate baseSize inputSize available
  | .random => sel.accumulateCoinsWithSize targetAmount feeRate baseSize inputSize available

/-- Select coins that can be spent at a height. All strategies but the random one check first
that there are coins, and enough for the amount. -/
def selectCoinsWithSize (utxos : List Utxo) (currentHeight : Nat) :
    Except SelectionError SelectionResult :=
  let available := utxos.filter fun u => u.isSpendable currentHeight
  if sel.strategy = .random then
    sel.selectAvailable targetAmount feeRate baseSize inputSize available
  else if available.isEmpty then .error .noUtxosAvailable
  else if totalOf available < targetAmount then
    .error (.insufficientFunds (totalOf available) targetAmount)
  else sel.selectAvailable targetAmount feeRate baseSize inputSize available

end Selection

/-! ### Sound selections -/

/-- The coins are among those available, their value goes to the amount, the fee and the change,
the fee suffices for as many inputs, and change is no dust. -/
structure Sound (sel : CoinSelector) (feeRate : FeeRate) (baseSize inputSize : Nat)
    (available : List Utxo) (r : SelectionResult) : Prop where
  selected : r.selected.Subperm available
  totalValue : r.totalValue = totalOf r.selected
  conserved : r.totalValue = r.targetAmount + r.estimatedFee + r.changeAmount
  fee : feeRate.calculateFee (baseSize + inputSize * r.selected.length) ≤ r.estimatedFee
  change : r.changeAmount = 0 ∨ sel.dustThreshold ≤ r.changeAmount
  exactMatch : r.exactMatch = true → r.changeAmount = 0

section Proofs

variable {sel : CoinSelector} {targetAmount : Nat} {feeRate : FeeRate} {baseSize inputSize : Nat}

@[simp] theorem totalOf_nil : totalOf [] = 0 := rfl

@[simp] theorem totalOf_append (a b : List Utxo) : totalOf (a ++ b) = totalOf a + totalOf b := by
  simp [totalOf]

@[simp] theorem totalOf_cons (u : Utxo) (rest : List Utxo) :
    totalOf (u :: rest) = u.value + totalOf rest := by
  simp [totalOf]

/-- How a selection comes about, unless branch and bound finds an exact match. -/
inductive Fair (sel : CoinSelector) (targetAmount : Nat) (feeRate : FeeRate)
    (baseSize inputSize : Nat) (available : List Utxo) : SelectionResult → Prop
  /-- Coins that suffice, for a transaction with or without change. -/
  | accumulated {selected : List Utxo} {size : Nat} (hselected : selected.Subperm available)
      (hsize : baseSize ≤ size ∧ size ≤ baseSize + 34)
      (hsuffices : targetAmount + feeRate.calculateFee (size + inputSize * selected.length) ≤
        totalOf selected) :
      Fair sel targetAmount feeRate baseSize inputSize available
        (sel.accumulated targetAmount feeRate size inputSize selected (totalOf selected))
  /-- Coins that pay the amount and their fee exactly. -/
  | exact {selected : List Utxo} (hselected : selected.Subperm available)
      (htotal : totalOf selected =
        targetAmount + feeRate.calculateFee (baseSize + inputSize * selected.length)) :
      Fair sel targetAmount feeRate baseSize inputSize available
        { selected
          totalValue := totalOf selected
          targetAmount
          changeAmount := 0
          estimatedSize := baseSize + inputSize * selected.length
          estimatedFee := feeRate.calculateFee (baseSize + inputSize * selected.length)
          exactMatch := true }
  /-- Coins that leave change. -/
  | change {selected : List Utxo} {changeAmount : Nat} (hselected : selected.Subperm available)
      (hdust : sel.dustThreshold ≤ changeAmount)
      (htotal : totalOf selected = targetAmount +
        feeRate.calculateFee (baseSize + 34 + inputSize * selected.length) + changeAmount) :
      Fair sel targetAmount feeRate baseSize inputSize available
        { selected
          totalValue := totalOf selected
          targetAmount
          changeAmount
          estimatedSize := baseSize + 34 + inputSize * selected.length
          estimatedFee := feeRate.calculateFee (baseSize + 34 + inputSize * selected.length)
          exactMatch := false }

/-- Coins that suffice pay the fee, and what is left is change or goes to the fee as dust. -/
theorem accumulated_spec {selected : List Utxo} {size : Nat}
    (hsuffices : targetAmount + feeRate.calculateFee (size + inputSize * selected.length) ≤
      totalOf selected) :
    let r := sel.accumulated targetAmount feeRate size inputSize selected (totalOf selected)
    totalOf selected = targetAmount + r.estimatedFee + r.changeAmount ∧
    (r.changeAmount = 0 ∧
        r.estimatedFee < feeRate.calculateFee (size + inputSize * selected.length) +
          max 1 sel.dustThreshold ∧
        feeRate.calculateFee (size + inputSize * selected.length) ≤ r.estimatedFee ∨
      sel.dustThreshold ≤ r.changeAmount ∧ r.exactMatch = false ∧
        r.estimatedFee = feeRate.calculateFee (size + inputSize * selected.length)) := by
  obtain ⟨change, hchange⟩ := Nat.exists_eq_add_of_le hsuffices
  have hleft : totalOf selected -
      (targetAmount + feeRate.calculateFee (size + inputSize * selected.length)) = change := by
    omega
  unfold accumulated
  dsimp only
  rw [hleft]
  by_cases hdust : change < sel.dustThreshold
  · rw [if_pos hdust, if_pos rfl]
    exact ⟨by omega, .inl ⟨rfl, by omega, by omega⟩⟩
  · rw [if_neg hdust]
    by_cases hzero : change = 0
    · rw [if_pos hzero]
      exact ⟨by omega, .inl ⟨hzero, by omega, by omega⟩⟩
    · rw [if_neg hzero]
      refine ⟨hchange, .inr ⟨Nat.not_lt.mp hdust, ?_, rfl⟩⟩
      simp [hdust]

variable {r : SelectionResult} {available : List Utxo}

/-- A fair selection is sound. -/
theorem Fair.sound (h : Fair sel targetAmount feeRate baseSize inputSize available r) :
    Sound sel feeRate baseSize inputSize available r := by
  cases h with
  | @accumulated selected size hsel hsize hsuffices =>
    have hfee := feeRate.calculateFee_mono
      (Nat.add_le_add_right hsize.1 (inputSize * selected.length))
    obtain ⟨hcons, hcases⟩ := @accumulated_spec sel targetAmount feeRate inputSize selected size
      hsuffices
    refine ⟨hsel, rfl, hcons, ?_, ?_, ?_⟩
    · obtain ⟨-, -, hle⟩ | ⟨-, -, heq⟩ := hcases
      · exact hfee.trans hle
      · exact hfee.trans heq.ge
    · exact hcases.imp And.left And.left
    · intro hexact
      obtain ⟨hzero, -, -⟩ | ⟨-, hnot, -⟩ := hcases
      · exact hzero
      · rw [hnot] at hexact
        cases hexact
  | exact hsel htotal => exact ⟨hsel, rfl, htotal, le_rfl, .inl rfl, fun _ => rfl⟩
  | change hsel hdust htotal =>
    refine ⟨hsel, rfl, htotal, ?_, .inr hdust, fun hexact => by cases hexact⟩
    exact feeRate.calculateFee_mono (by dsimp only; omega)

variable {utxos available : List Utxo}

variable {remaining current : List Utxo} {found : List Utxo × Nat} {currentTotal : Nat}

variable {utxos : List Utxo}

section

variable (hr : sel.selectAvailable targetAmount feeRate baseSize inputSize available = .ok r)
include hr

end

/-- A selection is one from the coins that can be spent. -/
theorem selectAvailable_of_selectCoinsWithSize {currentHeight : Nat}
    (hr : sel.selectCoinsWithSize targetAmount feeRate baseSize inputSize utxos currentHeight =
      .ok r) :
    sel.selectAvailable targetAmount feeRate baseSize inputSize
      (utxos.filter fun u => u.isSpendable currentHeight) = .ok r := by
  unfold selectCoinsWithSize at hr
  dsimp only at hr
  split_ifs at hr <;> exact hr

end Proofs

namespace OneCoin

def owner : Address := .witnessProgram 0 [1]

def coin : Utxo where
  outpoint := ⟨0, 0⟩
  txout := ⟨10306, owner.scriptPubkey⟩
  address := owner
  height := 1
  isCoinbase := false
  isConfirmed := true
  isInstantlocked := false
  isLocked := false
  isTrusted := false

end OneCoin

end CoinSelector

end Dashcore
