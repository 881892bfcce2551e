import Dashcore.Sync.Filters.Batch

/-!
# Tracking matched blocks

A block whose filter matches a wallet is requested and tracked until a report says that it was
processed. Which wallets have had a block applied is kept per block, so that a wallet that
matches later still gets it.
-/

namespace Dashcore

open SortedMap

/-- What tracking a match says about the block. The wallets are those that have not had the
block applied. -/
inductive BlockTrackResult
  | newlyTracked (wallets : Finset WalletId)
  | inFlight (wallets : Finset WalletId)
  | alreadyProcessed
  deriving DecidableEq

/-- Matched blocks on their way. -/
structure BlockMatchTracker where
  /-- Blocks in flight, with their heights and the batches that wait for them. -/
  blocksRemaining : SortedMap BlockHash (Nat × Nat)
  /-- The wallets that a block was applied to, by height and hash. -/
  processedBlocksPerWallet : SortedMap Nat (SortedMap BlockHash (Finset WalletId))
  deriving DecidableEq

namespace BlockMatchTracker

def new : BlockMatchTracker where
  blocksRemaining := ∅
  processedBlocksPerWallet := ∅

variable (t : BlockMatchTracker)

def alreadyProcessedWallets (key : FilterMatchKey) : Finset WalletId :=
  ((t.processedBlocksPerWallet.get? key.height).bind (·.get? key.hash)).getD ∅

/-- Track a match for the wallets that have not had the block applied. -/
def track (key : FilterMatchKey) (batchStart : Nat)
    (candidateWallets : Finset WalletId) : BlockMatchTracker × BlockTrackResult :=
  let residual := candidateWallets \ t.alreadyProcessedWallets key
  if residual = ∅ then (t, .alreadyProcessed)
  else if t.blocksRemaining.contains key.hash then (t, .inFlight residual)
  else
    ({ t with blocksRemaining := t.blocksRemaining.insert key.hash (key.height, batchStart) },
      .newlyTracked residual)

/-- Record the wallets that a block was applied to. -/
def recordProcessed (height : Nat) (hash : BlockHash)
    (wallets : Finset WalletId) : BlockMatchTracker :=
  if wallets = ∅ then t
  else
    let atHeight := (t.processedBlocksPerWallet.get? height).getD ∅
    { t with
      processedBlocksPerWallet := t.processedBlocksPerWallet.insert height
        (atHeight.insert hash ((atHeight.get? hash).getD ∅ ∪ wallets)) }

/-- Take a block out of flight; the result is its height and the batch that waited for it. -/
def finishInFlight (hash : BlockHash) : BlockMatchTracker × Option (Nat × Nat) :=
  ({ t with blocksRemaining := t.blocksRemaining.erase hash }, t.blocksRemaining.get? hash)

/-- Forget which wallets the blocks up to a height were applied to. -/
def pruneAtOrBelow (height : Nat) : BlockMatchTracker :=
  { t with
    processedBlocksPerWallet := t.processedBlocksPerWallet.filter fun h _ => height < h }

def isEmpty : Bool :=
  t.blocksRemaining.size = 0 && t.processedBlocksPerWallet.size = 0

/-- The outcome of tracking several matches: the blocks to ask for, and how many of them were
not in flight before. -/
structure TrackedMatches where
  tracker : BlockMatchTracker
  blocksNeeded : SortedMap FilterMatchKey (Finset WalletId)
  newBlocksCount : Nat

section

variable (batchStart : Nat)

/-- Track one match of a batch. -/
def TrackedMatches.add (r : TrackedMatches)
    (e : (_ : FilterMatchKey) × Finset WalletId) : TrackedMatches :=
  match r.tracker.track e.1 batchStart e.2 with
  | (tracker, .newlyTracked wallets) =>
    { tracker
      blocksNeeded := r.blocksNeeded.insert e.1 wallets
      newBlocksCount := r.newBlocksCount + 1 }
  | (tracker, .inFlight wallets) =>
    { r with tracker, blocksNeeded := r.blocksNeeded.insert e.1 wallets }
  | (tracker, .alreadyProcessed) => { r with tracker }

/-- Track the matches of a batch. -/
def trackMatches (blockToWallets : SortedMap FilterMatchKey (Finset WalletId)) : TrackedMatches :=
  blockToWallets.entries.foldl (TrackedMatches.add batchStart) ⟨t, ∅, 0⟩

/-! ### The blocks a batch waits for -/

/-- The number of blocks in flight that a batch waits for. -/
def remainingFor : Nat :=
  t.blocksRemaining.values.countP fun e => e.2 = batchStart

end

variable {t : BlockMatchTracker} {hash : BlockHash}

theorem remainingFor_insert
    (h : t.blocksRemaining.get? hash = none) (height batchStart other : Nat) :
    remainingFor { t with blocksRemaining := t.blocksRemaining.insert hash (height, batchStart) }
        other =
      t.remainingFor other + if batchStart = other then 1 else 0 := by
  have hperm := (perm_insert h (height, batchStart)).map Sigma.snd
  unfold remainingFor values
  rw [hperm.countP_eq, List.map_cons, List.countP_cons]
  simp

theorem remainingFor_erase {entry : Nat × Nat}
    (h : t.blocksRemaining.get? hash = some entry) (other : Nat) : t.remainingFor other =
      remainingFor { t with blocksRemaining := t.blocksRemaining.erase hash } other +
        if entry.2 = other then 1 else 0 := by
  have hperm := (perm_erase h).map Sigma.snd
  unfold remainingFor values
  rw [hperm.countP_eq, List.map_cons, List.countP_cons]
  simp

variable {batchStart : Nat}

/-- A batch that waits for blocks has one in flight. -/
theorem exists_of_remainingFor_pos (h : 0 < t.remainingFor batchStart) :
    ∃ hash height, t.blocksRemaining.get? hash = some (height, batchStart) := by
  obtain ⟨⟨height, start⟩, hmem, heq⟩ := List.countP_pos_iff.mp h
  obtain ⟨hash, hget⟩ := mem_values_iff.mp hmem
  obtain rfl : start = batchStart := of_decide_eq_true heq
  exact ⟨hash, height, hget⟩

/-- A batch that waits for no block has none in flight. -/
theorem not_mem_of_remainingFor_eq_zero (h : t.remainingFor batchStart = 0) {height : Nat} :
    t.blocksRemaining.get? hash ≠ some (height, batchStart) := by
  intro hget
  have hall := List.countP_eq_zero.mp h _ (mem_values_iff.mpr ⟨hash, hget⟩)
  exact hall (by simp)

/-- What tracking one match does: a block that was not in flight is tracked for the batch, or
nothing changes in flight. -/
theorem TrackedMatches.add_cases (batchStart : Nat) (r : TrackedMatches)
    (e : (_ : FilterMatchKey) × Finset WalletId) :
    (r.tracker.blocksRemaining.get? e.1.hash = none ∧
      (r.add batchStart e).newBlocksCount = r.newBlocksCount + 1 ∧
      (r.add batchStart e).tracker = { r.tracker with
        blocksRemaining := r.tracker.blocksRemaining.insert e.1.hash (e.1.height, batchStart) }) ∨
    ((r.add batchStart e).newBlocksCount = r.newBlocksCount ∧
      (r.add batchStart e).tracker = r.tracker) := by
  unfold TrackedMatches.add track
  by_cases hdone : e.2 \ r.tracker.alreadyProcessedWallets e.1 = ∅
  · simp only [hdone, if_true]
    exact .inr ⟨trivial, trivial⟩
  · by_cases hflight : r.tracker.blocksRemaining.contains e.1.hash = true
    · simp only [hdone, hflight, if_true, if_false]
      exact .inr ⟨trivial, trivial⟩
    · simp only [hdone, hflight, if_false, Bool.false_eq_true]
      refine .inl ⟨?_, trivial, trivial⟩
      simpa [contains] using hflight

/-- What tracking matches of a batch does to the blocks in flight: those counted as new are
what the batch waits for in addition, and each of them was matched. -/
structure TrackedFor (batchStart : Nat) (t : BlockMatchTracker) (r : TrackedMatches) : Prop where
  batch : r.tracker.remainingFor batchStart = t.remainingFor batchStart + r.newBlocksCount
  others : ∀ other, other ≠ batchStart → r.tracker.remainingFor other = t.remainingFor other
  entries : ∀ {hash entry}, r.tracker.blocksRemaining.get? hash = some entry →
    t.blocksRemaining.get? hash = some entry ∨ entry.2 = batchStart

theorem TrackedFor.add {r : TrackedMatches}
    (h : TrackedFor batchStart t r) (e : (_ : FilterMatchKey) × Finset WalletId) :
    TrackedFor batchStart t (r.add batchStart e) := by
  obtain ⟨hnone, hcount, htracker⟩ | ⟨hcount, htracker⟩ := r.add_cases batchStart e
  · refine ⟨?_, fun other hother => ?_, fun {hash entry} hget => ?_⟩
    · rw [htracker, hcount, remainingFor_insert hnone, if_pos rfl, h.batch, Nat.add_assoc]
    · rw [htracker, remainingFor_insert hnone, if_neg (Ne.symm hother), h.others other hother,
        Nat.add_zero]
    · rw [htracker] at hget
      obtain ⟨-, rfl⟩ | ⟨-, hget⟩ := of_get?_insert hget
      · exact .inr rfl
      · exact h.entries hget
  · refine ⟨?_, ?_, ?_⟩
    · rw [htracker, hcount]
      exact h.batch
    · rw [htracker]
      exact h.others
    · rw [htracker]
      exact h.entries

theorem trackedFor_trackMatches (t : BlockMatchTracker) (batchStart : Nat)
    (blockToWallets : SortedMap FilterMatchKey (Finset WalletId)) :
    TrackedFor batchStart t (t.trackMatches batchStart blockToWallets) := by
  have hfold : ∀ (l : List ((_ : FilterMatchKey) × Finset WalletId)) (r : TrackedMatches),
      TrackedFor batchStart t r →
        TrackedFor batchStart t (l.foldl (TrackedMatches.add batchStart) r) := by
    intro l
    induction l with
    | nil => exact fun r hr => hr
    | cons e rest ih => exact fun r hr => ih _ (hr.add e)
  exact hfold _ _ ⟨rfl, fun _ _ => rfl, fun hget => .inl hget⟩

end BlockMatchTracker

end Dashcore
