import Dashcore.Sync.DownloadCoordinator
import Dashcore.Sync.Filters.Batch

/-!
# The filters pipeline

Filters are requested in batches of consecutive heights and arrive one by one, in any order.
A tracker collects the filters of each batch; a batch whose filters are all there is handed
over. The coordinator keeps the batches by their first heights.
-/

namespace Dashcore

open SortedMap

/-- Heights of one request. -/
def filterBatchSize : Nat := 1000

def maxConcurrentFilterBatches : Nat := 20

/-- Timeout of a request, in milliseconds. -/
def filterTimeout : Nat := 30000

/-- Batches by first height. -/
structure FiltersPipeline where
  coordinator : DownloadCoordinator Nat
  batchTrackers : SortedMap Nat BatchTracker
  /-- The completed batches, by first height. -/
  completedBatches : SortedMap Nat FiltersBatch
  targetHeight : Nat
  filtersReceived : Nat
  highestReceived : Nat
  deriving DecidableEq

namespace FiltersPipeline

/-- A pipeline without work. -/
def new : FiltersPipeline where
  coordinator := .new ⟨maxConcurrentFilterBatches, filterTimeout⟩
  batchTrackers := ∅
  completedBatches := ∅
  targetHeight := 0
  filtersReceived := 0
  highestReceived := 0

variable (p : FiltersPipeline)

/-- Nothing waits and nothing is in flight. -/
def isIdle : Bool :=
  p.coordinator.activeCount = 0 && p.coordinator.pendingCount = 0

def takeCompletedBatches : FiltersPipeline × SortedMap Nat FiltersBatch :=
  ({ p with completedBatches := ∅ }, p.completedBatches)

/-- Queue one batch. -/
def queueBatch (current batchEnd : Nat) : FiltersPipeline :=
  { p with
    coordinator := p.coordinator.enqueue [current]
    batchTrackers := p.batchTrackers.insert current (.new batchEnd) }

/-- Queue the batches from a height up to the target. Every round moves the height, so the
number of heights left bounds the rounds. -/
def queueBatches (target : Nat) : Nat → Nat → FiltersPipeline → FiltersPipeline
  | 0, _, p => p
  | fuel + 1, current, p =>
    if current ≤ target then
      queueBatches target fuel (min (current + filterBatchSize - 1) target + 1)
        (p.queueBatch current (min (current + filterBatchSize - 1) target))
    else p

/-- Start over for a range of heights. -/
def init (startHeight targetHeight : Nat) : FiltersPipeline :=
  queueBatches targetHeight (targetHeight + 1 - startHeight) startHeight
    { coordinator := p.coordinator.clear
      batchTrackers := ∅
      completedBatches := ∅
      targetHeight
      filtersReceived := 0
      highestReceived := startHeight - 1 }

/-- Queue the batches above the old target. -/
def extendTarget (newTarget : Nat) : FiltersPipeline :=
  if newTarget ≤ p.targetHeight then p
  else
    queueBatches newTarget (newTarget - p.targetHeight) (p.targetHeight + 1)
      { p with targetHeight := newTarget }

section Send

variable {blockHash : Header → BlockHash}

/-- Request the batches taken off the queue. A batch whose last header cannot be read goes
back to the queue. `accepts n` says whether the request channel takes the `n`-th request;
after a failure the rest of the batches is neither queued nor in flight. -/
def sendLoop (headers : PersistentBlockHeaderStorage blockHash) (now generation : Nat)
    (accepts : Nat → Bool) :
    List Nat → Nat → FiltersPipeline → FiltersPipeline × Except SyncError Nat
  | [], sent, p => (p, .ok sent)
  | startHeight :: rest, sent, p =>
    match p.batchTrackers.get? startHeight with
    | none => (p, .error (.missingBatchTracker startHeight))
    | some tracker =>
      match headers.getHeader tracker.endHeight with
      | .ok (some _) =>
        if accepts sent then
          sendLoop headers now generation accepts rest (sent + 1)
            { p with
              coordinator := p.coordinator.markSentWithGeneration now [startHeight] generation }
        else (p, .error .requestFailed)
      | .ok none | .error _ =>
        sendLoop headers now generation accepts rest sent
          { p with coordinator := p.coordinator.enqueue [startHeight] }

/-- Request waiting batches and tag them with the reorg generation. -/
def sendPending (headers : PersistentBlockHeaderStorage blockHash)
    (now generation : Nat) (accepts : Nat → Bool) : FiltersPipeline × Except SyncError Nat :=
  let count := p.coordinator.availableToSend
  if count = 0 then (p, .ok 0)
  else
    let (coordinator, startHeights) := p.coordinator.takePending count
    sendLoop headers now generation accepts startHeights 0 { p with coordinator }

end Send

/-- The batch a height belongs to. -/
def findBatchForHeight (height : Nat) : Option Nat :=
  (p.batchTrackers.entries.find? fun e => e.1 ≤ height && height ≤ e.2.endHeight).map Sigma.fst

def generationForHeight (height : Nat) : Option Nat :=
  (p.findBatchForHeight height).bind p.coordinator.generationFor

/-- Hand a complete batch over. A request that waits again is dropped from the queue. -/
def completeBatch (batchStart : Nat) (tracker : BatchTracker) : FiltersPipeline :=
  let (coordinator, wasInFlight) := p.coordinator.receive batchStart
  { p with
    coordinator := if wasInFlight then coordinator else coordinator.cancelPending batchStart
    batchTrackers := p.batchTrackers.erase batchStart
    completedBatches :=
      if p.completedBatches.contains batchStart then p.completedBatches
      else p.completedBatches.insert batchStart
        (.new batchStart tracker.endHeight tracker.filters) }

/-- Take a filter in. The result is its height if it completes its batch. -/
def receiveWithData (height : Nat) (blockHash : BlockHash)
    (filterData : Filter) : FiltersPipeline × Option Nat :=
  match p.findBatchForHeight height with
  | none => (p, none)
  | some batchStart =>
    match p.batchTrackers.get? batchStart with
    | none => (p, none)
    | some tracker =>
      let tracker := tracker.insertFilter height blockHash filterData
      let p := { p with
        batchTrackers := p.batchTrackers.insert batchStart tracker
        filtersReceived := p.filtersReceived + 1
        highestReceived := max p.highestReceived height }
      if tracker.isComplete batchStart then (p.completeBatch batchStart tracker, some height)
      else (p, none)

/-- Queue timed-out requests again. -/
def handleTimeouts (now : Nat) : FiltersPipeline :=
  { p with coordinator := p.coordinator.checkAndRetryTimeouts now }

/-- Queue everything in flight again. -/
def requeueInFlight : FiltersPipeline :=
  { p with coordinator := p.coordinator.requeueInFlight }

/-! ### The batches of a pipeline

A property of trackers that holds of new ones and survives the arrival of a filter holds of
every tracker, and every completed batch comes from such a tracker. -/

/-- A batch made of a complete tracker with a property. -/
def CompletedFrom (T : Nat → BatchTracker → Prop) (start : Nat) (batch : FiltersBatch) : Prop :=
  ∃ tracker, T start tracker ∧ tracker.isComplete start = true ∧
    batch = .new start tracker.endHeight tracker.filters

/-- Every tracker has a property, and every completed batch comes from one that has it. -/
structure EachBatch (T : Nat → BatchTracker → Prop) (p : FiltersPipeline) : Prop where
  tracked : ∀ start tracker, p.batchTrackers.get? start = some tracker → T start tracker
  completed : ∀ start batch, p.completedBatches.get? start = some batch →
    CompletedFrom T start batch

variable {T : Nat → BatchTracker → Prop} {p : FiltersPipeline}

theorem eachBatch_new : EachBatch T new :=
  ⟨fun _ _ h => by simp [new] at h, fun _ _ h => by simp [new] at h⟩

namespace EachBatch

theorem mono {T' : Nat → BatchTracker → Prop} (h : EachBatch T p)
    (hT : ∀ start tracker, T start tracker → T' start tracker) : EachBatch T' p where
  tracked start tracker hget := hT start tracker (h.tracked start tracker hget)
  completed start batch hget := by
    obtain ⟨tracker, htracker, hcomp, heq⟩ := h.completed start batch hget
    exact ⟨tracker, hT start tracker htracker, hcomp, heq⟩

theorem queueBatch (h : EachBatch T p) {current batchEnd : Nat} (hnew : T current (.new batchEnd)) :
    EachBatch T (p.queueBatch current batchEnd) where
  tracked := forall_get?_insert h.tracked hnew
  completed := h.completed

theorem queueBatches {target : Nat} (hnew : ∀ start stop, start ≤ stop → stop ≤ target →
    T start (.new stop)) (fuel current : Nat) (h : EachBatch T p) :
    EachBatch T (FiltersPipeline.queueBatches target fuel current p) := by
  induction fuel generalizing current p with
  | zero => exact h
  | succ fuel ih =>
    unfold FiltersPipeline.queueBatches
    split_ifs with hle
    · refine ih _ (h.queueBatch (hnew _ _ ?_ (Nat.min_le_right _ _)))
      unfold filterBatchSize
      omega
    · exact h

/-- A range without heights has no batches; the batches of another one end at its end. -/
theorem init (p : FiltersPipeline) {lo hi : Nat}
    (hnew : lo ≤ hi → ∀ start stop, start ≤ stop → stop ≤ hi → T start (.new stop)) :
    EachBatch T (p.init lo hi) := by
  have hempty : EachBatch T { p with
      coordinator := p.coordinator.clear
      batchTrackers := ∅
      completedBatches := ∅
      targetHeight := hi
      filtersReceived := 0
      highestReceived := lo - 1 } :=
    ⟨fun _ _ h => by simp at h, fun _ _ h => by simp at h⟩
  unfold FiltersPipeline.init
  by_cases hrange : lo ≤ hi
  · exact queueBatches (hnew hrange) _ _ hempty
  · rw [show hi + 1 - lo = 0 by omega]
    exact hempty

theorem extendTarget {newTarget : Nat} (hnew : ∀ start stop, start ≤ stop → stop ≤ newTarget →
    T start (.new stop)) (h : EachBatch T p) : EachBatch T (p.extendTarget newTarget) := by
  unfold FiltersPipeline.extendTarget
  split_ifs
  · exact h
  · exact queueBatches hnew _ _ ⟨h.tracked, h.completed⟩

variable {blockHash : Header → BlockHash}

theorem sendLoop (headers : PersistentBlockHeaderStorage blockHash) (now generation : Nat)
    (accepts : Nat → Bool) (startHeights : List Nat) (sent : Nat) (h : EachBatch T p) :
    EachBatch T
      (FiltersPipeline.sendLoop headers now generation accepts startHeights sent p).1 := by
  induction startHeights generalizing sent p with
  | nil => exact h
  | cons startHeight rest ih =>
    unfold FiltersPipeline.sendLoop
    cases p.batchTrackers.get? startHeight with
    | none => exact h
    | some tracker =>
      dsimp only
      split
      · split_ifs
        · exact ih _ ⟨h.tracked, h.completed⟩
        · exact h
      · exact ih _ ⟨h.tracked, h.completed⟩
      · exact ih _ ⟨h.tracked, h.completed⟩

theorem sendPending (h : EachBatch T p)
    (headers : PersistentBlockHeaderStorage blockHash) (now generation : Nat)
    (accepts : Nat → Bool) : EachBatch T (p.sendPending headers now generation accepts).1 := by
  unfold FiltersPipeline.sendPending
  dsimp only
  split_ifs
  · exact h
  · exact sendLoop headers now generation accepts _ 0 ⟨h.tracked, h.completed⟩

/-- A filter goes into a batch whose range holds its height. -/
theorem receiveWithData (h : EachBatch T p) {height : Nat} {blockHash : BlockHash}
    {filterData : Filter} (hinsert : ∀ start tracker, T start tracker → start ≤ height →
      height ≤ tracker.endHeight → T start (tracker.insertFilter height blockHash filterData)) :
    EachBatch T (p.receiveWithData height blockHash filterData).1 := by
  unfold FiltersPipeline.receiveWithData
  cases hfind : p.findBatchForHeight height with
  | none => exact h
  | some start =>
    obtain ⟨⟨start, found⟩, hentry, rfl⟩ := Option.map_eq_some_iff.mp hfind
    have hrange := List.find?_some hentry
    have hget := mem_entries_iff.mp (List.mem_of_find?_eq_some hentry)
    simp only [Bool.and_eq_true, decide_eq_true_eq] at hrange
    have hnew := hinsert start found (h.tracked start found hget) hrange.1 hrange.2
    have htracked := forall_get?_insert h.tracked hnew
    simp only [hget]
    split_ifs with hcomp
    · -- the batch is complete and leaves the trackers
      refine ⟨fun other tracker hother => htracked other tracker (of_get?_erase hother).2,
        fun other batch hother => ?_⟩
      simp only [completeBatch] at hother
      split_ifs at hother
      · exact h.completed other batch hother
      · exact forall_get?_insert h.completed ⟨_, hnew, hcomp, rfl⟩ other batch hother
    · exact ⟨htracked, h.completed⟩

end EachBatch

end FiltersPipeline

end Dashcore
