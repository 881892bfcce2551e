import Dashcore.Lib.Runs
import Dashcore.Lib.Tiling
import Dashcore.Sync.Filters.Pipeline

/-!
# Every filter is delivered once

A late filter can complete a batch that timed out, was queued again after a disconnect, or was
sent again. Through all of this the batches that are tracked, completed or handed over cut the
requested heights into pieces, and the coordinator holds exactly the tracked ones.

A request that the channel refuses is the exception: the batches taken off the queue for it
stay tracked but are held by nobody.
-/

namespace Dashcore

open SortedMap FiltersBatch

/-- The heights of a batch, as a half-open interval. -/
def FiltersBatch.range (b : FiltersBatch) : Nat × Nat := (b.startHeight, b.endHeight + 1)

namespace FiltersPipeline

/-- Operations on the pipeline. -/
inductive Op (blockHash : Header → BlockHash)
  | extendTarget (newTarget : Nat)
  | sendPending (headers : PersistentBlockHeaderStorage blockHash) (now generation : Nat)
      (accepts : Nat → Bool)
  | receiveWithData (height : Nat) (hash : BlockHash) (filterData : Filter)
  | handleTimeouts (now : Nat)
  | requeueInFlight
  | takeCompletedBatches

variable (p : FiltersPipeline)

/-- The ranges of the tracked batches. -/
def liveRanges : List (Nat × Nat) :=
  p.batchTrackers.entries.map fun e => (e.1, e.2.endHeight + 1)

/-- The ranges of the completed batches. -/
def completedRanges : List (Nat × Nat) :=
  p.completedBatches.values.map range

end FiltersPipeline

/-- A pipeline with the batches it has handed over so far. -/
structure FiltersDelivery where
  pipeline : FiltersPipeline
  taken : List FiltersBatch

namespace FiltersDelivery

variable {blockHash : Header → BlockHash}

open FiltersPipeline

/-- One operation. An error leaves the changes made before it. -/
def step {blockHash : Header → BlockHash} (d : FiltersDelivery) : Op blockHash → FiltersDelivery
  | .extendTarget newTarget => { d with pipeline := d.pipeline.extendTarget newTarget }
  | .sendPending headers now generation accepts =>
    { d with pipeline := (d.pipeline.sendPending headers now generation accepts).1 }
  | .receiveWithData height hash filterData =>
    { d with pipeline := (d.pipeline.receiveWithData height hash filterData).1 }
  | .handleTimeouts now => { d with pipeline := d.pipeline.handleTimeouts now }
  | .requeueInFlight => { d with pipeline := d.pipeline.requeueInFlight }
  | .takeCompletedBatches =>
    { pipeline := d.pipeline.takeCompletedBatches.1
      taken := d.taken ++ d.pipeline.takeCompletedBatches.2.values }

/-- The ranges of all batches: tracked, completed, and handed over. -/
def pieces (d : FiltersDelivery) : List (Nat × Nat) :=
  d.pipeline.liveRanges ++ (d.pipeline.completedRanges ++ d.taken.map range)

/-- The heights `start` to `stop - 1` are cut into batches, none of them lost or doubled, and
the batches that are not complete are waiting or in flight. -/
structure Delivered (start stop : Nat) (d : FiltersDelivery) : Prop where
  partition : Partitions d.pieces start stop
  full : ∀ b ∈ d.pipeline.completedBatches.values ++ d.taken, b.Full
  holds : d.pipeline.coordinator.Holds fun s => d.pipeline.batchTrackers.contains s = true
  backed : ∀ {s t}, d.pipeline.batchTrackers.get? s = some t → t.Backed
  keyed : ∀ {s b}, d.pipeline.completedBatches.get? s = some b → b.startHeight = s

variable {start stop : Nat} {d : FiltersDelivery} {p : FiltersPipeline} {t : BatchTracker} {s : Nat}

/-- The range of a tracked batch is a piece. -/
theorem mem_liveRanges
    (h : p.batchTrackers.get? s = some t) : (s, t.endHeight + 1) ∈ p.liveRanges :=
  List.mem_map.mpr ⟨⟨s, t⟩, mem_entries_iff.mpr h, rfl⟩

/-! ### Queueing -/

variable {taken : List FiltersBatch}

/-- One batch more. -/
theorem Delivered.queueBatch {current batchEnd : Nat}
    (h : Delivered start current ⟨p, taken⟩) (hle : current ≤ batchEnd) :
    Delivered start (batchEnd + 1) ⟨p.queueBatch current batchEnd, taken⟩ := by
  -- a tracked batch that starts here would reach beyond what is cut so far
  have hnone : p.batchTrackers.get? current = none := by
    rcases hget : p.batchTrackers.get? current with _ | t
    · rfl
    · have hbounds := h.partition.bounds (List.mem_append_left _ (mem_liveRanges hget))
      omega
  have hfresh : ¬ p.batchTrackers.contains current = true := by
    rw [contains, hnone]
    simp
  refine ⟨(h.partition.cons (show current < batchEnd + 1 by omega)).perm ?_, h.full, ?_, ?_, h.keyed⟩
  · have hlive : (p.queueBatch current batchEnd).liveRanges.Perm
        ((current, batchEnd + 1) :: p.liveRanges) :=
      (perm_insert hnone (BatchTracker.new batchEnd)).map _
    exact (hlive.append_right _).symm
  · refine (h.holds.enqueue hfresh).congr fun k => ?_
    exact contains_insert.trans or_comm
  · exact fun {s t} => forall_get?_insert (fun _ _ => h.backed)
      (BatchTracker.backed_new batchEnd) s t

/-- The loop queues batches up to the target, and leaves the target alone. -/
theorem Delivered.queueBatches {target fuel current : Nat} (h : Delivered start current ⟨p, taken⟩)
    (hle : current ≤ target + 1) (hfuel : target + 1 - current ≤ fuel) :
    Delivered start (target + 1) ⟨FiltersPipeline.queueBatches target fuel current p, taken⟩ ∧
      (FiltersPipeline.queueBatches target fuel current p).targetHeight = p.targetHeight := by
  induction fuel generalizing current p with
  | zero =>
    obtain rfl : current = target + 1 := by omega
    exact ⟨h, rfl⟩
  | succ fuel ih =>
    rw [FiltersPipeline.queueBatches]
    by_cases hmore : current ≤ target
    · rw [if_pos hmore]
      have hend : current ≤ min (current + filterBatchSize - 1) target := by
        have hsize : 0 < filterBatchSize := by decide
        omega
      obtain ⟨hdeliv, htarget⟩ := ih (h.queueBatch hend) (by omega) (by omega)
      exact ⟨hdeliv, htarget⟩
    · rw [if_neg hmore]
      obtain rfl : current = target + 1 := by omega
      exact ⟨h, rfl⟩

theorem Delivered.extendTarget
    (h : Delivered start (p.targetHeight + 1) ⟨p, taken⟩) (newTarget : Nat) :
    Delivered start ((p.extendTarget newTarget).targetHeight + 1) ⟨p.extendTarget newTarget, taken⟩ := by
  unfold FiltersPipeline.extendTarget
  by_cases hlow : newTarget ≤ p.targetHeight
  · rw [if_pos hlow]
    exact h
  · rw [if_neg hlow]
    have hstart : Delivered start (p.targetHeight + 1) ⟨{ p with targetHeight := newTarget }, taken⟩ :=
      ⟨h.partition, h.full, h.holds, h.backed, h.keyed⟩
    have hle : p.targetHeight + 1 ≤ newTarget + 1 := by omega
    have hfuel : newTarget + 1 - (p.targetHeight + 1) ≤ newTarget - p.targetHeight := by omega
    obtain ⟨hdeliv, htarget⟩ := hstart.queueBatches hle hfuel
    rw [htarget]
    exact hdeliv

/-! ### Requests -/

/-- Changes of the coordinator that keep the items held. -/
theorem Delivered.coordinator (h : Delivered start stop ⟨p, taken⟩) {c : DownloadCoordinator Nat}
    (hc : c.Holds fun s => p.batchTrackers.contains s = true) :
    Delivered start stop ⟨{ p with coordinator := c }, taken⟩ :=
  ⟨h.partition, h.full, hc, h.backed, h.keyed⟩

/-- The request loop marks or queues again what was taken off the queue, and touches nothing
else. -/
theorem sendLoop_holds {headers : PersistentBlockHeaderStorage blockHash} {now generation : Nat}
    {accepts : Nat → Bool} (haccepts : ∀ n, accepts n = true) {startHeights : List Nat}
    {sent : Nat} {p : FiltersPipeline} (hnodup : startHeights.Nodup)
    (hlive : ∀ s ∈ startHeights, p.batchTrackers.contains s = true)
    (hholds : p.coordinator.Holds fun s => p.batchTrackers.contains s = true ∧ s ∉ startHeights) :
    ∃ c, (sendLoop headers now generation accepts startHeights sent p).1 =
        { p with coordinator := c } ∧
      c.Holds fun s => p.batchTrackers.contains s = true := by
  induction startHeights generalizing sent p with
  | nil => exact ⟨p.coordinator, rfl, hholds.congr (by simp)⟩
  | cons startHeight rest ih =>
    obtain ⟨hnotin, hrest⟩ := List.nodup_cons.mp hnodup
    have hhas := hlive startHeight List.mem_cons_self
    obtain ⟨tracker, htracker⟩ := contains_iff.mp hhas
    have hlive' := fun s hs => hlive s (List.mem_cons_of_mem startHeight hs)
    have hout : ¬ (p.batchTrackers.contains startHeight = true ∧ startHeight ∉ startHeight :: rest) :=
      fun h => h.2 List.mem_cons_self
    -- the batch is held again, in flight or in the queue
    have hagain : ∀ s, (p.batchTrackers.contains s = true ∧ s ∉ rest) ↔
        (p.batchTrackers.contains s = true ∧ s ∉ startHeight :: rest) ∨ s = startHeight := by
      intro s
      by_cases hs : s = startHeight
      · subst hs
        simp [hnotin, hhas]
      · simp [hs]
    have hsent := (hholds.markSentWithGeneration hout now generation).congr hagain
    have hqueued := (hholds.enqueue hout).congr hagain
    rw [sendLoop, htracker]
    dsimp only
    split
    · rw [if_pos (haccepts sent)]
      exact @ih (sent + 1)
        { p with coordinator := p.coordinator.markSentWithGeneration now [startHeight] generation }
        hrest hlive' hsent
    · exact @ih sent { p with coordinator := p.coordinator.enqueue [startHeight] } hrest hlive' hqueued
    · exact @ih sent { p with coordinator := p.coordinator.enqueue [startHeight] } hrest hlive' hqueued

section

variable (h : Delivered start stop ⟨p, taken⟩)
include h

theorem Delivered.sendPending (headers : PersistentBlockHeaderStorage blockHash)
    (now generation : Nat) {accepts : Nat → Bool} (haccepts : ∀ n, accepts n = true) :
    Delivered start stop ⟨(p.sendPending headers now generation accepts).1, taken⟩ ∧
      (p.sendPending headers now generation accepts).1.targetHeight = p.targetHeight := by
  unfold FiltersPipeline.sendPending
  by_cases hnone : p.coordinator.availableToSend = 0
  · simp only [hnone, if_true]
    exact ⟨h, trivial⟩
  · simp only [hnone, if_false]
    obtain ⟨hholds, hnodup, hlive⟩ := h.holds.takePending p.coordinator.availableToSend
    obtain ⟨c, heq, hc⟩ := @sendLoop_holds blockHash headers now generation accepts haccepts _ 0
      { p with coordinator := (p.coordinator.takePending p.coordinator.availableToSend).1 }
      hnodup hlive hholds
    have heq' : (sendLoop headers now generation accepts
        (p.coordinator.takePending p.coordinator.availableToSend).2 0
        { p with coordinator := (p.coordinator.takePending p.coordinator.availableToSend).1 }).1 =
          { p with coordinator := c } := heq
    rw [heq']
    exact ⟨h.coordinator hc, rfl⟩

/-! ### Filters -/

/-- A tracked batch gets a filter. -/
theorem Delivered.insertFilter (hget : p.batchTrackers.get? s = some t) (height : Nat)
    (hash : BlockHash) (filterData : Filter) (received highest : Nat) :
    Delivered start stop
      ⟨{ p with
          batchTrackers := p.batchTrackers.insert s (t.insertFilter height hash filterData)
          filtersReceived := received
          highestReceived := highest }, taken⟩ := by
  refine ⟨h.partition.perm ?_, h.full, h.holds.congr fun k => ?_, ?_, h.keyed⟩
  · -- the batch keeps its range
    have hbefore := (perm_erase hget).map fun e => (e.1, e.2.endHeight + 1)
    have hafter := (perm_erase (show (p.batchTrackers.insert s
      (t.insertFilter height hash filterData)).get? s = some (t.insertFilter height hash filterData)
        by simp)).map fun e => (e.1, e.2.endHeight + 1)
    rw [erase_insert] at hafter
    exact (hbefore.trans hafter.symm).append_right _
  · rw [contains_insert, or_iff_right_iff_imp]
    rintro rfl
    exact contains_iff.mpr ⟨t, hget⟩
  · exact fun {s' t'} => forall_get?_insert (fun _ _ => h.backed)
      ((h.backed hget).insertFilter height hash filterData) s' t'

/-- A complete batch changes hands. -/
theorem Delivered.completeBatch (hget : p.batchTrackers.get? s = some t)
    (hcomplete : t.isComplete s = true) : Delivered start stop ⟨p.completeBatch s t, taken⟩ := by
  -- a completed batch with the same start would overlap the tracked one
  have hnone : p.completedBatches.get? s = none := by
    rcases hdone : p.completedBatches.get? s with _ | b
    · rfl
    · have hmem : b.range ∈ p.completedRanges ++ taken.map range :=
        List.mem_append_left _ (List.mem_map.mpr ⟨b, mem_values_iff.mpr ⟨s, hdone⟩, rfl⟩)
      exact absurd (h.keyed hdone).symm (h.partition.start_ne (mem_liveRanges hget) hmem)
  have hhas : p.completedBatches.contains s = false := by
    rw [contains, hnone]
    rfl
  have hdone : (p.completeBatch s t).completedBatches =
      p.completedBatches.insert s (.new s t.endHeight t.filters) := by
    simp [FiltersPipeline.completeBatch, hhas]
  have hheld : (p.completeBatch s t).coordinator.Holds
      fun k => p.batchTrackers.contains k = true ∧ k ≠ s := by
    show (if (p.coordinator.receive s).2 = true then (p.coordinator.receive s).1
      else (p.coordinator.receive s).1.cancelPending s).Holds _
    by_cases hflight : p.coordinator.isInFlight s = true
    · have hrecv : (p.coordinator.receive s).2 = true := by
        unfold DownloadCoordinator.receive
        rw [if_pos (show p.coordinator.inFlight.contains s = true from hflight)]
      rw [if_pos hrecv]
      exact h.holds.receive hflight
    · have hrecv : p.coordinator.receive s = (p.coordinator, false) := by
        unfold DownloadCoordinator.receive
        rw [if_neg (show ¬ p.coordinator.inFlight.contains s = true from hflight)]
      rw [hrecv]
      exact h.holds.cancelPending hflight
  refine ⟨h.partition.perm ?_, ?_, hheld.congr fun k => ?_, ?_, ?_⟩
  · have hlive := (perm_erase hget).map fun e => (e.1, e.2.endHeight + 1)
    have hnew := (perm_insert hnone (FiltersBatch.new s t.endHeight t.filters)).map
      fun e => e.2.range
    have hvalues : (p.completeBatch s t).completedRanges =
        (p.completedBatches.insert s (.new s t.endHeight t.filters)).entries.map
          fun e => e.2.range := by
      rw [completedRanges, hdone, values, List.map_map]
      rfl
    have hold : p.completedRanges = p.completedBatches.entries.map fun e => e.2.range := by
      rw [completedRanges, values, List.map_map]
      rfl
    -- both sides are the piece that moves, followed by all the others
    show (p.liveRanges ++ (p.completedRanges ++ _)).Perm
      ((p.completeBatch s t).liveRanges ++ ((p.completeBatch s t).completedRanges ++ _))
    rw [hvalues, hold]
    refine (hlive.append_right _).trans ?_
    refine List.Perm.trans ?_ ((hnew.append_right _).append_left _).symm
    exact List.perm_middle.symm
  · intro b hb
    rw [hdone] at hb
    rcases List.mem_append.mp hb with hb | hb
    · rcases mem_values_insert hb with rfl | hb
      · exact (h.backed hget).full hcomplete
      · exact h.full b (List.mem_append_left _ hb)
    · exact h.full b (List.mem_append_right _ hb)
  · show (p.batchTrackers.erase s).contains k = true ↔ _
    rw [contains, contains, get?_erase]
    by_cases hk : s = k
    · simp [hk]
    · simp [hk, Ne.symm hk]
  · exact fun hget' => h.backed (of_get?_erase hget').2
  · intro s' b hget'
    rw [hdone] at hget'
    obtain ⟨rfl, rfl⟩ | ⟨-, hget'⟩ := of_get?_insert hget'
    · rfl
    · exact h.keyed hget'

theorem Delivered.receiveWithData (height : Nat) (hash : BlockHash) (filterData : Filter) :
    Delivered start stop ⟨(p.receiveWithData height hash filterData).1, taken⟩ ∧
      (p.receiveWithData height hash filterData).1.targetHeight = p.targetHeight := by
  unfold FiltersPipeline.receiveWithData
  rcases p.findBatchForHeight height with _ | s
  · exact ⟨h, rfl⟩
  · dsimp only
    rcases hget : p.batchTrackers.get? s with _ | t
    · exact ⟨h, rfl⟩
    · dsimp only
      have hinsert := h.insertFilter hget height hash filterData (p.filtersReceived + 1)
        (max p.highestReceived height)
      have hnow : (p.batchTrackers.insert s (t.insertFilter height hash filterData)).get? s =
          some (t.insertFilter height hash filterData) := by simp
      split_ifs with hcomp
      · exact ⟨hinsert.completeBatch hnow hcomp, rfl⟩
      · exact ⟨hinsert, rfl⟩

theorem Delivered.takeCompletedBatches :
    Delivered start stop ⟨p.takeCompletedBatches.1, taken ++ p.takeCompletedBatches.2.values⟩ := by
  refine ⟨h.partition.perm ?_, fun b hb => h.full b ?_, h.holds, h.backed, ?_⟩
  · show (p.liveRanges ++ (p.completedRanges ++ taken.map range)).Perm
      (p.liveRanges ++ ([] ++ (taken ++ p.completedBatches.values).map range))
    rw [List.map_append, List.nil_append]
    exact List.perm_append_comm.append_left _
  · exact List.perm_append_comm.mem_iff.mp hb
  · intro s b hget
    cases hget

end

/-! ### Runs -/

/-- The request channel is open. -/
def ChannelOpen {blockHash : Header → BlockHash} : Op blockHash → Prop
  | .sendPending _ _ _ accepts => ∀ n, accepts n = true
  | _ => True

/-- One operation loses and doubles nothing. -/
theorem Delivered.step (h : Delivered start (d.pipeline.targetHeight + 1) d) (op : Op blockHash)
    (hop : ChannelOpen op) :
    Delivered start ((d.step op).pipeline.targetHeight + 1) (d.step op) := by
  obtain ⟨p, taken⟩ := d
  cases op with
  | extendTarget newTarget => exact h.extendTarget newTarget
  | sendPending headers now generation accepts =>
    obtain ⟨hdeliv, htarget⟩ := h.sendPending headers now generation hop
    show Delivered start ((p.sendPending headers now generation accepts).1.targetHeight + 1) _
    rw [htarget]
    exact hdeliv
  | receiveWithData height hash filterData =>
    obtain ⟨hdeliv, htarget⟩ := h.receiveWithData height hash filterData
    show Delivered start ((p.receiveWithData height hash filterData).1.targetHeight + 1) _
    rw [htarget]
    exact hdeliv
  | handleTimeouts now => exact h.coordinator (h.holds.checkAndRetryTimeouts now)
  | requeueInFlight => exact h.coordinator h.holds.requeueInFlight
  | takeCompletedBatches => exact h.takeCompletedBatches

namespace RefusedRequest

open SparseBlocks

/-- Block headers up to height 2. -/
def headers : PersistentBlockHeaderStorage nonceHash :=
  PersistentBlockHeaderStorage.storeHashedHeaders ⟨.empty, ∅⟩
    [headerAfter 0 1, headerAfter 1 2, headerAfter 2 3]

end RefusedRequest

end FiltersDelivery

end Dashcore
