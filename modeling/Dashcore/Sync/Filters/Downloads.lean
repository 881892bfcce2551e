import Dashcore.Sync.Filters.Moves

/-!
# Batches on their way

Downloaded batches go from the pipeline to the pending batches and from there into the store.
A property of trackers that new ones have and that survives the arrival of filters holds along
the whole way.
-/

namespace Dashcore

namespace FiltersManager

open FiltersPipeline

variable {blockHash : Header → BlockHash} {scheme : FilterScheme} {arrives : Filter → Prop}
  {starts : Prop} {T : Nat → BatchTracker → Prop} {m m' : FiltersManager blockHash}

/-- The trackers of the pipeline have a property, and the completed and pending batches come
from trackers that have it. -/
structure Downloads (T : Nat → BatchTracker → Prop) (m : FiltersManager blockHash) : Prop where
  pipeline : EachBatch T m.filterPipeline
  pending : ∀ start batch, m.pendingBatches.get? start = some batch → CompletedFrom T start batch

namespace Downloads

theorem of_empty (hpipeline : m.filterPipeline = .new) (hpending : m.pendingBatches = ∅) :
    Downloads T m where
  pipeline := hpipeline ▸ eachBatch_new
  pending start batch hget := by simp [hpending] at hget

section

variable (h : Downloads T m)
include h

theorem mono {T' : Nat → BatchTracker → Prop}
    (hT : ∀ start tracker, T start tracker → T' start tracker) : Downloads T' m where
  pipeline := h.pipeline.mono hT
  pending start batch hget := by
    obtain ⟨tracker, htracker, hcomp, heq⟩ := h.pending start batch hget
    exact ⟨tracker, hT start tracker htracker, hcomp, heq⟩

/-- Collected batches were completed in the pipeline. -/
theorem collectCompleted : Downloads T m.collectCompleted := by
  refine ⟨⟨h.pipeline.tracked, fun _ _ hget => by simp [FiltersManager.collectCompleted,
    takeCompletedBatches] at hget⟩, ?_⟩
  have hcompleted : ∀ e ∈ m.filterPipeline.completedBatches.entries, CompletedFrom T e.1 e.2 :=
    fun e he => h.pipeline.completed e.1 e.2 (SortedMap.mem_entries_iff.mp he)
  have hpend := h.pending
  unfold FiltersManager.collectCompleted takeCompletedBatches
  dsimp only
  generalize m.filterPipeline.completedBatches.entries = entries at hcompleted
  generalize m.pendingBatches = pending at hpend
  induction entries generalizing pending with
  | nil => exact hpend
  | cons e rest ih =>
    obtain ⟨he, hrest⟩ := List.forall_mem_cons.mp hcompleted
    refine ih hrest _ ?_
    intro start batch hget
    dsimp only at hget
    split_ifs at hget
    · exact hpend start batch hget
    · exact SortedMap.forall_get?_insert hpend he start batch hget

theorem erase (start : Nat) :
    Downloads T { m with pendingBatches := m.pendingBatches.erase start } :=
  ⟨h.pipeline, fun other batch hget => h.pending other batch (SortedMap.of_get?_erase hget).2⟩

theorem of_sameRest (hrest : SameRest m m') : Downloads T m' := by
  rw [hrest]
  exact ⟨h.pipeline, h.pending⟩

end

/-- A move keeps the property if new trackers up to the tip of the filter headers have it and
it survives the filters that may arrive. -/
theorem move (hmove : Move scheme arrives starts m m')
    (hnew : ∀ start stop, start ≤ stop → stop ≤ m.progress.filterHeaderTipHeight →
      T start (.new stop))
    (hinsert : ∀ start tracker height hash filter, T start tracker → arrives filter →
      start ≤ height → height ≤ tracker.endHeight →
        T start (tracker.insertFilter height hash filter))
    (h : Downloads T m) : Downloads T m' := by
  cases hmove with
  | scan hget hnew hready => exact h.of_sameRest (sameRest_scanBatch _ _)
  | rescan hfirst hget hscanned hpend hopen =>
    exact h.of_sameRest (matched_rescanForCommit hget hopen).sameRest
  | commit | lookahead | setState | storedTip | begin | first => exact ⟨h.pipeline, h.pending⟩
  | collect => exact h.collectCompleted
  | discard start => exact h.erase start
  | @store _ start _ _ hget hnext hverify =>
    rw [verifyAndStore_eq hverify]
    exact ⟨h.pipeline, (h.erase start).pending⟩
  | receive hfilter hheight =>
    refine ⟨h.pipeline.receiveWithData ?_, h.pending⟩
    exact fun start tracker htracker => hinsert start tracker _ _ _ htracker hfilter
  | send now accepts => exact ⟨h.pipeline.sendPending _ _ _ _, h.pending⟩
  | timeouts | disconnect => exact ⟨⟨h.pipeline.tracked, h.pipeline.completed⟩, h.pending⟩
  | extend htarget =>
    refine ⟨h.pipeline.extendTarget ?_, h.pending⟩
    exact fun start stop hle hstop => hnew start stop hle (hstop.trans htarget)
  | processed hash height wallets newAddresses =>
    exact h.of_sameRest (matched_finishBlock m hash height wallets newAddresses).sameRest
  | reset hstarts height => exact .of_empty rfl rfl
  | init hstarts hidle hrange =>
    refine ⟨EachBatch.init _ ?_, h.pending⟩
    intro hle start stop hstart hstop
    refine hnew start stop hstart ?_
    omega
  | noteStored hstarts scanStart hidle =>
    unfold FiltersManager.noteStored
    split_ifs
    · exact ⟨h.pipeline, h.pending⟩
    · exact h
  | reorg hstarts forkHeight =>
    exact .of_empty rfl rfl

end Downloads

end FiltersManager

end Dashcore
