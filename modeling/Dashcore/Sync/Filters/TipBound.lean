import Dashcore.Lib.Runs
import Dashcore.Sync.Filters.Downloads

/-!
# Planning within the filter headers

The filters manager plans its downloads and batches up to the filter-header tip that it last
heard of. The value it keeps only grows. A reorg cuts the filter-header store, and handling the
reorg resets all heights but this one: from then on the manager plans for heights that have no
filter header. It stays within the filter headers in exactly the runs whose reorgs do not fork
below the tip it has heard of.
-/

namespace Dashcore

open FiltersProgress SegmentStore

namespace FiltersManager

open FiltersPipeline

variable {blockHash : Header → BlockHash} {scheme : FilterScheme} {arrives : Filter → Prop}
  {starts : Prop} {m m' : FiltersManager blockHash}

/-- The last height of the filter-header store; 0 also for an empty store. -/
def storedFilterHeaderTip (m : FiltersManager blockHash) : Nat :=
  m.filterHeaderStorage.cache.tipHeight.getD 0

/-- The known tip of the filter headers and the end of every batch that is requested,
downloaded or in processing are at most the tip of the store. -/
structure WithinTip (m : FiltersManager blockHash) : Prop where
  known : m.progress.filterHeaderTipHeight ≤ m.storedFilterHeaderTip
  requested : ∀ start tracker, m.filterPipeline.batchTrackers.get? start = some tracker →
    tracker.endHeight ≤ m.storedFilterHeaderTip
  completed : ∀ start batch, m.filterPipeline.completedBatches.get? start = some batch →
    batch.endHeight ≤ m.storedFilterHeaderTip
  pending : ∀ start batch, m.pendingBatches.get? start = some batch →
    batch.endHeight ≤ m.storedFilterHeaderTip
  active : ∀ start batch, m.activeBatches.get? start = some batch →
    batch.endHeight ≤ m.storedFilterHeaderTip

/-- A tracker ends by a height, and has no filter beyond its end. -/
def EndsBy (limit : Nat) (_start : Nat) (tracker : BatchTracker) : Prop :=
  tracker.endHeight ≤ limit ∧
    ∀ key filter, tracker.filters.get? key = some filter → key.height ≤ tracker.endHeight

theorem endsBy_new {limit start stop : Nat} (h : stop ≤ limit) :
    EndsBy limit start (.new stop) :=
  ⟨h, fun _ _ hget => by simp [BatchTracker.new] at hget⟩

theorem EndsBy.insertFilter {limit start : Nat} {tracker : BatchTracker}
    (h : EndsBy limit start tracker) {height : Nat} (hheight : height ≤ tracker.endHeight)
    (hash : BlockHash) (filter : Filter) :
    EndsBy limit start (tracker.insertFilter height hash filter) :=
  ⟨h.1, SortedMap.forall_get?_insert h.2 hheight⟩

/-- What keeps the manager within the filter headers: everything planned ends by the known tip,
which is within the store, as are the stored filters. -/
structure Planned (m : FiltersManager blockHash) : Prop where
  known : m.progress.filterHeaderTipHeight ≤ m.storedFilterHeaderTip
  stored : m.filterTipHeight ≤ m.storedFilterHeaderTip
  downloads : Downloads (EndsBy m.progress.filterHeaderTipHeight) m
  active : ∀ start batch, m.activeBatches.get? start = some batch →
    batch.endHeight ≤ m.progress.filterHeaderTipHeight

theorem Planned.withinTip (h : m.Planned) : m.WithinTip where
  known := h.known
  requested start tracker hget := (h.downloads.pipeline.tracked start tracker hget).1.trans h.known
  completed start batch hget := by
    obtain ⟨tracker, htracker, -, rfl⟩ := h.downloads.pipeline.completed start batch hget
    exact htracker.1.trans h.known
  pending start batch hget := by
    obtain ⟨tracker, htracker, -, rfl⟩ := h.downloads.pending start batch hget
    exact htracker.1.trans h.known
  active start batch hget := (h.active start batch hget).trans h.known

/-! ### Moves -/

/-- Filters are stored no higher than their batch ends. -/
theorem tip_storeFilters {limit : Nat} {filters : FilterMap}
    (hkeys : ∀ key filter, filters.get? key = some filter → key.height ≤ limit)
    {store : SegmentStore ([] : Filter)} (hstore : store.cache.tipHeight.getD 0 ≤ limit) :
    (storeFilters store filters).cache.tipHeight.getD 0 ≤ limit := by
  unfold storeFilters
  have hentries : ∀ e ∈ filters.entries, e.1.height ≤ limit :=
    fun e he => hkeys e.1 e.2 (SortedMap.mem_entries_iff.mp he)
  generalize filters.entries = entries at hentries
  induction entries generalizing store with
  | nil => exact hstore
  | cons e rest ih =>
    obtain ⟨he, hrest⟩ := List.forall_mem_cons.mp hentries
    refine ih ?_ hrest
    have htip : (store.storeItemsAtHeight [e.2] e.1.height).content.tip =
        some (store.cache.tipHeight.elim e.1.height (max · e.1.height)) := by
      rw [storeItemsAtHeight, content, store.wf.consistent.storeItemsAtHeight_content]
      rfl
    have hcache : (store.storeItemsAtHeight [e.2] e.1.height).cache.tipHeight =
        some (store.cache.tipHeight.elim e.1.height (max · e.1.height)) := htip
    rw [hcache, Option.getD_some]
    cases hold : store.cache.tipHeight with
    | none => exact he
    | some tip =>
      rw [hold] at hstore
      exact max_le hstore he

namespace Planned

/-- Everything planned ends by a limit, which the known tip reaches. -/
theorem of_limit {limit : Nat} (hdownloads : Downloads (EndsBy limit) m)
    (hlimit : limit ≤ m.progress.filterHeaderTipHeight)
    (hknown : m.progress.filterHeaderTipHeight ≤ m.storedFilterHeaderTip)
    (hstored : m.filterTipHeight ≤ m.storedFilterHeaderTip)
    (hactive : ∀ start batch, m.activeBatches.get? start = some batch →
      batch.endHeight ≤ limit) : m.Planned where
  known := hknown
  stored := hstored
  downloads := hdownloads.mono fun _ _ htracker => ⟨htracker.1.trans hlimit, htracker.2⟩
  active start batch hget := (hactive start batch hget).trans hlimit

theorem of_sameRest (h : m.Planned) (hrest : SameRest m m') (hcontent : SameContent m m') :
    m'.Planned := by
  have hdown := h.downloads.of_sameRest hrest
  rw [SameRest] at hrest
  rw [hrest] at hdown ⊢
  refine of_limit hdown le_rfl h.known h.stored fun start batch hget => ?_
  obtain ⟨old, hold, hsame⟩ := hcontent.of_get? hget
  have hend : old.endHeight = batch.endHeight := congrArg (fun c => c.2.1) hsame
  exact hend ▸ h.active start old hold

theorem of_matched (h : m.Planned) (hmatched : Matched m m') : m'.Planned :=
  h.of_sameRest hmatched.sameRest hmatched.sameScans.sameContent

/-- Opening a batch that ends by the known tip. -/
theorem openBatch (h : m.Planned) {startHeight endHeight : Nat}
    (hend : endHeight ≤ m.progress.filterHeaderTipHeight) (filters : FilterMap) (verified : Bool) :
    (m.openBatch startHeight endHeight filters verified).Planned := by
  refine ⟨h.known, h.stored, ⟨h.downloads.pipeline, h.downloads.pending⟩, fun k batch hget => ?_⟩
  obtain ⟨opened, hopened, -, hopenedEnd, -⟩ :=
    m.openBatch_activeBatches startHeight endHeight filters verified
  obtain ⟨-, rfl⟩ | ⟨-, hold⟩ := SortedMap.of_get?_insert (hopened ▸ hget)
  · exact hopenedEnd.trans_le hend
  · exact h.active k batch hold

/-- Every move stays within the plan. -/
theorem move (hmove : Move scheme arrives starts m m') (h : m.Planned) : m'.Planned := by
  have hdown : Downloads (EndsBy m.progress.filterHeaderTipHeight) m' :=
    h.downloads.move hmove (fun _ _ _ hstop => endsBy_new hstop)
      (fun _ _ _ hash filter htracker _ _ hheight => htracker.insertFilter hheight hash filter)
  cases hmove with
  | scan hget hnew hready => exact h.of_sameRest (sameRest_scanBatch _ _) (sameContent_scanBatch _ _)
  | rescan hfirst hget hscanned hpend hopen =>
    exact h.of_matched (matched_rescanForCommit hget hopen)
  | commit hfirst hget hscanned hpend hcomp =>
    obtain ⟨committedHeight, hprog⟩ := m.commitBatch_progress _ _
    have htip := congrArg filterHeaderTipHeight hprog
    exact of_limit hdown htip.ge (htip.trans_le h.known) h.stored fun k batch hk =>
      h.active k batch (of_get?_commitBatch hk).2
  | lookahead htip hload => exact h.openBatch (Nat.min_le_right _ _) _ _
  | collect | discard | receive | send | timeouts | disconnect | extend | setState | init | begin =>
    exact of_limit hdown le_rfl h.known h.stored h.active
  | @store m' start batch events hget hnext hverify =>
    obtain ⟨tracker, htracker, -, hbatch⟩ := h.downloads.pending start batch hget
    have hkeys : ∀ key filter, batch.filters.get? key = some filter →
        key.height ≤ m.storedFilterHeaderTip := by
      intro key filter hkey
      rw [hbatch] at hkey
      exact (htracker.2 key filter hkey).trans (htracker.1.trans h.known)
    have hstored : m'.filterTipHeight ≤ m.storedFilterHeaderTip := by
      obtain ⟨-, heq⟩ | ⟨-, heq⟩ := verifyAndStore_cases hverify
      · rw [heq]
        exact h.stored
      · rw [heq]
        exact tip_storeFilters hkeys h.stored
    rw [verifyAndStore_eq hverify] at hdown ⊢
    refine of_limit hdown le_rfl h.known hstored fun k active' hk => ?_
    rw [acceptBatch_get?] at hk
    obtain ⟨active, hactive, rfl⟩ := Option.map_eq_some_iff.mp hk
    exact h.active k active hactive
  | processed hash height wallets newAddresses =>
    exact h.of_matched (matched_finishBlock m hash height wallets newAddresses)
  | reset hstarts height =>
    exact of_limit hdown le_rfl h.known h.stored fun _ _ hget => by cases hget
  | storedTip hstarts =>
    have hgrows : m.progress.filterHeaderTipHeight ≤
        m.takeStoredTip.progress.filterHeaderTipHeight ∧
        m.takeStoredTip.progress.filterHeaderTipHeight ≤ m.storedFilterHeaderTip := by
      have hknown := h.known
      have hstored := h.stored
      unfold takeStoredTip updateFilterHeaderTipHeight
      split_ifs <;> dsimp only <;> omega
    exact of_limit hdown hgrows.1 hgrows.2 h.stored h.active
  | noteStored hstarts scanStart hidle =>
    unfold FiltersManager.noteStored at hdown ⊢
    split_ifs at hdown ⊢
    · exact of_limit hdown le_rfl h.known h.stored h.active
    · exact h
  | @first scanStart filters hstarts hidle htip hload =>
    have hopen : (m.openBatch scanStart (m.firstBatchEnd scanStart) filters
        (m.firstBatchEnd scanStart ≤ m.filterTipHeight)).Planned :=
      h.openBatch (Nat.min_le_right _ _) filters _
    exact of_limit hdown le_rfl h.known h.stored hopen.active
  | reorg hstarts forkHeight =>
    obtain ⟨wallet, floor, -, heq⟩ := m.handleChainReorg_eq forkHeight
    rw [heq] at hdown ⊢
    exact of_limit hdown le_rfl h.known h.stored fun _ _ hget => by cases hget

end Planned

/-! ### Runs -/

/-- Events carry the tip of the filter-header store, other managers only append to it, and a
cascade cuts all stores. -/
def TipEvent (m : FiltersManager blockHash) : Action blockHash → Prop
  | .syncEvent (.filterHeadersSyncComplete tipHeight) _ _
  | .syncEvent (.filterHeadersStored _ _ tipHeight) _ _ =>
    m.filterHeaderStorage.cache.tipHeight = some tipHeight
  | .stores _ filterHeaderStorage =>
    m.storedFilterHeaderTip ≤ filterHeaderStorage.cache.tipHeight.getD 0
  | .cascade candidate => m.Accepts candidate
  | _ => True

/-- A reorg does not fork below the filter-header tip that the manager knows. -/
def ForksAbove (m : FiltersManager blockHash) : Action blockHash → Prop
  | .cascade candidate => m.progress.filterHeaderTipHeight ≤ candidate.ancestorHeight
  | _ => True

/-- A cut leaves the lower of the tip and the fork. -/
theorem storedFilterHeaderTip_cascade {candidate : ForkCandidate} (h : m.Accepts candidate) :
    (m.cascade candidate).storedFilterHeaderTip =
      min candidate.ancestorHeight m.storedFilterHeaderTip ∧
    (m.cascade candidate).filterTipHeight = min candidate.ancestorHeight m.filterTipHeight := by
  obtain ⟨hhdrs, hfilt⟩ := cascade_content h
  have htip : (m.cascade candidate).filterHeaderStorage.cache.tipHeight =
      m.filterHeaderStorage.cache.tipHeight.map (min candidate.ancestorHeight) :=
    congrArg HeightMap.tip hhdrs
  have htip' : (m.cascade candidate).filterStorage.cache.tipHeight =
      m.filterStorage.cache.tipHeight.map (min candidate.ancestorHeight) :=
    congrArg HeightMap.tip hfilt
  rw [storedFilterHeaderTip, storedFilterHeaderTip, filterTipHeight, filterTipHeight, htip, htip']
  constructor
  · cases m.filterHeaderStorage.cache.tipHeight <;> simp
  · cases m.filterStorage.cache.tipHeight <;> simp

theorem Planned.updateTips (h : m.Planned) {tipHeight : Nat}
    (htip : m.filterHeaderStorage.cache.tipHeight = some tipHeight) :
    (m.updateTips tipHeight).Planned := by
  have hstore : m.storedFilterHeaderTip = tipHeight := by
    rw [storedFilterHeaderTip, htip, Option.getD_some]
  have hgrows : m.progress.filterHeaderTipHeight ≤
      (m.updateTips tipHeight).progress.filterHeaderTipHeight ∧
      (m.updateTips tipHeight).progress.filterHeaderTipHeight ≤ m.storedFilterHeaderTip := by
    have hknown := h.known
    unfold FiltersManager.updateTips updateTargetHeight
      updateFilterHeaderTipHeight
    split_ifs <;> dsimp only <;> omega
  have hdown : Downloads (EndsBy m.progress.filterHeaderTipHeight) (m.updateTips tipHeight) :=
    ⟨h.downloads.pipeline, h.downloads.pending⟩
  exact .of_limit hdown hgrows.1 hgrows.2 h.stored h.active

variable {a : Action blockHash}

theorem Planned.step (h : m.Planned) (hevent : m.TipEvent a)
    (hfork : m.ForksAbove a) : (m.step scheme a).Planned := by
  refine (step_moves m a).keep (fun _ _ hmove => Planned.move hmove) ?_
  unfold arrive
  split
  case h_1 tipHeight _ _ => exact h.updateTips hevent
  case h_2 tipHeight _ _ => exact h.updateTips hevent
  case h_3 bestHeight _ _ =>
    obtain ⟨targetHeight, heq⟩ := m.updateBestHeight_eq bestHeight
    rw [heq]
    exact ⟨h.known, h.stored, ⟨h.downloads.pipeline, h.downloads.pending⟩, h.active⟩
  case h_4 headerStorage filterHeaderStorage =>
    exact ⟨h.known.trans hevent, h.stored.trans hevent,
      ⟨h.downloads.pipeline, h.downloads.pending⟩, h.active⟩
  case h_5 candidate =>
    obtain ⟨hhdrs, hfilt⟩ := storedFilterHeaderTip_cascade hevent
    refine ⟨?_, ?_, ⟨h.downloads.pipeline, h.downloads.pending⟩, h.active⟩
    · rw [hhdrs]
      exact le_min hfork h.known
    · rw [hhdrs, hfilt]
      exact min_le_min le_rfl h.stored
  case h_6 wallet =>
    exact ⟨h.known, h.stored, ⟨h.downloads.pipeline, h.downloads.pending⟩, h.active⟩
  case h_7 => exact h

/-- A step that stays within the filter headers does not fork below the known tip. -/
theorem forksAbove_of_withinTip (hevent : m.TipEvent a)
    (h : (m.step scheme a).WithinTip) : m.ForksAbove a := by
  cases a with
  | cascade candidate =>
    have hknown : m.progress.filterHeaderTipHeight ≤ (m.cascade candidate).storedFilterHeaderTip :=
      h.known
    rw [(storedFilterHeaderTip_cascade hevent).1] at hknown
    exact hknown.trans (min_le_left _ _)
  | _ => trivial

/-- From stores whose filters are within the filter headers, in a run whose events carry the
tip of the store: the manager stays within the filter headers in every state exactly if no
reorg forks below the tip it knows. -/
theorem run_withinTip_iff (scheme : FilterScheme)
    (headerStorage : PersistentBlockHeaderStorage blockHash)
    (filterHeaderStorage : SegmentStore (0 : FilterHeader))
    (filterStorage : SegmentStore ([] : Filter))
    (hstores : filterStorage.cache.tipHeight.getD 0 ≤ filterHeaderStorage.cache.tipHeight.getD 0)
    (wallet : WalletSet) (reorgGeneration : Nat) (actions : List (Action blockHash))
    (hevents : Runs.Along (step scheme) TipEvent
      (new headerStorage filterHeaderStorage filterStorage wallet reorgGeneration) actions) :
    (∀ k, (Runs.run (step scheme)
      (new headerStorage filterHeaderStorage filterStorage wallet reorgGeneration)
      (actions.take k)).WithinTip) ↔
    Runs.Along (step scheme) ForksAbove
      (new headerStorage filterHeaderStorage filterStorage wallet reorgGeneration) actions :=
  @Runs.forall_take_iff_along_of_valid _ _ (step scheme) Planned WithinTip TipEvent ForksAbove
    (fun _ hm => hm.withinTip) (fun _ _ hm hevent hfork => Planned.step hm hevent hfork)
    (fun _ _ _ hevent hwithin => forksAbove_of_withinTip hevent hwithin)
    _ _ ⟨le_rfl, hstores, .of_empty rfl rfl, fun _ _ hget => by simp [new] at hget⟩ hevents

namespace CutTip

open SparseBlocks

/-- Filters that hash to zero and match nothing. -/
def zeroScheme : FilterScheme where
  filterHash := fun _ => 0
  filterHeader := fun _ _ => 0
  matchAny := fun _ _ _ => false

/-- Headers and filter headers at heights 0 to 3, and no filters. -/
def start : FiltersManager nonceHash :=
  new (PersistentBlockHeaderStorage.storeHashedHeaders ⟨.empty, ∅⟩
      [headerAfter 0 1, headerAfter 1 2, headerAfter 2 3, headerAfter 3 4])
    (empty.storeItems [11, 12, 13, 14]) .empty ∅ 0

/-- A fork of a block. -/
def forkAt (ancestorHeight : Nat) : ForkCandidate where
  ancestorHeight
  headers := [headerAfter 2 13, headerAfter 13 14]
  totalWork := 4
  nonempty := nofun

/-- A fork of the last block is reported. -/
def shallow : List (Action nonceHash) :=
  [.cascade (forkAt 3), .syncEvent (.chainReorg 3 4 14 1) 0 fun _ => true]

/-- A reorg at height 1 and the first filter header of the fork. -/
def deep : List (Action nonceHash) :=
  [.cascade (forkAt 1),
    .syncEvent (.chainReorg 1 4 14 1) 0 fun _ => true,
    .stores (Runs.run (step zeroScheme) start [.cascade (forkAt 1)]).headerStorage
      (empty.storeItems [11, 12, 23]),
    .syncEvent (.filterHeadersStored 2 2 2) 0 fun _ => true]

/-- A reorg that forks at the known tip leaves the manager within the filter headers. -/
theorem run_withinTip_shallow :
    Runs.Along (step zeroScheme) TipEvent start shallow ∧
    ∀ k, (Runs.run (step zeroScheme) start (shallow.take k)).WithinTip := by
  have hevents : Runs.Along (step zeroScheme) TipEvent start shallow := by
    refine ⟨⟨?_, ?_, ?_⟩, trivial, trivial⟩ <;> decide +kernel
  refine ⟨hevents, (run_withinTip_iff zeroScheme _ _ .empty ?_ ∅ 0 shallow hevents).mpr
    ⟨?_, trivial, trivial⟩⟩
  · decide +kernel
  · show start.progress.filterHeaderTipHeight ≤ 3
    decide +kernel

/-- After a reorg from height 3 to 1 the manager still takes 3 for the tip of the filter
headers. At the next filter header it opens a batch up to height 3, with filter headers stored
up to 2. -/
theorem deep_reorg_beyond_tip :
    Runs.Along (step zeroScheme) TipEvent start deep ∧
    (Runs.run (step zeroScheme) start deep).progress.filterHeaderTipHeight = 3 ∧
    (Runs.run (step zeroScheme) start deep).storedFilterHeaderTip = 2 ∧
    ((Runs.run (step zeroScheme) start deep).activeBatches.get? 0).map FiltersBatch.endHeight =
      some 3 ∧
    ¬ (Runs.run (step zeroScheme) start deep).WithinTip := by
  have hknown : (Runs.run (step zeroScheme) start deep).progress.filterHeaderTipHeight = 3 := by
    decide +kernel
  have hstore : (Runs.run (step zeroScheme) start deep).storedFilterHeaderTip = 2 := by
    decide +kernel
  refine ⟨⟨⟨?_, ?_, ?_⟩, trivial, ?_, ?_, trivial⟩, hknown, hstore, ?_, fun h => ?_⟩
  · decide +kernel
  · decide +kernel
  · decide +kernel
  · show _ ≤ _
    decide +kernel
  · show _ = _
    decide +kernel
  · decide +kernel
  · have hle := h.known
    rw [hknown, hstore] at hle
    omega

end CutTip

end FiltersManager

end Dashcore
