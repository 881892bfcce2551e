import Dashcore.Sync.Filters.Accounting
import Dashcore.Sync.Filters.Genuine

/-!
# Scans of genuine filters

A batch is scanned when the stored height has reached its end. That its filters are there then,
all of them and genuine, rests on how the heights of the manager fit the filter store: where
scans start, where the next batch starts, where the next download is stored and how far filters
are stored. Processing keeps the fit. Starting over does not establish it: the scan starts
where the lowest wallet needs it, but the download above the last stored filter, so that what
is missing in between reads as filters without content.
-/

namespace Dashcore

open SortedMap FiltersProgress Option

variable {blockHash : Header → BlockHash}

/-- The genuine filters of a range were there when a batch was scanned. -/
def ScanRecord.Covers (scheme : FilterScheme) (scan : ScanRecord blockHash) (lo hi : Nat) : Prop :=
  ∀ h, lo ≤ h → h ≤ hi → Loaded scheme scan.filterHeaderStorage scan.filterStorage scan.filters h

/-- A committed batch was scanned with the genuine filters of all its heights. -/
def FiltersCommit.Real (scheme : FilterScheme) (c : FiltersCommit blockHash) : Prop :=
  ∃ scan, c.scan = some scan ∧ scan.Covers scheme c.batch.startHeight c.batch.endHeight

namespace FiltersManager

open FiltersPipeline

variable {scheme : FilterScheme} {arrives : Filter → Prop} {m m' : FiltersManager blockHash}
  {now : Nat} {accepts : Nat → Bool}
  {start : Nat} {batch : FiltersBatch}

/-- Stored filters are genuine, and the committed batches were real. -/
structure Stored (scheme : FilterScheme) (m : FiltersManager blockHash) : Prop where
  genuine : ∀ h, Held m.filterStorage h →
    Genuine scheme m.filterHeaderStorage m.filterStorage h (m.filterStorage.content.slot h)
  commits : ∀ c ∈ m.history.commits, c.Real scheme

/-- Nothing is stored and height 0 is still to be downloaded: the stored height 0 says that it
is there. -/
def AwaitsGenesis (m : FiltersManager blockHash) (batch : FiltersBatch) (h : Nat) : Prop :=
  h = 0 ∧ m.nextBatchToStore = 0 ∧ m.progress.storedHeight = 0 ∧ 0 < batch.endHeight

/-- The batches in processing fit the store: scanned ones had their filters, and all have those
up to the stored height. The next download to be stored follows the stored height, or lies
below everything in processing. -/
structure Prepared (scheme : FilterScheme) (m : FiltersManager blockHash) : Prop where
  downloads : Downloads Filled m
  scanned : ∀ start batch, m.activeBatches.get? start = some batch → batch.scanned = true →
    ∃ scan, m.history.scans start = some scan ∧
      scan.Covers scheme batch.startHeight batch.endHeight
  loaded : ∀ start batch, m.activeBatches.get? start = some batch → ∀ h, start ≤ h →
    h ≤ batch.endHeight → h ≤ m.progress.storedHeight →
      Loaded scheme m.filterHeaderStorage m.filterStorage batch.filters h ∨ m.AwaitsGenesis batch h
  order : m.nextBatchToStore ≤ m.progress.storedHeight + 1 ∨
    (∀ start batch, m.activeBatches.get? start = some batch → m.nextBatchToStore ≤ start) ∧
      m.nextBatchToStore ≤ m.processingHeight

/-- Filters are stored from the next batch on up to the stored height. -/
def Ahead (m : FiltersManager blockHash) : Prop :=
  ∀ h, m.nextBatchStart ≤ h → h ≤ m.progress.storedHeight → Held m.filterStorage h

instance (m : FiltersManager blockHash) : Decidable m.Ahead :=
  Nat.decidableLoHiLe _ _ _

/-- What holds between two actions. -/
structure Safe (scheme : FilterScheme) (m : FiltersManager blockHash) : Prop where
  accounted : m.Accounted
  stored : m.Stored scheme
  prepared : m.Prepared scheme

/-- Everything that processing relies on. -/
structure Sound (scheme : FilterScheme) (m : FiltersManager blockHash) : Prop
    extends m.Safe scheme where
  ahead : m.Ahead

/-! ### Where the next batch starts -/

/-- The next batch starts at the same height when the batches end where they did. -/
theorem nextBatchStart_congr (h : ∀ k, (m'.activeBatches.get? k).map FiltersBatch.endHeight =
      (m.activeBatches.get? k).map FiltersBatch.endHeight)
    (hheight : m'.processingHeight = m.processingHeight) :
    m'.nextBatchStart = m.nextBatchStart := by
  obtain ⟨hnone, hnext⟩ | ⟨start, batch, hget, hmax, hnext⟩ := m.nextBatchStart_cases
  · rw [hnext, ← hheight]
    refine nextBatchStart_of_none fun k => ?_
    simpa [hnone k] using h k
  · -- both maps have the same last batch
    have hlast := h start
    rw [hget, map_some] at hlast
    obtain ⟨batch', hget', hsame⟩ := map_eq_some_iff.mp hlast
    rw [hnext, ← hsame]
    refine nextBatchStart_of_last hget' fun k b hk => ?_
    have hkept := h k
    rw [hk, map_some] at hkept
    obtain ⟨old, hold, -⟩ := map_eq_some_iff.mp hkept.symm
    exact hmax k old hold

theorem SameContent.ends (h : SameContent m m') (k : Nat) :
    (m'.activeBatches.get? k).map FiltersBatch.endHeight =
      (m.activeBatches.get? k).map FiltersBatch.endHeight := by
  have hk := congrArg (Option.map fun c => c.2.1) (h k)
  rw [map_map, map_map] at hk
  exact hk

/-- Opening a batch above all others moves the start of the next one behind it. -/
theorem nextBatchStart_openBatch {startHeight endHeight : Nat}
    (habove : ∀ start batch, m.activeBatches.get? start = some batch → start < startHeight)
    (filters : FilterMap) (verified : Bool) :
    (m.openBatch startHeight endHeight filters verified).nextBatchStart = endHeight + 1 := by
  obtain ⟨opened, hopened, -, hend, -⟩ :=
    m.openBatch_activeBatches startHeight endHeight filters verified
  refine (nextBatchStart_of_last (hopened ▸ get?_insert_self) fun k batch hget =>
    ?_).trans (by rw [hend])
  obtain ⟨rfl, -⟩ | ⟨-, hold⟩ := of_get?_insert (hopened ▸ hget)
  · exact le_rfl
  · exact (habove k batch hold).le

/-- A commit leaves the start of the next batch where it is. -/
theorem nextBatchStart_commitBatch (hfirst : m.activeBatches.keys.head? = some start)
    (hget : m.activeBatches.get? start = some batch) :
    (m.commitBatch start batch).nextBatchStart = m.nextBatchStart := by
  have herase : ∀ k, (m.commitBatch start batch).activeBatches.get? k =
      if start = k then none else m.activeBatches.get? k := by
    intro k
    rw [commitBatch, get?_erase]
  obtain ⟨hnone, -⟩ | ⟨last, lastBatch, hlast, hmax, hnext⟩ := m.nextBatchStart_cases
  · simp [hnone start] at hget
  rw [hnext]
  by_cases honly : start = last
  · subst honly
    obtain rfl := mem_unique hget hlast
    refine nextBatchStart_of_none fun k => ?_
    rw [herase]
    split_ifs with hne
    · rfl
    -- the committed batch is the first and the last
    · refine eq_none_iff_forall_ne_some.mpr fun other hother => hne ?_
      exact le_antisymm (le_of_keys_head? hfirst hother) (hmax k other hother)
  · refine nextBatchStart_of_last ((herase last).trans ((if_neg honly).trans hlast)) ?_
    exact fun k other hother => hmax k other (of_get?_commitBatch hother).2

/-! ### Processing -/

theorem Stored.congr (h : m.Stored scheme) (hfilters : m'.filterStorage = m.filterStorage)
    (hheaders : m'.filterHeaderStorage = m.filterHeaderStorage)
    (hcommits : m'.history.commits = m.history.commits) : m'.Stored scheme where
  genuine := by
    rw [hfilters, hheaders]
    exact h.genuine
  commits := by
    rw [hcommits]
    exact h.commits

/-- The stores, the heights and the commits are the same. -/
structure SameStores (m m' : FiltersManager blockHash) : Prop where
  filters : m'.filterStorage = m.filterStorage
  headers : m'.filterHeaderStorage = m.filterHeaderStorage
  stored : m'.progress.storedHeight = m.progress.storedHeight
  next : m'.nextBatchToStore = m.nextBatchToStore
  processing : m'.processingHeight = m.processingHeight
  commits : m'.history.commits = m.history.commits

section

variable (h : m.Safe scheme)
include h

/-- Changes that leave the batches in processing, the stores and the heights as they are, but
for what was scanned. -/
theorem Safe.of_content (haccounted : m'.Accounted)
    (hdownloads : Downloads Filled m') (hcontent : SameContent m m') (hsame : SameStores m m')
    (hscanned : ∀ start batch, m'.activeBatches.get? start = some batch → batch.scanned = true →
      ∃ scan, m'.history.scans start = some scan ∧
        scan.Covers scheme batch.startHeight batch.endHeight) : m'.Safe scheme := by
  refine ⟨haccounted, h.stored.congr hsame.filters hsame.headers hsame.commits,
    ⟨hdownloads, hscanned, ?_, ?_⟩⟩
  · intro start batch' hget k hlo hhi hk
    obtain ⟨batch, hbatch, heq⟩ := hcontent.of_get? hget
    simp only [FiltersBatch.content, Prod.mk.injEq] at heq
    have hloaded := h.prepared.loaded start batch hbatch k hlo (heq.2.1 ▸ hhi) (hsame.stored ▸ hk)
    rw [AwaitsGenesis, hsame.filters, hsame.headers, hsame.next, hsame.stored, ← heq.2.1, ← heq.2.2]
    exact hloaded
  · rw [hsame.next, hsame.stored, hsame.processing]
    refine h.prepared.order.imp_right fun horder => ⟨fun start batch' hget => ?_, horder.2⟩
    obtain ⟨batch, hbatch, -⟩ := hcontent.of_get? hget
    exact horder.1 start batch hbatch

theorem Safe.congr (haccounted : m'.Accounted)
    (hdownloads : Downloads Filled m') (hscans : SameScans m m') (hsame : SameStores m m')
    (hrecords : m'.history.scans = m.history.scans) : m'.Safe scheme := by
  refine h.of_content haccounted hdownloads hscans.sameContent hsame ?_
  intro start batch' hget hscanned
  obtain ⟨batch, hbatch, hcont, heq⟩ := hscans.of_get? hget
  obtain ⟨scan, hscan, hcovers⟩ := h.prepared.scanned start batch hbatch (heq.trans hscanned)
  simp only [FiltersBatch.content, Prod.mk.injEq] at hcont
  exact ⟨scan, hrecords ▸ hscan, hcont.1 ▸ hcont.2.1 ▸ hcovers⟩

/-- Of the progress only the stored height matters. -/
theorem Safe.of_progress {progress : FiltersProgress}
    (hstored : progress.storedHeight = m.progress.storedHeight) :
    Safe scheme { m with progress } :=
  h.congr (h.accounted.congr (fun _ => rfl) rfl rfl)
    ⟨h.prepared.downloads.pipeline, h.prepared.downloads.pending⟩ (fun _ => rfl)
    ⟨rfl, rfl, hstored, rfl, rfl, rfl⟩ rfl

theorem Safe.setState (state : SyncState) : (m.setState state).Safe scheme :=
  h.of_progress rfl

variable {filters : FilterMap}

/-- A batch is opened above all others with the genuine filters of its heights up to the stored
one. -/
theorem Safe.openBatch {lo hi : Nat} (hrange : lo ≤ hi)
    (habove : ∀ start batch, m.activeBatches.get? start = some batch → start < lo)
    (hloaded : ∀ k, lo ≤ k → k ≤ hi → k ≤ m.progress.storedHeight →
      Loaded scheme m.filterHeaderStorage m.filterStorage filters k ∨
        k = 0 ∧ m.nextBatchToStore = 0 ∧ m.progress.storedHeight = 0 ∧ 0 < hi)
    (horder : m.nextBatchToStore ≤ m.progress.storedHeight + 1 ∨ m.nextBatchToStore ≤ lo)
    (hahead : ∀ k, hi < k → k ≤ m.progress.storedHeight → Held m.filterStorage k)
    (verified : Bool) : (m.openBatch lo hi filters verified).Sound scheme := by
  have hfree : m.activeBatches.get? lo = none :=
    eq_none_iff_forall_ne_some.mpr fun batch hget => lt_irrefl lo (habove lo batch hget)
  obtain ⟨opened, hopened, hnew, hend, -, -, hfilt, -⟩ :=
    m.openBatch_activeBatches lo hi filters verified
  refine ⟨⟨h.accounted.openBatch hrange hfree filters verified, h.stored.congr rfl rfl rfl,
    ⟨⟨h.prepared.downloads.pipeline, h.prepared.downloads.pending⟩, ?_, ?_, ?_⟩⟩, ?_⟩
  · intro k batch hk hscanned
    obtain ⟨-, rfl⟩ | ⟨-, hold⟩ := of_get?_insert (hopened ▸ hk)
    · simp [hnew] at hscanned
    · exact h.prepared.scanned k batch hold hscanned
  · intro k batch hk height hlo hhi hle
    obtain ⟨rfl, rfl⟩ | ⟨-, hold⟩ := of_get?_insert (hopened ▸ hk)
    · rw [AwaitsGenesis, hfilt, hend]
      exact hloaded height hlo (hend ▸ hhi) hle
    · exact h.prepared.loaded k batch hold height hlo hhi hle
  · rcases h.prepared.order with hle | ⟨hbelow, hstands⟩
    · exact .inl hle
    · refine horder.imp_right fun hle => ⟨fun k batch hk => ?_, hstands⟩
      obtain ⟨rfl, -⟩ | ⟨-, hold⟩ := of_get?_insert (hopened ▸ hk)
      · exact hle
      · exact hbelow k batch hold
  · intro k hlo hhi
    rw [nextBatchStart_openBatch habove] at hlo
    exact hahead k hlo hhi

end

variable {filters : FilterMap}

namespace Sound

theorem of_safe (h : m.Sound scheme) (hsafe : m'.Safe scheme) (hcontent : SameContent m m')
    (hsame : SameStores m m') : m'.Sound scheme := by
  refine ⟨hsafe, fun k hlo hhi => ?_⟩
  rw [nextBatchStart_congr hcontent.ends hsame.processing] at hlo
  rw [hsame.filters]
  exact h.ahead k hlo (hsame.stored ▸ hhi)

theorem congr (h : m.Sound scheme) (haccounted : m'.Accounted) (hdownloads : Downloads Filled m')
    (hscans : SameScans m m') (hsame : SameStores m m')
    (hrecords : m'.history.scans = m.history.scans) : m'.Sound scheme :=
  h.of_safe (h.toSafe.congr haccounted hdownloads hscans hsame hrecords) hscans.sameContent hsame

theorem of_matched (h : m.Sound scheme) (haccounted : m'.Accounted)
    (hdownloads : Downloads Filled m') (hmatched : Matched m m') : m'.Sound scheme := by
  refine h.congr haccounted hdownloads hmatched.sameScans ⟨?_, ?_, ?_, ?_, ?_, ?_⟩ ?_ <;>
    rw [hmatched.rest]

/-- The record that a scan leaves. -/
theorem scans_scanBatch (hget : m.activeBatches.get? start = some batch) :
    (m.scanBatch scheme start).1.history.scans = Function.update m.history.scans start
      (some { filters := batch.filters
              headerStorage := m.headerStorage
              filterHeaderStorage := m.filterHeaderStorage
              filterStorage := m.filterStorage }) := by
  unfold scanBatch
  simp only [hget]
  split_ifs <;> rfl

section

variable (h : m.Sound scheme)
include h

/-- A batch whose filters are all stored is scanned with genuine ones. -/
theorem scanBatch (hget : m.activeBatches.get? start = some batch)
    (hready : batch.endHeight ≤ m.progress.storedHeight) :
    (m.scanBatch scheme start).1.Sound scheme := by
  have hcont := @sameContent_scanBatch _ scheme m start
  have hrest := @sameRest_scanBatch _ scheme m start
  have hscans := @scans_scanBatch _ scheme m start batch hget
  have hothers := (@scanBatch_frame _ scheme m start).1
  have hacc := @Accounted.scanBatch _ scheme m h.accounted start
  have hdown := h.prepared.downloads.of_sameRest hrest
  generalize (m.scanBatch scheme start).1 = m' at *
  have hsame : SameStores m m' := by
    refine ⟨?_, ?_, ?_, ?_, ?_, ?_⟩ <;> rw [hrest]
  refine h.of_safe (h.toSafe.of_content hacc hdown hcont hsame ?_) hcont hsame
  intro k batch' hk hscanned
  by_cases hsame : k = start
  · subst hsame
    obtain ⟨old, hold, heq⟩ := hcont.of_get? hk
    obtain rfl := mem_unique hget hold
    simp only [FiltersBatch.content, Prod.mk.injEq] at heq
    obtain ⟨hstart, hrange⟩ := h.accounted.ranged hget
    refine ⟨_, by rw [hscans, Function.update_self], fun height hlo hhi => ?_⟩
    rw [← heq.1, hstart] at hlo
    rw [← heq.2.1] at hhi
    rcases h.prepared.loaded k batch hget height hlo hhi (hhi.trans hready) with hloaded | hexcept
    · exact hloaded
    · -- nothing is stored, so the batch was not ready
      obtain ⟨-, -, hzero, hpos⟩ := hexcept
      omega
  · rw [hothers k hsame] at hk
    obtain ⟨scan, hscan, hcovers⟩ := h.prepared.scanned k batch' hk hscanned
    exact ⟨scan, by rw [hscans, Function.update_of_ne hsame, hscan], hcovers⟩

/-- What is committed was scanned. -/
theorem commitBatch (hfirst : m.activeBatches.keys.head? = some start)
    (hget : m.activeBatches.get? start = some batch) (hscanned : batch.scanned = true)
    (hpending : batch.pendingBlocks = 0) : (m.commitBatch start batch).Sound scheme := by
  have hnext := nextBatchStart_commitBatch hfirst hget
  obtain ⟨committedHeight, hprog⟩ := m.commitBatch_progress start batch
  have hstored : (m.commitBatch start batch).progress.storedHeight = m.progress.storedHeight := by
    rw [hprog]
  obtain ⟨hstart, hrange⟩ := h.accounted.ranged hget
  refine ⟨⟨h.accounted.commitBatch hget hpending, ⟨h.stored.genuine, ?_⟩, ⟨?_, ?_, ?_, ?_⟩⟩, ?_⟩
  · intro c hc
    simp only [FiltersManager.commitBatch, List.mem_append, List.mem_singleton] at hc
    rcases hc with hc | rfl
    · exact h.stored.commits c hc
    · exact h.prepared.scanned start batch hget hscanned
  · exact ⟨h.prepared.downloads.pipeline, h.prepared.downloads.pending⟩
  · exact fun k b hk => h.prepared.scanned k b (of_get?_commitBatch hk).2
  · intro k b hk height hlo hhi hle
    have hloaded := h.prepared.loaded k b (of_get?_commitBatch hk).2 height hlo hhi (hstored ▸ hle)
    rw [AwaitsGenesis, hstored]
    exact hloaded
  · rw [hstored]
    refine h.prepared.order.imp_right fun horder =>
      ⟨fun k b hk => horder.1 k b (of_get?_commitBatch hk).2, ?_⟩
    have hle := horder.1 start batch hget
    show m.nextBatchToStore ≤ batch.endHeight + 1
    omega
  · intro k hlo hhi
    rw [hnext] at hlo
    exact h.ahead k hlo (hstored ▸ hhi)

/-- The next download to be stored is not above the next batch, if it is not above those in
processing. -/
theorem nextBatchToStore_le
    (horder : ∀ start batch, m.activeBatches.get? start = some batch → m.nextBatchToStore ≤ start)
    (hprocessing : m.nextBatchToStore ≤ m.processingHeight) :
    m.nextBatchToStore ≤ m.nextBatchStart := by
  obtain ⟨-, heq⟩ | ⟨last, lastBatch, hlast, -, -⟩ := m.nextBatchStart_cases
  · exact heq ▸ hprocessing
  · exact (horder last lastBatch hlast).trans (h.accounted.lt_nextBatchStart hlast).le

/-- The next batch is opened with the filters that are stored. -/
theorem lookahead (htip : m.nextBatchStart ≤ m.progress.filterHeaderTipHeight)
    (hload : m.loadAvailable m.nextBatchStart m.nextBatchEnd = .ok filters) (verified : Bool) :
    (m.openBatch m.nextBatchStart m.nextBatchEnd filters verified).Sound scheme := by
  have hrange : m.nextBatchStart ≤ m.nextBatchEnd := by
    unfold nextBatchEnd batchProcessingSize
    omega
  refine h.toSafe.openBatch hrange (fun _ _ hget => h.accounted.lt_nextBatchStart hget) ?_ ?_ ?_ _
  · -- the loaded range holds every height up to the stored one
    intro k hlo hhi hle
    unfold loadAvailable at hload
    rw [if_pos (by omega)] at hload
    exact .inl (loadFilters_loaded h.stored.genuine hload hlo (by omega) (h.ahead k hlo hle))
  · exact h.prepared.order.imp_right fun horder => h.nextBatchToStore_le horder.1 horder.2
  · exact fun k hlo hhi => h.ahead k (by omega) hhi

end

/-- The filters of a batch in processing after a download was loaded into it. -/
def filtersAfter (batch active : FiltersBatch) : FilterMap :=
  if batch.startHeight ≤ active.endHeight ∧ active.startHeight ≤ batch.endHeight then
    active.filters.union (overlap batch active)
  else active.filters

variable {active : FiltersBatch} {height : Nat}
  {filterHeaders : SegmentStore (0 : FilterHeader)} {stored : SegmentStore ([] : Filter)}

/-- A download gives its genuine filters to the batches in processing. -/
theorem loaded_filtersAfter_of_mem (h : Loaded scheme filterHeaders stored batch.filters height)
    (hbatch : batch.startHeight ≤ height ∧ height ≤ batch.endHeight)
    (hactive : active.startHeight ≤ height ∧ height ≤ active.endHeight) :
    Loaded scheme filterHeaders stored (filtersAfter batch active) height := by
  obtain ⟨hash, filter, hget, hgenuine⟩ := h
  refine ⟨hash, filter, ?_, hgenuine⟩
  have hoverlap : (overlap batch active).get? ⟨height, hash⟩ = some filter := by
    rw [overlap, get?_filter, hget, filter_some, if_pos]
    simp only [Bool.and_eq_true, decide_eq_true_eq]
    omega
  rw [filtersAfter, if_pos (by omega), get?_union, hoverlap]
  rfl

/-- A download leaves the filters of other heights as they are. -/
theorem loaded_filtersAfter_of_not_mem
    (h : Loaded scheme filterHeaders stored active.filters height)
    (hbatch : ¬ (batch.startHeight ≤ height ∧ height ≤ batch.endHeight)) :
    Loaded scheme filterHeaders stored (filtersAfter batch active) height := by
  obtain ⟨hash, filter, hget, hgenuine⟩ := h
  refine ⟨hash, filter, ?_, hgenuine⟩
  unfold filtersAfter
  split_ifs
  · have hnone : (overlap batch active).get? ⟨height, hash⟩ = none := by
      rw [overlap, get?_filter, filter_eq_none_iff]
      intro other _
      simp only [Bool.and_eq_true, decide_eq_true_eq]
      omega
    rw [get?_union, hnone]
    exact hget
  · exact hget

/-- A verified download is stored and loaded. -/
theorem store (h : m.Sound scheme) {m' : FiltersManager blockHash} {events : List SyncEvent}
    (hget : m.pendingBatches.get? start = some batch)
    (hnext : batch.startHeight = m.nextBatchToStore)
    (hverify : verifyAndStore scheme
      { m with pendingBatches := m.pendingBatches.erase start } batch = .ok (m', events))
    (haccounted : (m'.acceptBatch batch).Accounted)
    (hdownloads : Downloads Filled (m'.acceptBatch batch)) :
    (m'.acceptBatch batch).Sound scheme := by
  have hdownload := Download.of_completed (h.prepared.downloads.pending start batch hget)
  obtain ⟨hloaded, -⟩ | ⟨hverif, heq⟩ := verifyAndStore_cases hverify
  · simp [hdownload.unverified] at hloaded
  have hfilt : (m'.acceptBatch batch).filterStorage =
      storeFilters m.filterStorage batch.filters := by rw [heq]; rfl
  have hhdrs : (m'.acceptBatch batch).filterHeaderStorage = m.filterHeaderStorage := by
    rw [heq]; rfl
  have hproc : (m'.acceptBatch batch).processingHeight = m.processingHeight := by
    rw [heq]; rfl
  have hhistory : (m'.acceptBatch batch).history = m.history := by rw [heq]; rfl
  have hactive : ∀ {k b}, (m'.acceptBatch batch).activeBatches.get? k = some b →
      ∃ old, m.activeBatches.get? k = some old ∧ b.scanned = old.scanned ∧
        b.startHeight = old.startHeight ∧ b.endHeight = old.endHeight ∧
        b.filters = filtersAfter batch old := by
    intro k b hk
    rw [heq, acceptBatch_get?] at hk
    obtain ⟨old, hold, rfl⟩ := map_eq_some_iff.mp hk
    exact ⟨old, hold, rfl, rfl, rfl, rfl⟩
  have hends : ∀ k, ((m'.acceptBatch batch).activeBatches.get? k).map FiltersBatch.endHeight =
      (m.activeBatches.get? k).map FiltersBatch.endHeight := by
    intro k
    rw [heq, acceptBatch_get?, map_map]
    rfl
  -- every height is of the download, or stored as before
  have hstore : ∀ k, (batch.startHeight ≤ k ∧ k ≤ batch.endHeight ∧
        Loaded scheme m.filterHeaderStorage (storeFilters m.filterStorage batch.filters)
          batch.filters k) ∨
      (¬ (batch.startHeight ≤ k ∧ k ≤ batch.endHeight) ∧
        (storeFilters m.filterStorage batch.filters).content.slot k =
          m.filterStorage.content.slot k) :=
    storeFilters_genuine (m := { m with pendingBatches := m.pendingBatches.erase start })
      hdownload hverif
  refine ⟨⟨haccounted, ⟨?_, hhistory ▸ h.stored.commits⟩, ⟨hdownloads, ?_, ?_, .inl le_rfl⟩⟩, ?_⟩
  · rw [hfilt, hhdrs]
    intro k hk
    obtain ⟨-, -, hash, filter, -, hgenuine⟩ | ⟨-, hslot⟩ := hstore k
    · exact hgenuine.stored.symm ▸ hgenuine
    · rw [hslot]
      have hgenuine := h.stored.genuine k fun hempty => hk (hslot.trans hempty)
      exact ⟨hslot, hgenuine.nonempty, hgenuine.verified⟩
  · intro k b hk hscanned
    obtain ⟨old, hold, hsame, hstart, hend, -⟩ := hactive hk
    rw [hstart, hend, hhistory]
    exact h.prepared.scanned k old hold (hsame.symm.trans hscanned)
  · intro k b hk height hlo hhi hle
    obtain ⟨old, hold, -, -, hend, hafter⟩ := hactive hk
    obtain ⟨hstart, -⟩ := h.accounted.ranged hold
    have hle' : height ≤ batch.endHeight := hle
    rw [hfilt, hhdrs, hafter]
    refine .inl ?_
    obtain ⟨hge, hle, hloaded⟩ | ⟨hout, hslot⟩ := hstore height
    · exact loaded_filtersAfter_of_mem hloaded ⟨hge, hle⟩ ⟨by omega, by omega⟩
    · -- below the download, so the batch has it already
      rcases h.prepared.order with horder | ⟨horder, -⟩
      · rcases h.prepared.loaded k old hold height hlo (by omega) (by omega) with
          ⟨hash, filter, hfound, hgenuine⟩ | hexcept
        · refine loaded_filtersAfter_of_not_mem ⟨hash, filter, hfound, ?_⟩ hout
          exact ⟨hslot.trans hgenuine.stored, hgenuine.nonempty, hgenuine.verified⟩
        · have hzero := hexcept.2.1
          omega
      · have hbelow := horder k old hold
        omega
  · intro k hlo hhi
    rw [nextBatchStart_congr hends hproc] at hlo
    have hhi' : k ≤ batch.endHeight := hhi
    rw [hfilt]
    obtain ⟨-, -, hash, filter, -, hgenuine⟩ | ⟨hout, hslot⟩ := hstore k
    · exact hgenuine.held
    · rcases h.prepared.order with horder | ⟨horder, hstands⟩
      · have hheld := h.ahead k hlo (by omega)
        exact fun hempty => hheld (hslot.symm.trans hempty)
      · have hle := h.nextBatchToStore_le horder hstands
        omega

/-- Every move of the processing keeps a manager sound, if the filters that arrive have
content. -/
theorem move (hmove : Move scheme arrives False m m') (hfilters : ∀ filter, arrives filter →
    filter ≠ []) (h : m.Sound scheme) : m'.Sound scheme := by
  have hacc : m'.Accounted := h.accounted.move hmove
  have hdown : Downloads Filled m' :=
    h.prepared.downloads.move hmove (fun start stop _ _ => filled_new start stop)
      (fun _ _ _ hash filter htracker hfilter hstart hend =>
        htracker.insertFilter hstart hend hash (hfilters filter hfilter))
  cases hmove with
  | scan hget hnew hready => exact h.scanBatch hget hready
  | rescan hfirst hget hscanned hpend hopen =>
    exact h.of_matched hacc hdown (matched_rescanForCommit hget hopen)
  | commit hfirst hget hscanned hpend hcomp => exact h.commitBatch hfirst hget hscanned hpend
  | lookahead htip hload => exact h.lookahead htip hload _
  | collect | discard | receive | send | timeouts | disconnect | extend | setState =>
    exact h.congr hacc hdown (fun _ => rfl) ⟨rfl, rfl, rfl, rfl, rfl, rfl⟩ rfl
  | store hget hnext hverify => exact h.store hget hnext hverify hacc hdown
  | processed hash height wallets newAddresses =>
    exact h.of_matched hacc hdown
      (matched_finishBlock m hash height wallets newAddresses)
  | reset hstarts | init hstarts | storedTip hstarts | begin hstarts | noteStored hstarts
  | first hstarts | reorg hstarts => exact hstarts.elim

end Sound

/-! ### Starting -/

/-- A manager can start over: filters are stored from the start of the scan up to the last
stored one, or the stored height is below the start of the scan. If the stored height is
behind the last stored filter, the requests of the start are sent. -/
structure CanStart (m : FiltersManager blockHash) (now : Nat) (accepts : Nat → Bool) : Prop where
  held : m.reachesScan m.scanStart →
    ∀ h, m.scanStart ≤ h → h ≤ m.filterTipHeight → Held m.filterStorage h
  below : ¬ m.reachesScan m.scanStart → m.progress.storedHeight < m.scanStart ∨
    m.progress.storedHeight = 0 ∧ 0 < m.progress.filterHeaderTipHeight
  sent : m.reachesScan m.scanStart → m.filterTipHeight ≤ m.progress.storedHeight ∨
    (m.beginDownload.initPipeline now accepts).2.isOk = true

/-- Where the download starts: right above the stored filters, if the scan starts among them. -/
theorem downloadStart_of_reaches (h : m.reachesScan m.scanStart) :
    m.downloadStart = m.filterTipHeight + 1 := by
  have hstart : m.headerStorage.getStartHeight.getD 0 ≤ m.scanStart := Nat.le_max_right _ _
  unfold reachesScan at h
  rw [downloadStart, if_pos h.1]
  omega

/-- Otherwise not above the start of the scan. -/
theorem downloadStart_le (h : ¬ m.reachesScan m.scanStart) : m.downloadStart ≤ m.scanStart := by
  have hstart : m.headerStorage.getStartHeight.getD 0 ≤ m.scanStart := Nat.le_max_right _ _
  unfold reachesScan at h
  unfold downloadStart
  split_ifs with htip
  · omega
  · exact le_rfl

/-- A manager with nothing in processing is prepared if the next download follows the stored
height or lies below the start of processing. -/
theorem prepared_of_idle (hidle : m.activeBatches.size = 0) (hdownloads : Downloads Filled m)
    (horder : m.nextBatchToStore ≤ m.progress.storedHeight + 1 ∨
      m.nextBatchToStore ≤ m.processingHeight) : m.Prepared scheme := by
  have hnone := size_eq_zero_iff.mp hidle
  have habsent : ∀ {start batch}, m.activeBatches.get? start ≠ some batch := by simp [hnone]
  exact ⟨hdownloads, fun _ _ hget => absurd hget habsent, fun _ _ hget => absurd hget habsent,
    horder.imp_right fun hle => ⟨fun _ _ hget => absurd hget habsent, hle⟩⟩

/-- Ready to open the first batch of a scan: the next download follows the stored filters, which
are there from the start of the scan on, or lies below that start. -/
structure Poised (scheme : FilterScheme) (m : FiltersManager blockHash) (scanStart : Nat) :
    Prop where
  accounted : m.Accounted
  stored : m.Stored scheme
  downloads : Downloads Filled m
  idle : m.activeBatches.size = 0
  tip : scanStart ≤ m.progress.filterHeaderTipHeight
  processing : m.processingHeight = scanStart
  held : m.reachesScan scanStart → m.nextBatchToStore = m.filterTipHeight + 1 ∧
    ∀ h, scanStart ≤ h → h ≤ m.filterTipHeight → Held m.filterStorage h
  below : ¬ m.reachesScan scanStart → m.nextBatchToStore ≤ scanStart ∧
    (m.progress.storedHeight < scanStart ∨
      m.progress.storedHeight = 0 ∧ 0 < m.progress.filterHeaderTipHeight)

variable {scanStart : Nat}

section

variable (h : m.Poised scheme scanStart)
include h

/-- Afterwards the stored height is the last stored filter, if the scan starts among them. -/
theorem Poised.noteStored :
    (m.noteStored scanStart).Poised scheme scanStart ∧
      ((m.noteStored scanStart).reachesScan scanStart →
        (m.noteStored scanStart).progress.storedHeight =
          (m.noteStored scanStart).filterTipHeight) := by
  unfold FiltersManager.noteStored
  split_ifs with hreach
  · exact ⟨⟨h.accounted.congr (fun _ => rfl) rfl rfl, h.stored.congr rfl rfl rfl,
      ⟨h.downloads.pipeline, h.downloads.pending⟩, h.idle, h.tip, h.processing, h.held,
      fun hnot => absurd hreach hnot⟩, fun _ => rfl⟩
  · exact ⟨h, fun hreach' => absurd hreach' hreach⟩

section

variable (hnoted : m.reachesScan scanStart → m.progress.storedHeight = m.filterTipHeight)
include hnoted

theorem Poised.safe : m.Safe scheme := by
  refine ⟨h.accounted, h.stored, prepared_of_idle h.idle h.downloads ?_⟩
  by_cases hreach : m.reachesScan scanStart
  · have heq := hnoted hreach
    have hnext := (h.held hreach).1
    exact .inl (by omega)
  · exact .inr (h.processing ▸ (h.below hreach).1)

/-- The first batch of a scan is opened with the genuine filters that are stored. -/
theorem Poised.openFirst (hload : m.loadFirst scanStart = .ok filters) :
    (m.openFirst scanStart filters).Sound scheme := by
  have hnone := size_eq_zero_iff.mp h.idle
  have hend : m.firstBatchEnd scanStart =
      min (scanStart + batchProcessingSize - 1) m.progress.filterHeaderTipHeight := rfl
  have htip := h.tip
  unfold batchProcessingSize at hend
  have hopened : (m.openBatch scanStart (m.firstBatchEnd scanStart) filters
      (m.firstBatchEnd scanStart ≤ m.filterTipHeight)).Sound scheme := by
    refine (h.safe hnoted).openBatch (by omega) (fun start _ hget => by simp [hnone start] at hget)
      ?_ ?_ ?_ _
    · intro k hlo hhi hle
      by_cases hreach : m.reachesScan scanStart
      · obtain ⟨-, hall⟩ := h.held hreach
        have heq := hnoted hreach
        rw [loadFirst, if_pos hreach] at hload
        exact .inl (loadFilters_loaded h.stored.genuine hload hlo (by omega)
          (hall k hlo (heq ▸ hle)))
      · -- nothing is stored there, so only height 0 can be meant
        obtain ⟨hnext, hzero⟩ := h.below hreach
        exact .inr (by omega)
    · by_cases hreach : m.reachesScan scanStart
      · have heq := hnoted hreach
        have hnext := (h.held hreach).1
        exact .inl (by omega)
      · exact .inr (h.below hreach).1
    · intro k hlo hhi
      by_cases hreach : m.reachesScan scanStart
      · have heq := hnoted hreach
        exact (h.held hreach).2 k (by omega) (by omega)
      · obtain ⟨-, hzero⟩ := h.below hreach
        omega
  exact hopened.of_safe (hopened.toSafe.of_progress rfl) (fun _ => rfl)
    ⟨rfl, rfl, rfl, rfl, rfl, rfl⟩

end

/-- The first batch is opened and scanned after the download has begun. -/
theorem Poised.openFirstBatch :
    (m.openFirstBatch scheme scanStart).1.Safe scheme := by
  obtain ⟨hposed, hnoted⟩ := h.noteStored
  unfold FiltersManager.openFirstBatch
  dsimp only
  generalize m.noteStored scanStart = m' at *
  cases hload : m'.loadFirst scanStart with
  | error e => exact hposed.safe hnoted
  | ok filters =>
    have hopened := hposed.openFirst hnoted hload
    split_ifs with hready
    · obtain ⟨batch, hget, -, hend⟩ := m'.openFirst_get? scanStart filters
      exact (hopened.scanBatch hget (hend ▸ hready)).toSafe
    · exact hopened.toSafe

end

/-- A manager that can start over does so safely. -/
theorem safe_startDownload (h : m.Safe scheme) (hidle : m.activeBatches.size = 0)
    (hstart : m.scanStart ≤ m.progress.filterHeaderTipHeight → m.CanStart now accepts) :
    (m.startDownload scheme now accepts).1.Safe scheme := by
  unfold startDownload
  split_ifs with htip
  · exact h.setState .synced
  · exact h.setState .waitForEvents
  have hcan := hstart (Nat.not_lt.mp htip)
  have hmoves : Moves scheme (fun _ => False) True m (m.beginDownload.initPipeline now accepts).1 :=
    .head (.begin trivial hidle)
      (@initPipeline_moves _ scheme m.beginDownload (fun _ => False) True now accepts trivial hidle)
  have hacc := hmoves.keep (fun _ _ hmove => Accounted.move hmove) h.accounted
  have hdown : Downloads Filled (m.beginDownload.initPipeline now accepts).1 :=
    hmoves.keep (fun _ _ hmove hm => hm.move hmove (fun start stop _ _ => filled_new start stop)
      (fun _ _ _ _ _ _ hfalse => hfalse.elim)) h.prepared.downloads
  have heq := m.beginDownload.initPipeline_eq now accepts
  have hsent := hcan.sent
  generalize m.beginDownload.initPipeline now accepts = r at hmoves hacc hdown heq hsent ⊢
  obtain ⟨m', result⟩ := r
  dsimp only at hacc hdown heq hsent ⊢
  have hstored : m'.Stored scheme := by
    refine h.stored.congr ?_ ?_ ?_ <;> rw [heq] <;> rfl
  have hidle' : m'.activeBatches.size = 0 := by rw [heq]; exact hidle
  have hproc : m'.processingHeight = m.scanStart := by rw [heq]; rfl
  have hnext : m'.nextBatchToStore = m.downloadStart := by rw [heq]; rfl
  have hprog : m'.progress.storedHeight = m.progress.storedHeight ∧
      m'.progress.filterHeaderTipHeight = m.progress.filterHeaderTipHeight := by
    rw [heq]; exact ⟨rfl, rfl⟩
  have hfilt : m'.filterStorage = m.filterStorage := by rw [heq]; rfl
  have htipEq : m'.filterTipHeight = m.filterTipHeight := by unfold filterTipHeight; rw [hfilt]
  cases result with
  | error e =>
    -- the heights are set, but nothing is taken note of
    refine ⟨hacc, hstored, prepared_of_idle hidle' hdown ?_⟩
    by_cases hreach : m.reachesScan m.scanStart
    · rcases hsent hreach with hle | hsent
      · rw [hnext, downloadStart_of_reaches hreach, hprog.1]
        exact .inl (Nat.succ_le_succ hle)
      · cases hsent
    · rw [hnext, hproc]
      exact .inr (downloadStart_le hreach)
  | ok sent =>
    have hiff : m'.reachesScan m.scanStart ↔ m.reachesScan m.scanStart := by
      unfold reachesScan
      rw [htipEq]
    refine Poised.openFirstBatch ⟨hacc, hstored, hdown, hidle', ?_, hproc, ?_, ?_⟩
    · rw [hprog.2]
      exact Nat.not_lt.mp htip
    · rw [hiff, htipEq, hnext, hfilt]
      exact fun hreach => ⟨downloadStart_of_reaches hreach, hcan.held hreach⟩
    · rw [hiff, hnext, hprog.1, hprog.2]
      exact fun hreach => ⟨downloadStart_le hreach, hcan.below hreach⟩

/-! ### Steps -/

/-- Nothing is in processing or on its way. -/
def Fresh (m : FiltersManager blockHash) : Prop :=
  m.activeBatches.size = 0 ∧ m.pendingBatches.size = 0 ∧ m.filterPipeline.batchTrackers.size = 0 ∧
    m.filterPipeline.completedBatches.size = 0

instance (m : FiltersManager blockHash) : Decidable m.Fresh :=
  inferInstanceAs (Decidable (_ ∧ _))

section

variable (m : FiltersManager blockHash)

/-- Whether an action can store, scan or open batches without starting over. -/
def processes : Action blockHash → Bool
  | .message _ _ _ _ => !decide m.Fresh
  | .syncEvent (.blockProcessed _ _ _ _) _ _ => !decide m.Fresh
  | .syncEvent (.filterHeadersSyncComplete _) _ _
  | .syncEvent (.filterHeadersStored _ _ _) _ _ =>
    m.progress.state = .syncing || m.progress.state = .synced
  | .tick _ _ => m.staleWallets = none && (m.progress.state = .syncing || m.progress.state = .synced)
  | _ => false

/-- The state in which an action starts over, with what the requests depend on. -/
def startsFrom :
    Action blockHash → Option (FiltersManager blockHash × Nat × (Nat → Bool))
  | .tick now accepts => m.staleWallets.map fun synced =>
    ({ m.resetForRescan with progress := m.progress.updateCommittedHeight synced }, now, accepts)
  | .syncEvent (.filterHeadersSyncComplete tipHeight) now accepts
  | .syncEvent (.filterHeadersStored _ _ tipHeight) now accepts =>
    if (m.progress.state = .waitingForConnections ∨ m.progress.state = .waitForEvents) ∧
        m.activeBatches.size = 0 then
      some (m.updateTips tipHeight, now, accepts)
    else none
  | .networkEvent connectedCount bestHeight now accepts =>
    if connectedCount ≠ 0 ∧ m.progress.state = .waitingForConnections ∧
        m.activeBatches.size = 0 ∧ m.progress.committedHeight < m.filterTipHeight then
      some ((m.updateBestHeight bestHeight).takeStoredTip, now, accepts)
    else none
  | _ => none

/-- What happens around the manager, and the report of a reorg. -/
def Action.outside : Action blockHash → Bool
  | .syncEvent (.chainReorg _ _ _ _) _ _ => true
  | .stores _ _ | .cascade _ | .wallets _ => true
  | _ => false

/-- Other managers leave the filter headers of stored filters as they are, and a cascade cuts
all stores. -/
def keepsHeaders : Action blockHash → Prop
  | .stores _ filterHeaderStorage => ∀ h ≤ m.filterTipHeight,
    filterHeaderStorage.content.slot h = m.filterHeaderStorage.content.slot h
  | .cascade candidate => m.Accepts candidate
  | _ => True

end

/-- The condition on a step. Between a cascade and its report the manager does nothing. Filters
that arrive have content. What is processed fits the filters stored, and where the manager
starts over it can. -/
structure Regular (m : FiltersManager blockHash) (a : Action blockHash) : Prop where
  settled : m.history.reorgPending = true → a.outside = true
  content : ∀ filter, a.Carries filter → filter ≠ []
  ahead : m.processes a = true → m.Ahead
  starts : ∀ start ∈ m.startsFrom a, start.1.scanStart ≤ start.1.progress.filterHeaderTipHeight →
    start.1.CanStart start.2.1 start.2.2
  headers : m.keepsHeaders a

/-- Moves of the processing keep a manager safe. -/
theorem Safe.moves (h : m.Safe scheme) (hahead : m.Ahead)
    (hmoves : Moves scheme arrives False m m')
    (hfilters : ∀ filter, arrives filter → filter ≠ []) : m'.Safe scheme := by
  have hsound : m'.Sound scheme :=
    hmoves.keep (fun _ _ hmove hm => Sound.move hmove hfilters hm) ⟨h, hahead⟩
  exact hsound.toSafe

theorem Safe.of_pipeline (h : m.Safe scheme) {p : FiltersPipeline} (hp : EachBatch Filled p) :
    Safe scheme { m with filterPipeline := p } :=
  h.congr (h.accounted.congr (fun _ => rfl) rfl rfl) ⟨hp, h.prepared.downloads.pending⟩
    (fun _ => rfl) ⟨rfl, rfl, rfl, rfl, rfl, rfl⟩ rfl

/-- With nothing on its way there is nothing to store. -/
theorem storeAndMatchBatches_of_empty (hpending : m.pendingBatches.size = 0)
    (hpipeline : EachBatch (fun _ _ => False) m.filterPipeline) :
    (m.storeAndMatchBatches scheme).1 =
      { m with filterPipeline := m.filterPipeline.takeCompletedBatches.1 } := by
  have hcompleted : m.filterPipeline.completedBatches.entries = [] := by
    refine List.length_eq_zero_iff.mp (size_eq_zero_iff.mpr fun start => ?_)
    refine eq_none_iff_forall_ne_some.mpr fun batch hget => ?_
    obtain ⟨-, hfalse, -⟩ := hpipeline.completed start batch hget
    exact hfalse
  have hcollect : m.collectCompleted =
      { m with filterPipeline := m.filterPipeline.takeCompletedBatches.1 } := by
    simp only [collectCompleted, takeCompletedBatches, hcompleted, List.foldl_nil]
  unfold storeAndMatchBatches
  dsimp only
  rw [hcollect, hpending]
  simp only [storeLoop, if_true]

/-- The pipeline of a fresh manager has no batches. -/
theorem Fresh.eachBatch (h : m.Fresh) : EachBatch (fun _ _ => False) m.filterPipeline := by
  obtain ⟨-, -, htracked, hcompleted⟩ := h
  rw [size_eq_zero_iff] at htracked hcompleted
  refine ⟨fun start tracker hget => ?_, fun start batch hget => ?_⟩
  · simp [htracked start] at hget
  · simp [hcompleted start] at hget

/-- A fresh manager drops the filters that arrive. -/
theorem Safe.message_of_fresh (h : m.Safe scheme) (hfresh : m.Fresh) (hash : BlockHash)
    (filter : Filter) :
    (m.handleMessage scheme hash filter now accepts).1.Safe scheme := by
  unfold handleMessage
  cases m.headerStorage.getHeaderHeightByHash hash with
  | none => exact h
  | some height =>
    dsimp only
    split_ifs
    · exact h
    have hrecv : EachBatch (fun _ _ => False)
        (m.filterPipeline.receiveWithData height hash filter).1 :=
      hfresh.eachBatch.receiveWithData fun _ _ hfalse => hfalse.elim
    have hsent := hrecv.sendPending m.headerStorage now m.reorgGeneration accepts
    unfold sendThen sendPending
    generalize (m.filterPipeline.receiveWithData height hash filter).1.sendPending m.headerStorage
      now m.reorgGeneration accepts = r at hsent ⊢
    obtain ⟨p, e | sent⟩ := r
    · exact h.of_pipeline (hsent.mono fun _ _ hfalse => hfalse.elim)
    · rw [@storeAndMatchBatches_of_empty _ scheme { m with filterPipeline := p } hfresh.2.1 hsent]
      refine h.of_pipeline ⟨fun _ _ hget => (hsent.tracked _ _ hget).elim, fun _ _ hget => ?_⟩
      simp [takeCompletedBatches] at hget

/-- No block is in flight for a fresh manager, so none is waited for. -/
theorem Safe.processed_of_fresh (h : m.Safe scheme) (hfresh : m.Fresh) (hash : BlockHash)
    (height : Nat) (wallets : Finset WalletId)
    (newAddresses : SortedMap WalletId (List Address)) :
    (m.handleBlockProcessed scheme hash height wallets newAddresses).1.Safe scheme := by
  have hnone : m.tracker.blocksRemaining.get? hash = none := by
    refine eq_none_iff_forall_ne_some.mpr fun entry hentry => ?_
    obtain ⟨batch, hbatch⟩ := h.accounted.tracked hentry
    simp [size_eq_zero_iff.mp hfresh.1 entry.2] at hbatch
  have hsame := recordProcessed_blocksRemaining m.tracker height hash wallets
  have hacc := h.accounted.finishBlock hash height wallets newAddresses
  unfold handleBlockProcessed
  unfold finishBlock BlockMatchTracker.finishInFlight at hacc ⊢
  rw [hsame, hnone] at hacc ⊢
  exact h.congr hacc ⟨h.prepared.downloads.pipeline, h.prepared.downloads.pending⟩
    (fun _ => rfl) ⟨rfl, rfl, rfl, rfl, rfl, rfl⟩ rfl

theorem updateTips_progress (m : FiltersManager blockHash) (tipHeight : Nat) :
    (m.updateTips tipHeight).progress.storedHeight = m.progress.storedHeight ∧
      (m.updateTips tipHeight).progress.state = m.progress.state := by
  unfold updateTips updateTargetHeight updateFilterHeaderTipHeight
  split_ifs <;> exact ⟨rfl, rfl⟩

section

variable (h : m.Safe scheme)
include h

theorem Safe.takeStoredTip : m.takeStoredTip.Safe scheme := by
  refine h.of_progress ?_
  unfold updateFilterHeaderTipHeight
  split_ifs <;> rfl

/-- New filter headers extend the download or start one. -/
theorem Safe.newFilterHeaders {tipHeight : Nat}
    (ha : m.Regular (.syncEvent (.filterHeadersSyncComplete tipHeight) now accepts)) :
    (m.handleNewFilterHeaders scheme tipHeight now accepts).1.Safe scheme := by
  obtain ⟨hstored, hstate⟩ := m.updateTips_progress tipHeight
  have htips : (m.updateTips tipHeight).Safe scheme := h.of_progress hstored
  unfold handleNewFilterHeaders
  dsimp only
  rw [hstate]
  cases hcase : m.progress.state with
  | syncing | synced =>
    dsimp only
    split_ifs
    · have hfits := ha.ahead (by simp [processes, hcase])
      have hfits' : (m.updateTips tipHeight).Ahead := fun k hlo hhi => hfits k hlo (hstored ▸ hhi)
      exact htips.moves hfits' (extendDownload_moves (fun _ => False) False
        (m.le_updateTips tipHeight)) fun _ hfalse => hfalse.elim
    · exact htips
  | waitingForConnections | waitForEvents =>
    dsimp only
    split_ifs with hidle
    · refine safe_startDownload htips hidle (ha.starts (m.updateTips tipHeight, now, accepts) ?_)
      rw [startsFrom, if_pos ⟨by simp [hcase], hidle⟩]
      rfl
    · exact htips.of_pipeline
        (h.prepared.downloads.pipeline.extendTarget fun start stop _ _ => filled_new start stop)
  | error => exact htips

/-- A tick starts over for a wallet that is behind, or goes on. -/
theorem Safe.tick (ha : m.Regular (.tick now accepts)) :
    (m.tick scheme now accepts).1.Safe scheme := by
  unfold FiltersManager.tick
  cases hstale : m.staleWallets with
  | none =>
    by_cases hrunning : m.progress.state = .syncing ∨ m.progress.state = .synced
    · exact h.moves (ha.ahead (by simpa [processes, hstale] using hrunning))
        (tickWork_moves (fun _ => False) False m) fun _ hfalse => hfalse.elim
    · unfold tickWork
      rw [if_neg (fun hwork => hrunning (hwork.imp_right And.left))]
      exact h
  | some synced =>
    refine safe_startDownload ⟨?_, ?_, ?_⟩ rfl (ha.starts (_, now, accepts) ?_)
    · exact .of_empty (fun _ => rfl) (fun _ => rfl) h.accounted.commits
    · exact h.stored.congr rfl rfl rfl
    · exact prepared_of_idle rfl (Downloads.of_empty rfl rfl) (h.prepared.order.imp_right And.right)
    · rw [startsFrom, hstale]
      rfl

/-- Connecting goes on with what is in processing, or starts from the stored filters. -/
theorem Safe.startSync
    (hstart : m.activeBatches.size = 0 → m.progress.committedHeight < m.filterTipHeight →
      m.takeStoredTip.scanStart ≤ m.takeStoredTip.progress.filterHeaderTipHeight →
      m.takeStoredTip.CanStart now accepts) :
    (m.startSync scheme now accepts).1.Safe scheme := by
  unfold FiltersManager.startSync
  split_ifs with hbusy
  · have hsent := h.prepared.downloads.pipeline.sendPending m.headerStorage now m.reorgGeneration
      accepts
    unfold sendThen sendPending
    generalize m.filterPipeline.sendPending m.headerStorage now m.reorgGeneration accepts = r
      at hsent ⊢
    obtain ⟨p, e | sent⟩ := r
    · exact h.of_pipeline hsent
    · exact (h.of_pipeline hsent).setState .syncing
  rw [not_not] at hbusy
  dsimp only
  split_ifs with hbehind hsynced htarget
  · have hstarted := safe_startDownload h.takeStoredTip hbusy (hstart hbusy hbehind)
    generalize m.takeStoredTip.startDownload scheme now accepts = r at hstarted ⊢
    obtain ⟨m', e | events⟩ := r <;> exact hstarted
  · exact (h.takeStoredTip.of_pipeline (EachBatch.init _ fun hle => by omega)).setState .synced
  · exact (h.takeStoredTip.of_pipeline (EachBatch.init _ fun hle => by omega)).setState .waitForEvents
  · exact h.setState .waitForEvents

/-- A change in the number of peers disconnects the manager or starts it. -/
theorem Safe.networkEvent {connectedCount : Nat} {bestHeight : Option Nat}
    (ha : m.Regular (.networkEvent connectedCount bestHeight now accepts)) :
    (m.handleNetworkEvent scheme connectedCount bestHeight now accepts).1.Safe scheme := by
  unfold handleNetworkEvent
  dsimp only
  obtain ⟨targetHeight, heq⟩ := m.updateBestHeight_eq bestHeight
  have hbest : (m.updateBestHeight bestHeight).Safe scheme := by
    rw [heq]
    exact h.of_progress rfl
  split_ifs with hdisconnect hwaits
  · exact (hbest.setState .waitingForConnections).of_pipeline
      ⟨hbest.prepared.downloads.pipeline.tracked, hbest.prepared.downloads.pipeline.completed⟩
  · refine hbest.startSync fun hidle hbehind => ?_
    refine ha.starts ((m.updateBestHeight bestHeight).takeStoredTip, now, accepts) ?_
    rw [startsFrom, if_pos]
    · rfl
    · rw [heq] at hwaits hidle hbehind
      exact ⟨hdisconnect, hwaits, hidle, hbehind⟩
  · exact hbest

end

/-- A reported reorg leaves nothing in processing. -/
theorem safe_handleChainReorg (haccounted : m.Accounted) (hstored : m.Stored scheme)
    (forkHeight : Nat) : (m.handleChainReorg forkHeight).Safe scheme := by
  obtain ⟨wallet, floor, -, heq⟩ := m.handleChainReorg_eq forkHeight
  rw [heq]
  refine ⟨?_, hstored.congr rfl rfl rfl, ?_⟩
  · exact .of_empty (fun _ => rfl) (fun _ => rfl) haccounted.commits
  · exact prepared_of_idle rfl (Downloads.of_empty rfl rfl) (.inr le_rfl)

/-! ### Surroundings -/

/-- Filters verify against filter headers that agree up to their height. -/
theorem genuine_of_agree {filterHeaders filterHeaders' : SegmentStore (0 : FilterHeader)}
    {filters filters' : SegmentStore ([] : Filter)} {height : Nat} {filter : Filter}
    (h : Genuine scheme filterHeaders filters height filter)
    (hslot : filters'.content.slot height = filters.content.slot height)
    (hagree : ∀ k ≤ height, filterHeaders'.content.slot k = filterHeaders.content.slot k) :
    Genuine scheme filterHeaders' filters' height filter where
  stored := hslot.trans h.stored
  nonempty := h.nonempty
  verified := by
    have hprev : previousFilterHeader filterHeaders' height =
        previousFilterHeader filterHeaders height := by
      unfold previousFilterHeader
      rw [hagree (height - 1) (Nat.sub_le height 1)]
    rw [hprev, hagree height le_rfl]
    exact h.verified

variable {candidate : ForkCandidate}

/-- A cascade cuts filters and filter headers at the same height. -/
theorem Stored.cascade (h : m.Stored scheme)
    (haccepts : m.Accepts candidate) : (m.cascade candidate).Stored scheme := by
  obtain ⟨hhdrs, hfilt⟩ := cascade_content haccepts
  refine ⟨fun k hk => ?_, h.commits⟩
  have hslot : (m.cascade candidate).filterStorage.content.slot k =
      if k ≤ candidate.ancestorHeight then m.filterStorage.content.slot k else [] := by
    rw [hfilt]
    rfl
  by_cases hle : k ≤ candidate.ancestorHeight
  · rw [if_pos hle] at hslot
    rw [hslot]
    refine genuine_of_agree (h.genuine k fun hempty => hk (hslot.trans hempty)) hslot fun j hj => ?_
    rw [hhdrs]
    exact if_pos (hj.trans hle)
  · rw [if_neg hle] at hslot
    exact absurd hslot hk

/-- What a run of regular steps keeps. While a reorg is not reported, only the stored filters
and the commits count. -/
structure Kept (scheme : FilterScheme) (m : FiltersManager blockHash) : Prop where
  accounted : m.Accounted
  stored : m.Stored scheme
  settled : m.history.reorgPending = false → m.Prepared scheme

theorem Safe.kept
    (h : m.Safe scheme) : m.Kept scheme := ⟨h.accounted, h.stored, fun _ => h.prepared⟩

section

variable (h : m.Kept scheme)
include h

/-- Other managers may append filter headers. -/
theorem Kept.stores (headerStorage : PersistentBlockHeaderStorage blockHash)
    {filterHeaderStorage : SegmentStore (0 : FilterHeader)}
    (hagree : ∀ k ≤ m.filterTipHeight,
      filterHeaderStorage.content.slot k = m.filterHeaderStorage.content.slot k) :
    Kept scheme { m with headerStorage, filterHeaderStorage } := by
  have hgenuine : ∀ {height filter}, Genuine scheme m.filterHeaderStorage m.filterStorage height
      filter → Genuine scheme filterHeaderStorage m.filterStorage height filter := fun hold =>
    genuine_of_agree hold rfl fun k hk => hagree k (hk.trans hold.held.le_tip)
  refine ⟨h.accounted.congr (fun _ => rfl) rfl rfl,
    ⟨fun k hk => hgenuine (h.stored.genuine k hk), h.stored.commits⟩, fun hsettled => ?_⟩
  have hp := h.settled hsettled
  refine ⟨⟨hp.downloads.pipeline, hp.downloads.pending⟩, hp.scanned, ?_, hp.order⟩
  intro start batch hget k hlo hhi hle
  rcases hp.loaded start batch hget k hlo hhi hle with ⟨hash, filter, hfound, hold⟩ | hwait
  · exact .inl ⟨hash, filter, hfound, hgenuine hold⟩
  · exact .inr hwait

theorem Kept.wallets (wallet : WalletSet) : Kept scheme { m with wallet } := by
  refine ⟨h.accounted.congr (fun _ => rfl) rfl rfl, h.stored.congr rfl rfl rfl, fun hsettled => ?_⟩
  have hp := h.settled hsettled
  exact ⟨⟨hp.downloads.pipeline, hp.downloads.pending⟩, hp.scanned, hp.loaded, hp.order⟩

theorem Kept.cascade (haccepts : m.Accepts candidate) : (m.cascade candidate).Kept scheme :=
  ⟨h.accounted.congr (fun _ => rfl) rfl rfl, h.stored.cascade haccepts,
    fun hsettled => by simp [FiltersManager.cascade] at hsettled⟩

/-- Regular steps keep it. -/
theorem Kept.step {a : Action blockHash} (ha : m.Regular a) :
    (m.step scheme a).Kept scheme := by
  by_cases hpend : m.history.reorgPending = true
  · -- the manager does nothing but take the report
    have houtside := ha.settled hpend
    cases a with
    | syncEvent event now accepts =>
      cases event with
      | chainReorg forkHeight oldTip newTip generation =>
        exact (safe_handleChainReorg h.accounted h.stored forkHeight).kept
      | _ => simp [Action.outside] at houtside
    | stores headerStorage _ => exact h.stores headerStorage ha.headers
    | cascade candidate => exact h.cascade ha.headers
    | wallets wallet => exact h.wallets wallet
    | _ => simp [Action.outside] at houtside
  have hsafe : m.Safe scheme := ⟨h.accounted, h.stored, h.settled (Bool.eq_false_iff.mpr hpend)⟩
  cases a with
  | message hash filter now accepts =>
    refine Safe.kept ?_
    by_cases hfresh : m.Fresh
    · exact hsafe.message_of_fresh hfresh hash filter
    · refine hsafe.moves (ha.ahead ?_)
        (handleMessage_moves (· = filter) False m hash rfl) ha.content
      simp [processes, hfresh]
  | syncEvent event now accepts =>
    cases event with
    | filterHeadersSyncComplete | filterHeadersStored =>
      exact (hsafe.newFilterHeaders
        ⟨ha.settled, ha.content, ha.ahead, ha.starts, trivial⟩).kept
    | chainReorg forkHeight oldTip newTip generation =>
      exact (safe_handleChainReorg h.accounted h.stored forkHeight).kept
    | blockProcessed hash height wallets newAddresses =>
      refine Safe.kept ?_
      by_cases hfresh : m.Fresh
      · exact hsafe.processed_of_fresh hfresh hash height wallets newAddresses
      · refine hsafe.moves (ha.ahead ?_) (handleBlockProcessed_moves (fun _ => False) False m
          hash height wallets newAddresses) fun _ hfalse => hfalse.elim
        simp [processes, hfresh]
    | _ => exact h
  | tick now accepts => exact (hsafe.tick ha).kept
  | networkEvent connectedCount bestHeight now accepts => exact (hsafe.networkEvent ha).kept
  | stores headerStorage _ => exact h.stores headerStorage ha.headers
  | cascade candidate => exact h.cascade ha.headers
  | wallets wallet => exact h.wallets wallet

end

/-- In every run of regular steps over stores whose filters verify, every committed batch was
scanned with the stored filters of all its heights, verified against the filter headers. -/
theorem run_commits_real (scheme : FilterScheme)
    (headerStorage : PersistentBlockHeaderStorage blockHash)
    (filterHeaderStorage : SegmentStore (0 : FilterHeader))
    (filterStorage : SegmentStore ([] : Filter)) (wallet : WalletSet) (reorgGeneration : Nat)
    (hverified : ∀ h, Held filterStorage h →
      Genuine scheme filterHeaderStorage filterStorage h (filterStorage.content.slot h))
    (actions : List (Action blockHash))
    (hregular : Runs.Along (step scheme) Regular
      (new headerStorage filterHeaderStorage filterStorage wallet reorgGeneration) actions) :
    ∀ c ∈ (Runs.run (step scheme)
        (new headerStorage filterHeaderStorage filterStorage wallet reorgGeneration)
          actions).history.commits,
      c.Real scheme := by
  refine (@Runs.invariant_run _ _ (step scheme) (Kept scheme) Regular
    (fun m a hm ha => hm.step ha) _ actions ?_ hregular).stored.commits
  refine ⟨accounted_new _ _ _ _ _, ⟨hverified, by simp [new]⟩, fun _ => ?_⟩
  exact prepared_of_idle rfl (Downloads.of_empty rfl rfl) (.inl (Nat.zero_le _))

end FiltersManager

namespace FiltersManager.LowWallet

open SparseBlocks

/-- The header of a filter adds its length to the header before. -/
def lengthScheme : FilterScheme where
  filterHash := fun filter => Fin.ofNat _ filter.length
  filterHeader := fun hash previous => previous + hash
  matchAny := fun _ _ _ => false

def walletAt (birthHeight syncedHeight : Nat) : WalletView where
  birthHeight
  syncedHeight
  monitoredAddresses := []
  lastAppliedChainLock := none

/-- Headers and filter headers at heights 0 to 3, and the filters of heights 2 and 3, for a
wallet that was born at height 2. -/
def start : FiltersManager nonceHash :=
  new (PersistentBlockHeaderStorage.storeHashedHeaders ⟨.empty, ∅⟩
      [headerAfter 0 1, headerAfter 1 2, headerAfter 2 3, headerAfter 3 4])
    (SegmentStore.empty.storeItems [1, 2, 3, 4])
    (SegmentStore.empty.storeItemsAtHeight [[7], [8]] 2)
    ((∅ : WalletSet).insert 1 (walletAt 2 1)) 0

/-- The filter headers are complete, and the manager commits the filters it has. -/
def catchUp : List (Action nonceHash) :=
  [.syncEvent (.filterHeadersSyncComplete 3) 0 fun _ => true, .tick 0 fun _ => true]

/-- Then a wallet is added that was born at height 0. -/
def addWallet : List (Action nonceHash) :=
  catchUp ++ [.wallets (((∅ : WalletSet).insert 1 (walletAt 2 3)).insert 2 (walletAt 0 0)),
    .tick 0 fun _ => true, .tick 0 fun _ => true]

/-- The filters that the manager starts with verify. -/
theorem verified_start (h : Nat) (hheld : Held start.filterStorage h) :
    Genuine lengthScheme start.filterHeaderStorage start.filterStorage h
      (start.filterStorage.content.slot h) := by
  have hslots : start.filterStorage.content.slot 0 = [] ∧
      start.filterStorage.content.slot 1 = [] := by decide +kernel
  have htip : start.filterStorage.cache.tipHeight.getD 0 = 3 := by decide +kernel
  have hle : h ≤ 3 := htip ▸ hheld.le_tip
  refine ⟨rfl, hheld, ?_⟩
  obtain rfl | rfl | rfl | rfl : h = 0 ∨ h = 1 ∨ h = 2 ∨ h = 3 := by omega
  · exact absurd hslots.1 hheld
  · exact absurd hslots.2 hheld
  · decide +kernel
  · decide +kernel

theorem regular_catchUp : Runs.Along (step lengthScheme) Regular start catchUp := by
  refine ⟨⟨?_, ?_, ?_, ?_, ?_⟩, ⟨?_, ?_, ?_, ?_, ?_⟩, trivial⟩
  · decide +kernel
  · exact fun _ hfalse => hfalse.elim
  · decide +kernel
  · intro s hs hle
    obtain rfl := Option.some.inj hs
    refine ⟨?_, ?_, ?_⟩ <;> decide +kernel
  · trivial
  · decide +kernel
  · exact fun _ hfalse => hfalse.elim
  · decide +kernel
  · intro s hs hle
    have hnone : (start.step lengthScheme (.syncEvent (.filterHeadersSyncComplete 3) 0
        fun _ => true)).staleWallets = none := by decide +kernel
    simp [startsFrom, hnone] at hs
  · trivial

/-- The filters stored for the wallet are committed after a scan of them. -/
theorem run_commits_real_catchUp :
    (Runs.run (step lengthScheme) start catchUp).history.commits.map
        (fun c => (c.batch.startHeight, c.batch.endHeight)) = [(2, 3)] ∧
    ∀ c ∈ (Runs.run (step lengthScheme) start catchUp).history.commits, c.Real lengthScheme :=
  ⟨by decide +kernel, run_commits_real lengthScheme _ _ _ _ _ verified_start catchUp regular_catchUp⟩

/-- For the added wallet the manager scans from height 0 with what the store returns, empty
filters at heights 0 and 1, and commits the batch. -/
theorem addWallet_commits_unreal :
    ∃ c ∈ (Runs.run (step lengthScheme) start addWallet).history.commits,
      c.batch.startHeight = 0 ∧ c.batch.endHeight = 3 ∧
      c.scan.map (fun scan => scan.filters.values) = some [[], [], [7], [8]] ∧
      ¬ c.Real lengthScheme := by
  have hlast : (Runs.run (step lengthScheme) start addWallet).history.commits[1]?.map
      (fun c => (c.batch.startHeight, c.batch.endHeight)) = some (0, 3) := by
    decide +kernel
  have hfilt : ((Runs.run (step lengthScheme) start addWallet).history.commits[1]?.bind
      FiltersCommit.scan).map (fun scan => scan.filters.values) = some [[], [], [7], [8]] := by
    decide +kernel
  have hslot : ((Runs.run (step lengthScheme) start addWallet).history.commits[1]?.bind
      FiltersCommit.scan).map (fun scan => scan.filterStorage.content.slot 1) = some [] := by
    decide +kernel
  obtain ⟨c, hc, heq⟩ := map_eq_some_iff.mp hlast
  rw [hc, bind_some] at hfilt hslot
  simp only [Prod.mk.injEq] at heq
  refine ⟨c, List.mem_of_getElem? hc, heq.1, heq.2, hfilt, ?_⟩
  rintro ⟨scan, hscan, hcovers⟩
  rw [hscan, map_some, Option.some.injEq] at hslot
  obtain ⟨_, _, _, hgenuine⟩ := hcovers 1 (by omega) (by omega)
  exact hgenuine.held hslot

end FiltersManager.LowWallet

end Dashcore
