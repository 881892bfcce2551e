import Dashcore.Sync.Filters.Downloads

/-!
# Genuine filters

A stored filter is genuine if it is there and hashes, with the filter header before it, to the
filter header of its height. Verified downloads are genuine. Reading a range of the store gives
the stored filters of all its heights; an empty slot reads as a filter without content, which
is not genuine.
-/

namespace Dashcore

open FiltersPipeline SortedMap SegmentStore

/-- A filter is stored at a height. -/
def Held (filters : SegmentStore ([] : Filter)) (height : Nat) : Prop :=
  filters.content.slot height ≠ []

instance (filters : SegmentStore ([] : Filter)) (height : Nat) : Decidable (Held filters height) :=
  inferInstanceAs (Decidable (_ ≠ _))

/-- The filter header before a height; all zeros before height 0. -/
def previousFilterHeader (filterHeaders : SegmentStore (0 : FilterHeader)) (height : Nat) :
    FilterHeader :=
  if height = 0 then 0 else filterHeaders.content.slot (height - 1)

/-- A filter with content that is stored at a height and verifies against the filter header
there. -/
structure Genuine (scheme : FilterScheme) (filterHeaders : SegmentStore (0 : FilterHeader))
    (filters : SegmentStore ([] : Filter)) (height : Nat) (filter : Filter) : Prop where
  stored : filters.content.slot height = filter
  nonempty : filter ≠ []
  verified : scheme.headerOf filter (previousFilterHeader filterHeaders height) =
    filterHeaders.content.slot height

/-- A batch has the genuine filter of a height. -/
def Loaded (scheme : FilterScheme) (filterHeaders : SegmentStore (0 : FilterHeader))
    (filters : SegmentStore ([] : Filter)) (batch : FilterMap) (height : Nat) : Prop :=
  ∃ hash filter, batch.get? ⟨height, hash⟩ = some filter ∧
    Genuine scheme filterHeaders filters height filter

variable {scheme : FilterScheme} {filterHeaders : SegmentStore (0 : FilterHeader)}
  {filters : SegmentStore ([] : Filter)} {filter : Filter} {height : Nat}

theorem Genuine.held
    (h : Genuine scheme filterHeaders filters height filter) : Held filters height :=
  fun hempty => h.nonempty (h.stored.symm.trans hempty)

/-- What is stored lies at or below the tip. -/
theorem Held.le_tip (h : Held filters height) :
    height ≤ filters.cache.tipHeight.getD 0 := by
  obtain ⟨start, tip, -, htip, -, hle⟩ := filters.wf.inRange height h
  have hcache : filters.cache.tipHeight = some tip := htip
  rw [hcache, Option.getD_some]
  exact hle

/-! ### Reading -/

/-- Filters entered from a height on are found under their heights and hashes. -/
theorem get?_foldl_insert_range {blockHash : Header → BlockHash} (slot : Nat → Filter)
    (header : Nat → Header) (lo n : Nat) (key : FilterMatchKey) :
    ((((List.range n).map fun i => (slot (lo + i), header (lo + i))).zipIdx lo).foldl
      (fun filters item => filters.insert ⟨item.2, blockHash item.1.2⟩ item.1.1)
      (∅ : FilterMap)).get? key =
      if lo ≤ key.height ∧ key.height < lo + n ∧ blockHash (header key.height) = key.hash then
        some (slot key.height)
      else none := by
  induction n with
  | zero => exact (if_neg fun h => by omega).symm
  | succ n ih =>
    rw [List.range_succ, List.map_append, List.zipIdx_append, List.foldl_append]
    simp only [List.length_map, List.length_range, List.map_singleton, List.zipIdx_singleton,
      List.foldl_cons, List.foldl_nil, get?_insert, ih]
    obtain ⟨height, hash⟩ := key
    simp only [FilterMatchKey.mk.injEq]
    -- the key is that of the last height, or was there before
    by_cases hlast : lo + n = height
    · subst hlast
      simp
    · simp only [hlast, false_and, if_false, show height < lo + (n + 1) ↔ height < lo + n by omega]

namespace FiltersManager

variable {blockHash : Header → BlockHash} {m : FiltersManager blockHash} {loaded : FilterMap}
  {lo hi : Nat}

/-- A range that can be read gives the slots of its heights, and nothing else. -/
theorem loadFilters_get? (h : m.loadFilters lo hi = .ok loaded) (key : FilterMatchKey) :
    loaded.get? key =
      if lo ≤ key.height ∧ key.height ≤ hi ∧
          blockHash (m.headerStorage.chain.slot key.height).header = key.hash then
        some (m.filterStorage.content.slot key.height)
      else none := by
  unfold loadFilters at h
  split at h
  · cases h
  · cases h
  · next filters headers hfilt hhdrs =>
    obtain ⟨hle, rfl⟩ := getItems_ok hfilt
    obtain ⟨-, rfl⟩ := PersistentBlockHeaderStorage.loadHeaders_ok hhdrs
    rw [← Except.ok.inj h, List.zip_map']
    rw [get?_foldl_insert_range m.filterStorage.content.slot
      (fun h => (m.headerStorage.chain.slot h).header)]
    simp only [show lo + (hi + 1 - lo) = hi + 1 by omega, Nat.lt_succ_iff]

variable {key : FilterMatchKey}

/-- The filters of a range that can be read lie in it. -/
theorem loadFilters_ranged (h : m.loadFilters lo hi = .ok loaded) (hkey : loaded.contains key = true) :
    lo ≤ key.height ∧ key.height ≤ hi := by
  rw [contains, loadFilters_get? h] at hkey
  split_ifs at hkey with hin
  · exact ⟨hin.1, hin.2.1⟩
  · cases hkey

variable {height : Nat}

/-- A range without empty slots is loaded with genuine filters, if those stored are genuine. -/
theorem loadFilters_loaded (hgenuine : ∀ h, Held m.filterStorage h →
      Genuine scheme m.filterHeaderStorage m.filterStorage h (m.filterStorage.content.slot h))
    (h : m.loadFilters lo hi = .ok loaded) (hlo : lo ≤ height) (hhi : height ≤ hi) (hheld : Held m.filterStorage height) :
    Loaded scheme m.filterHeaderStorage m.filterStorage loaded height := by
  have hget := loadFilters_get? h ⟨height, blockHash (m.headerStorage.chain.slot height).header⟩
  rw [if_pos ⟨hlo, hhi, rfl⟩] at hget
  exact ⟨_, _, hget, hgenuine height hheld⟩

/-! ### Verifying -/

/-- The filter header before a batch, if it can be read. -/
theorem getPrevFilterHeader_ok {header : FilterHeader}
    (h : m.getPrevFilterHeader height = .ok header) :
    header = previousFilterHeader m.filterHeaderStorage height := by
  unfold getPrevFilterHeader at h
  unfold previousFilterHeader
  split_ifs at h ⊢ with hzero
  · exact (Except.ok.inj h).symm
  split at h
  · split_ifs at h
    split at h
    · simp at h
    · next items hitems =>
      obtain ⟨-, hslots⟩ := getItems_ok hitems
      have hone : height - (height - 1) = 1 := by omega
      rw [hone] at hslots
      simp only [hslots, List.range_one, List.map_singleton, Nat.add_zero, List.head?_cons] at h
      exact (Except.ok.inj h).symm
  · simp at h

variable {batch : FiltersBatch}

/-- A filter of a verified batch verifies against the filter header of its height. -/
theorem verifyBatch_ok (h : m.verifyBatch scheme batch = .ok ()) (hget : batch.filters.get? key = some filter) :
    scheme.headerOf filter (previousFilterHeader m.filterHeaderStorage key.height) =
      m.filterHeaderStorage.content.slot key.height := by
  unfold verifyBatch at h
  cases hhdrs : m.filterHeaderStorage.getItems batch.startHeight (batch.endHeight + 1) with
  | error e => simp [hhdrs] at h
  | ok headers =>
    cases hprev : m.getPrevFilterHeader batch.startHeight with
    | error e => simp [hhdrs, hprev] at h
    | ok prev =>
      simp only [hhdrs, hprev] at h
      split_ifs at h with hfailures
      -- the filter is not among the failures
      have hvalid : validFilter scheme batch.startHeight headers prev key filter = true := by
        by_contra hinvalid
        have hmem : key ∈ (batch.filters.filter fun key filter =>
            !validFilter scheme batch.startHeight headers prev key filter).keys := by
          rw [mem_keys_iff]
          refine ⟨filter, ?_⟩
          rw [get?_filter, hget, Option.filter_some, if_pos (by simpa using hinvalid)]
        rw [hfailures] at hmem
        exact List.not_mem_nil hmem
      obtain ⟨-, hslots⟩ := getItems_ok hhdrs
      have hprevious := getPrevFilterHeader_ok hprev
      simp only [validFilter, Bool.and_eq_true, decide_eq_true_eq] at hvalid
      obtain ⟨hle, hvalid⟩ := hvalid
      obtain ⟨i, hi⟩ := Nat.exists_eq_add_of_le hle
      rw [hi, Nat.add_sub_cancel_left] at hvalid
      by_cases hlt : i < batch.endHeight + 1 - batch.startHeight
      · have hexp : headers[i]? =
            some (m.filterHeaderStorage.content.slot (batch.startHeight + i)) := by
          simp [hslots, hlt]
        have hbefore : (prev :: headers)[i]? =
            some (previousFilterHeader m.filterHeaderStorage (batch.startHeight + i)) := by
          cases i with
          | zero => rw [List.getElem?_cons_zero, hprevious, Nat.add_zero]
          | succ i =>
            have hlt' : i < batch.endHeight + 1 - batch.startHeight := by omega
            rw [List.getElem?_cons_succ, hslots, List.getElem?_map, List.getElem?_range hlt']
            simp [previousFilterHeader]
        rw [hbefore, hexp] at hvalid
        rw [hi]
        exact of_decide_eq_true hvalid
      · have hnone : headers[i]? = none := by simp [hslots, Nat.not_lt.mp hlt]
        rw [hnone] at hvalid
        cases hother : (prev :: headers)[i]? <;> simp [hother] at hvalid

/-! ### Storing -/

section

variable (store : SegmentStore ([] : Filter))

theorem slot_storeItemsAtHeight (filter : Filter)
    (height h : Nat) :
    (store.storeItemsAtHeight [filter] height).content.slot h =
      if h = height then filter else store.content.slot h := by
  rw [storeItemsAtHeight, content, store.wf.consistent.storeItemsAtHeight_content]
  simp only [HeightMap.storeAt, List.isEmpty_cons, Bool.false_eq_true, if_false]
  by_cases hsame : h = height
  · subst hsame
    simp
  · split_ifs with hle
    · have hout : [filter][h - height]? = none := by
        rw [List.getElem?_eq_none_iff, List.length_singleton]
        omega
      rw [hout, Option.getD_none]
      rfl
    · rfl

/-- After filters were written, a height has one of those written there, or what it had. -/
theorem slot_storeFilters (filters : FilterMap) (h : Nat) :
    (∃ key filter, filters.get? key = some filter ∧ key.height = h ∧
      (storeFilters store filters).content.slot h = filter) ∨
    ((∀ key filter, filters.get? key = some filter → key.height ≠ h) ∧
      (storeFilters store filters).content.slot h = store.content.slot h) := by
  have hfold : ∀ (entries : List ((_ : FilterMatchKey) × Filter))
      (store : SegmentStore ([] : Filter)),
      (∃ e ∈ entries, e.1.height = h ∧ (entries.foldl
        (fun s e => s.storeItemsAtHeight [e.2] e.1.height) store).content.slot h = e.2) ∨
      ((∀ e ∈ entries, e.1.height ≠ h) ∧ (entries.foldl
        (fun s e => s.storeItemsAtHeight [e.2] e.1.height) store).content.slot h =
          store.content.slot h) := by
    intro entries
    induction entries with
    | nil => exact fun store => .inr ⟨by simp, rfl⟩
    | cons first rest ih =>
      intro store
      obtain ⟨e, he, hheight, hslot⟩ | ⟨hnone, hslot⟩ :=
        ih (store.storeItemsAtHeight [first.2] first.1.height)
      · exact .inl ⟨e, List.mem_cons_of_mem first he, hheight, hslot⟩
      · rw [slot_storeItemsAtHeight] at hslot
        split_ifs at hslot with hsame
        · exact .inl ⟨first, List.mem_cons_self, hsame.symm, hslot⟩
        · refine .inr ⟨fun e he => ?_, hslot⟩
          rcases List.mem_cons.mp he with rfl | he
          · exact Ne.symm hsame
          · exact hnone e he
  obtain ⟨e, he, hheight, hslot⟩ | ⟨hnone, hslot⟩ := hfold filters.entries store
  · exact .inl ⟨e.1, e.2, mem_entries_iff.mp he, hheight, hslot⟩
  · refine .inr ⟨fun key filter hget => ?_, hslot⟩
    exact hnone ⟨key, filter⟩ (mem_entries_iff.mpr hget)

end

/-! ### Downloaded batches -/

/-- A tracker collects filters with content, of its own heights. -/
def Filled (start : Nat) (tracker : BatchTracker) : Prop :=
  tracker.Backed ∧ ∀ key filter, tracker.filters.get? key = some filter →
    start ≤ key.height ∧ key.height ≤ tracker.endHeight ∧ filter ≠ []

theorem filled_new (start stop : Nat) : Filled start (.new stop) :=
  ⟨BatchTracker.backed_new stop, fun _ _ hget => by simp [BatchTracker.new] at hget⟩

variable {start : Nat}

theorem Filled.insertFilter {tracker : BatchTracker}
    (h : Filled start tracker) (hstart : start ≤ height) (hend : height ≤ tracker.endHeight)
    (hash : BlockHash) (hfilter : filter ≠ []) :
    Filled start (tracker.insertFilter height hash filter) :=
  ⟨h.1.insertFilter height hash filter, forall_get?_insert h.2 ⟨hstart, hend, hfilter⟩⟩

/-- A downloaded batch has filters with content for exactly its heights. -/
structure Download (start : Nat) (batch : FiltersBatch) : Prop where
  start_eq : batch.startHeight = start
  unverified : batch.verified = false
  full : batch.Full
  inside : ∀ key filter, batch.filters.get? key = some filter →
    batch.startHeight ≤ key.height ∧ key.height ≤ batch.endHeight ∧ filter ≠ []

theorem Download.of_completed (h : CompletedFrom Filled start batch) : Download start batch := by
  obtain ⟨tracker, hfilled, hcomp, rfl⟩ := h
  exact ⟨rfl, rfl, hfilled.1.full hcomp, hfilled.2⟩

/-- Storing a verified batch: its heights have genuine filters of the batch, and the others
are as before. -/
theorem storeFilters_genuine (hbatch : Download start batch)
    (hverify : m.verifyBatch scheme batch = .ok ()) (h : Nat) :
    (batch.startHeight ≤ h ∧ h ≤ batch.endHeight ∧
      Loaded scheme m.filterHeaderStorage (storeFilters m.filterStorage batch.filters)
        batch.filters h) ∨
    (¬ (batch.startHeight ≤ h ∧ h ≤ batch.endHeight) ∧
      (storeFilters m.filterStorage batch.filters).content.slot h =
        m.filterStorage.content.slot h) := by
  obtain ⟨key, filter, hget, rfl, hslot⟩ | ⟨hnone, hslot⟩ :=
    slot_storeFilters m.filterStorage batch.filters h
  · obtain ⟨hstart, hend, hne⟩ := hbatch.inside key filter hget
    exact .inl ⟨hstart, hend, key.hash, filter, hget, hslot, hne, verifyBatch_ok hverify hget⟩
  · refine .inr ⟨fun hrange => ?_, hslot⟩
    obtain ⟨key, filter, hget, hheight⟩ := hbatch.full h hrange.1 hrange.2
    exact hnone key filter hget hheight

end FiltersManager

end Dashcore
