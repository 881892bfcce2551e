import Dashcore.Storage.Consistency

/-!
# What the consistency check repairs

Each repair is a cut, and a cut is refused when the store reaches above the target and starts
above it. What a cut removes depends on the range of heights the store was opened with, so
the check is described here on the maps the stores present, for every set of files.

The check brings the stores into order exactly if no cut on its way is refused and the range
of the filter store covers the filters to be removed. A second check then changes nothing.
-/

namespace Dashcore

open SegmentCache HeightMap Option

/-! ### Cuts on caches of any range -/

section Trim

variable {I : Type} {sentinel : I}

variable (sentinel) in
/-- With nothing queued for deletion, a range of heights can be read. -/
theorem SegmentCache.Sound.getItems {c : SegmentCache I} (hc : c.Sound) (hqueue : c.toDelete = ∅)
    {lo hi : Nat} (hlt : lo < hi) :
    ∃ c', c.getItems sentinel lo hi =
        (c', .ok ((List.range (hi - lo)).map fun k => (c.content sentinel).slot (lo + k))) ∧
      c'.Sound ∧ c'.toDelete = ∅ ∧ c'.disk = c.disk ∧
      c'.content sentinel = c.content sentinel := by
  obtain ⟨hcons, hcont, -, hok⟩ :=
    @SegmentCache.Consistent.getItems I sentinel c hc.consistent lo hi hlt
  exact ⟨_, Prod.ext rfl (hok (by simp [hqueue])),
    ⟨hcons, hc.keyed.getItems sentinel lo hi⟩,
    (hc.consistent.getItems_toDelete lo hi).trans hqueue, c.getItems_disk sentinel lo hi, hcont⟩

variable [DecidableEq I]

/-- A cut is refused without a change, or trims what the cache presents and saves it. -/
theorem SegmentCache.Sound.truncateAndPersist {c : SegmentCache I} (hc : c.Sound) (target : Nat) :
    ((c.content sentinel).RefusesCut target ∧
      ∃ e, c.truncateAndPersist sentinel target = (c, .error e)) ∨
    (¬ (c.content sentinel).RefusesCut target ∧
      ∃ c', c.truncateAbove sentinel target = (c', .ok ()) ∧ c'.persist.Sound ∧
        c'.persist.toDelete = ∅ ∧
        c'.persist.content sentinel = (c.content sentinel).trim sentinel target ∧
        c.truncateAndPersist sentinel target = (c'.persist, .ok ())) := by
  obtain ⟨hrefuse, e, heq⟩ | ⟨haccept, c', hc', hcont, heq⟩ :=
    hc.consistent.truncateAbove sentinel target
  · exact .inl ⟨hrefuse, e, by simp only [SegmentCache.truncateAndPersist, heq]⟩
  · have hk := hc.keyed.truncateAbove sentinel target
    rw [heq] at hk
    obtain ⟨hpc, hpcontent⟩ := @SegmentCache.Consistent.persist I sentinel c' hc' hk
    exact .inr ⟨haccept, c', heq, ⟨hpc, hk.persist⟩, rfl, hpcontent.trans hcont, by
      simp only [SegmentCache.truncateAndPersist, heq]⟩

theorem SegmentCache.Sound.getItem {c : SegmentCache I} (hc : c.Sound) (height : Nat) :
    (c.getItem sentinel height).1.Sound ∧
    (c.getItem sentinel height).1.content sentinel = c.content sentinel ∧
    ((c.getItem sentinel height).2 = none ↔ (c.content sentinel).slot height = sentinel) := by
  obtain ⟨hc', hcont, hresult⟩ := hc.consistent.getItem height
  refine ⟨⟨hc', hc.keyed.getItem sentinel height⟩, hcont, ?_⟩
  rw [hresult]
  split_ifs with h <;> simp [h]

omit [DecidableEq I] in
theorem SegmentCache.Sound.clearAll {c : SegmentCache I} (hc : c.Sound) :
    c.clearAll.persist.Sound ∧ c.clearAll.persist.tipHeight = none ∧
      ∀ h, (c.clearAll.persist.content sentinel).slot h =
        if heightToSegmentId h ∈ c.knownIds then sentinel else (c.content sentinel).slot h := by
  have hclear : c.clearAll.Sound := by
    obtain ⟨h₁, h₂, h₃, h₄, h₅⟩ := hc.consistent.dropSegments c.knownIds
    obtain ⟨k₁, k₂⟩ := hc.keyed.dropSegments c.knownIds
    exact ⟨⟨h₁, h₂, h₃, h₄, h₅⟩, ⟨k₁, k₂⟩⟩
  obtain ⟨hpc, hpcontent⟩ :=
    @SegmentCache.Consistent.persist I sentinel _ hclear.consistent hclear.keyed
  refine ⟨⟨hpc, hclear.keyed.persist⟩, rfl, fun h => ?_⟩
  rw [hpcontent]
  change (c.dropSegments c.knownIds).view sentinel _ _ = _
  rw [SegmentCache.dropSegments_view]
  split_ifs <;> rfl

end Trim

variable {blockTip : Nat}

namespace DiskStorages

variable {blockHash : Header → BlockHash} {Block : Type} {noBlock : Block}
  {s : DiskStorages blockHash noBlock}

section

variable (s : DiskStorages blockHash noBlock)

theorem andThen_ok (next : DiskStorages blockHash noBlock →
      DiskStorages blockHash noBlock × Except StorageError Unit) :
    andThen (s, .ok ()) next = next s := rfl

theorem andThen_error (e : StorageError)
    (next : DiskStorages blockHash noBlock →
      DiskStorages blockHash noBlock × Except StorageError Unit) :
    andThen (s, .error e) next = (s, .error e) := rfl

end

/-! ### The single repairs -/

/-- Filter headers are cut at the header tip. -/
theorem repairFilterHeaders_spec (hs : s.filterHeaders.Sound)
    (hqueue : s.filterHeaders.toDelete = ∅) (blockTip : Nat) :
    ((s.filterHeaders.content 0).RefusesCut blockTip ∧
      ∃ e, s.repairFilterHeaders blockTip = (s, .error e)) ∨
    (¬ (s.filterHeaders.content 0).RefusesCut blockTip ∧
      ∃ c : SegmentCache FilterHeader, c.Sound ∧ c.toDelete = ∅ ∧
        c.content 0 = (s.filterHeaders.content 0).trim 0 blockTip ∧
        s.repairFilterHeaders blockTip = ({ s with filterHeaders := c }, .ok ())) := by
  unfold repairFilterHeaders
  by_cases hreach : ∃ tip ∈ s.filterHeaders.tipHeight, blockTip < tip
  · obtain ⟨tip, htip, hlt⟩ := hreach
    rw [mem_def] at htip
    simp only [htip, if_pos hlt, cutFilterHeaders]
    obtain ⟨hrefuse, e, heq⟩ | ⟨haccept, c, -, hc, hdel, hcont, heq⟩ :=
      @SegmentCache.Sound.truncateAndPersist _ 0 _ _ hs blockTip
    · exact .inl ⟨hrefuse, e, by rw [heq]⟩
    · exact .inr ⟨haccept, c.persist, hc, hdel, hcont, by rw [heq]⟩
  · push Not at hreach
    refine .inr ⟨?_, s.filterHeaders, hs, hqueue, (trim_eq_self hreach).symm, ?_⟩
    · rintro ⟨⟨tip, htip, hlt⟩, -⟩
      exact absurd (hreach tip htip) (not_le.mpr hlt)
    · cases htip : s.filterHeaders.tipHeight with
      | none => rfl
      | some tip => simp only [if_neg (not_lt.mpr (hreach tip htip))]

/-- What the filters are after their repair, below a filter-header tip or without one. -/
def repairedFilters (filters : SegmentCache Filter) : Option Nat → HeightMap Filter
  | some fhBound => (filters.content []).trim [] fhBound
  | none =>
    if 0 < filters.tipHeight.getD 0 then filters.clearAll.persist.content []
    else filters.content []

theorem repairFilters_spec (hs : s.filters.Sound) :
    ((∃ fhBound ∈ s.filterHeaders.tipHeight, (s.filters.content []).RefusesCut fhBound) ∧
      ∃ e, s.repairFilters = (s, .error e)) ∨
    (¬ (∃ fhBound ∈ s.filterHeaders.tipHeight, (s.filters.content []).RefusesCut fhBound) ∧
      ∃ c : SegmentCache Filter, c.Sound ∧
        c.content [] = repairedFilters s.filters s.filterHeaders.tipHeight ∧
        s.repairFilters = ({ s with filters := c }, .ok ())) := by
  unfold repairFilters
  cases hbound : s.filterHeaders.tipHeight with
  | none =>
    refine .inr ⟨by simp, ?_⟩
    by_cases hpos : 0 < s.filters.tipHeight.getD 0
    · obtain ⟨hc, -, -⟩ := @SegmentCache.Sound.clearAll _ [] _ hs
      exact ⟨s.filters.clearAll.persist, hc, (if_pos hpos).symm, by simp only [if_pos hpos]⟩
    · exact ⟨s.filters, hs, (if_neg hpos).symm, by simp only [if_neg hpos]⟩
  | some fhBound =>
    simp only [mem_some_iff, exists_eq_left']
    by_cases hreach : fhBound < s.filters.tipHeight.getD 0
    · simp only [if_pos hreach, cutFilters]
      obtain ⟨hrefuse, e, heq⟩ | ⟨haccept, c, -, hc, -, hcont, heq⟩ :=
        @SegmentCache.Sound.truncateAndPersist _ [] _ _ hs fhBound
      · exact .inl ⟨hrefuse, e, by rw [heq]⟩
      · exact .inr ⟨haccept, c.persist, hc, hcont, by rw [heq]⟩
    · -- without a filter above the bound there is nothing to cut
      have htip : ∀ tip, (s.filters.content []).tip = some tip → tip ≤ fhBound := by
        intro tip htip
        have hget : s.filters.tipHeight = some tip := htip
        rw [hget, getD_some] at hreach
        exact not_lt.mp hreach
      refine .inr ⟨?_, s.filters, hs, (trim_eq_self htip).symm, ?_⟩
      · rintro ⟨⟨tip, hmem, hlt⟩, -⟩
        exact absurd (htip tip hmem) (not_le.mpr hlt)
      · simp only [if_neg hreach]

variable [DecidableEq Block]

/-- A stored block lies in a window above a height. -/
def BlockAbove (noBlock : Block) (m : HeightMap Block) (blockTip : Nat) : Prop :=
  ∃ h, blockTip < h ∧ h ≤ blockTip + probeWindow ∧ m.slot h ≠ noBlock

theorem probeBlocks_spec {c : SegmentCache Block} (hc : c.Sound) (count probe : Nat) :
    (probeBlocks noBlock count probe c).1.Sound ∧
    (probeBlocks noBlock count probe c).1.content noBlock = c.content noBlock ∧
    ((probeBlocks noBlock count probe c).2 = true ↔
      ∃ h, probe ≤ h ∧ h < probe + count ∧ (c.content noBlock).slot h ≠ noBlock) := by
  induction count generalizing c probe with
  | zero =>
    refine ⟨hc, rfl, iff_of_false (by simp [probeBlocks]) ?_⟩
    rintro ⟨h, hle, hlt, -⟩
    omega
  | succ count ih =>
    obtain ⟨hc', hcont, hresult⟩ := @SegmentCache.Sound.getItem _ noBlock _ _ hc probe
    rw [probeBlocks]
    split
    · next c' block heq =>
      rw [heq] at hc' hcont hresult
      refine ⟨hc', hcont, iff_of_true rfl ⟨probe, le_rfl, by omega, ?_⟩⟩
      exact fun hempty => some_ne_none block (hresult.mpr hempty)
    · next c' heq =>
      rw [heq] at hc' hcont hresult
      obtain ⟨hc'', hcont', hfound⟩ := ih hc' (probe + 1)
      refine ⟨hc'', hcont'.trans hcont, ?_⟩
      rw [hfound, hcont]
      constructor
      · rintro ⟨h, hle, hlt, hne⟩
        exact ⟨h, by omega, by omega, hne⟩
      · rintro ⟨h, hle, hlt, hne⟩
        rcases hle.eq_or_lt with heq | hlt'
        · exact absurd (hresult.mp rfl) (heq ▸ hne)
        · exact ⟨h, hlt', by omega, hne⟩

theorem repairBlocksAboveTip_spec (hs : s.blocks.Sound) (blockTip : Nat) :
    (BlockAbove noBlock (s.blocks.content noBlock) blockTip ∧
      (s.blocks.content noBlock).RefusesCut blockTip ∧
      ∃ s' e, s.repairBlocksAboveTip blockTip = (s', .error e)) ∨
    ((BlockAbove noBlock (s.blocks.content noBlock) blockTip →
        ¬ (s.blocks.content noBlock).RefusesCut blockTip) ∧
      ∃ c : SegmentCache Block, c.Sound ∧
        (BlockAbove noBlock (s.blocks.content noBlock) blockTip →
          c.content noBlock = (s.blocks.content noBlock).trim noBlock blockTip) ∧
        (¬ BlockAbove noBlock (s.blocks.content noBlock) blockTip →
          c.content noBlock = s.blocks.content noBlock) ∧
        s.repairBlocksAboveTip blockTip = ({ s with blocks := c }, .ok ())) := by
  obtain ⟨hc, hcont, hfound⟩ :=
    @probeBlocks_spec _ noBlock _ _ hs probeWindow (blockTip + 1)
  have habove : (probeBlocks noBlock probeWindow (blockTip + 1) s.blocks).2 = true ↔
      BlockAbove noBlock (s.blocks.content noBlock) blockTip := by
    rw [hfound]
    constructor <;> rintro ⟨h, hle, hlt, hne⟩ <;> exact ⟨h, by omega, by omega, hne⟩
  unfold repairBlocksAboveTip
  generalize probeBlocks noBlock probeWindow (blockTip + 1) s.blocks = probed at *
  obtain ⟨c, found⟩ := probed
  by_cases hstale : BlockAbove noBlock (s.blocks.content noBlock) blockTip
  · obtain rfl := habove.mpr hstale
    simp only [if_true, cutBlocks]
    obtain ⟨hrefuse, e, heq⟩ | ⟨haccept, c', -, hc', -, hcont', heq⟩ :=
      @SegmentCache.Sound.truncateAndPersist _ noBlock _ _ hc blockTip
    · rw [hcont] at hrefuse
      exact .inl ⟨hstale, hrefuse, _, e, by rw [heq]⟩
    · rw [hcont] at haccept hcont'
      exact .inr ⟨fun _ => haccept, c'.persist, hc', fun _ => hcont',
        fun hnot => absurd hstale hnot, by rw [heq]⟩
  · obtain rfl := Bool.eq_false_iff.mpr (mt habove.mp hstale)
    exact .inr ⟨fun h => absurd h hstale, c, hc, fun h => absurd h hstale, fun _ => hcont,
      rfl⟩

omit [DecidableEq Block] in
/-- The filter headers of an opened store can be read, so the last check changes nothing. -/
theorem checkFilterHeaders_spec (hs : s.filterHeaders.Sound)
    (hqueue : s.filterHeaders.toDelete = ∅) (blockTip : Nat) :
    ∃ c : SegmentCache FilterHeader, c.Sound ∧ c.toDelete = ∅ ∧
      c.content 0 = s.filterHeaders.content 0 ∧
      s.checkFilterHeaders blockTip = ({ s with filterHeaders := c }, .ok ()) := by
  unfold checkFilterHeaders
  cases hstart : s.filterHeaders.startHeight with
  | none => exact ⟨s.filterHeaders, hs, hqueue, rfl, rfl⟩
  | some start =>
    simp only
    by_cases hle : start ≤ s.filterHeaders.tipHeight.getD start
    · obtain ⟨c, hget, hc, hdel, -, hcont⟩ :=
        hs.getItems 0 hqueue (Nat.lt_succ_of_le hle)
      rw [if_pos hle, hget]
      exact ⟨c, hc, hdel, hcont, rfl⟩
    · rw [if_neg hle]
      exact ⟨s.filterHeaders, hs, hqueue, rfl, rfl⟩

/-! ### The repairs below a header tip -/

omit [DecidableEq Block] in
/-- All four caches are sound. -/
structure Sound (s : DiskStorages blockHash noBlock) : Prop where
  blockHeaders : s.blockHeaders.Sound
  filterHeaders : s.filterHeaders.Sound
  filters : s.filters.Sound
  blocks : s.blocks.Sound

section

variable (s : DiskStorages blockHash noBlock)

/-- The filter-header tip after the cut at a header tip. -/
def fhBound (blockTip : Nat) : Option Nat :=
  s.filterHeaders.tipHeight.map (min blockTip)

/-- One of the repairs below a header tip is a refused cut. -/
def RefusesBelow (blockTip : Nat) : Prop :=
  (s.filterHeaders.content 0).RefusesCut blockTip ∨
  (∃ bound ∈ s.fhBound blockTip, (s.filters.content []).RefusesCut bound) ∨
  (BlockAbove noBlock (s.blocks.content noBlock) blockTip ∧
    (s.blocks.content noBlock).RefusesCut blockTip)

end

/-- The stores after the repairs below a header tip. -/
structure RepairedBelow (blockTip : Nat) (s s' : DiskStorages blockHash noBlock) : Prop where
  sound : s'.Sound
  queue : s'.filterHeaders.toDelete = ∅
  blockHeaders : s'.blockHeaders = s.blockHeaders
  headerHashIndex : s'.headerHashIndex = s.headerHashIndex
  filterHeaders : s'.filterHeaders.content 0 = (s.filterHeaders.content 0).trim 0 blockTip
  filters : s'.filters.content [] = repairedFilters s.filters (s.fhBound blockTip)
  staleBlocks : BlockAbove noBlock (s.blocks.content noBlock) blockTip →
    s'.blocks.content noBlock = (s.blocks.content noBlock).trim noBlock blockTip
  freshBlocks : ¬ BlockAbove noBlock (s.blocks.content noBlock) blockTip →
    s'.blocks.content noBlock = s.blocks.content noBlock
  reorgSentinel : s'.reorgSentinel = s.reorgSentinel
  bestChainlock : s'.bestChainlock = (s.clearStaleChainlock blockTip).bestChainlock

theorem repairBelow_spec (hs : s.Sound) (hqueue : s.filterHeaders.toDelete = ∅) (blockTip : Nat) :
    (s.RefusesBelow blockTip ∧ ∃ s' e, s.repairBelow blockTip = (s', .error e)) ∨
    (¬ s.RefusesBelow blockTip ∧
      ∃ s', RepairedBelow blockTip s s' ∧ s.repairBelow blockTip = (s', .ok ())) := by
  unfold repairBelow RefusesBelow
  set s₀ := s.clearStaleChainlock blockTip
  obtain ⟨hrefuse, e, heq⟩ | ⟨haccept, fh, hfh, hfhq, hfhc, heq⟩ :=
    @repairFilterHeaders_spec blockHash Block noBlock s₀ hs.filterHeaders hqueue blockTip
  · refine .inl ⟨.inl hrefuse, s₀, e, ?_⟩
    rw [heq, andThen_error, andThen_error, andThen_error]
  rw [heq, andThen_ok]
  have hbound : fh.tipHeight = s.fhBound blockTip := congrArg HeightMap.tip hfhc
  obtain ⟨⟨bound, hmem, hrefuse⟩, e, heq₁⟩ | ⟨haccept₁, f, hf, hfc, heq₁⟩ :=
    @repairFilters_spec blockHash Block noBlock { s₀ with filterHeaders := fh } hs.filters
  · rw [heq₁, andThen_error, andThen_error]
    exact .inl ⟨.inr (.inl ⟨bound, hbound ▸ hmem, hrefuse⟩), _, e, rfl⟩
  rw [heq₁, andThen_ok]
  obtain ⟨hstale, hrefuse, s', e, heq₂⟩ | ⟨haccept₂, b, hb, hstale, hfresh, heq₂⟩ :=
    @repairBlocksAboveTip_spec blockHash Block noBlock
      { s₀ with filterHeaders := fh, filters := f } _ hs.blocks blockTip
  · refine .inl ⟨.inr (.inr ⟨hstale, hrefuse⟩), s', e, ?_⟩
    rw [heq₂, andThen_error]
  rw [heq₂, andThen_ok]
  obtain ⟨fh', hfh', hfhq', hfhc', heq₃⟩ :=
    @checkFilterHeaders_spec blockHash Block noBlock
      { s₀ with filterHeaders := fh, filters := f, blocks := b } hfh hfhq blockTip
  refine .inr ⟨?_, _, ?_, heq₃⟩
  · rintro (h | ⟨bound, hmem, hrefuse⟩ | ⟨hstale', hrefuse⟩)
    · exact haccept h
    · exact haccept₁ ⟨bound, hbound ▸ hmem, hrefuse⟩
    · exact haccept₂ hstale' hrefuse
  · exact
      { sound := ⟨hs.blockHeaders, hfh', hf, hb⟩
        queue := hfhq'
        blockHeaders := rfl
        headerHashIndex := rfl
        filterHeaders := hfhc'.trans hfhc
        filters := hbound ▸ hfc
        staleBlocks := hstale
        freshBlocks := hfresh
        reorgSentinel := rfl
        bestChainlock := rfl }

/-! ### Recovery from a reorg in progress -/

omit [DecidableEq Block] in
theorem highestValidTipLoop_spec {index : SortedMap BlockHash Nat} {start height : Nat}
    {c : SegmentCache HashedBlockHeader} (hc : c.Sound) :
    (highestValidTipLoop blockHash index start height c).1.Sound ∧
    (highestValidTipLoop blockHash index start height c).1.content (.sentinel blockHash) =
      c.content (.sentinel blockHash) ∧
    (start ≤ height →
      ∃ safeTip, (highestValidTipLoop blockHash index start height c).2 = some safeTip ∧
        start ≤ safeTip ∧ safeTip ≤ height) := by
  induction height generalizing c with
  | zero =>
    refine ⟨hc, rfl, fun hle => ⟨0, ?_, hle, le_rfl⟩⟩
    simp [highestValidTipLoop, Nat.le_zero.mp hle]
  | succ parentHeight ih =>
    rw [highestValidTipLoop]
    by_cases hstart : parentHeight + 1 = start
    · rw [if_pos hstart]
      exact ⟨hc, rfl, fun hle => ⟨start, rfl, le_rfl, hle⟩⟩
    rw [if_neg hstart]
    obtain ⟨hc', hcont, -⟩ :=
      @SegmentCache.Sound.getItem _ (.sentinel blockHash) _ _ hc (parentHeight + 1)
    -- the walk goes on whether the slot is empty or its link is missing
    split
    · next heq =>
      rw [heq] at hc' hcont
      obtain ⟨hc'', hcont', hsafe⟩ := ih hc'
      refine ⟨hc'', hcont'.trans hcont, fun hle => ?_⟩
      obtain ⟨safeTip, hsafe, hge, hle'⟩ := hsafe (by omega)
      exact ⟨safeTip, hsafe, hge, by omega⟩
    · next heq =>
      rw [heq] at hc' hcont
      split_ifs
      · exact ⟨hc', hcont, fun hle => ⟨parentHeight + 1, rfl, hle, le_rfl⟩⟩
      · obtain ⟨hc'', hcont', hsafe⟩ := ih hc'
        refine ⟨hc'', hcont'.trans hcont, fun hle => ?_⟩
        obtain ⟨safeTip, hsafe, hge, hle'⟩ := hsafe (by omega)
        exact ⟨safeTip, hsafe, hge, by omega⟩

/-- A header store is empty, or every height of its range is stored. -/
def HeadersDense (blockHash : Header → BlockHash) (m : HeightMap HashedBlockHeader) : Prop :=
  (m.start = none ∧ m.tip = none) ∨
  ∃ start tip, m.start = some start ∧ m.tip = some tip ∧ start ≤ tip ∧
    ∀ h, start ≤ h → h ≤ tip → m.slot h ≠ .sentinel blockHash

omit [DecidableEq Block] in
theorem highestValidTip_keeps {c : SegmentCache HashedBlockHeader} (hc : c.Sound)
    (index : SortedMap BlockHash Nat) :
    (highestValidTip blockHash c index).1.Sound ∧
    (highestValidTip blockHash c index).1.content (.sentinel blockHash) =
      c.content (.sentinel blockHash) := by
  unfold highestValidTip
  split
  · next tip start _ _ =>
    obtain ⟨hc', hcont, -⟩ := @highestValidTipLoop_spec blockHash index start tip c hc
    exact ⟨hc', hcont⟩
  · exact ⟨hc, rfl⟩

omit [DecidableEq Block] in
/-- The safe tip of a dense store lies in its range. -/
theorem highestValidTip_spec {c : SegmentCache HashedBlockHeader} (hc : c.Sound)
    (hdense : HeadersDense blockHash (c.content (.sentinel blockHash)))
    (index : SortedMap BlockHash Nat) :
    c.tipHeight = none ∧ (highestValidTip blockHash c index).2 = none ∨
      ∃ start tip safeTip, c.startHeight = some start ∧ c.tipHeight = some tip ∧
        (highestValidTip blockHash c index).2 = some safeTip ∧ start ≤ safeTip ∧
        safeTip ≤ tip := by
  unfold highestValidTip
  rcases hdense with ⟨hstart, htip⟩ | ⟨start, tip, hstart, htip, hle, -⟩
  · have htip' : c.tipHeight = none := htip
    rw [htip']
    exact .inl ⟨rfl, rfl⟩
  · have hstart' : c.startHeight = some start := hstart
    have htip' : c.tipHeight = some tip := htip
    obtain ⟨-, -, hsafe⟩ := @highestValidTipLoop_spec blockHash index start tip c hc
    obtain ⟨safeTip, hsafe⟩ := hsafe hle
    rw [hstart', htip']
    exact .inr ⟨start, tip, safeTip, rfl, rfl, hsafe⟩

/-- A store that a sentinel sends back to a height. -/
def recovered {I : Type} [DecidableEq I] (sentinel : I) (reorgSentinel : Bool)
    (c : SegmentCache I) (safeTip : Nat) : SegmentCache I :=
  if reorgSentinel then (c.truncateAbove sentinel safeTip).1.persist else c

/-- The dependent stores after the recovery. -/
def recoveredAt (s : DiskStorages blockHash noBlock) (safeTip : Nat) :
    DiskStorages blockHash noBlock :=
  { s with
    filterHeaders := recovered 0 s.reorgSentinel s.filterHeaders safeTip
    filters := recovered [] s.reorgSentinel s.filters safeTip
    blocks := recovered noBlock s.reorgSentinel s.blocks safeTip }

theorem recoveredAt_of_clear (h : s.reorgSentinel = false)
    (safeTip : Nat) : s.recoveredAt safeTip = s := by
  simp only [recoveredAt, recovered, h, Bool.false_eq_true, if_false]
  rw [← h]

/-- A dependent store refuses to be cut at a height. -/
def RefusesAt (s : DiskStorages blockHash noBlock) (safeTip : Nat) : Prop :=
  (s.filterHeaders.content 0).RefusesCut safeTip ∨ (s.filters.content []).RefusesCut safeTip ∨
    (s.blocks.content noBlock).RefusesCut safeTip

omit [DecidableEq Block] in
theorem cutBlockHeaders_spec (hs : s.blockHeaders.Sound) {target start : Nat}
    (hstart : s.blockHeaders.startHeight = some start) (hle : start ≤ target) :
    ∃ (c : SegmentCache HashedBlockHeader) (index : SortedMap BlockHash Nat), c.Sound ∧
      c.content (.sentinel blockHash) =
        (s.blockHeaders.content (.sentinel blockHash)).trim (.sentinel blockHash) target ∧
      s.cutBlockHeaders target =
        ({ s with blockHeaders := c, headerHashIndex := index }, .ok ()) := by
  obtain ⟨⟨-, start', hstart', hlt⟩, -⟩ | ⟨-, c, htrunc, hc, -, hcont, -⟩ :=
    @SegmentCache.Sound.truncateAndPersist _ (.sentinel blockHash) _ _ hs target
  · have hstart'' : s.blockHeaders.startHeight = some start' := hstart'
    rw [hstart, Option.some.injEq] at hstart''
    omega
  · unfold cutBlockHeaders
    rw [htrunc]
    exact ⟨c.persist, _, hc, hcont, rfl⟩

/-- With a sentinel and a safe tip, all stores are cut there, or the recovery fails. -/
theorem recoverReorg_spec (hs : s.Sound)
    (hdense : HeadersDense blockHash (s.blockHeaders.content (.sentinel blockHash)))
    (hsentinel : s.reorgSentinel = true) {safeTip : Nat}
    (hsafe : (highestValidTip blockHash s.blockHeaders s.headerHashIndex).2 = some safeTip) :
    (s.RefusesAt safeTip ∧ ∃ s' e, s.recoverReorg = (s', .error e)) ∨
    (¬ s.RefusesAt safeTip ∧
      ∃ (c : SegmentCache HashedBlockHeader) (index : SortedMap BlockHash Nat), c.Sound ∧
        c.content (.sentinel blockHash) =
          (s.blockHeaders.content (.sentinel blockHash)).trim (.sentinel blockHash) safeTip ∧
        (s.recoveredAt safeTip).filterHeaders.Sound ∧
        (s.recoveredAt safeTip).filterHeaders.toDelete = ∅ ∧
        (s.recoveredAt safeTip).filters.Sound ∧ (s.recoveredAt safeTip).blocks.Sound ∧
        s.recoverReorg = ({ s.recoveredAt safeTip with
          blockHeaders := c, headerHashIndex := index, reorgSentinel := false }, .ok ())) := by
  obtain ⟨hc₀, hcont₀⟩ := @highestValidTip_keeps blockHash _ hs.blockHeaders s.headerHashIndex
  rcases highestValidTip_spec hs.blockHeaders hdense s.headerHashIndex with
    ⟨-, hnone⟩ | ⟨start, tip, safeTip', hstart, -, hsafe', hge, -⟩
  · rw [hsafe] at hnone
    cases hnone
  rw [hsafe, Option.some.injEq] at hsafe'
  subst hsafe'
  rcases hwalk : highestValidTip blockHash s.blockHeaders s.headerHashIndex with ⟨c₀, safe⟩
  rw [hwalk] at hc₀ hcont₀ hsafe
  subst hsafe
  have hstart₀ : c₀.startHeight = some start :=
    (congrArg HeightMap.start hcont₀).trans hstart
  obtain ⟨c, index, hc, hcont, heq⟩ :=
    @cutBlockHeaders_spec blockHash Block noBlock { s with blockHeaders := c₀ } hc₀ safeTip start
      hstart₀ hge
  rw [hcont₀] at hcont
  unfold recoverReorg RefusesAt
  rw [if_pos hsentinel, hwalk]
  simp only [heq, andThen_ok]
  -- the dependent stores one after the other
  obtain ⟨hrefuse, e, heq₁⟩ | ⟨haccept₁, fh, htrunc₁, hfh, hfhq, -, heq₁⟩ :=
    @SegmentCache.Sound.truncateAndPersist _ 0 _ _ hs.filterHeaders safeTip
  · simp only [cutFilterHeaders, heq₁, andThen_error]
    exact .inl ⟨.inl hrefuse, _, e, rfl⟩
  simp only [cutFilterHeaders, heq₁, andThen_ok]
  obtain ⟨hrefuse, e, heq₂⟩ | ⟨haccept₂, f, htrunc₂, hf, -, -, heq₂⟩ :=
    @SegmentCache.Sound.truncateAndPersist _ [] _ _ hs.filters safeTip
  · simp only [cutFilters, heq₂, andThen_error]
    exact .inl ⟨.inr (.inl hrefuse), _, e, rfl⟩
  simp only [cutFilters, heq₂, andThen_ok]
  obtain ⟨hrefuse, e, heq₃⟩ | ⟨haccept₃, b, htrunc₃, hb, -, -, heq₃⟩ :=
    @SegmentCache.Sound.truncateAndPersist _ noBlock _ _ hs.blocks safeTip
  · simp only [cutBlocks, heq₃, andThen_error]
    exact .inl ⟨.inr (.inr hrefuse), _, e, rfl⟩
  simp only [cutBlocks, heq₃, andThen_ok]
  refine .inr ⟨?_, c, index, hc, hcont, ?_, ?_, ?_, ?_, ?_⟩
  · rintro (h | h | h)
    · exact haccept₁ h
    · exact haccept₂ h
    · exact haccept₃ h
  all_goals simp only [recoveredAt, recovered, hsentinel, if_true, htrunc₁, htrunc₂, htrunc₃]
  · exact hfh
  · exact hfhq
  · exact hf
  · exact hb

/-! ### The whole check -/

section

variable (s : DiskStorages blockHash noBlock)

/-- The header tip that the repairs start from: the stored one, or with a sentinel the safe
tip. -/
def repairTip : Option Nat :=
  if s.reorgSentinel then (highestValidTip blockHash s.blockHeaders s.headerHashIndex).2
  else s.blockHeaders.tipHeight

/-- Every filter to be removed lies where the repair of the filters removes. -/
def FiltersCovered (blockTip : Nat) : Prop :=
  match s.fhBound blockTip with
  | some bound => ∀ h, (s.filters.content []).slot h ≠ [] → bound < h →
      ∃ tip ∈ s.filters.tipHeight, bound < tip ∧ heightToSegmentId h ≤ heightToSegmentId tip
  | none => ∀ h, (s.filters.content []).slot h ≠ [] →
      0 < s.filters.tipHeight.getD 0 ∧ heightToSegmentId h ∈ s.filters.knownIds

/-- No cut on the way of the check is refused, and every filter to be removed is covered. -/
def Repairable : Prop :=
  ∀ blockTip, s.repairTip = some blockTip →
    (s.reorgSentinel = true → ¬ s.RefusesAt blockTip) ∧
    ¬ (s.recoveredAt blockTip).RefusesBelow blockTip ∧
    (s.recoveredAt blockTip).FiltersCovered blockTip

end

/-- The order between the stores that the check establishes. -/
structure Ordered (s : DiskStorages blockHash noBlock) (blockTip : Nat) : Prop where
  filterHeaders : ∀ fhTip, s.filterHeaders.tipHeight = some fhTip → fhTip ≤ blockTip
  filters : ∀ h, (s.filters.content []).slot h ≠ [] →
    ∃ fhTip, s.filterHeaders.tipHeight = some fhTip ∧ h ≤ fhTip
  reorgSentinel : s.reorgSentinel = false

/-- The stores present the same and the metadata are the same. -/
structure SameContents (s s' : DiskStorages blockHash noBlock) : Prop where
  blockHeaders : s'.blockHeaders.content (.sentinel blockHash) =
    s.blockHeaders.content (.sentinel blockHash)
  headerHashIndex : s'.headerHashIndex = s.headerHashIndex
  filterHeaders : s'.filterHeaders.content 0 = s.filterHeaders.content 0
  filters : s'.filters.content [] = s.filters.content []
  blocks : s'.blocks.content noBlock = s.blocks.content noBlock
  reorgSentinel : s'.reorgSentinel = s.reorgSentinel
  bestChainlock : s'.bestChainlock = s.bestChainlock

/-- The check succeeds and, with a header tip, leaves the stores ordered and as a second
check leaves them. -/
def Succeeds (s : DiskStorages blockHash noBlock) : Prop :=
  s.checkAndRepairConsistency.2 = .ok () ∧
  ∀ blockTip, s.checkAndRepairConsistency.1.blockHeaders.tipHeight = some blockTip →
    s.checkAndRepairConsistency.1.Ordered blockTip ∧
    s.checkAndRepairConsistency.1.checkAndRepairConsistency.2 = .ok () ∧
    SameContents s.checkAndRepairConsistency.1
      s.checkAndRepairConsistency.1.checkAndRepairConsistency.1

omit [DecidableEq Block] in
theorem trim_tip_le {I : Type} {sentinel : I} {m : HeightMap I} {target tip : Nat}
    (h : (m.trim sentinel target).tip = some tip) : tip ≤ target := by
  obtain ⟨tip', -, rfl⟩ := map_eq_some_iff.mp h
  exact min_le_left _ _

/-- Stores that the repairs below a header tip leave alone. -/
structure Settled (s : DiskStorages blockHash noBlock) (blockTip : Nat) : Prop where
  filterHeaders : ∀ tip, s.filterHeaders.tipHeight = some tip → tip ≤ blockTip
  filters : ∀ bound, s.filterHeaders.tipHeight = some bound →
    ∀ tip, s.filters.tipHeight = some tip → tip ≤ bound
  noFilters : s.filterHeaders.tipHeight = none → s.filters.tipHeight.getD 0 = 0
  blocks : BlockAbove noBlock (s.blocks.content noBlock) blockTip →
    ∀ tip, s.blocks.tipHeight = some tip → tip ≤ blockTip
  bestChainlock : (s.clearStaleChainlock blockTip).bestChainlock = s.bestChainlock

omit [DecidableEq Block] in
theorem clearStaleChainlock_idem (s s' : DiskStorages blockHash noBlock) (blockTip : Nat)
    (h : s'.bestChainlock = (s.clearStaleChainlock blockTip).bestChainlock) :
    (s'.clearStaleChainlock blockTip).bestChainlock = s'.bestChainlock := by
  simp only [clearStaleChainlock] at h ⊢
  rw [h]
  cases s.bestChainlock with
  | none => rfl
  | some stored =>
    cases stored with
    | unreadable => rfl
    | lock blockHeight =>
      by_cases hlt : blockTip < blockHeight <;> simp [hlt]

omit [DecidableEq Block] in
theorem RepairedBelow.settled {s' : DiskStorages blockHash noBlock}
    (hr : RepairedBelow blockTip s s') : s'.Settled blockTip := by
  have hbound : s'.filterHeaders.tipHeight = s.fhBound blockTip :=
    congrArg HeightMap.tip hr.filterHeaders
  have hfilt : s'.filters.tipHeight = (repairedFilters s.filters (s.fhBound blockTip)).tip :=
    congrArg HeightMap.tip hr.filters
  refine ⟨fun tip htip => ?_, fun bound htip tip hf => ?_, fun hnone => ?_, fun hstale tip htip => ?_,
    clearStaleChainlock_idem s s' blockTip hr.bestChainlock⟩
  · exact trim_tip_le ((congrArg HeightMap.tip hr.filterHeaders).symm.trans htip)
  · rw [hbound] at htip
    rw [hfilt, htip] at hf
    exact trim_tip_le hf
  · rw [hbound] at hnone
    rw [hfilt, hnone]
    unfold repairedFilters
    by_cases hpos : 0 < s.filters.tipHeight.getD 0
    · rw [if_pos hpos]
      rfl
    · rw [if_neg hpos]
      exact Nat.eq_zero_of_not_pos hpos
  · by_cases habove : BlockAbove noBlock (s.blocks.content noBlock) blockTip
    · exact trim_tip_le ((congrArg HeightMap.tip (hr.staleBlocks habove)).symm.trans htip)
    · rw [hr.freshBlocks habove] at hstale
      exact absurd hstale habove

/-- Repairs of settled stores change nothing. -/
theorem Settled.repairBelow (hs : s.Sound)
    (hqueue : s.filterHeaders.toDelete = ∅) (hsettled : s.Settled blockTip) :
    ∃ s', SameContents s s' ∧ s.repairBelow blockTip = (s', .ok ()) := by
  have hfh : (s.filterHeaders.content 0).trim 0 blockTip = s.filterHeaders.content 0 :=
    trim_eq_self hsettled.filterHeaders
  have hbound : s.fhBound blockTip = s.filterHeaders.tipHeight := congrArg HeightMap.tip hfh
  have hblocks : BlockAbove noBlock (s.blocks.content noBlock) blockTip →
      (s.blocks.content noBlock).trim noBlock blockTip = s.blocks.content noBlock :=
    fun habove => trim_eq_self (hsettled.blocks habove)
  obtain ⟨hrefuse, -⟩ | ⟨-, s', hr, heq⟩ := repairBelow_spec hs hqueue blockTip
  · -- every cut would be at or above the tip of its store
    exfalso
    rcases hrefuse with ⟨⟨tip, htip, hlt⟩, -⟩ | ⟨bound, hmem, ⟨tip, htip, hlt⟩, -⟩ |
      ⟨habove, ⟨tip, htip, hlt⟩, -⟩
    · exact absurd (hsettled.filterHeaders tip htip) (not_le.mpr hlt)
    · rw [hbound] at hmem
      exact absurd (hsettled.filters bound hmem tip htip) (not_le.mpr hlt)
    · exact absurd (hsettled.blocks habove tip htip) (not_le.mpr hlt)
  · have hfilt : repairedFilters s.filters (s.fhBound blockTip) = s.filters.content [] := by
      rw [hbound]
      cases htip : s.filterHeaders.tipHeight with
      | some bound => exact trim_eq_self (hsettled.filters bound htip)
      | none =>
        apply if_neg
        rw [hsettled.noFilters htip]
        exact Nat.lt_irrefl 0
    refine ⟨s', ?_, heq⟩
    exact
      { blockHeaders := congrArg _ hr.blockHeaders
        headerHashIndex := hr.headerHashIndex
        filterHeaders := hr.filterHeaders.trans hfh
        filters := hr.filters.trans hfilt
        blocks := by
          by_cases habove : BlockAbove noBlock (s.blocks.content noBlock) blockTip
          · exact (hr.staleBlocks habove).trans (hblocks habove)
          · exact hr.freshBlocks habove
        reorgSentinel := hr.reorgSentinel
        bestChainlock := hr.bestChainlock.trans hsettled.bestChainlock }

omit [DecidableEq Block] in
/-- After the repairs no filter lies above the filter headers exactly if the repair covers
those that do. -/
theorem RepairedBelow.filters_iff {s' : DiskStorages blockHash noBlock}
    (hr : RepairedBelow blockTip s s') (hs : s.filters.Sound) :
    (∀ h, (s'.filters.content []).slot h ≠ [] →
        ∃ fhTip, s'.filterHeaders.tipHeight = some fhTip ∧ h ≤ fhTip) ↔
      s.FiltersCovered blockTip := by
  have hbound : s'.filterHeaders.tipHeight = s.fhBound blockTip :=
    congrArg HeightMap.tip hr.filterHeaders
  rw [hbound, hr.filters]
  unfold FiltersCovered
  cases s.fhBound blockTip with
  | some bound =>
    simp only [repairedFilters, HeightMap.trim, Option.some.injEq, exists_eq_left']
    constructor
    · intro hall h hne hlt
      by_contra huncovered
      have hkept := hall h (by rwa [if_neg fun hcut => huncovered hcut.2])
      omega
    · intro hcovered h hne
      by_contra hnot
      apply hne
      by_cases hempty : (s.filters.content []).slot h = []
      · rw [hempty, ite_self]
      · exact if_pos ⟨not_le.mp hnot, hcovered h hempty (not_le.mp hnot)⟩
  | none =>
    obtain ⟨-, -, hclear⟩ := @SegmentCache.Sound.clearAll _ [] _ hs
    simp only [reduceCtorEq, false_and, exists_false, imp_false, not_not]
    by_cases hpos : 0 < s.filters.tipHeight.getD 0
    · have hcleared : repairedFilters s.filters none = s.filters.clearAll.persist.content [] :=
        if_pos hpos
      simp only [hcleared, hclear, hpos, true_and]
      constructor
      · intro hall h hne
        by_contra hunknown
        exact hne (by simpa only [if_neg hunknown] using hall h)
      · intro hknown h
        by_cases hempty : (s.filters.content []).slot h = []
        · rw [hempty, ite_self]
        · exact if_pos (hknown h hempty)
    · have hkept : repairedFilters s.filters none = s.filters.content [] := if_neg hpos
      simp only [hkept, hpos, false_and, imp_false, not_not]

/-- How a check ends. -/
theorem checkAndRepairConsistency_cases (hs : s.Sound)
    (hqueue : s.filterHeaders.toDelete = ∅)
    (hdense : HeadersDense blockHash (s.blockHeaders.content (.sentinel blockHash))) :
    (s.repairTip = none ∧ s.checkAndRepairConsistency.2 = .ok () ∧
      s.checkAndRepairConsistency.1.blockHeaders.tipHeight = none) ∨
    ∃ blockTip, s.repairTip = some blockTip ∧
      ((((s.reorgSentinel = true ∧ s.RefusesAt blockTip) ∨
          (s.recoveredAt blockTip).RefusesBelow blockTip) ∧
        ∃ s' e, s.checkAndRepairConsistency = (s', .error e)) ∨
      (¬ (s.reorgSentinel = true ∧ s.RefusesAt blockTip) ∧
        ¬ (s.recoveredAt blockTip).RefusesBelow blockTip ∧
        ∃ c index s', (c : SegmentCache HashedBlockHeader).tipHeight = some blockTip ∧
          (s.recoveredAt blockTip).filters.Sound ∧
          RepairedBelow blockTip { s.recoveredAt blockTip with
            blockHeaders := c, headerHashIndex := index, reorgSentinel := false } s' ∧
          s.checkAndRepairConsistency = (s', .ok ()))) := by
  unfold checkAndRepairConsistency repairTip
  by_cases hsentinel : s.reorgSentinel = true
  · obtain ⟨-, hcont₀⟩ := @highestValidTip_keeps blockHash _ hs.blockHeaders s.headerHashIndex
    rcases highestValidTip_spec hs.blockHeaders hdense s.headerHashIndex with
      ⟨htip, hnone⟩ | ⟨start, tip, safeTip, hstart, htip, hsafe, hge, hle⟩
    · refine .inl ⟨by rw [if_pos hsentinel, hnone], ?_⟩
      rcases hwalk : highestValidTip blockHash s.blockHeaders s.headerHashIndex with ⟨c₀, safe⟩
      rw [hwalk] at hcont₀ hnone
      subst hnone
      have htip₀ : c₀.tipHeight = none := (congrArg HeightMap.tip hcont₀).trans htip
      have hrecover : s.recoverReorg =
          ({ s with blockHeaders := c₀, reorgSentinel := false }, .ok ()) := by
        unfold recoverReorg
        rw [if_pos hsentinel, hwalk]
      rw [hrecover, andThen_ok]
      simp only [htip₀, and_self]
    · refine .inr ⟨safeTip, by rw [if_pos hsentinel, hsafe], ?_⟩
      obtain ⟨hrefuse, s', e, heq⟩ | ⟨haccept, c, index, hc, hcont, hfh, hfhq, hf, hb, heq⟩ :=
        recoverReorg_spec hs hdense hsentinel hsafe
      · rw [heq, andThen_error]
        exact .inl ⟨.inl ⟨hsentinel, hrefuse⟩, s', e, rfl⟩
      · have hctip : c.tipHeight = some safeTip := by
          have := congrArg HeightMap.tip hcont
          simpa [HeightMap.trim, content, htip, hle] using this
        rw [heq, andThen_ok]
        simp only [hctip]
        obtain ⟨hrefuse, s', e, heq'⟩ | ⟨haccept', s', hr, heq'⟩ :=
          @repairBelow_spec blockHash Block noBlock { s.recoveredAt safeTip with
            blockHeaders := c, headerHashIndex := index, reorgSentinel := false } _
            ⟨hc, hfh, hf, hb⟩ hfhq safeTip
        · exact .inl ⟨.inr hrefuse, s', e, heq'⟩
        · exact .inr ⟨fun h => haccept h.2, haccept', c, index, s', hctip, hf, hr, heq'⟩
  · have hclear : s.reorgSentinel = false := Bool.eq_false_iff.mpr hsentinel
    have hrecover : s.recoverReorg = (s, .ok ()) := if_neg hsentinel
    rw [if_neg hsentinel, hrecover, andThen_ok]
    cases htip : s.blockHeaders.tipHeight with
    | none => exact .inl ⟨rfl, rfl, htip⟩
    | some blockTip =>
      refine .inr ⟨blockTip, rfl, ?_⟩
      rw [recoveredAt_of_clear hclear]
      obtain ⟨hrefuse, s', e, heq⟩ | ⟨haccept, s', hr, heq⟩ := repairBelow_spec hs hqueue blockTip
      · exact .inl ⟨.inr hrefuse, s', e, heq⟩
      · refine .inr ⟨fun h => hsentinel h.1, haccept, s.blockHeaders, s.headerHashIndex, s', htip,
          hs.filters, ?_, heq⟩
        rw [← hclear]
        exact hr

/-! ### Opened stores -/

omit [DecidableEq Block] in
/-- Opening the header files succeeds, and the store presents them. The index is right if no
two headers of the range have the same hash. -/
theorem openBlockHeaders_spec (disk : SortedMap Nat (Slots HashedBlockHeader)) (clock : Nat) :
    ∃ c index, openBlockHeaders blockHash disk clock = .ok (c, index) ∧
      Opened (.sentinel blockHash) disk c ∧
      c.content (.sentinel blockHash) =
        (loadOrNew (.sentinel blockHash) disk clock).content (.sentinel blockHash) ∧
      ((c.content (.sentinel blockHash)).HoldsOnce →
        Indexes index (c.content (.sentinel blockHash))) := by
  obtain ⟨hopened, htip, hstart⟩ := loadOrNew_spec (HashedBlockHeader.sentinel blockHash) disk clock
  unfold openBlockHeaders
  set c := loadOrNew (HashedBlockHeader.sentinel blockHash) disk clock
  cases hs : c.startHeight with
  | none => exact ⟨c, ∅, by simp only [hs], hopened, rfl, fun _ => indexes_empty (.inl hs)⟩
  | some start =>
    cases ht : c.tipHeight with
    | none => exact ⟨c, ∅, by simp only [hs, ht], hopened, rfl, fun _ => indexes_empty (.inr ht)⟩
    | some tip =>
      rw [hs] at hstart
      rw [ht] at htip
      have hle := readsStart_le_readsTip hstart htip
      obtain ⟨c', hget, hc', hqueue, hdisk, hcont⟩ := SegmentCache.Sound.getItems
        (.sentinel blockHash) ⟨hopened.consistent, hopened.keyed⟩ hopened.toDelete
        (Nat.lt_add_one_of_le hle)
      simp only [hs, ht, hget]
      refine ⟨c', _, rfl, ⟨hc'.consistent, hc'.keyed, hqueue, hdisk.trans hopened.files,
        (view_eq_of_content hcont).trans hopened.view⟩, hcont, fun honce => ?_⟩
      rw [hcont] at honce ⊢
      have hnext : (c.content (.sentinel blockHash)).nextHeight = tip + 1 := nextHeight_of_tip ht
      rw [← hnext]
      exact indexes_range hs honce

theorem openStores_spec (files : DiskFiles Block) (clock : Nat) :
    ∃ s, openStores blockHash noBlock files clock = .ok s ∧ s.Sound ∧
      s.filterHeaders.toDelete = ∅ ∧ s.reorgSentinel = files.reorgSentinel ∧
      s.blockHeaders.content (.sentinel blockHash) =
        (loadOrNew (.sentinel blockHash) files.blockHeaders clock).content
          (.sentinel blockHash) ∧
      s.filterHeaders = loadOrNew 0 files.filterHeaders clock ∧
      s.filters = loadOrNew [] files.filters clock ∧
      s.blocks = loadOrNew noBlock files.blocks clock := by
  obtain ⟨c, index, heq, hc, hcont, -⟩ :=
    @openBlockHeaders_spec blockHash files.blockHeaders clock
  obtain ⟨hfh, -⟩ := loadOrNew_spec (0 : FilterHeader) files.filterHeaders clock
  obtain ⟨hf, -⟩ := loadOrNew_spec ([] : Filter) files.filters clock
  obtain ⟨hb, -⟩ := loadOrNew_spec noBlock files.blocks clock
  unfold openStores
  rw [heq]
  exact ⟨_, rfl, ⟨⟨hc.consistent, hc.keyed⟩, ⟨hfh.consistent, hfh.keyed⟩,
    ⟨hf.consistent, hf.keyed⟩, ⟨hb.consistent, hb.keyed⟩⟩, hfh.toDelete, rfl, hcont, rfl, rfl,
    rfl⟩

/-- For all files, the check of the opened stores succeeds, orders the stores and leaves
nothing to a second check exactly if the stores are repairable. -/
theorem checkAndRepairConsistency_succeeds_iff {files : DiskFiles Block} {clock : Nat}
    {s : DiskStorages blockHash noBlock} (hopen : openStores blockHash noBlock files clock = .ok s)
    (hdense : HeadersDense blockHash (s.blockHeaders.content (.sentinel blockHash))) :
    s.Succeeds ↔ s.Repairable := by
  obtain ⟨s₀, hopen₀, hs, hqueue, -⟩ := @openStores_spec blockHash Block noBlock _ files clock
  rw [hopen, Except.ok.injEq] at hopen₀
  subst hopen₀
  obtain ⟨hnone, hok, htip⟩ | ⟨blockTip, hrepair, hcase⟩ :=
    checkAndRepairConsistency_cases hs hqueue hdense
  · refine iff_of_true ⟨hok, fun blockTip h => ?_⟩ fun blockTip h => ?_
    · rw [htip] at h
      cases h
    · rw [hnone] at h
      cases h
  have hrepairable : s.Repairable ↔ (s.reorgSentinel = true → ¬ s.RefusesAt blockTip) ∧
      ¬ (s.recoveredAt blockTip).RefusesBelow blockTip ∧
      (s.recoveredAt blockTip).FiltersCovered blockTip := by
    unfold Repairable
    rw [hrepair]
    simp only [Option.some.injEq, forall_eq']
  rw [hrepairable]
  obtain ⟨hrefuse, s', e, heq⟩ | ⟨haccept, haccept', c, index, s', hctip, hf, hr, heq⟩ := hcase
  · refine iff_of_false (fun hsucceeds => ?_) fun hrep => ?_
    · have hok := hsucceeds.1
      rw [heq] at hok
      cases hok
    · rcases hrefuse with ⟨hsentinel, hrefuse⟩ | hrefuse
      · exact hrep.1 hsentinel hrefuse
      · exact hrep.2.1 hrefuse
  -- the check succeeds, and it is a matter of the filters whether the stores are in order
  have htip : s'.blockHeaders.tipHeight = some blockTip := by
    rw [hr.blockHeaders]
    exact hctip
  obtain ⟨s'', hsame, heq'⟩ := hr.settled.repairBelow hr.sound hr.queue
  have hsecond : s'.checkAndRepairConsistency = (s'', .ok ()) := by
    have hrecover : s'.recoverReorg = (s', .ok ()) := if_neg (by simp [hr.reorgSentinel])
    unfold checkAndRepairConsistency
    rw [hrecover, andThen_ok]
    simp only [htip]
    exact heq'
  have hcovered := hr.filters_iff hf
  constructor
  · rintro ⟨-, hall⟩
    rw [heq] at hall
    refine ⟨fun hsentinel hrefuse => haccept ⟨hsentinel, hrefuse⟩, haccept', ?_⟩
    exact hcovered.mp (hall blockTip htip).1.filters
  · rintro ⟨-, -, hcover⟩
    unfold Succeeds
    rw [heq]
    refine ⟨rfl, fun blockTip' htip' => ?_⟩
    rw [htip, Option.some.injEq] at htip'
    subst htip'
    refine ⟨⟨hr.settled.filterHeaders, hcovered.mpr hcover, hr.reorgSentinel⟩, ?_⟩
    rw [hsecond]
    exact ⟨rfl, hsame⟩

end DiskStorages

/-! ### Filter headers that begin above the header tip -/

namespace FilterHeadersAbove

open DiskStorages SparseBlocks

/-- One header at height 0, and filter headers that begin at a height. -/
def files (fhStart : Nat) : DiskFiles Nat where
  blockHeaders := singleFile (.sentinel nonceHash) (headerAfter 0 1) 0
  filterHeaders := singleFile 0 7 fhStart
  filters := ∅
  blocks := ∅
  reorgSentinel := false
  bestChainlock := none

/-- The opened stores: no filters and no blocks, and one header of either kind. -/
theorem openStores_files {fhStart : Nat}
    (hlisted : listedId (heightToSegmentId fhStart) = heightToSegmentId fhStart) :
    ∃ s : DiskStorages nonceHash (0 : Nat), openStores nonceHash 0 (files fhStart) 0 = .ok s ∧
      s.Sound ∧ s.filterHeaders.toDelete = ∅ ∧ s.reorgSentinel = false ∧
      s.blockHeaders.content (.sentinel nonceHash) =
        ⟨fun h => if h = 0 then headerAfter 0 1 else .sentinel nonceHash, some 0, some 0⟩ ∧
      s.filterHeaders.content 0 = ⟨fun h => if h = fhStart then 7 else 0, some fhStart, some fhStart⟩ ∧
      s.filters.content [] = ⟨fun _ => [], none, none⟩ ∧
      s.blocks.content 0 = ⟨fun _ => 0, none, none⟩ := by
  obtain ⟨s, hopen, hs, hqueue, hsentinel, hhdrs, hfh, hf, hb⟩ :=
    @openStores_spec nonceHash Nat 0 _ (files fhStart) 0
  refine ⟨s, hopen, hs, hqueue, hsentinel, hhdrs.trans ?_, ?_, hf ▸ rfl, hb ▸ rfl⟩
  · exact loadOrNew_singleFile (by decide) rfl 0
  · rw [hfh]
    exact loadOrNew_singleFile (by decide) hlisted 0

theorem headersDense_single :
    HeadersDense nonceHash
      ⟨fun h => if h = 0 then headerAfter 0 1 else .sentinel nonceHash, some 0, some 0⟩ := by
  refine .inr ⟨0, 0, rfl, rfl, le_rfl, fun h _ hle => ?_⟩
  obtain rfl := Nat.le_zero.mp hle
  decide

/-- Filter headers from height 0 on are in order. -/
theorem checkAndRepairConsistency_succeeds_iff_atZero :
    ∃ s : DiskStorages nonceHash (0 : Nat), openStores nonceHash 0 (files 0) 0 = .ok s ∧
      HeadersDense nonceHash (s.blockHeaders.content (.sentinel nonceHash)) ∧ s.Succeeds := by
  obtain ⟨s, hopen, -, -, hsentinel, hhdrs, hfh, hf, hb⟩ := @openStores_files 0 rfl
  have hdense : HeadersDense nonceHash (s.blockHeaders.content (.sentinel nonceHash)) :=
    hhdrs ▸ headersDense_single
  refine ⟨s, hopen, hdense, (checkAndRepairConsistency_succeeds_iff hopen hdense).mpr ?_⟩
  intro blockTip htip
  have hblockTip : s.blockHeaders.tipHeight = some 0 := congrArg HeightMap.tip hhdrs
  rw [repairTip, hsentinel, hblockTip] at htip
  obtain rfl := Option.some.inj htip
  rw [recoveredAt_of_clear hsentinel]
  refine ⟨fun h => ?_, ?_, ?_⟩
  · rw [hsentinel] at h
    cases h
  · unfold RefusesBelow BlockAbove
    rw [hfh, hf, hb]
    rintro (⟨⟨tip, htip, hlt⟩, -⟩ | ⟨bound, -, ⟨tip, htip, -⟩, -⟩ | ⟨⟨h, -, -, hne⟩, -⟩)
    · exact absurd (Option.some.inj htip) hlt.ne
    · cases htip
    · exact hne rfl
  · unfold FiltersCovered fhBound
    rw [show s.filterHeaders.tipHeight = some 0 from congrArg HeightMap.tip hfh, hf]
    exact fun h hne => absurd rfl hne

/-- Filter headers from height 3 on cannot be cut at height 0: the check fails. -/
theorem filterHeadersAbove_fails :
    ∃ s : DiskStorages nonceHash (0 : Nat), openStores nonceHash 0 (files 3) 0 = .ok s ∧
      HeadersDense nonceHash (s.blockHeaders.content (.sentinel nonceHash)) ∧
      (∃ e, s.checkAndRepairConsistency.2 = .error e) ∧ ¬ s.Succeeds := by
  obtain ⟨s, hopen, hs, hqueue, hsentinel, hhdrs, hfh, -, -⟩ := @openStores_files 3 rfl
  have hdense : HeadersDense nonceHash (s.blockHeaders.content (.sentinel nonceHash)) :=
    hhdrs ▸ headersDense_single
  have hrefuse : (s.filterHeaders.content 0).RefusesCut 0 := by
    rw [hfh]
    exact ⟨⟨3, rfl, by decide⟩, 3, rfl, by decide⟩
  have herror : ∃ e, s.checkAndRepairConsistency.2 = .error e := by
    have htip : s.blockHeaders.tipHeight = some 0 := congrArg HeightMap.tip hhdrs
    have hrecover : s.recoverReorg = (s, .ok ()) := if_neg (by simp [hsentinel])
    obtain ⟨-, s', e, heq⟩ | ⟨haccept, -⟩ := repairBelow_spec hs hqueue 0
    · refine ⟨e, ?_⟩
      unfold checkAndRepairConsistency
      rw [hrecover, andThen_ok]
      simp only [htip, heq]
    · exact absurd (.inl hrefuse) haccept
  refine ⟨s, hopen, hdense, herror, fun hsucceeds => ?_⟩
  obtain ⟨e, he⟩ := herror
  rw [hsucceeds.1] at he
  cases he

end FilterHeadersAbove

end Dashcore
