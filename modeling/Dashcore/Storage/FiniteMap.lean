import Dashcore.Lib.Runs
import Dashcore.Storage.SegmentFiles

/-!
# The segment cache as a finite map

Every sequence of calls on a segment cache is followed by an abstract map from heights to
items: storing adds entries, an accepted truncation removes those above its target, reads,
saves and reopening change nothing. The cache answers as the map does for as long as its
range of heights encloses its items, and every call but one keeps that.

Reopening reads the range off the last and the first segment file. A read beyond the stored
heights, or a truncation to a height without a segment, makes the next save write a segment
file without items; if that file is listed last or first, the reopened cache has no last or
first height although it holds items. `rereadBeyond_forgets_tip` is such a run.
-/

namespace Dashcore

open SegmentCache HeightMap

/-- A call on a segment cache. -/
inductive CacheOp (I : Type)
  | storeItemsAtHeight (items : List I) (height : Nat)
  | truncateAbove (target : Nat)
  | getItem (height : Nat)
  | getItems (lo hi : Nat)
  | persist
  | reopen

/-- A cache with the map it should hold, and whether all stores and truncations are saved. -/
structure Mirrored (I : Type) where
  cache : SegmentCache I
  map : Nat → Option I
  saved : Bool

variable {I : Type} (sentinel : I) [DecidableEq I]

/-- The entry of a height map at a height. -/
def HeightMap.entry (m : HeightMap I) (h : Nat) : Option I :=
  if m.slot h = sentinel then none else some (m.slot h)

namespace Mirrored

/-- A cache without items or files. -/
def empty : Mirrored I := ⟨⟨∅, ∅, none, none, ∅, ∅, 0⟩, fun _ => none, true⟩

section

variable (s : Mirrored I)

/-- One call. Reopening closes the cache and opens its files again. -/
def step : CacheOp I → Mirrored I
  | .storeItemsAtHeight items height =>
    { cache := s.cache.storeItemsAtHeight sentinel items height
      map := fun h =>
        if height ≤ h then (items[h - height]?).or (s.map h) else s.map h
      saved := false }
  | .truncateAbove target =>
    { cache := (s.cache.truncateAbove sentinel target).1
      map := match (s.cache.truncateAbove sentinel target).2 with
        | .ok () => fun h => if h ≤ target then s.map h else none
        | .error _ => s.map
      saved := false }
  | .getItem height => { s with cache := (s.cache.getItem sentinel height).1 }
  | .getItems lo hi => { s with cache := (s.cache.getItems sentinel lo hi).1 }
  | .persist => { s with cache := s.cache.persist, saved := true }
  | .reopen =>
    { s with cache := loadOrNew sentinel s.cache.disk s.cache.clock }

/-- The calls considered: items are stored at free heights, ranges are read where every
height is stored, and a cache is closed after a save. -/
def Valid : CacheOp I → Prop
  | .storeItemsAtHeight items height =>
    (∀ item ∈ items, item ≠ sentinel) ∧ ∀ i < items.length, s.map (height + i) = none
  | .getItems lo hi => lo < hi ∧ ∀ h, lo ≤ h → h < hi → s.map h ≠ none
  | .reopen => s.saved = true
  | _ => True

/-- A call answered right: its result is what the map says, the cache answers as the map at
every height afterwards, and a reopened cache has the range of the map's heights. -/
def Right (op : CacheOp I) : Prop :=
  (∀ h, ((s.step sentinel op).cache.getItem sentinel h).2 = (s.step sentinel op).map h) ∧
  match op with
  | .getItem height => (s.cache.getItem sentinel height).2 = s.map height
  | .getItems lo hi => ∃ items, (s.cache.getItems sentinel lo hi).2 = .ok items ∧
      items.map some = (List.range (hi - lo)).map fun k => s.map (lo + k)
  | .reopen => RangeOf {h | (s.step sentinel op).map h ≠ none}
      (s.step sentinel op).cache.startHeight (s.step sentinel op).cache.tipHeight
  | _ => True

/-- A reopening finds files whose listed ends are in use and enclose all others. -/
def ReopensUsed : CacheOp I → Prop
  | .reopen => EndsUsed sentinel s.cache.disk
  | _ => True

end

/-- The cache is well formed, presents the map, and after a save is on disk. -/
structure Follows (s : Mirrored I) : Prop where
  wf : s.cache.WellFormed sentinel
  keyed : s.cache.Keyed
  agree : ∀ h, s.map h = (s.cache.content sentinel).entry sentinel h
  disk : s.saved = true → s.cache.view sentinel = onDisk sentinel s.cache.disk

variable {sentinel}

theorem follows_empty : Follows sentinel (empty : Mirrored I) where
  wf := SegmentStore.empty.wf
  keyed := by constructor <;> simp [empty]
  agree h := by simp [empty, entry, content, view, fetch_items]
  disk _ := by
    funext id
    simp [empty, view, fetch_items, onDisk]

theorem Follows.getItem {s : Mirrored I} (hs : s.Follows sentinel) (h : Nat) :
    (s.cache.getItem sentinel h).2 = s.map h := by
  rw [hs.agree, (hs.wf.consistent.getItem h).2.2]
  rfl

/-! ### One call -/

/-- Writing items at free heights adds their entries. -/
theorem entry_storeAt {m : HeightMap I} {items : List I} (hitems : ∀ item ∈ items, item ≠ sentinel)
    (height h : Nat) :
    (m.storeAt items height).entry sentinel h =
      if height ≤ h then (items[h - height]?).or (m.entry sentinel h)
      else m.entry sentinel h := by
  unfold entry storeAt
  by_cases hempty : items.isEmpty
  · rw [List.isEmpty_iff] at hempty
    simp [hempty]
  rw [if_neg hempty]
  by_cases hle : height ≤ h
  · simp only [if_pos hle]
    cases hget : items[h - height]? with
    | none => rfl
    | some item => simp [hitems item (List.mem_of_getElem? hget)]
  · simp only [if_neg hle]

theorem entry_cut (m : HeightMap I) (target h : Nat) :
    (m.cut sentinel target).entry sentinel h =
      if h ≤ target then m.entry sentinel h else none := by
  by_cases hle : h ≤ target <;> simp [entry, cut, hle]

variable {s : Mirrored I} {op : CacheOp I}

section

variable (hs : s.Follows sentinel)
include hs

theorem Follows.storeItemsAtHeight {items : List I} {height : Nat}
    (hitems : ∀ item ∈ items, item ≠ sentinel) :
    (s.step sentinel (.storeItemsAtHeight items height)).Follows sentinel where
  wf := (SegmentStore.storeItemsAtHeight ⟨s.cache, hs.wf⟩ items height).wf
  keyed := hs.keyed.storeItemsAtHeight sentinel items height
  agree h := by
    change (if height ≤ h then (items[h - height]?).or (s.map h) else s.map h) =
      ((s.cache.storeItemsAtHeight sentinel items height).content sentinel).entry sentinel h
    rw [hs.wf.consistent.storeItemsAtHeight_content, entry_storeAt hitems, hs.agree]
  disk hsaved := by cases hsaved

theorem Follows.truncateAbove (target : Nat) :
    (s.step sentinel (.truncateAbove target)).Follows sentinel := by
  have hkeyed := hs.keyed.truncateAbove sentinel target
  obtain ⟨-, e, heq⟩ | ⟨-, c', hc', hcont, heq⟩ := hs.wf.truncateAbove target
  · refine ⟨?_, hkeyed, fun h => ?_, fun hsaved => by cases hsaved⟩
    · simpa only [step, heq] using hs.wf
    · simpa only [step, heq] using hs.agree h
  · refine ⟨?_, hkeyed, fun h => ?_, fun hsaved => by cases hsaved⟩
    · simp only [step, heq]
      exact ⟨hc', hcont ▸ hs.wf.inRange.cut target⟩
    · simp only [step, heq, hcont, entry_cut, hs.agree]

/-- A call that leaves the presented map and the files alone. -/
theorem Follows.of_same {c : SegmentCache I} (hc : c.Consistent) (hk : c.Keyed)
    (hcontent : c.content sentinel = s.cache.content sentinel) (hdisk : c.disk = s.cache.disk) :
    Follows sentinel { s with cache := c } where
  wf := ⟨hc, hcontent ▸ hs.wf.inRange⟩
  keyed := hk
  agree h := by
    rw [hcontent]
    exact hs.agree h
  disk hsaved := by
    rw [hdisk, ← hs.disk hsaved]
    exact view_eq_of_content hcontent

theorem Follows.persist : (s.step sentinel .persist).Follows sentinel := by
  obtain ⟨hc, hcont⟩ := @SegmentCache.Consistent.persist I sentinel _ hs.wf.consistent hs.keyed
  refine ⟨⟨hc, hcont ▸ hs.wf.inRange⟩, hs.keyed.persist, fun h => ?_,
    fun _ => (Sound.filesCurrent_persist ⟨hs.wf.consistent, hs.keyed⟩).symm⟩
  change s.map h = (s.cache.persist.content sentinel).entry sentinel h
  rw [hcont]
  exact hs.agree h

section

variable (hsaved : s.saved = true)
include hsaved

/-- The heights with an entry are those in use in the files of a saved cache. -/
theorem Follows.map_ne_none_iff (h : Nat) :
    s.map h ≠ none ↔ fileSlot sentinel s.cache.disk h ≠ sentinel := by
  have hslot : (s.cache.content sentinel).slot h = fileSlot sentinel s.cache.disk h := by
    simp only [content, fileSlot, hs.disk hsaved]
  rw [hs.agree, entry, hslot]
  by_cases hempty : fileSlot sentinel s.cache.disk h = sentinel <;> simp [hempty]

/-- A reopened cache has the range of the map's heights exactly if the listed ends of its
files are in use and enclose all others. -/
theorem Follows.rangeOf_reopen_iff :
    RangeOf {h | (s.step sentinel .reopen).map h ≠ none}
        (s.step sentinel .reopen).cache.startHeight (s.step sentinel .reopen).cache.tipHeight ↔
      EndsUsed sentinel s.cache.disk := by
  obtain ⟨-, htip, hstart⟩ := loadOrNew_spec sentinel s.cache.disk s.cache.clock
  have hset : {h | (s.step sentinel .reopen).map h ≠ none} =
      {h | fileSlot sentinel s.cache.disk h ≠ sentinel} := by
    ext h
    exact hs.map_ne_none_iff hsaved h
  rw [hset]
  exact rangeOf_iff_endsUsed htip hstart

theorem Follows.reopen_agree (h : Nat) : s.map h =
      ((s.step sentinel .reopen).cache.content sentinel).entry sentinel h := by
  obtain ⟨hopened, -, -⟩ := loadOrNew_spec sentinel s.cache.disk s.cache.clock
  have hview : (s.step sentinel .reopen).cache.view sentinel = s.cache.view sentinel :=
    hopened.view.trans (hs.disk hsaved).symm
  have hslot : ((s.step sentinel .reopen).cache.content sentinel).slot h =
      (s.cache.content sentinel).slot h := congrFun (congrFun hview _) _
  rw [hs.agree, entry, entry, hslot]

theorem Follows.reopen (hends : EndsUsed sentinel s.cache.disk) :
    (s.step sentinel .reopen).Follows sentinel := by
  obtain ⟨hopened, -, -⟩ := loadOrNew_spec sentinel s.cache.disk s.cache.clock
  have hrange := (hs.rangeOf_reopen_iff hsaved).mpr hends
  refine ⟨⟨hopened.consistent, fun h hh => ?_⟩, hopened.keyed, hs.reopen_agree hsaved, fun _ => ?_⟩
  · -- a used height is an entry, so the range of the entries encloses it
    have hentry : h ∈ {h | (s.step sentinel .reopen).map h ≠ none} := by
      change s.map h ≠ none
      rw [hs.reopen_agree hsaved, entry, if_neg hh]
      exact Option.some_ne_none _
    obtain ⟨t, ht⟩ : ∃ t, (s.step sentinel .reopen).cache.tipHeight = some t := by
      apply Option.ne_none_iff_exists'.mp
      exact fun hnone => Set.Nonempty.ne_empty ⟨h, hentry⟩ (hrange.tip_none.mp hnone)
    obtain ⟨k, hk⟩ : ∃ k, (s.step sentinel .reopen).cache.startHeight = some k := by
      apply Option.ne_none_iff_exists'.mp
      exact fun hnone => Set.Nonempty.ne_empty ⟨h, hentry⟩ (hrange.start_none.mp hnone)
    exact ⟨k, t, hk, ht, (hrange.start_least k hk).2 hentry, (hrange.tip_greatest t ht).2 hentry⟩
  · change (loadOrNew sentinel s.cache.disk s.cache.clock).view sentinel =
      onDisk sentinel (loadOrNew sentinel s.cache.disk s.cache.clock).disk
    rw [hopened.view, hopened.files]

end

/-! ### Runs -/

/-- Every call keeps the cache following the map, a reopening if the ends of the files are
in use. -/
theorem Follows.step (hvalid : s.Valid sentinel op)
    (hends : s.ReopensUsed sentinel op) : (s.step sentinel op).Follows sentinel := by
  cases op with
  | storeItemsAtHeight items height => exact hs.storeItemsAtHeight hvalid.1
  | truncateAbove target => exact hs.truncateAbove target
  | getItem height =>
    obtain ⟨hc, hcont, -⟩ := hs.wf.consistent.getItem height
    exact hs.of_same hc (hs.keyed.getItem sentinel height) hcont
      (s.cache.getItem_disk sentinel height)
  | getItems lo hi =>
    obtain ⟨hc, hcont, -⟩ := hs.wf.consistent.getItems hvalid.1
    exact hs.of_same hc (hs.keyed.getItems sentinel lo hi) hcont
      (s.cache.getItems_disk sentinel lo hi)
  | persist => exact hs.persist
  | reopen => exact hs.reopen hvalid hends

/-- A range read over stored heights returns their entries. -/
theorem Follows.getItems {lo hi : Nat} (hlt : lo < hi)
    (hstored : ∀ h, lo ≤ h → h < hi → s.map h ≠ none) :
    ∃ items, (s.cache.getItems sentinel lo hi).2 = .ok items ∧
      items.map some = (List.range (hi - lo)).map fun k => s.map (lo + k) := by
  obtain ⟨-, -, -, hok⟩ := @SegmentCache.Consistent.getItems I sentinel _ hs.wf.consistent lo hi hlt
  have hused : ∀ h, lo ≤ h → h < hi → (s.cache.content sentinel).slot h ≠ sentinel := by
    intro h hlo hhi hempty
    apply hstored h hlo hhi
    rw [hs.agree, entry, if_pos hempty]
  refine ⟨_, hok fun id hdel hid => ?_, ?_⟩
  · -- every segment of the range holds an item of it, so none is queued for deletion
    have hbelow : max lo (segmentIdToStartHeight id) < hi := by
      have hle : segmentIdToStartHeight id ≤ hi - 1 :=
        (Nat.le_div_iff_mul_le itemsPerSegment_pos).mp hid.2
      omega
    have hseg : heightToSegmentId (max lo (segmentIdToStartHeight id)) = id := by
      have hlo : lo < segmentIdToStartHeight (id + 1) :=
        (Nat.div_lt_iff_lt_mul itemsPerSegment_pos).mp (Nat.lt_succ_of_le hid.1)
      have hnext : segmentIdToStartHeight (id + 1) = segmentIdToStartHeight id + itemsPerSegment :=
        Nat.succ_mul id itemsPerSegment
      have hpos := itemsPerSegment_pos
      apply Nat.div_eq_of_lt_le
      · exact le_max_right _ _
      · change _ < segmentIdToStartHeight (id + 1)
        omega
    apply hused _ (le_max_left _ _) hbelow
    simp only [content, hseg, hs.wf.consistent.view_of_deleted hdel]
  · rw [List.map_map]
    apply List.map_congr_left
    intro k hk
    have hk := List.mem_range.mp hk
    rw [hs.agree, entry, if_neg (hused (lo + k) (by omega) (by omega))]
    rfl

/-- A call is answered right exactly if it is no reopening of files with unused ends. -/
theorem Follows.right_iff (hvalid : s.Valid sentinel op) :
    s.Right sentinel op ↔ s.ReopensUsed sentinel op := by
  cases op with
  | reopen =>
    constructor
    · rintro ⟨-, hrange⟩
      exact (hs.rangeOf_reopen_iff hvalid).mp hrange
    · intro hends
      exact ⟨(hs.reopen hvalid hends).getItem, (hs.rangeOf_reopen_iff hvalid).mpr hends⟩
  | getItem height =>
    exact iff_of_true ⟨(hs.step hvalid trivial).getItem, hs.getItem height⟩ trivial
  | getItems lo hi =>
    exact iff_of_true ⟨(hs.step hvalid trivial).getItem, hs.getItems hvalid.1 hvalid.2⟩ trivial
  | storeItemsAtHeight | truncateAbove | persist =>
    exact iff_of_true ⟨(hs.step hvalid trivial).getItem, trivial⟩ trivial

end

/-- Along every run of calls from an empty cache, the cache answers as the finite map exactly
if every reopening finds files whose listed ends are in use and enclose all others. -/
theorem run_right_iff (ops : List (CacheOp I))
    (hvalid : Runs.Along (step sentinel) (Valid sentinel) empty ops) :
    Runs.Along (step sentinel) (Right sentinel) empty ops ↔
      Runs.Along (step sentinel) (ReopensUsed sentinel) empty ops :=
  Runs.along_iff_of_invariant (fun _ _ hs => hs.step) (fun _ _ hs => hs.right_iff)
    follows_empty hvalid

/-- An item is stored, saved and reopened. -/
def storeReopen : List (CacheOp Nat) := [.storeItemsAtHeight [7] 3, .persist, .reopen]

/-- It is found again. -/
theorem run_right_iff_storeReopen :
    Runs.Along (step 0) (Valid 0) empty storeReopen ∧
      Runs.Along (step 0) (Right 0) empty storeReopen := by
  have hvalid : Runs.Along (step 0) (Valid 0) empty storeReopen :=
    ⟨⟨by decide, fun i _ => rfl⟩, trivial, rfl, trivial⟩
  refine ⟨hvalid, (run_right_iff _ hvalid).mpr ⟨trivial, trivial, fun id hid => ?_, trivial⟩⟩
  have hfollows : Follows 0 (Runs.run (step 0) empty (storeReopen.take 2)) :=
    (follows_empty.step hvalid.1 trivial).step hvalid.2.1 trivial
  have hitem : Used 0
      (onDisk 0 (Runs.run (step 0) empty (storeReopen.take 2)).cache.disk 0) := by
    refine used_of_fileSlot ((hfollows.map_ne_none_iff rfl 3).mp ?_)
    decide
  -- the only file with an item is that of the first segment
  obtain ⟨h, rfl, hh⟩ := exists_fileSlot_of_used hid
  have hmap := (hfollows.map_ne_none_iff rfl h).mpr hh
  have hthree : h = 3 := by
    by_contra hne
    apply hmap
    change (if 3 ≤ h then ([7][h - 3]?).or none else none) = none
    split_ifs with hle
    · rw [List.getElem?_eq_none (by simp only [List.length_singleton]; omega)]
      rfl
    · rfl
  subst hthree
  exact ⟨⟨0, by decide +kernel, le_rfl, hitem⟩, 0, by decide +kernel, le_rfl, hitem⟩

/-- A read beyond the stored heights, a save and a reopening. -/
def rereadBeyond : List (CacheOp Nat) :=
  [.storeItemsAtHeight [7] 0, .getItem 50000, .persist, .reopen]

/-- The reopened cache has no last height, although it still holds the item at height 0. -/
theorem rereadBeyond_forgets_tip :
    Runs.Along (step 0) (Valid 0) empty rereadBeyond ∧
    ((Runs.run (step 0) empty rereadBeyond).cache.getItem 0 0).2 = some 7 ∧
    (Runs.run (step 0) empty rereadBeyond).cache.startHeight = some 0 ∧
    (Runs.run (step 0) empty rereadBeyond).cache.tipHeight = none ∧
    ¬ Runs.Along (step 0) (Right 0) empty rereadBeyond := by
  have hvalid : Runs.Along (step 0) (Valid 0) empty rereadBeyond :=
    ⟨⟨by decide, fun i _ => rfl⟩, trivial, trivial, rfl, trivial⟩
  have htip : (Runs.run (step 0) empty rereadBeyond).cache.tipHeight = none := by
    have hfollows : Follows 0 (Runs.run (step 0) empty (rereadBeyond.take 2)) :=
      (follows_empty.step hvalid.1 trivial).step hvalid.2.1 trivial
    obtain ⟨-, htip, -⟩ := loadOrNew_spec 0
      (Runs.run (step 0) empty (rereadBeyond.take 3)).cache.disk
      (Runs.run (step 0) empty (rereadBeyond.take 3)).cache.clock
    have hlast : lastListed (Runs.run (step 0) empty (rereadBeyond.take 3)).cache.disk = some 1 := by
      decide +kernel
    -- the read left an empty segment, which the save wrote to a file
    have hempty : (Runs.run (step 0) empty (rereadBeyond.take 3)).cache.disk.get? 1 =
        some fun _ => 0 := hfollows.wf.consistent.persist_disk hfollows.keyed 1
    change (loadOrNew 0 (Runs.run (step 0) empty (rereadBeyond.take 3)).cache.disk
      (Runs.run (step 0) empty (rereadBeyond.take 3)).cache.clock).tipHeight = none
    generalize (loadOrNew 0 (Runs.run (step 0) empty (rereadBeyond.take 3)).cache.disk
      (Runs.run (step 0) empty (rereadBeyond.take 3)).cache.clock).tipHeight = tip at htip ⊢
    cases htip with
    | none => rfl
    | some hlisted hused _ =>
      rw [hlast, Option.some.injEq] at hlisted
      rw [fileSlot, ← hlisted, onDisk, hempty] at hused
      exact absurd rfl hused
  refine ⟨hvalid, by decide +kernel, by decide +kernel, htip, ?_⟩
  rintro ⟨-, -, -, ⟨-, hrange⟩, -⟩
  have hmap : (Runs.run (step 0) empty rereadBeyond).map 0 = some 7 := by decide +kernel
  have hentry : (Runs.run (step 0) empty rereadBeyond).map 0 ≠ none := by
    rw [hmap]
    exact Option.some_ne_none 7
  exact Set.Nonempty.ne_empty ⟨0, hentry⟩ (hrange.tip_none.mp htip)

end Mirrored

end Dashcore
