import Dashcore.Storage.Refinement

/-!
# Reads, saves and reopening of a segment cache

Reading a cache changes what is in memory, not what the cache presents. Saving brings each
file to what the cache presents for its segment, one file at a time, so after any part of a
save every file is either as before or as presented. A reopened cache presents what its
files hold; its range of heights is what the last and the first listed file say.
-/

namespace Dashcore

open SegmentCache SortedMap List Nat

variable {I : Type} {sentinel : I} {c : SegmentCache I} {id : Nat}

/-! ### Heights and slots -/

theorem heightToSegmentId_start_add (id : Nat) (offset : Fin itemsPerSegment) :
    heightToSegmentId (segmentIdToStartHeight id + offset) = id := by
  unfold heightToSegmentId segmentIdToStartHeight
  rw [mul_comm, Nat.mul_add_div itemsPerSegment_pos, Nat.div_eq_of_lt offset.isLt, Nat.add_zero]

theorem heightToOffset_start_add (id : Nat) (offset : Fin itemsPerSegment) :
    heightToOffset (segmentIdToStartHeight id + offset) = offset := by
  apply Fin.ext
  simp only [heightToOffset, segmentIdToStartHeight]
  rw [mul_comm, mul_add_mod, mod_eq_of_lt offset.isLt]

theorem start_add_heightToOffset (h : Nat) :
    segmentIdToStartHeight (heightToSegmentId h) + heightToOffset h = h := by
  simp only [segmentIdToStartHeight, heightToSegmentId, heightToOffset]
  rw [mul_comm, Nat.div_add_mod]

/-! ### Slots in use -/

/-- A slice of a function on any number of slots. -/
theorem map_take_drop_finRange {n : Nat}
    (f : Fin n → I) {lo hi : Nat} (hhi : hi ≤ n) (g : Nat → Fin n)
    (hg : ∀ k < hi - lo, (g k).val = lo + k) :
    (((finRange n).drop lo).take (hi - lo)).map f =
      (range (hi - lo)).map fun k => f (g k) := by
  apply ext_getElem
  · simp only [length_map, length_take, length_drop, length_finRange, length_range]
    omega
  · intro k hk₁ hk₂
    simp only [length_map, length_range] at hk₂
    have hslot : (⟨lo + k, by omega⟩ : Fin n) = g k := Fin.ext (hg k hk₂).symm
    simp [hslot]

/-- A slot holds an item. -/
def Used (sentinel : I) (items : Slots I) : Prop := ∃ offset, items offset ≠ sentinel

section ValidOffsets

variable [DecidableEq I]

theorem firstUsedFrom_spec (items : Slots I) (fuel i : Nat) (hfuel : itemsPerSegment ≤ fuel + i) :
    (∀ offset ∈ firstUsedFrom sentinel items fuel i, items offset ≠ sentinel) ∧
    ∀ slot : Fin itemsPerSegment, i ≤ slot →
      (∀ offset ∈ firstUsedFrom sentinel items fuel i, slot < offset) → items slot = sentinel := by
  induction fuel generalizing i with
  | zero => exact ⟨fun _ h => (by cases h), fun slot hle => absurd slot.isLt (by omega)⟩
  | succ fuel ih =>
    rw [firstUsedFrom]
    by_cases hi : i < itemsPerSegment
    · rw [dif_pos hi]
      by_cases hused : items ⟨i, hi⟩ ≠ sentinel
      · rw [if_pos hused]
        refine ⟨fun offset h => Option.mem_some.mp h ▸ hused, fun slot hle hbefore => ?_⟩
        exact absurd hle (not_le.mpr (hbefore _ rfl))
      · rw [if_neg hused]
        obtain ⟨hfound, hempty⟩ := ih (i + 1) (by omega)
        refine ⟨hfound, fun slot hle hbefore => ?_⟩
        rcases hle.eq_or_lt with heq | hlt
        · rw [show slot = ⟨i, hi⟩ from Fin.ext heq.symm]
          exact not_not.mp hused
        · exact hempty slot hlt hbefore
    · rw [dif_neg hi]
      exact ⟨fun _ h => (by cases h), fun slot hle => absurd slot.isLt (by omega)⟩

theorem lastUsedBelow_spec (items : Slots I) (i : Nat) :
    (∀ offset ∈ lastUsedBelow sentinel items i, items offset ≠ sentinel) ∧
    ∀ slot : Fin itemsPerSegment, slot < i →
      (∀ offset ∈ lastUsedBelow sentinel items i, offset < slot) → items slot = sentinel := by
  induction i with
  | zero => exact ⟨fun _ h => (by cases h), fun slot hlt => absurd hlt (Nat.not_lt_zero _)⟩
  | succ i ih =>
    obtain ⟨hfound, hempty⟩ := ih
    rw [lastUsedBelow]
    by_cases hi : i < itemsPerSegment
    · rw [dif_pos hi]
      by_cases hused : items ⟨i, hi⟩ ≠ sentinel
      · rw [if_pos hused]
        refine ⟨fun offset h => Option.mem_some.mp h ▸ hused, fun slot hlt hafter => ?_⟩
        exact absurd (hafter _ rfl) (not_lt.mpr (le_of_lt_succ hlt))
      · rw [if_neg hused]
        refine ⟨hfound, fun slot hlt hafter => ?_⟩
        rcases (le_of_lt_succ hlt).eq_or_lt with heq | hbelow
        · rw [show slot = ⟨i, hi⟩ from Fin.ext heq]
          exact not_not.mp hused
        · exact hempty slot hbelow hafter
    · rw [dif_neg hi]
      exact ⟨hfound, fun slot _ => hempty slot (slot.isLt.trans_le (not_lt.mp hi))⟩

variable {segment : Segment I}

theorem lastValidOffset_eq_none
    (h : segment.lastValidOffset sentinel = none) : ¬ Used sentinel segment.items := by
  rintro ⟨slot, hslot⟩
  exact hslot ((lastUsedBelow_spec segment.items _).2 slot slot.isLt
    fun _ hmem => nomatch h.symm.trans hmem)

variable {offset : Fin itemsPerSegment}

theorem lastValidOffset_eq_some (h : segment.lastValidOffset sentinel = some offset) :
    segment.items offset ≠ sentinel ∧ ∀ slot > offset, segment.items slot = sentinel := by
  obtain ⟨hused, hafter⟩ := lastUsedBelow_spec segment.items itemsPerSegment
  refine ⟨hused offset h, fun slot hslot => hafter slot slot.isLt fun offset' h' => ?_⟩
  rwa [Option.mem_unique h' h]

theorem firstValidOffset_eq_none
    (h : segment.firstValidOffset sentinel = none) : ¬ Used sentinel segment.items := by
  rintro ⟨slot, hslot⟩
  exact hslot ((firstUsedFrom_spec segment.items _ 0 le_rfl).2 slot (zero_le _)
    fun _ hmem => nomatch h.symm.trans hmem)

theorem firstValidOffset_eq_some (h : segment.firstValidOffset sentinel = some offset) :
    segment.items offset ≠ sentinel ∧ ∀ slot < offset, segment.items slot = sentinel := by
  obtain ⟨hused, hbefore⟩ := firstUsedFrom_spec segment.items itemsPerSegment 0 le_rfl
  refine ⟨hused offset h, fun slot hslot => hbefore slot (zero_le _) fun offset' h' => ?_⟩
  rwa [Option.mem_unique h' h]

end ValidOffsets

namespace SegmentCache

/-- The slots of every segment are the presented ones at its heights. -/
theorem view_apply (c : SegmentCache I) (id : Nat) (offset : Fin itemsPerSegment) :
    c.view sentinel id offset =
      (c.content sentinel).slot (segmentIdToStartHeight id + offset) := by
  simp only [content, heightToSegmentId_start_add, heightToOffset_start_add]

theorem view_eq_of_content {c' : SegmentCache I} (h : c.content sentinel = c'.content sentinel) :
    c.view sentinel = c'.view sentinel := by
  funext id offset
  rw [view_apply, view_apply, h]

/-! ### Reading -/

/-- Reading a segment changes nothing that a cache presents. -/
theorem Consistent.touch (hc : c.Consistent) (id : Nat) :
    (c.modifySegment sentinel id Segment.touch).Consistent ∧
    (c.modifySegment sentinel id Segment.touch).content sentinel = c.content sentinel := by
  obtain ⟨hc', hview, hstart, htip⟩ :=
    @Consistent.modifySaved I sentinel c Segment.touch hc id
      (fun _ _ hclean => ⟨hclean, rfl⟩) (fun items => items) fun _ _ => rfl
  refine ⟨hc', HeightMap.ext ?_ hstart htip⟩
  funext h
  simp only [content, hview, Function.update_eq_self]

/-- What touching a segment keeps, if it is not queued for deletion, reading a range keeps. -/
theorem getItems_keeps {P : SegmentCache I → Prop}
    (htouch : ∀ {c : SegmentCache I} {id : Nat}, P c → id ∉ c.toDelete →
      P (c.modifySegment sentinel id Segment.touch))
    (hc : P c) (lo hi : Nat) : P (c.getItems sentinel lo hi).1 := by
  have hloop : ∀ (ids : List Nat) {c : SegmentCache I}, P c →
      P (getItemsLoop sentinel lo hi ids c).1 := by
    intro ids
    induction ids with
    | nil => exact id
    | cons id rest ih =>
      intro c hc
      rw [getItemsLoop]
      split_ifs with hdel
      · exact hc
      · have hrest := ih (htouch hc hdel)
        simp only
        split
        all_goals
          next heq =>
            rw [heq] at hrest
            exact hrest
  unfold getItems
  split_ifs
  · exact hc
  · exact hloop _ hc

/-- What inserting an item and setting the range keep, storing items keeps. -/
theorem storeItemsAtHeight_keeps {P : SegmentCache I → Prop}
    (hinsert : ∀ {c : SegmentCache I} {id item offset}, P c →
      P (c.modifySegment sentinel id fun segment now => segment.insert item offset now))
    (hrange : ∀ {c : SegmentCache I} {start tip}, P c →
      P { c with startHeight := start, tipHeight := tip })
    (hc : P c) (items : List I) (height : Nat) :
    P (c.storeItemsAtHeight sentinel items height) := by
  have hloop : ∀ (items : List I) {height : Nat} {c : SegmentCache I}, P c →
      P (storeLoop sentinel items height c) := by
    intro items
    induction items with
    | nil => exact fun hc => hc
    | cons item rest ih => exact fun hc => ih (hinsert hc)
  unfold storeItemsAtHeight
  split_ifs
  · exact hc
  · exact hrange (hloop items hc)

/-- What emptying a segment above an offset, dropping segments up to the tip's and setting the
range keep, a truncation keeps. -/
theorem truncateAbove_keeps [DecidableEq I] {P : SegmentCache I → Prop} {target : Nat}
    (hreset : ∀ {id offset}, P c →
      P (c.modifySegment sentinel id fun segment now => segment.resetAbove sentinel offset now))
    (hdrop : ∀ {c' : SegmentCache I} {tip}, c.tipHeight = some tip → P c' →
      P (c'.dropSegments (Finset.Icc (heightToSegmentId target + 1) (heightToSegmentId tip))))
    (hrange : ∀ {c : SegmentCache I} {tip}, P c → P { c with tipHeight := tip }) (hc : P c) :
    P (c.truncateAbove sentinel target).1 := by
  unfold truncateAbove
  cases htip : c.tipHeight with
  | none => exact hc
  | some tip =>
    simp only
    split_ifs
    · exact hc
    all_goals
      split
      · exact hc
    · exact hrange (hdrop htip (hreset hc))
    · exact hrange (hdrop htip hc)

section Disk

variable (sentinel) (c)

/-- Activation leaves the files alone. -/
theorem getSegmentMut_disk (id : Nat) :
    (c.getSegmentMut sentinel id).1.disk = c.disk := by
  unfold SegmentCache.getSegmentMut
  cases hactive : c.segments.get? id with
  | some segment => rfl
  | none => exact c.makeRoom_frame.2.2.2.1

theorem getItem_disk [DecidableEq I] (height : Nat) :
    (c.getItem sentinel height).1.disk = c.disk := by
  unfold getItem
  by_cases hdel : heightToSegmentId height ∈ c.toDelete
  · rw [if_pos hdel]
  · rw [if_neg hdel]
    exact c.getSegmentMut_disk sentinel _

theorem getItems_disk (lo hi : Nat) :
    (c.getItems sentinel lo hi).1.disk = c.disk :=
  getItems_keeps (P := fun c' => c'.disk = c.disk)
    (fun {c'} {id} hc' _ => (c'.getSegmentMut_disk sentinel id).trans hc') rfl lo hi

/-- Items stored in memory reach no file. -/
theorem storeItemsAtHeight_disk (items : List I) (height : Nat) :
    (c.storeItemsAtHeight sentinel items height).disk = c.disk :=
  storeItemsAtHeight_keeps (P := fun c' => c'.disk = c.disk)
    (fun {c'} _ _ _ hc' => (c'.getSegmentMut_disk sentinel _).trans hc') (fun hc' => hc') rfl _ _

/-- A truncation reaches no file. -/
theorem truncateAbove_disk [DecidableEq I] (target : Nat) :
    (c.truncateAbove sentinel target).1.disk = c.disk :=
  truncateAbove_keeps (P := fun c' => c'.disk = c.disk) (c.getSegmentMut_disk sentinel _).trans
    (fun _ hc' => hc') (fun hc' => hc') rfl

end Disk

section

variable (hc : c.Consistent)
include hc

/-- A segment queued for deletion is not in memory. -/
theorem Consistent.get?_of_deleted (hid : id ∈ c.toDelete) :
    c.segments.get? id = none ∧ c.evicted.get? id = none :=
  ⟨Option.eq_none_iff_forall_ne_some.mpr fun _ hget => hc.active_not_deleted hget hid,
    Option.eq_none_iff_forall_ne_some.mpr fun _ hget => hc.evicted_not_deleted hget hid⟩

/-- A segment queued for deletion is empty. -/
theorem Consistent.view_of_deleted (hid : id ∈ c.toDelete) :
    c.view sentinel id = fun _ => sentinel := by
  obtain ⟨hactive, hevicted⟩ := hc.get?_of_deleted hid
  simp [view, fetch_items, hactive, hevicted, hid]

/-- Activation takes a segment off the deletion queue. -/
theorem Consistent.getSegmentMut_toDelete (id : Nat) :
    (c.getSegmentMut sentinel id).1.toDelete = c.toDelete.erase id := by
  unfold SegmentCache.getSegmentMut
  cases hactive : c.segments.get? id with
  | some segment => exact (Finset.erase_eq_of_notMem (hc.active_not_deleted hactive)).symm
  | none =>
    change (if (c.makeRoom.evicted.get? id).isSome then c.makeRoom.toDelete
      else c.makeRoom.toDelete.erase id) = _
    have hqueue := c.makeRoom_frame.2.2.2.2
    cases hevicted : c.makeRoom.evicted.get? id with
    | none => simp [hqueue]
    | some segment =>
      have hnot := hc.makeRoom.evicted_not_deleted hevicted
      rw [hqueue] at hnot ⊢
      simp [Finset.erase_eq_of_notMem hnot]

theorem Consistent.touch_toDelete (hid : id ∉ c.toDelete) :
    (c.modifySegment sentinel id Segment.touch).toDelete = c.toDelete :=
  (hc.getSegmentMut_toDelete id).trans (Finset.erase_eq_of_notMem hid)

/-- Reading one height. -/
theorem Consistent.getItem [DecidableEq I] (height : Nat) :
    (c.getItem sentinel height).1.Consistent ∧
    (c.getItem sentinel height).1.content sentinel = c.content sentinel ∧
    (c.getItem sentinel height).2 =
      if (c.content sentinel).slot height = sentinel then none
      else some ((c.content sentinel).slot height) := by
  by_cases hdel : heightToSegmentId height ∈ c.toDelete
  · simp only [SegmentCache.getItem, if_pos hdel, content, hc.view_of_deleted hdel, if_true,
      and_true]
    exact hc
  · have hget : Activated sentinel c (heightToSegmentId height)
        (c.getSegmentMut sentinel (heightToSegmentId height)) := hc.getSegmentMut _
    obtain ⟨hc', hcont⟩ := @Consistent.touch I sentinel c hc (heightToSegmentId height)
    simp only [SegmentCache.getItem, if_neg hdel, hget.items]
    exact ⟨hc', hcont, rfl⟩

end

/-! ### Reading a range -/

theorem get_eq_map (segment : Segment I) (id : Nat) {lo hi : Nat} (hhi : hi ≤ itemsPerSegment) :
    segment.get lo hi = (range (hi - lo)).map fun k =>
      segment.items (heightToOffset (segmentIdToStartHeight id + lo + k)) := by
  refine map_take_drop_finRange segment.items hhi _ fun k hk => ?_
  rw [Nat.add_assoc]
  exact congrArg Fin.val (heightToOffset_start_add id ⟨lo + k, by omega⟩)

/-- A range of heights in two parts. -/
theorem map_range_split (f : Nat → I) {lo mid hi : Nat} (hlo : lo ≤ mid) (hhi : mid ≤ hi) :
    (range (hi - lo)).map (fun k => f (lo + k)) =
      (range (mid - lo)).map (fun k => f (lo + k)) ++
        (range (hi - mid)).map fun k => f (mid + k) := by
  have hlen : hi - lo = (mid - lo) + (hi - mid) := by omega
  rw [hlen, range_add, map_append, map_map]
  congr 1
  apply map_congr_left
  intro k _
  change f (lo + (mid - lo + k)) = f (mid + k)
  congr 1
  omega

theorem start_add_segStart {lo : Nat} (hid : heightToSegmentId lo ≤ id) :
    segmentIdToStartHeight id + segStart lo id = max lo (segmentIdToStartHeight id) := by
  have hlo := start_add_heightToOffset lo
  unfold segStart
  by_cases heq : id = heightToSegmentId lo
  · subst heq
    rw [if_pos rfl]
    omega
  · have hlt : lo < segmentIdToStartHeight id :=
      (div_lt_iff_lt_mul itemsPerSegment_pos).mp (lt_of_le_of_ne hid (Ne.symm heq))
    rw [if_neg heq]
    omega

variable {hi : Nat}

/-- The offset of an end height, with the end of a full segment as the segment size. -/
theorem segEnd_last (hpos : 0 < hi) :
    segEnd hi (heightToSegmentId (hi - 1)) = (heightToOffset (hi - 1)).val + 1 := by
  have hlast := start_add_heightToOffset (hi - 1)
  have hhi : hi = itemsPerSegment * heightToSegmentId (hi - 1) +
      ((heightToOffset (hi - 1)).val + 1) := by
    rw [segmentIdToStartHeight, mul_comm] at hlast
    omega
  have hmod : (heightToOffset hi).val =
      ((heightToOffset (hi - 1)).val + 1) % itemsPerSegment := by
    change hi % itemsPerSegment = _
    conv_lhs => rw [hhi]
    rw [mul_add_mod]
  simp only [segEnd, if_true, hmod]
  by_cases hfull : (heightToOffset (hi - 1)).val + 1 = itemsPerSegment
  · rw [hfull, Nat.mod_self, if_pos rfl]
  · rw [mod_eq_of_lt (by omega), if_neg (Nat.succ_ne_zero _)]

theorem segEnd_le (hpos : 0 < hi) : segEnd hi id ≤ itemsPerSegment := by
  by_cases heq : id = heightToSegmentId (hi - 1)
  · rw [heq, segEnd_last hpos]
    exact (heightToOffset (hi - 1)).isLt
  · simp [segEnd, heq]

theorem start_add_segEnd (hpos : 0 < hi) (hid : id ≤ heightToSegmentId (hi - 1)) :
    segmentIdToStartHeight id + segEnd hi id = min hi (segmentIdToStartHeight (id + 1)) := by
  have hnext : segmentIdToStartHeight (id + 1) = segmentIdToStartHeight id + itemsPerSegment :=
    succ_mul id itemsPerSegment
  by_cases heq : id = heightToSegmentId (hi - 1)
  · have hlast := start_add_heightToOffset (hi - 1)
    rw [hnext, heq, segEnd_last hpos]
    omega
  · have hge : segmentIdToStartHeight (id + 1) ≤ hi - 1 :=
      (le_div_iff_mul_le itemsPerSegment_pos).mp (lt_of_le_of_ne hid heq)
    have hend : segEnd hi id = itemsPerSegment := by
      simp [segEnd, heq]
    omega

/-- The slots read in one segment are the presented ones. -/
theorem Consistent.slice (hc : c.Consistent) {lo hi : Nat} (hpos : 0 < hi)
    (hstart : heightToSegmentId lo ≤ id) (hend : id ≤ heightToSegmentId (hi - 1)) :
    (c.getSegmentMut sentinel id).2.get (segStart lo id) (segEnd hi id) =
      (range (min hi (segmentIdToStartHeight (id + 1)) - max lo (segmentIdToStartHeight id))).map
        fun k => (c.content sentinel).slot (max lo (segmentIdToStartHeight id) + k) := by
  have hget : Activated sentinel c id (c.getSegmentMut sentinel id) := hc.getSegmentMut id
  have hfrom := start_add_segStart hstart
  have hto := start_add_segEnd hpos hend
  have hlen : segEnd hi id - segStart lo id =
      min hi (segmentIdToStartHeight (id + 1)) - max lo (segmentIdToStartHeight id) := by
    omega
  rw [get_eq_map _ id (segEnd_le hpos), hfrom, hlen, hget.items]
  apply map_congr_left
  intro k hk
  have hk := mem_range.mp hk
  -- a height between the segment's first one and the next segment's lies in the segment
  have hin : heightToSegmentId (max lo (segmentIdToStartHeight id) + k) = id := by
    apply Nat.div_eq_of_lt_le
    · exact (le_max_right _ _).trans (Nat.le_add_right _ _)
    · change _ < segmentIdToStartHeight (id + 1)
      omega
  change c.view sentinel id _ = c.view sentinel (heightToSegmentId _) _
  rw [hin]

/-- The part of a range in one segment, followed by the part in the later ones. -/
theorem map_range_segment (f : Nat → I) {lo hi : Nat} (hlt : lo < hi)
    (hstart : heightToSegmentId lo ≤ id) (hend : id ≤ heightToSegmentId (hi - 1)) :
    (range (hi - max lo (segmentIdToStartHeight id))).map
        (fun k => f (max lo (segmentIdToStartHeight id) + k)) =
      (range (min hi (segmentIdToStartHeight (id + 1)) -
          max lo (segmentIdToStartHeight id))).map
        (fun k => f (max lo (segmentIdToStartHeight id) + k)) ++
      (range (hi - max lo (segmentIdToStartHeight (id + 1)))).map
        fun k => f (max lo (segmentIdToStartHeight (id + 1)) + k) := by
  have hnext : segmentIdToStartHeight (id + 1) = segmentIdToStartHeight id + itemsPerSegment :=
    succ_mul id itemsPerSegment
  have hlo : lo < segmentIdToStartHeight (id + 1) :=
    (div_lt_iff_lt_mul itemsPerSegment_pos).mp (Nat.lt_succ_of_le hstart)
  have hhi : segmentIdToStartHeight id ≤ hi - 1 :=
    (le_div_iff_mul_le itemsPerSegment_pos).mp hend
  rw [map_range_split f (show max lo (segmentIdToStartHeight id) ≤
    min hi (segmentIdToStartHeight (id + 1)) by omega) (Nat.min_le_left _ _)]
  congr 1
  -- beyond the end of the range both rests are empty
  by_cases hmid : segmentIdToStartHeight (id + 1) ≤ hi
  · rw [min_eq_right hmid, max_eq_right hlo.le]
  · have hempty : hi - max lo (segmentIdToStartHeight (id + 1)) = 0 := by omega
    have hempty' : hi - min hi (segmentIdToStartHeight (id + 1)) = 0 := by omega
    rw [hempty, hempty']
    rfl

theorem Consistent.getItemsLoop (hc : c.Consistent) {lo hi : Nat} (hlt : lo < hi) {n : Nat}
    (hstart : heightToSegmentId lo ≤ id) (hend : id + n = heightToSegmentId (hi - 1) + 1) :
    (getItemsLoop sentinel lo hi (range' id n) c).1.Consistent ∧
    (getItemsLoop sentinel lo hi (range' id n) c).1.content sentinel = c.content sentinel ∧
    (getItemsLoop sentinel lo hi (range' id n) c).2 =
      if ∃ id' ∈ range' id n, id' ∈ c.toDelete then .error (.rangeQueuedForDeletion lo hi)
      else .ok ((range (hi - max lo (segmentIdToStartHeight id))).map
        fun k => (c.content sentinel).slot (max lo (segmentIdToStartHeight id) + k)) := by
  induction n generalizing c id with
  | zero =>
    -- the range ends before the segment after its last one
    have hge : hi ≤ segmentIdToStartHeight id := by
      have hlast : heightToSegmentId (hi - 1) < id := by omega
      have := (div_lt_iff_lt_mul itemsPerSegment_pos).mp hlast
      unfold segmentIdToStartHeight
      omega
    have hlen : hi - max lo (segmentIdToStartHeight id) = 0 := by omega
    simp [SegmentCache.getItemsLoop, hlen, hc]
  | succ n ih =>
    rw [range'_succ, SegmentCache.getItemsLoop]
    by_cases hdel : id ∈ c.toDelete
    · simp [hdel, hc]
    obtain ⟨hc', hcont⟩ := @Consistent.touch I sentinel c hc id
    have hqueue := @Consistent.touch_toDelete I sentinel c id hc hdel
    have hstart' : heightToSegmentId lo ≤ id + 1 := by omega
    have hend' : id + 1 + n = heightToSegmentId (hi - 1) + 1 := by omega
    obtain ⟨hc'', hcont', hresult⟩ := ih hc' hstart' hend'
    rw [hcont, hqueue] at hresult
    rw [hcont] at hcont'
    have hqueued : (∃ id' ∈ id :: range' (id + 1) n, id' ∈ c.toDelete) ↔
        ∃ id' ∈ range' (id + 1) n, id' ∈ c.toDelete := by
      simp [hdel]
    rw [if_neg hdel]
    simp only [hqueued]
    by_cases hrest : ∃ id' ∈ range' (id + 1) n, id' ∈ c.toDelete
    · rw [if_pos hrest] at hresult ⊢
      split
      · next heq =>
        rw [heq] at hc'' hcont' hresult
        exact ⟨hc'', hcont', hresult⟩
      · next heq =>
        rw [heq] at hresult
        cases hresult
    · rw [if_neg hrest] at hresult ⊢
      split
      · next heq =>
        rw [heq] at hresult
        cases hresult
      · next c₂ items heq =>
        rw [heq] at hc'' hcont' hresult
        refine ⟨hc'', hcont', ?_⟩
        have hitems := Except.ok.inj hresult
        rw [hc.slice (by omega) hstart (by omega), hitems,
          map_range_segment _ hlt hstart (by omega)]

/-- Reading a range of heights: refused if it meets a segment queued for deletion, and the
presented slots otherwise. -/
theorem Consistent.getItems (hc : c.Consistent) {lo hi : Nat} (hlt : lo < hi) :
    (c.getItems sentinel lo hi).1.Consistent ∧
    (c.getItems sentinel lo hi).1.content sentinel = c.content sentinel ∧
    ((∃ id ∈ c.toDelete, heightToSegmentId lo ≤ id ∧ id ≤ heightToSegmentId (hi - 1)) →
      (c.getItems sentinel lo hi).2 = .error (.rangeQueuedForDeletion lo hi)) ∧
    ((∀ id ∈ c.toDelete, ¬ (heightToSegmentId lo ≤ id ∧ id ≤ heightToSegmentId (hi - 1))) →
      (c.getItems sentinel lo hi).2 =
        .ok ((range (hi - lo)).map fun k => (c.content sentinel).slot (lo + k))) := by
  have hle : heightToSegmentId lo ≤ heightToSegmentId (hi - 1) := Nat.div_le_div_right (by omega)
  have hmax : max lo (segmentIdToStartHeight (heightToSegmentId lo)) = lo :=
    max_eq_left (Nat.div_mul_le_self _ _)
  obtain ⟨hc', hcont, hresult⟩ := @Consistent.getItemsLoop I sentinel c
    (heightToSegmentId lo) hc lo hi hlt (heightToSegmentId (hi - 1) + 1 - heightToSegmentId lo)
    le_rfl (by omega)
  simp only [SegmentCache.getItems, if_neg (not_lt.mpr hlt.le)]
  refine ⟨hc', hcont, fun hqueue => ?_, fun hqueue => ?_⟩
  · obtain ⟨id, hdel, hid⟩ := hqueue
    rw [hresult, if_pos ⟨id, mem_range'_1.mpr (by omega), hdel⟩]
  · rw [hresult, if_neg, hmax]
    rintro ⟨id, hid, hdel⟩
    rw [mem_range'_1] at hid
    exact hqueue id hdel (by omega)

/-- Reading a range leaves the deletion queue alone. -/
theorem Consistent.getItems_toDelete (hc : c.Consistent) (lo hi : Nat) :
    (c.getItems sentinel lo hi).1.toDelete = c.toDelete := by
  refine (getItems_keeps (P := fun c' => c'.Consistent ∧ c'.toDelete = c.toDelete) ?_
    ⟨hc, rfl⟩ lo hi).2
  rintro c' id ⟨hc', hqueue⟩ hdel
  exact ⟨hc'.touch id |>.1, (hc'.touch_toDelete hdel).trans hqueue⟩

/-! ### Segments know their ids -/

/-- Every segment in memory carries the id it is kept under. -/
structure Keyed (c : SegmentCache I) : Prop where
  active : ∀ {id segment}, c.segments.get? id = some segment → segment.segmentId = id
  evicted : ∀ {id segment}, c.evicted.get? id = some segment → segment.segmentId = id

theorem Keyed.evictOldest (hc : c.Keyed) : c.evictOldest.Keyed := by
  obtain hself | ⟨key, segment, hkey, heq⟩ := c.evictOldest_cases
  · rw [hself]
    exact hc
  · obtain ⟨h₁, h₂⟩ := hc
    constructor <;> intro id s hs <;> grind

section Keyed

variable (sentinel) (hc : c.Keyed)
include hc

theorem Keyed.fetch (id : Nat) : (c.fetch sentinel id).segmentId = id := by
  unfold SegmentCache.fetch Segment.load
  cases hevicted : c.evicted.get? id with
  | some segment => exact hc.evicted hevicted
  | none =>
    cases hdisk : c.disk.get? id <;> by_cases hdel : id ∈ c.toDelete <;> simp [hdel, Segment.vacant]

theorem Keyed.getSegmentMut (id : Nat) :
    (c.getSegmentMut sentinel id).1.Keyed ∧ (c.getSegmentMut sentinel id).2.segmentId = id := by
  unfold SegmentCache.getSegmentMut
  cases hactive : c.segments.get? id with
  | some segment => exact ⟨hc, hc.active hactive⟩
  | none =>
    change (Keyed
      { c.makeRoom with
        segments := c.makeRoom.segments.insert id (c.makeRoom.fetch sentinel id)
        evicted := c.makeRoom.evicted.erase id
        toDelete := _
        clock := _ }) ∧ (c.makeRoom.fetch sentinel id).segmentId = id
    have hroom : c.makeRoom.Keyed := by
      unfold SegmentCache.makeRoom
      split_ifs
      · exact hc.evictOldest
      · exact hc
    have hid := hroom.fetch sentinel id
    obtain ⟨h₁, h₂⟩ := hroom
    refine ⟨⟨fun hget => ?_, fun hget => ?_⟩, hid⟩
    · grind
    · grind

theorem Keyed.modifySegment (id : Nat) {change : Segment I → Nat → Segment I}
    (hid : ∀ segment now, (change segment now).segmentId = segment.segmentId) :
    (c.modifySegment sentinel id change).Keyed := by
  obtain ⟨⟨h₁, h₂⟩, hget⟩ := hc.getSegmentMut sentinel id
  refine ⟨fun {id' segment} h => ?_, h₂⟩
  obtain ⟨rfl, rfl⟩ | ⟨-, h⟩ := of_get?_insert h
  · exact (hid _ _).trans hget
  · exact h₁ h

theorem Keyed.storeItemsAtHeight (items : List I) (height : Nat) :
    (c.storeItemsAtHeight sentinel items height).Keyed :=
  storeItemsAtHeight_keeps (fun hc' => hc'.modifySegment sentinel _ fun _ _ => rfl)
    (fun hc' => ⟨hc'.active, hc'.evicted⟩) hc items height

theorem Keyed.dropSegments (ids : Finset Nat) : (c.dropSegments ids).Keyed :=
  ⟨fun hget => hc.active (get?_of_filter hget),
    fun hget => hc.evicted (get?_of_filter hget)⟩

theorem Keyed.truncateAbove [DecidableEq I] (target : Nat) :
    (c.truncateAbove sentinel target).1.Keyed := by
  refine truncateAbove_keeps (fun hc' => hc'.modifySegment sentinel _ fun segment now => ?_)
    (fun _ hc' => hc'.dropSegments _) (fun hc' => ⟨hc'.active, hc'.evicted⟩) hc
  unfold Segment.resetAbove
  split_ifs <;> rfl

theorem Keyed.getItem [DecidableEq I] (height : Nat) : (c.getItem sentinel height).1.Keyed := by
  unfold SegmentCache.getItem
  simp only
  split_ifs
  · exact hc
  all_goals exact hc.modifySegment sentinel _ fun _ _ => rfl

theorem Keyed.getItems (lo hi : Nat) : (c.getItems sentinel lo hi).1.Keyed :=
  getItems_keeps (fun hc' _ => hc'.modifySegment sentinel _ fun _ _ => rfl) hc lo hi

end Keyed

end SegmentCache

/-! ### Files -/

/-- The slots of a segment file; empty without a file. -/
def onDisk (sentinel : I) (disk : SortedMap Nat (Slots I)) (id : Nat) : Slots I :=
  (disk.get? id).getD fun _ => sentinel

variable {ops : List (FileOp I)}

namespace FileOp

/-- The segment whose file changes. -/
def target : FileOp I → Nat
  | .remove id => id
  | .write id _ => id

/-- The file left behind. -/
def file : FileOp I → Option (Slots I)
  | .remove _ => none
  | .write _ items => some items

theorem get?_apply (disk : SortedMap Nat (Slots I)) (op : FileOp I) (id : Nat) :
    (op.apply disk).get? id = if op.target = id then op.file else disk.get? id := by
  cases op with
  | remove target => exact get?_erase disk target id
  | write target items => exact get?_insert disk target id items

/-- Changes that all bring their file to what `saved` says leave each file as it was or as
`saved` says, whatever their order. -/
theorem get?_foldl_apply {saved : Nat → Option (Slots I)}
    (hops : ∀ op ∈ ops, op.file = saved op.target) (disk : SortedMap Nat (Slots I)) (id : Nat) :
    (ops.foldl apply disk).get? id =
      if id ∈ ops.map target then saved id else disk.get? id := by
  induction ops generalizing disk with
  | nil => simp
  | cons op rest ih =>
    obtain ⟨hop, hrest⟩ := forall_mem_cons.mp hops
    rw [foldl_cons, ih hrest, get?_apply, map_cons]
    by_cases htarget : op.target = id
    · subst htarget
      simp [hop]
    · simp [htarget, Ne.symm htarget]

end FileOp

namespace SegmentCache

/-- The file of a segment after a save. -/
def saved (c : SegmentCache I) (id : Nat) : Option (Slots I) :=
  match c.segments.get? id, c.evicted.get? id with
  | some segment, _ => some segment.items
  | none, some segment => some segment.items
  | none, none => if id ∈ c.toDelete then none else c.disk.get? id

/-- What a cache presents is what a save would leave in the files. -/
theorem view_eq_saved (c : SegmentCache I) (id : Nat) :
    c.view sentinel id = (c.saved id).getD fun _ => sentinel := by
  unfold view saved
  cases c.segments.get? id with
  | some segment => rfl
  | none =>
    simp only [fetch_items]
    cases c.evicted.get? id with
    | some segment => rfl
    | none =>
      by_cases hdel : id ∈ c.toDelete <;> simp [hdel]

theorem mem_fileOps {op : FileOp I} :
    op ∈ c.fileOps ↔ (∃ id ∈ c.toDelete, op = .remove id) ∨
      (∃ id segment, c.evicted.get? id = some segment ∧ segment.fileOp = some op) ∨
      ∃ id segment, c.segments.get? id = some segment ∧ segment.fileOp = some op := by
  simp only [fileOps, mem_append, mem_map, Finset.mem_sort, mem_filterMap, mem_values_iff, or_assoc]
  grind

section

variable (hc : c.Consistent) (hk : c.Keyed)
include hc hk

/-- A change of a save brings its file to what the cache presents. -/
theorem Consistent.fileOps_file :
    ∀ op ∈ c.fileOps, op.file = c.saved op.target := by
  -- the write of a segment in memory
  have hwrite : ∀ {segment : Segment I} {op : FileOp I}, segment.fileOp = some op →
      op = .write segment.segmentId segment.items := by
    intro segment op hop
    unfold Segment.fileOp at hop
    cases hstate : segment.state <;> simp_all
  intro op hop
  rcases mem_fileOps.mp hop with ⟨id, hdel, rfl⟩ | ⟨id, segment, hget, hop⟩ | ⟨id, segment, hget, hop⟩
  · obtain ⟨hactive, hevicted⟩ := hc.get?_of_deleted hdel
    simp [FileOp.file, FileOp.target, saved, hactive, hevicted, hdel]
  · have hactive : c.segments.get? id = none := by
      cases h : c.segments.get? id with
      | none => rfl
      | some other => rw [hc.active_not_evicted h] at hget; cases hget
    rw [hwrite hop, hk.evicted hget]
    simp [FileOp.file, FileOp.target, saved, hactive, hget]
  · rw [hwrite hop, hk.active hget]
    simp [FileOp.file, FileOp.target, saved, hget]

/-- A file that a save leaves alone already is what the cache presents. -/
theorem Consistent.saved_of_not_mem
    (hid : id ∉ c.fileOps.map FileOp.target) : c.saved id = c.disk.get? id := by
  have hnone : ∀ op ∈ c.fileOps, op.target ≠ id := fun op hop heq =>
    hid (heq ▸ mem_map_of_mem hop)
  have hdirty : ∀ {segment : Segment I}, segment.state = .dirty →
      segment.fileOp = some (.write segment.segmentId segment.items) := by
    intro segment hstate
    simp [Segment.fileOp, hstate]
  unfold saved
  cases hactive : c.segments.get? id with
  | some segment =>
    cases hstate : segment.state with
    | clean => exact (hc.clean_on_disk hactive hstate).symm
    | dirty =>
      exact absurd (hk.active hactive)
        (hnone _ (mem_fileOps.mpr (.inr (.inr ⟨id, segment, hactive, hdirty hstate⟩))))
  | none =>
    cases hevicted : c.evicted.get? id with
    | some segment =>
      exact absurd (hk.evicted hevicted) (hnone _ (mem_fileOps.mpr
        (.inr (.inl ⟨id, segment, hevicted, hdirty (hc.evicted_dirty hevicted)⟩))))
    | none =>
      have hdel : id ∉ c.toDelete := fun hdel =>
        hnone _ (mem_fileOps.mpr (.inl ⟨id, hdel, rfl⟩)) rfl
      simp [hdel]

/-- After some of the changes of a save, in any order, each file is as it was or as the cache
presents it. -/
theorem Consistent.get?_partial_save (hops : ops ⊆ c.fileOps) (id : Nat) :
    (ops.foldl FileOp.apply c.disk).get? id = c.disk.get? id ∨
      (ops.foldl FileOp.apply c.disk).get? id = c.saved id := by
  rw [FileOp.get?_foldl_apply fun op hop => hc.fileOps_file hk op (hops hop)]
  by_cases hmem : id ∈ ops.map FileOp.target
  · exact .inr (if_pos hmem)
  · exact .inl (if_neg hmem)

theorem Consistent.persist_disk (id : Nat) : c.persist.disk.get? id = c.saved id := by
  change (c.fileOps.foldl FileOp.apply c.disk).get? id = _
  rw [FileOp.get?_foldl_apply (hc.fileOps_file hk)]
  by_cases hmem : id ∈ c.fileOps.map FileOp.target
  · exact if_pos hmem
  · rw [if_neg hmem, hc.saved_of_not_mem hk hmem]

/-- A save keeps a cache consistent, and what it presents. -/
theorem Consistent.persist :
    c.persist.Consistent ∧ c.persist.content sentinel = c.content sentinel := by
  have hactive : ∀ {id segment}, c.persist.segments.get? id = some segment →
      c.saved id = some segment.items := by
    intro id segment hget
    simp only [SegmentCache.persist, get?_mapVal, Option.map_eq_some_iff] at hget
    obtain ⟨old, hold, rfl⟩ := hget
    simp [saved, hold]
  constructor
  · refine ⟨fun _ => rfl, fun _ => ?_, fun hget => ?_, fun hget _ => ?_, fun hget => ?_⟩
    · simp [SegmentCache.persist]
    · simp [SegmentCache.persist] at hget
    · rw [hc.persist_disk hk, hactive hget]
    · simp [SegmentCache.persist] at hget
  · refine HeightMap.ext (funext fun h => ?_) rfl rfl
    have hsaved : c.persist.saved (heightToSegmentId h) = c.saved (heightToSegmentId h) := by
      conv_lhs => unfold saved
      cases hget : c.persist.segments.get? (heightToSegmentId h) with
      | some segment => exact (hactive hget).symm
      | none => simpa [SegmentCache.persist] using hc.persist_disk hk (heightToSegmentId h)
    change c.persist.view sentinel _ _ = c.view sentinel _ _
    rw [view_eq_saved, view_eq_saved, hsaved]

end

theorem Keyed.persist (hc : c.Keyed) : c.persist.Keyed := by
  refine ⟨fun hget => ?_, fun hget => ?_⟩
  · simp only [SegmentCache.persist, get?_mapVal, Option.map_eq_some_iff] at hget
    obtain ⟨old, hold, rfl⟩ := hget
    have hid := hc.active hold
    exact hid
  · simp [SegmentCache.persist] at hget

/-- A cache whose segments are consistent and know their ids. -/
structure Sound (c : SegmentCache I) : Prop where
  consistent : c.Consistent
  keyed : c.Keyed

/-- The files of a cache hold what it presents. -/
def FilesCurrent (sentinel : I) (c : SegmentCache I) : Prop :=
  onDisk sentinel c.disk = c.view sentinel

theorem Sound.filesCurrent_persist (hc : c.Sound) : c.persist.FilesCurrent sentinel := by
  obtain ⟨-, hcont⟩ := @Consistent.persist I sentinel _ hc.consistent hc.keyed
  funext id
  rw [onDisk, hc.consistent.persist_disk hc.keyed, ← view_eq_saved, view_eq_of_content hcont]

end SegmentCache

/-! ### Reopening -/

section Reopen

variable (sentinel)

section

variable (disk : SortedMap Nat (Slots I))

/-- The last segment file listed, by the ids read off the file names. -/
def lastListed : Option Nat := (disk.keys.map listedId).max?

/-- The first segment file listed. -/
def firstListed : Option Nat := (disk.keys.map listedId).min?

/-- The item files hold at a height. -/
def fileSlot (h : Nat) : I :=
  onDisk sentinel disk (heightToSegmentId h) (heightToOffset h)

end

/-- A last height is the last one in use in the last listed file. -/
inductive ReadsTip (disk : SortedMap Nat (Slots I)) : Option Nat → Prop
  | none (hempty : ∀ id, lastListed disk = some id → ¬ Used sentinel (onDisk sentinel disk id)) :
      ReadsTip disk none
  | some {t : Nat} (hlisted : lastListed disk = some (heightToSegmentId t))
      (hused : fileSlot sentinel disk t ≠ sentinel)
      (hlast : ∀ h > t, heightToSegmentId h = heightToSegmentId t →
        fileSlot sentinel disk h = sentinel) : ReadsTip disk (some t)

/-- A first height is the first one in use in the first listed file. -/
inductive ReadsStart (disk : SortedMap Nat (Slots I)) : Option Nat → Prop
  | none (hempty : ∀ id, firstListed disk = some id → ¬ Used sentinel (onDisk sentinel disk id)) :
      ReadsStart disk none
  | some {t : Nat} (hlisted : firstListed disk = some (heightToSegmentId t))
      (hused : fileSlot sentinel disk t ≠ sentinel)
      (hfirst : ∀ h < t, heightToSegmentId h = heightToSegmentId t →
        fileSlot sentinel disk h = sentinel) : ReadsStart disk (some t)

/-- A cache as it comes out of reading its files. -/
structure Opened (disk : SortedMap Nat (Slots I)) (c : SegmentCache I) : Prop where
  consistent : c.Consistent
  keyed : c.Keyed
  toDelete : c.toDelete = ∅
  files : c.disk = disk
  view : c.view sentinel = onDisk sentinel disk

variable {sentinel}

theorem fileSlot_start_add (disk : SortedMap Nat (Slots I)) (id : Nat)
    (offset : Fin itemsPerSegment) :
    fileSlot sentinel disk (segmentIdToStartHeight id + offset) =
      onDisk sentinel disk id offset := by
  rw [fileSlot, heightToSegmentId_start_add, heightToOffset_start_add]

/-- Heights of one segment are ordered as their slots. -/
theorem lt_iff_offset_lt {h k : Nat} (hseg : heightToSegmentId h = heightToSegmentId k) :
    h < k ↔ heightToOffset h < heightToOffset k := by
  have hh := start_add_heightToOffset h
  have hk := start_add_heightToOffset k
  rw [hseg] at hh
  omega

variable {disk : SortedMap Nat (Slots I)}

theorem Opened.slot (hc : Opened sentinel disk c) :
    (c.content sentinel).slot = fileSlot sentinel disk :=
  funext fun _ => congrFun (congrFun hc.view _) _

theorem Opened.getSegmentMut (hc : Opened sentinel disk c) (id : Nat) :
    Opened sentinel disk (c.getSegmentMut sentinel id).1 ∧
      (c.getSegmentMut sentinel id).2.items = onDisk sentinel disk id := by
  have hget : SegmentCache.Activated sentinel c id (c.getSegmentMut sentinel id) :=
    hc.consistent.getSegmentMut id
  have hdisk := c.getSegmentMut_disk sentinel id
  have hqueue := @SegmentCache.Consistent.getSegmentMut_toDelete I sentinel c hc.consistent id
  rw [hc.toDelete, Finset.erase_empty] at hqueue
  exact ⟨⟨hget.consistent, (hc.keyed.getSegmentMut sentinel id).1, hqueue, hdisk.trans hc.files,
    hget.view.trans hc.view⟩, hget.items.trans (congrFun hc.view id)⟩

theorem Opened.setRange (hc : Opened sentinel disk c) (start tip : Option Nat) :
    Opened sentinel disk { c with startHeight := start, tipHeight := tip } := by
  obtain ⟨⟨h₁, h₂, h₃, h₄, h₅⟩, ⟨k₁, k₂⟩, hqueue, hdisk, hview⟩ := hc
  exact ⟨⟨h₁, h₂, h₃, h₄, h₅⟩, ⟨k₁, k₂⟩, hqueue, hdisk, hview⟩

variable [DecidableEq I] {segment : Segment I}

theorem readsTip_lastValidOffset (hlisted : lastListed disk = some id)
    (hitems : segment.items = onDisk sentinel disk id) :
    ReadsTip sentinel disk ((segment.lastValidOffset sentinel).map fun offset =>
      segmentIdToStartHeight id + offset) := by
  cases hlast : segment.lastValidOffset sentinel with
  | none =>
    refine .none fun id' hid' => ?_
    rw [← Option.mem_unique hlisted hid', ← hitems]
    exact lastValidOffset_eq_none hlast
  | some offset =>
    obtain ⟨hused, hafter⟩ := lastValidOffset_eq_some hlast
    rw [hitems] at hused hafter
    refine .some ?_ ?_ fun h hgt hseg => ?_
    · rw [heightToSegmentId_start_add, hlisted]
    · rwa [fileSlot_start_add]
    · have hslot := (lt_iff_offset_lt hseg.symm).mp hgt
      rw [heightToOffset_start_add] at hslot
      rw [heightToSegmentId_start_add] at hseg
      rw [fileSlot, hseg]
      exact hafter _ hslot

theorem readsStart_firstValidOffset (hlisted : firstListed disk = some id)
    (hitems : segment.items = onDisk sentinel disk id) :
    ReadsStart sentinel disk ((segment.firstValidOffset sentinel).map fun offset =>
      segmentIdToStartHeight id + offset) := by
  cases hfirst : segment.firstValidOffset sentinel with
  | none =>
    refine .none fun id' hid' => ?_
    rw [← Option.mem_unique hlisted hid', ← hitems]
    exact firstValidOffset_eq_none hfirst
  | some offset =>
    obtain ⟨hused, hbefore⟩ := firstValidOffset_eq_some hfirst
    rw [hitems] at hused hbefore
    refine .some ?_ ?_ fun h hlt hseg => ?_
    · rw [heightToSegmentId_start_add, hlisted]
    · rwa [fileSlot_start_add]
    · have hslot := (lt_iff_offset_lt hseg).mp hlt
      rw [heightToOffset_start_add] at hslot
      rw [heightToSegmentId_start_add] at hseg
      rw [fileSlot, hseg]
      exact hbefore _ hslot

theorem Opened.loadTip (hc : Opened sentinel disk c) (hnone : c.tipHeight = none) :
    Opened sentinel disk (SegmentCache.loadTip sentinel c) ∧
      (SegmentCache.loadTip sentinel c).startHeight = c.startHeight ∧
      ReadsTip sentinel disk (SegmentCache.loadTip sentinel c).tipHeight := by
  unfold SegmentCache.loadTip
  cases hlast : (c.disk.keys.map listedId).max? with
  | none =>
    refine ⟨hc, rfl, ?_⟩
    rw [hc.files] at hlast
    rw [hnone]
    refine .none fun id hid => ?_
    rw [lastListed, hlast] at hid
    cases hid
  | some id =>
    rw [hc.files] at hlast
    have hget : SegmentCache.Activated sentinel c id (c.getSegmentMut sentinel id) :=
      hc.consistent.getSegmentMut id
    obtain ⟨hc', hitems⟩ := hc.getSegmentMut id
    exact ⟨hc'.setRange _ _, hget.start, readsTip_lastValidOffset hlast hitems⟩

theorem Opened.loadStart (hc : Opened sentinel disk c) (hnone : c.startHeight = none) :
    Opened sentinel disk (SegmentCache.loadStart sentinel c) ∧
      (SegmentCache.loadStart sentinel c).tipHeight = c.tipHeight ∧
      ReadsStart sentinel disk (SegmentCache.loadStart sentinel c).startHeight := by
  unfold SegmentCache.loadStart
  cases hfirst : (c.disk.keys.map listedId).min? with
  | none =>
    refine ⟨hc, rfl, ?_⟩
    rw [hc.files] at hfirst
    rw [hnone]
    refine .none fun id hid => ?_
    rw [firstListed, hfirst] at hid
    cases hid
  | some id =>
    rw [hc.files] at hfirst
    have hget : SegmentCache.Activated sentinel c id (c.getSegmentMut sentinel id) :=
      hc.consistent.getSegmentMut id
    obtain ⟨hc', hitems⟩ := hc.getSegmentMut id
    exact ⟨hc'.setRange _ _, hget.tip, readsStart_firstValidOffset hfirst hitems⟩

variable (sentinel) in
/-- A store opened from its files presents them; its range of heights is what the last and
the first listed file say. -/
theorem loadOrNew_spec (disk : SortedMap Nat (Slots I)) (clock : Nat) :
    Opened sentinel disk (loadOrNew sentinel disk clock) ∧
    ReadsTip sentinel disk (loadOrNew sentinel disk clock).tipHeight ∧
    ReadsStart sentinel disk (loadOrNew sentinel disk clock).startHeight := by
  have hfresh : Opened sentinel disk
      (⟨∅, ∅, none, none, ∅, disk, clock⟩ : SegmentCache I) := by
    refine ⟨by constructor <;> simp, by constructor <;> simp, rfl, rfl, ?_⟩
    funext id
    simp [SegmentCache.view, SegmentCache.fetch_items, onDisk]
  obtain ⟨hopened, hstart, htip⟩ := hfresh.loadTip rfl
  obtain ⟨hopened', htip', hstart'⟩ := hopened.loadStart hstart
  exact ⟨hopened', htip'.symm ▸ htip, hstart'⟩

omit [DecidableEq I] in
/-- A range read off the files does not end before it starts. -/
theorem readsStart_le_readsTip {start tip : Nat}
    (hstart : ReadsStart sentinel disk (some start)) (htip : ReadsTip sentinel disk (some tip)) :
    start ≤ tip := by
  cases hstart with
  | some hfirst _ hempty =>
    cases htip with
    | some hlast hused _ =>
      have hseg : heightToSegmentId start ≤ heightToSegmentId tip := by
        have hmem := (max?_eq_some_iff.mp hlast).1
        exact (min?_eq_some_iff.mp hfirst).2 _ hmem
      by_contra hlt
      -- otherwise both lie in one file, and the tip in use below its first item
      exact hused (hempty tip (not_le.mp hlt)
        (le_antisymm (Nat.div_le_div_right (not_le.mp hlt).le) hseg))

/-! ### The range of heights of a reopened store -/

/-- A first and a last height enclose a set of heights exactly; both are missing for the
empty set. -/
structure RangeOf (occupied : Set Nat) (start tip : Option Nat) : Prop where
  tip_none : tip = none ↔ occupied = ∅
  tip_greatest : ∀ t, tip = some t → IsGreatest occupied t
  start_none : start = none ↔ occupied = ∅
  start_least : ∀ s, start = some s → IsLeast occupied s

variable (sentinel) in
/-- The last and the first listed file hold items, and no file with an item lies beyond
them. -/
def EndsUsed (disk : SortedMap Nat (Slots I)) : Prop :=
  ∀ id, Used sentinel (onDisk sentinel disk id) →
    (∃ last, lastListed disk = some last ∧ id ≤ last ∧
      Used sentinel (onDisk sentinel disk last)) ∧
    ∃ first, firstListed disk = some first ∧ first ≤ id ∧
      Used sentinel (onDisk sentinel disk first)

omit [DecidableEq I] in
theorem used_of_fileSlot {h : Nat}
    (hh : fileSlot sentinel disk h ≠ sentinel) :
    Used sentinel (onDisk sentinel disk (heightToSegmentId h)) :=
  ⟨heightToOffset h, hh⟩

omit [DecidableEq I] in
theorem exists_tip_of_used {tip : Option Nat} (htip : ReadsTip sentinel disk tip)
    (hlisted : lastListed disk = some id) (hid : Used sentinel (onDisk sentinel disk id)) :
    ∃ t, tip = some t ∧ heightToSegmentId t = id ∧ fileSlot sentinel disk t ≠ sentinel ∧
      ∀ h > t, heightToSegmentId h = id → fileSlot sentinel disk h = sentinel := by
  cases htip with
  | none hempty => exact absurd hid (hempty id hlisted)
  | @some t hlisted' hused hlast =>
    obtain rfl := Option.mem_unique hlisted' hlisted
    exact ⟨t, rfl, rfl, hused, hlast⟩

omit [DecidableEq I] in
theorem exists_start_of_used {start : Option Nat} (hstart : ReadsStart sentinel disk start)
    (hlisted : firstListed disk = some id) (hid : Used sentinel (onDisk sentinel disk id)) :
    ∃ t, start = some t ∧ heightToSegmentId t = id ∧ fileSlot sentinel disk t ≠ sentinel ∧
      ∀ h < t, heightToSegmentId h = id → fileSlot sentinel disk h = sentinel := by
  cases hstart with
  | none hempty => exact absurd hid (hempty id hlisted)
  | @some t hlisted' hused hfirst =>
    obtain rfl := Option.mem_unique hlisted' hlisted
    exact ⟨t, rfl, rfl, hused, hfirst⟩

omit [DecidableEq I] in
theorem exists_fileSlot_of_used (hid : Used sentinel (onDisk sentinel disk id)) :
    ∃ h, heightToSegmentId h = id ∧ fileSlot sentinel disk h ≠ sentinel := by
  obtain ⟨offset, hoffset⟩ := hid
  exact ⟨segmentIdToStartHeight id + offset, heightToSegmentId_start_add id offset,
    by rwa [fileSlot_start_add]⟩

theorem heightToSegmentId_mono {h k : Nat} (hle : h ≤ k) :
    heightToSegmentId h ≤ heightToSegmentId k :=
  Nat.div_le_div_right hle

omit [DecidableEq I] in
/-- What the ends of the files say is right exactly if the ends are in use and enclose all
other files. -/
theorem rangeOf_iff_endsUsed {start tip : Option Nat}
    (htip : ReadsTip sentinel disk tip) (hstart : ReadsStart sentinel disk start) :
    RangeOf {h | fileSlot sentinel disk h ≠ sentinel} start tip ↔ EndsUsed sentinel disk := by
  constructor
  · intro hrange id hid
    obtain ⟨h, rfl, hh⟩ := exists_fileSlot_of_used hid
    have hne : {h | fileSlot sentinel disk h ≠ sentinel} ≠ ∅ :=
      Set.Nonempty.ne_empty ⟨h, hh⟩
    constructor
    · cases htip with
      | none => exact absurd (hrange.tip_none.mp rfl) hne
      | @some t hlisted hused hlast =>
        exact ⟨_, hlisted, heightToSegmentId_mono ((hrange.tip_greatest t rfl).2 hh),
          used_of_fileSlot hused⟩
    · cases hstart with
      | none => exact absurd (hrange.start_none.mp rfl) hne
      | @some s hlisted hused hfirst =>
        exact ⟨_, hlisted, heightToSegmentId_mono ((hrange.start_least s rfl).2 hh),
          used_of_fileSlot hused⟩
  · intro hends
    constructor
    · cases htip with
      | none hempty =>
        refine iff_of_true rfl (Set.eq_empty_of_forall_notMem fun h hh => ?_)
        obtain ⟨⟨last, hlisted, -, hused⟩, -⟩ := hends _ (used_of_fileSlot hh)
        exact hempty last hlisted hused
      | @some t hlisted hused hlast =>
        exact iff_of_false (Option.some_ne_none t) (Set.Nonempty.ne_empty ⟨t, hused⟩)
    · rintro t rfl
      cases htip with
      | some hlisted hused hlast =>
        refine ⟨hused, fun h hh => ?_⟩
        obtain ⟨⟨last, hlisted', hle, -⟩, -⟩ := hends _ (used_of_fileSlot hh)
        rw [hlisted, Option.some.injEq] at hlisted'
        subst hlisted'
        by_contra hlt
        exact hh (hlast h (not_le.mp hlt)
          (le_antisymm hle (heightToSegmentId_mono (not_le.mp hlt).le)))
    · cases hstart with
      | none hempty =>
        refine iff_of_true rfl (Set.eq_empty_of_forall_notMem fun h hh => ?_)
        obtain ⟨-, ⟨first, hlisted, -, hused⟩⟩ := hends _ (used_of_fileSlot hh)
        exact hempty first hlisted hused
      | @some s hlisted hused hfirst =>
        exact iff_of_false (Option.some_ne_none s) (Set.Nonempty.ne_empty ⟨s, hused⟩)
    · rintro s rfl
      cases hstart with
      | some hlisted hused hfirst =>
        refine ⟨hused, fun h hh => ?_⟩
        obtain ⟨-, ⟨first, hlisted', hle, -⟩⟩ := hends _ (used_of_fileSlot hh)
        rw [hlisted, Option.some.injEq] at hlisted'
        subst hlisted'
        by_contra hlt
        exact hh (hfirst h (not_le.mp hlt)
          (le_antisymm (heightToSegmentId_mono (not_le.mp hlt).le) hle))

/-! ### A store of one item -/

/-- The files of a store with one item. -/
def singleFile (sentinel item : I) (height : Nat) : SortedMap Nat (Slots I) :=
  (∅ : SortedMap Nat (Slots I)).insert (heightToSegmentId height)
    (Function.update (fun _ => sentinel) (heightToOffset height) item)

omit [DecidableEq I] in
theorem fileSlot_singleFile (item : I) (height h : Nat) :
    fileSlot sentinel (singleFile sentinel item height) h =
      if h = height then item else sentinel := by
  unfold fileSlot onDisk singleFile
  rw [get?_insert]
  by_cases hid : heightToSegmentId height = heightToSegmentId h
  · rw [if_pos hid, Option.getD_some, Function.update_apply]
    have hiff : heightToOffset h = heightToOffset height ↔ h = height := by
      rw [← SegmentCache.sameSlot_iff]
      simp [hid]
    simp only [hiff]
  · have hne : h ≠ height := fun heq => hid (heq ▸ rfl)
    rw [if_neg hid, if_neg hne]
    rfl

/-- Opened, it has that height as its range, if the name of its file is read back. -/
theorem loadOrNew_singleFile {item : I} (hitem : item ≠ sentinel) {height : Nat}
    (hlisted : listedId (heightToSegmentId height) = heightToSegmentId height) (clock : Nat) :
    (loadOrNew sentinel (singleFile sentinel item height) clock).content sentinel =
      ⟨fun h => if h = height then item else sentinel, some height, some height⟩ := by
  obtain ⟨hopened, htip, hstart⟩ :=
    loadOrNew_spec sentinel (singleFile sentinel item height) clock
  have hused : fileSlot sentinel (singleFile sentinel item height) height ≠ sentinel := by
    rw [fileSlot_singleFile, if_pos rfl]
    exact hitem
  have honly : ∀ {h}, fileSlot sentinel (singleFile sentinel item height) h ≠ sentinel →
      h = height := by
    intro h hh
    by_contra hne
    rw [fileSlot_singleFile, if_neg hne] at hh
    exact hh rfl
  obtain ⟨start, hs, -, hstart, -⟩ :=
    exists_start_of_used hstart (congrArg some hlisted) (used_of_fileSlot hused)
  obtain ⟨tip, ht, -, htip, -⟩ :=
    exists_tip_of_used htip (congrArg some hlisted) (used_of_fileSlot hused)
  apply HeightMap.ext
  · exact hopened.slot.trans (funext (fileSlot_singleFile item height))
  · exact hs.trans (congrArg some (honly hstart))
  · exact ht.trans (congrArg some (honly htip))

end Reopen

end Dashcore
