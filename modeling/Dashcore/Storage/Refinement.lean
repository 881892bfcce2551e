import Dashcore.Storage.SegmentCache

/-!
# The segment cache as a height map

What a store is for: a map from heights to slots with a first and a last height. Which
segments are active, evicted, queued for deletion or on disk is invisible in it. A cache in
a consistent state presents such a map, and each writer acts on it as its plain counterpart.
-/

namespace Dashcore

open SortedMap Function

/-! ### Height maps -/

/-- Slots by height, with the range of heights in use. -/
@[ext]
structure HeightMap (I : Type) where
  slot : Nat → I
  start : Option Nat
  tip : Option Nat

namespace HeightMap

variable {I : Type}

/-- Every item lies between the first and the last height. -/
def InRange (sentinel : I) (m : HeightMap I) : Prop :=
  ∀ h, m.slot h ≠ sentinel → ∃ s t, m.start = some s ∧ m.tip = some t ∧ s ≤ h ∧ h ≤ t

/-- The map without its items above a height. -/
def cut (sentinel : I) (m : HeightMap I) (height : Nat) : HeightMap I where
  slot := fun h => if h ≤ height then m.slot h else sentinel
  start := m.start
  tip := m.tip.map (min height)

/-- The map after a cut: items above the target are removed up to the segment of the last
height, and none if the last height is not above the target. -/
def trim (sentinel : I) (m : HeightMap I) (target : Nat) : HeightMap I where
  slot := fun h =>
    if target < h ∧ ∃ tip ∈ m.tip, target < tip ∧ heightToSegmentId h ≤ heightToSegmentId tip then
      sentinel
    else m.slot h
  start := m.start
  tip := m.tip.map (min target)

section

variable (m : HeightMap I)

/-- The map with items written from a height on. -/
def storeAt (items : List I) (height : Nat) : HeightMap I :=
  if items.isEmpty then m
  else
    { slot := fun h => if height ≤ h then (items[h - height]?).getD (m.slot h) else m.slot h
      start := some (m.start.elim height (min · height))
      tip := some (m.tip.elim (height + items.length - 1) (max · (height + items.length - 1))) }

/-- The height above the last one. -/
def nextHeight : Nat := m.tip.elim 0 (· + 1)

/-- The map continued by items. -/
def append (items : List I) : HeightMap I := m.storeAt items m.nextHeight

/-- A cut would leave a hole below the first height. -/
def RefusesCut (height : Nat) : Prop :=
  (∃ tip ∈ m.tip, height < tip) ∧ ∃ start ∈ m.start, height < start

end

instance (m : HeightMap I) (height : Nat) : Decidable (m.RefusesCut height) :=
  inferInstanceAs (Decidable (_ ∧ _))

variable {m : HeightMap I} {sentinel : I} {tip : Nat}

/-- A cut at or above the last height changes nothing. -/
theorem trim_eq_self {target : Nat} (h : ∀ tip, m.tip = some tip → tip ≤ target) :
    m.trim sentinel target = m := by
  apply HeightMap.ext
  · funext k
    apply if_neg
    rintro ⟨-, tip, htip, hlt, -⟩
    exact absurd (h tip htip) (not_le.mpr hlt)
  · rfl
  · cases htip : m.tip with
    | none => simp [trim, htip]
    | some tip => simp [trim, htip, h tip htip]

/-- Without items outside the range a cut removes all items above the target. -/
theorem InRange.trim_eq_cut (hm : m.InRange sentinel) (target : Nat) :
    m.trim sentinel target = m.cut sentinel target := by
  refine HeightMap.ext (funext fun h => ?_) rfl rfl
  by_cases hh : h ≤ target
  · simp [trim, HeightMap.cut, hh, not_lt.mpr hh]
  · simp only [trim, HeightMap.cut, if_neg hh]
    apply ite_eq_left_iff.mpr
    intro hout
    by_contra hne
    obtain ⟨s, t, -, ht, -, hht⟩ := hm h hne
    exact hout ⟨not_le.mp hh, t, ht, by omega, Nat.div_le_div_right hht⟩

theorem InRange.slot_above (hm : m.InRange sentinel) (htip : m.tip = some tip) {h : Nat}
    (hh : tip < h) : m.slot h = sentinel := by
  by_contra hne
  obtain ⟨s, t, -, ht, -, hle⟩ := hm h hne
  rw [htip, Option.some.injEq] at ht
  omega

theorem InRange.cut (hm : m.InRange sentinel) (height : Nat) :
    (m.cut sentinel height).InRange sentinel := by
  intro h hne
  by_cases hh : h ≤ height
  · obtain ⟨s, t, hs, ht, hsh, hht⟩ := hm h (by simpa [HeightMap.cut, hh] using hne)
    exact ⟨s, min height t, hs, by simp [HeightMap.cut, ht], hsh, by omega⟩
  · simp [HeightMap.cut, hh] at hne

theorem InRange.storeAt {m : HeightMap I} (hm : m.InRange sentinel)
    (items : List I) (height : Nat) : (m.storeAt items height).InRange sentinel := by
  by_cases hempty : items.isEmpty
  · simpa [HeightMap.storeAt, hempty] using hm
  intro h hne
  simp only [HeightMap.storeAt, hempty, Bool.false_eq_true, if_false] at hne ⊢
  refine ⟨_, _, rfl, rfl, ?_⟩
  by_cases hnew : height ≤ h ∧ h - height < items.length
  · -- a height that was written
    cases m.start <;> cases m.tip <;> simp <;> omega
  · -- a height that was in use before
    have hold : m.slot h ≠ sentinel := by
      split_ifs at hne with hle
      · rw [List.getElem?_eq_none (by omega)] at hne
        exact hne
      · exact hne
    obtain ⟨s, t, hs, ht, hsh, hht⟩ := hm h hold
    simp [hs, ht, hsh, hht]

theorem lt_nextHeight {h : Nat} : h < m.nextHeight ↔ ∃ tip, m.tip = some tip ∧ h ≤ tip := by
  unfold nextHeight
  cases m.tip with
  | none => simp
  | some tip => simp [Nat.lt_succ_iff]

theorem nextHeight_of_tip (htip : m.tip = some tip) : m.nextHeight = tip + 1 := by
  simp [nextHeight, htip]

theorem append_slot (m : HeightMap I) (items : List I) (h : Nat) :
    (m.append items).slot h =
      if m.nextHeight ≤ h then (items[h - m.nextHeight]?).getD (m.slot h) else m.slot h := by
  cases items with
  | nil => simp [append, storeAt]
  | cons item rest => rfl

variable {items : List I} {tip h : Nat}

theorem nextHeight_append (m : HeightMap I) (items : List I) :
    (m.append items).nextHeight = m.nextHeight + items.length := by
  cases items with
  | nil => simp [append, storeAt]
  | cons item rest =>
    cases htip : m.tip with
    | none => simp [append, storeAt, nextHeight, htip]
    | some tip =>
      simp [append, storeAt, nextHeight, htip]
      omega

section

variable (htip : m.tip = some tip)
include htip

theorem append_tip (items : List I) :
    (m.append items).tip = some (tip + items.length) := by
  unfold append storeAt nextHeight
  cases items with
  | nil => simp [htip]
  | cons item rest =>
    simp [htip]
    omega

theorem append_slot_of_le (items : List I) (hh : h ≤ tip) :
    (m.append items).slot h = m.slot h := by
  rw [append_slot, if_neg (not_le.mpr (lt_nextHeight.mpr ⟨tip, htip, hh⟩))]

theorem append_slot_of_lt (hh : tip < h) {item : I}
    (hitem : items[h - (tip + 1)]? = some item) : (m.append items).slot h = item := by
  rw [append_slot, nextHeight_of_tip htip, if_pos (Nat.succ_le_of_lt hh), hitem, Option.getD_some]

end

theorem le_start_append {start : Nat} (hstart : (m.append items).start = some start)
    (hh : start ≤ h) (hlt : h < m.nextHeight) : ∃ start', m.start = some start' ∧ start' ≤ h := by
  unfold append storeAt at hstart
  split_ifs at hstart
  · exact ⟨start, hstart, hh⟩
  · cases hm : m.start with
    | none =>
      simp [hm] at hstart
      omega
    | some start' =>
      simp [hm] at hstart
      exact ⟨start', rfl, by omega⟩

end HeightMap

/-! ### What a cache presents -/

namespace SegmentCache

variable {I : Type} (sentinel : I)

/-- The slots of a segment, wherever the cache keeps them. -/
def view (c : SegmentCache I) (id : Nat) : Slots I :=
  match c.segments.get? id with
  | some segment => segment.items
  | none => (c.fetch sentinel id).items

/-- The height map a cache presents. -/
def content (c : SegmentCache I) : HeightMap I where
  slot := fun h => c.view sentinel (heightToSegmentId h) (heightToOffset h)
  start := c.startHeight
  tip := c.tipHeight

/-- No segment has two owners, and a clean one agrees with its file. -/
structure Consistent (c : SegmentCache I) : Prop where
  active_not_evicted : ∀ {id segment}, c.segments.get? id = some segment →
    c.evicted.get? id = none
  active_not_deleted : ∀ {id segment}, c.segments.get? id = some segment → id ∉ c.toDelete
  evicted_not_deleted : ∀ {id segment}, c.evicted.get? id = some segment → id ∉ c.toDelete
  clean_on_disk : ∀ {id segment}, c.segments.get? id = some segment →
    segment.state = .clean → c.disk.get? id = some segment.items
  evicted_dirty : ∀ {id segment}, c.evicted.get? id = some segment → segment.state = .dirty

/-- A consistent cache all of whose items lie in its range of heights. -/
structure WellFormed (c : SegmentCache I) : Prop where
  consistent : c.Consistent
  inRange : (c.content sentinel).InRange sentinel

variable {sentinel}

theorem fetch_items (c : SegmentCache I) (id : Nat) :
    (c.fetch sentinel id).items =
      match c.evicted.get? id with
      | some segment => segment.items
      | none =>
        if id ∈ c.toDelete then fun _ => sentinel
        else (c.disk.get? id).getD fun _ => sentinel := by
  unfold fetch Segment.load
  cases c.evicted.get? id with
  | some segment => rfl
  | none =>
    by_cases hdel : id ∈ c.toDelete
    · simp [hdel, Segment.vacant]
    · cases hdisk : c.disk.get? id <;> simp [hdel, Segment.vacant]

/-! ### Eviction and activation -/

theorem evictOldest_cases (c : SegmentCache I) :
    c.evictOldest = c ∨ ∃ key segment, c.segments.get? key = some segment ∧
      c.evictOldest =
        { c with
          segments := c.segments.erase key
          evicted := if segment.state = .dirty then c.evicted.insert key segment
            else c.evicted } := by
  unfold evictOldest
  cases hmin : c.segments.entries.argmin fun e => e.2.lastAccessed with
  | none => exact .inl rfl
  | some e =>
    obtain ⟨key, segment⟩ := e
    exact .inr ⟨key, segment, mem_entries_iff.mp (List.argmin_mem hmin), rfl⟩

variable {c : SegmentCache I}

theorem Consistent.evictOldest (hc : c.Consistent) :
    c.evictOldest.Consistent := by
  obtain hself | ⟨key, segment, hkey, heq⟩ := c.evictOldest_cases
  · rw [hself]
    exact hc
  · obtain ⟨h₁, h₂, h₃, h₄, h₅⟩ := hc
    constructor <;> intro id s hs <;> grind

/-- Eviction is invisible: what leaves memory waits in `evicted` or is on disk. -/
theorem Consistent.evictOldest_view (hc : c.Consistent) (id : Nat) :
    c.evictOldest.view sentinel id = c.view sentinel id := by
  obtain hself | ⟨key, segment, hkey, heq⟩ := c.evictOldest_cases
  · rw [hself]
  rw [heq]
  have hevicted := hc.active_not_evicted hkey
  have hdeleted := hc.active_not_deleted hkey
  have hdisk := hc.clean_on_disk hkey
  simp only [view, fetch_items, get?_erase]
  by_cases hid : key = id
  · subst hid
    cases hstate : segment.state with
    | dirty => simp [hkey]
    | clean => simp [hkey, hevicted, hdeleted, hdisk hstate]
  · cases hstate : segment.state <;> simp [hid]

/-- Activating a segment changes neither what the cache presents nor its range. -/
structure Activated (sentinel : I) (c : SegmentCache I) (id : Nat)
    (result : SegmentCache I × Segment I) : Prop where
  consistent : result.1.Consistent
  active : result.1.segments.get? id = some result.2
  items : result.2.items = c.view sentinel id
  view : result.1.view sentinel = c.view sentinel
  start : result.1.startHeight = c.startHeight
  tip : result.1.tipHeight = c.tipHeight

/-- The state in which a missing segment is fetched. -/
def makeRoom (c : SegmentCache I) : SegmentCache I :=
  if maxActiveSegments ≤ c.segments.size then c.evictOldest else c

theorem Consistent.makeRoom (hc : c.Consistent) : c.makeRoom.Consistent := by
  unfold SegmentCache.makeRoom
  split_ifs
  · exact hc.evictOldest
  · exact hc

theorem Consistent.makeRoom_view (hc : c.Consistent) (id : Nat) :
    c.makeRoom.view sentinel id = c.view sentinel id := by
  unfold SegmentCache.makeRoom
  split_ifs
  · exact hc.evictOldest_view id
  · rfl

theorem makeRoom_frame (c : SegmentCache I) :
    (∀ id, c.segments.get? id = none → c.makeRoom.segments.get? id = none) ∧
      c.makeRoom.startHeight = c.startHeight ∧ c.makeRoom.tipHeight = c.tipHeight ∧
      c.makeRoom.disk = c.disk ∧ c.makeRoom.toDelete = c.toDelete := by
  unfold makeRoom
  obtain hself | ⟨key, segment, -, heq⟩ := c.evictOldest_cases
  · simp [hself]
  · rw [heq]
    split_ifs <;> simp +contextual

variable {id : Nat}

/-- A fetched segment: it is clean only if it came from its file. -/
theorem fetch_clean
    (hevicted : ∀ segment, c.evicted.get? id = some segment → segment.state = .dirty)
    (hclean : (c.fetch sentinel id).state = .clean) :
    c.disk.get? id = some (c.fetch sentinel id).items := by
  unfold fetch Segment.load at *
  cases hev : c.evicted.get? id with
  | some segment => simp [hev, hevicted segment hev] at hclean
  | none =>
    simp only [hev] at hclean ⊢
    split_ifs at hclean ⊢ with hdel
    · cases hclean
    · cases hdisk : c.disk.get? id with
      | none => simp [hdisk, Segment.vacant] at hclean
      | some items => rfl

/-- Fetching a segment that is not active keeps every owner's part disjoint. -/
theorem Consistent.activate (hc : c.Consistent)
    (hnone : c.segments.get? id = none) :
    Activated sentinel c id
      ({ c with
         segments := c.segments.insert id (c.fetch sentinel id)
         evicted := c.evicted.erase id
         toDelete :=
           if (c.evicted.get? id).isSome then c.toDelete else c.toDelete.erase id
         clock := c.clock + 1 }, c.fetch sentinel id) := by
  have hclean : (c.fetch sentinel id).state = .clean →
      c.disk.get? id = some (c.fetch sentinel id).items :=
    fetch_clean fun segment hsegment => hc.evicted_dirty hsegment
  -- the activated segment leaves the deletion queue, whichever owner had it
  have hqueue : ∀ id', id' ∈ (if (c.evicted.get? id).isSome then c.toDelete
      else c.toDelete.erase id) ↔ id' ≠ id ∧ id' ∈ c.toDelete := by
    intro id'
    cases hev : c.evicted.get? id with
    | none => simp
    | some segment =>
      have := hc.evicted_not_deleted hev
      grind
  refine ⟨⟨?_, ?_, ?_, ?_, ?_⟩, by simp, by simp [SegmentCache.view, hnone], ?_, rfl, rfl⟩
  · intro id' segment hget
    simp only [get?_insert, get?_erase] at hget ⊢
    split_ifs at hget ⊢
    · rfl
    · exact hc.active_not_evicted hget
  · intro id' segment hget
    rw [hqueue]
    rintro ⟨hne, hmem⟩
    simp only [get?_insert, if_neg (Ne.symm hne)] at hget
    exact hc.active_not_deleted hget hmem
  · intro id' segment hget
    rw [hqueue]
    rintro ⟨hne, hmem⟩
    simp only [get?_erase, if_neg (Ne.symm hne)] at hget
    exact hc.evicted_not_deleted hget hmem
  · intro id' segment hget
    obtain ⟨rfl, rfl⟩ | ⟨-, hget⟩ := of_get?_insert hget
    · exact hclean
    · exact hc.clean_on_disk hget
  · exact fun hget => hc.evicted_dirty (of_get?_erase hget).2
  · funext id'
    by_cases hid : id = id'
    · subst hid
      simp [SegmentCache.view, hnone]
    · simp only [SegmentCache.view, fetch_items, get?_insert, get?_erase,
        if_neg hid, hqueue, ne_eq, Ne.symm hid, not_false_eq_true, true_and]

theorem Consistent.getSegmentMut (hc : c.Consistent) (id : Nat) :
    Activated sentinel c id (c.getSegmentMut sentinel id) := by
  unfold SegmentCache.getSegmentMut
  cases hactive : c.segments.get? id with
  | some segment => exact ⟨hc, hactive, by simp [SegmentCache.view, hactive], rfl, rfl, rfl⟩
  | none =>
    obtain ⟨hnone, hstart, htip, -⟩ := c.makeRoom_frame
    have hview : c.makeRoom.view sentinel = c.view sentinel := funext hc.makeRoom_view
    obtain ⟨h₁, h₂, h₃, h₄, h₅, h₆⟩ := hc.makeRoom.activate (hnone id hactive)
    exact ⟨h₁, h₂, h₃.trans (congrFun hview id), h₄.trans hview, h₅.trans hstart, h₆.trans htip⟩

/-! ### Changing one segment -/

/-- A change leaves its segment dirty unless it changed nothing. -/
def MarksDirty (change : Segment I → Nat → Segment I) : Prop :=
  ∀ segment now, (change segment now).state = .clean → change segment now = segment

/-- An active segment may be replaced by one that is clean only if it agrees with a clean
one in its slots. -/
theorem Consistent.replaceSaved (hc : c.Consistent)
    {old new : Segment I} (hold : c.segments.get? id = some old)
    (hclean : new.state = .clean → old.state = .clean ∧ new.items = old.items) (now : Nat) :
    Consistent { c with segments := c.segments.insert id new, clock := now } := by
  have hactive : ∀ {id' segment}, (c.segments.insert id new).get? id' = some segment →
      ∃ segment', c.segments.get? id' = some segment' := by
    intro id' segment hget
    obtain ⟨rfl, -⟩ | ⟨-, hget⟩ := of_get?_insert hget
    · exact ⟨old, hold⟩
    · exact ⟨segment, hget⟩
  refine ⟨fun hget => ?_, fun hget => ?_, hc.evicted_not_deleted, ?_, hc.evicted_dirty⟩
  · exact hc.active_not_evicted (hactive hget).choose_spec
  · exact hc.active_not_deleted (hactive hget).choose_spec
  · intro id' segment hget hstate
    obtain ⟨rfl, rfl⟩ | ⟨-, hget⟩ := of_get?_insert hget
    · obtain ⟨hsaved, hsame⟩ := hclean hstate
      rw [hsame]
      exact hc.clean_on_disk hold hsaved
    · exact hc.clean_on_disk hget hstate

theorem view_replace (c : SegmentCache I) (id : Nat) (new : Segment I) (now : Nat) :
    view sentinel { c with segments := c.segments.insert id new, clock := now } =
      update (c.view sentinel) id new.items := by
  funext id'
  by_cases hid : id' = id
  · subst hid
    simp [view]
  · simp [view, fetch_items, hid, Ne.symm hid]

variable {change : Segment I → Nat → Segment I}

/-- Changing a segment changes what the cache presents there and nowhere else, provided the
segment is clean afterwards only if it was and its slots did not change. -/
theorem Consistent.modifySaved (hc : c.Consistent) (id : Nat)
    (hsaved : ∀ segment now, (change segment now).state = .clean →
      segment.state = .clean ∧ (change segment now).items = segment.items)
    (f : Slots I → Slots I)
    (hitems : ∀ segment now, (change segment now).items = f segment.items) :
    (c.modifySegment sentinel id change).Consistent ∧
    (c.modifySegment sentinel id change).view sentinel =
      update (c.view sentinel) id (f (c.view sentinel id)) ∧
    (c.modifySegment sentinel id change).startHeight = c.startHeight ∧
    (c.modifySegment sentinel id change).tipHeight = c.tipHeight := by
  have hget : Activated sentinel c id (c.getSegmentMut sentinel id) := hc.getSegmentMut id
  refine ⟨hget.consistent.replaceSaved hget.active (hsaved _ _) _, ?_, hget.start, hget.tip⟩
  unfold SegmentCache.modifySegment
  rw [view_replace, hitems, hget.items, hget.view]

theorem MarksDirty.saved (hdirty : MarksDirty change) (segment : Segment I) (now : Nat)
    (hclean : (change segment now).state = .clean) :
    segment.state = .clean ∧ (change segment now).items = segment.items := by
  have hsame := hdirty segment now hclean
  rw [hsame] at hclean ⊢
  exact ⟨hclean, rfl⟩

/-! ### Storing -/

theorem sameSlot_iff {h k : Nat} :
    heightToSegmentId h = heightToSegmentId k ∧ heightToOffset h = heightToOffset k ↔ h = k := by
  constructor
  · rintro ⟨hid, hoff⟩
    have hdiv : h / itemsPerSegment = k / itemsPerSegment := hid
    have hmod : h % itemsPerSegment = k % itemsPerSegment := Fin.val_eq_of_eq hoff
    rw [← Nat.div_add_mod h itemsPerSegment, hdiv, hmod, Nat.div_add_mod]
  · rintro rfl
    exact ⟨rfl, rfl⟩

theorem marksDirty_insert (item : I) (offset : Fin itemsPerSegment) :
    MarksDirty fun segment now => segment.insert item offset now := by
  intro segment now hclean
  cases hclean

variable (sentinel) in
/-- Writing one item. -/
theorem Consistent.insertAt (hc : c.Consistent) (item : I) (height : Nat) :
    let c' := c.modifySegment sentinel (heightToSegmentId height) fun segment now =>
      segment.insert item (heightToOffset height) now
    c'.Consistent ∧ c'.startHeight = c.startHeight ∧ c'.tipHeight = c.tipHeight ∧
      ∀ h, (c'.content sentinel).slot h = if h = height then item
        else (c.content sentinel).slot h := by
  obtain ⟨hc', hview, hstart, htip⟩ :=
    hc.modifySaved (heightToSegmentId height) (marksDirty_insert item (heightToOffset height)).saved
      (fun items => update items (heightToOffset height) item) fun _ _ => rfl
  refine ⟨hc', hstart, htip, fun h => ?_⟩
  simp only [content, hview]
  by_cases hid : heightToSegmentId h = heightToSegmentId height
  · rw [hid, update_self, update_apply]
    have hoff : heightToOffset h = heightToOffset height ↔ h = height := by
      rw [← sameSlot_iff]
      simp [hid]
    simp only [hoff]
  · have hne : h ≠ height := fun heq => hid (heq ▸ rfl)
    rw [update_of_ne hid, if_neg hne]

variable (sentinel) in
/-- Writing a list of items: the written heights hold them, every other height is as
before. -/
theorem Consistent.storeLoop (hc : c.Consistent) (items : List I)
    (height : Nat) :
    let c' := SegmentCache.storeLoop sentinel items height c
    c'.Consistent ∧ c'.startHeight = c.startHeight ∧ c'.tipHeight = c.tipHeight ∧
      ∀ h, (c'.content sentinel).slot h =
        if height ≤ h then (items[h - height]?).getD ((c.content sentinel).slot h)
        else (c.content sentinel).slot h := by
  induction items generalizing c height with
  | nil => simpa [SegmentCache.storeLoop] using hc
  | cons item rest ih =>
    obtain ⟨hc₁, hstart₁, htip₁, hslot₁⟩ := hc.insertAt sentinel item height
    obtain ⟨hc₂, hstart₂, htip₂, hslot₂⟩ := ih hc₁ (height + 1)
    refine ⟨hc₂, hstart₂.trans hstart₁, htip₂.trans htip₁, fun h => ?_⟩
    rw [SegmentCache.storeLoop, hslot₂, hslot₁]
    rcases Nat.lt_trichotomy h height with hlt | heq | hgt
    · rw [if_neg (by omega), if_neg (by omega), if_neg (by omega)]
    · subst heq
      rw [if_neg (by omega), if_pos rfl, if_pos le_rfl, Nat.sub_self, List.getElem?_cons_zero,
        Option.getD_some]
    · have hsucc : h - height = h - (height + 1) + 1 := by omega
      rw [if_pos (by omega), if_neg (by omega), if_pos (by omega), hsucc, List.getElem?_cons_succ]

variable (sentinel) in
/-- The segment of the last written height is active. -/
theorem storeLoop_active (c : SegmentCache I) {items : List I} (hne : items ≠ []) (height : Nat) :
    ∃ segment, (storeLoop sentinel items height c).segments.get?
      (heightToSegmentId (height + items.length - 1)) = some segment := by
  induction items generalizing c height with
  | nil => exact absurd rfl hne
  | cons item rest ih =>
    cases rest with
    | nil =>
      simp only [storeLoop, SegmentCache.modifySegment, List.length_singleton,
        Nat.add_sub_cancel, get?_insert, if_true]
      exact ⟨_, rfl⟩
    | cons next others =>
      have hlast : height + (item :: next :: others).length - 1 =
          height + 1 + (next :: others).length - 1 := by
        simp only [List.length_cons]
        omega
      rw [hlast]
      exact ih _ (List.cons_ne_nil next others) (height + 1)

theorem Consistent.storeItemsAtHeight (hc : c.Consistent) (items : List I)
    (height : Nat) : (c.storeItemsAtHeight sentinel items height).Consistent := by
  unfold SegmentCache.storeItemsAtHeight
  split_ifs
  · exact hc
  · obtain ⟨⟨h₁, h₂, h₃, h₄, h₅⟩, -⟩ := hc.storeLoop sentinel items height
    exact ⟨h₁, h₂, h₃, h₄, h₅⟩

/-- Storing acts on the presented map as `storeAt`. -/
theorem Consistent.storeItemsAtHeight_content (hc : c.Consistent)
    (items : List I) (height : Nat) :
    (c.storeItemsAtHeight sentinel items height).content sentinel =
      (c.content sentinel).storeAt items height := by
  unfold SegmentCache.storeItemsAtHeight HeightMap.storeAt
  split_ifs with hempty
  · rfl
  · obtain ⟨-, hstart, htip, hslot⟩ := hc.storeLoop sentinel items height
    apply HeightMap.ext
    · funext h
      exact hslot h
    · simp only [content, hstart]
      cases c.startHeight <;> rfl
    · simp only [content, htip]
      cases c.tipHeight <;> rfl

theorem nextHeight_content (c : SegmentCache I) :
    (c.content sentinel).nextHeight = c.nextHeight := by
  unfold SegmentCache.nextHeight HeightMap.nextHeight content
  cases htip : c.tipHeight <;> simp

theorem Consistent.storeItems_content (hc : c.Consistent) (items : List I) :
    (c.storeItems sentinel items).content sentinel = (c.content sentinel).append items := by
  rw [HeightMap.append, nextHeight_content]
  exact hc.storeItemsAtHeight_content items c.nextHeight

/-! ### Truncation -/

theorem Consistent.dropSegments (hc : c.Consistent) (ids : Finset Nat) :
    (c.dropSegments ids).Consistent := by
  obtain ⟨h₁, h₂, h₃, h₄, h₅⟩ := hc
  unfold SegmentCache.dropSegments
  constructor <;> intro id segment hget <;>
    simp only [get?_filter, Option.filter_eq_some_iff, decide_eq_true_eq,
      Finset.mem_union] at hget ⊢ <;> grind

theorem dropSegments_view (c : SegmentCache I) (ids : Finset Nat) (id : Nat) :
    (c.dropSegments ids).view sentinel id =
      if id ∈ ids then fun _ => sentinel else c.view sentinel id := by
  by_cases hid : id ∈ ids
  · simp [dropSegments, view, fetch_items, hid]
  · have hkept : ∀ m : SortedMap Nat (Segment I),
        (m.filter fun id _ => id ∉ ids).get? id = m.get? id := by
      intro m
      cases hm : m.get? id <;> simp [hm, hid, Option.filter]
    simp only [dropSegments, view, fetch_items, hkept, Finset.mem_union, hid, or_false, if_false]

variable {tip target : Nat}

section Reset

variable [DecidableEq I]

theorem usedAbove_iff {segment : Segment I} {offset : Fin itemsPerSegment} :
    segment.usedAbove sentinel offset = true ↔
      ∃ slot, offset < slot ∧ segment.items slot ≠ sentinel := by
  have hused : ∀ fuel i, itemsPerSegment ≤ fuel + i →
      (usedFrom sentinel segment.items fuel i = true ↔
        ∃ slot : Fin itemsPerSegment, i ≤ slot ∧ segment.items slot ≠ sentinel) := by
    intro fuel
    induction fuel with
    | zero =>
      intro i hi
      have : ∀ slot : Fin itemsPerSegment, ¬ i ≤ slot := fun slot => by omega
      simp [usedFrom, this]
    | succ fuel ih =>
      intro i hi
      by_cases h : i < itemsPerSegment
      · simp only [usedFrom, h, dif_pos, Bool.or_eq_true, decide_eq_true_eq, ih (i + 1) (by omega)]
        constructor
        · rintro (hne | ⟨slot, hle, hne⟩)
          · exact ⟨⟨i, h⟩, le_rfl, hne⟩
          · exact ⟨slot, by omega, hne⟩
        · rintro ⟨slot, hle, hne⟩
          rcases hle.eq_or_lt with heq | hlt
          · have hslot : slot = ⟨i, h⟩ := Fin.ext heq.symm
            exact .inl (hslot ▸ hne)
          · exact .inr ⟨slot, hlt, hne⟩
      · have : ∀ slot : Fin itemsPerSegment, ¬ i ≤ slot := fun slot => by omega
        simp [usedFrom, h, this]
  exact hused itemsPerSegment (offset + 1) (by omega)

theorem marksDirty_resetAbove (offset : Fin itemsPerSegment) :
    MarksDirty fun segment now => segment.resetAbove sentinel offset now := by
  intro segment now hclean
  by_cases hused : segment.usedAbove sentinel offset = true
  · simp only [Segment.resetAbove, if_pos hused] at hclean
    cases hclean
  · exact if_neg hused

theorem resetAbove_items (segment : Segment I) (offset : Fin itemsPerSegment) (now : Nat) :
    (segment.resetAbove sentinel offset now).items =
      fun slot => if offset < slot then sentinel else segment.items slot := by
  by_cases hused : segment.usedAbove sentinel offset = true
  · simp only [Segment.resetAbove, if_pos hused]
  · simp only [Segment.resetAbove, if_neg hused]
    funext slot
    by_cases hslot : offset < slot
    · rw [if_pos hslot]
      by_contra hne
      exact hused (usedAbove_iff.mpr ⟨slot, hslot, hne⟩)
    · rw [if_neg hslot]

variable {c : SegmentCache I}

/-- The caller's view of a truncation's first part: the boundary segment loses what lies
above the target in it. -/
theorem Consistent.resetBoundary (hc : c.Consistent) (target : Nat) :
    let c' := if (heightToOffset target).val + 1 < itemsPerSegment then
        c.modifySegment sentinel (heightToSegmentId target) fun segment now =>
          segment.resetAbove sentinel (heightToOffset target) now
      else c
    c'.Consistent ∧ c'.startHeight = c.startHeight ∧
      ∀ id offset, c'.view sentinel id offset =
        if id = heightToSegmentId target ∧ heightToOffset target < offset then sentinel
        else c.view sentinel id offset := by
  intro c'
  by_cases hlast : (heightToOffset target).val + 1 < itemsPerSegment
  · obtain ⟨hc', hview, hstart, -⟩ :=
      hc.modifySaved (heightToSegmentId target) (marksDirty_resetAbove (heightToOffset target)).saved
        (fun items slot => if heightToOffset target < slot then sentinel else items slot)
        fun segment now => resetAbove_items segment _ now
    have hdef : c' = c.modifySegment sentinel (heightToSegmentId target) fun segment now =>
          segment.resetAbove sentinel (heightToOffset target) now := if_pos hlast
    rw [hdef]
    refine ⟨hc', hstart, fun id offset => ?_⟩
    rw [hview]
    by_cases hid : id = heightToSegmentId target
    · subst hid
      simp
    · simp [hid]
  · have hdef : c' = c := if_neg hlast
    rw [hdef]
    refine ⟨hc, rfl, fun id offset => ?_⟩
    -- the target is in the last slot, so no slot lies above it
    have hnone : ¬ heightToOffset target < offset := by
      intro hlt
      omega
    simp [hnone]

theorem above_iff {h target : Nat} :
    target < h ↔ heightToSegmentId target < heightToSegmentId h ∨
      heightToSegmentId h = heightToSegmentId target ∧ heightToOffset target < heightToOffset h := by
  have hh := Nat.div_add_mod h itemsPerSegment
  have ht := Nat.div_add_mod target itemsPerSegment
  rw [Fin.lt_def]
  simp only [heightToSegmentId, heightToOffset]
  constructor
  · intro hlt
    have hle : target / itemsPerSegment ≤ h / itemsPerSegment := Nat.div_le_div_right hlt.le
    rcases hle.lt_or_eq with hdiv | hdiv
    · exact .inl hdiv
    · rw [hdiv] at ht
      exact .inr ⟨hdiv.symm, by omega⟩
  · rintro (hdiv | ⟨hdiv, hmod⟩)
    · exact Nat.lt_of_div_lt_div hdiv
    · rw [hdiv] at hh
      omega

variable (sentinel) in
/-- Emptying the boundary segment and dropping the later ones up to the tip's removes the
items above the target, up to the end of the tip's segment. -/
theorem Consistent.truncated (hc : c.Consistent)
    (htip : c.tipHeight = some tip) (hlt : target < tip) :
    ∃ c', c'.Consistent ∧ c'.content sentinel = (c.content sentinel).trim sentinel target ∧
      (c.startHeight.filter (target < ·) = none →
        c.truncateAbove sentinel target = (c', .ok ())) := by
  obtain ⟨hreset, hstart, hview⟩ := @Consistent.resetBoundary I sentinel _ c hc target
  set c₁ := if (heightToOffset target).val + 1 < itemsPerSegment then
        c.modifySegment sentinel (heightToSegmentId target) fun segment now =>
          segment.resetAbove sentinel (heightToOffset target) now
      else c with hc₁
  set ids := Finset.Icc (heightToSegmentId target + 1) (heightToSegmentId tip) with hids
  have hle : heightToSegmentId target ≤ heightToSegmentId tip := Nat.div_le_div_right hlt.le
  refine ⟨{ c₁.dropSegments ids with tipHeight := some target }, ?_, ?_, ?_⟩
  · obtain ⟨h₁, h₂, h₃, h₄, h₅⟩ := hreset.dropSegments ids
    exact ⟨h₁, h₂, h₃, h₄, h₅⟩
  · refine HeightMap.ext (funext fun h => ?_) hstart ?_
    · simp only [HeightMap.trim, content, htip, Option.mem_some_iff, exists_eq_left', hlt, true_and]
      change (c₁.dropSegments ids).view sentinel (heightToSegmentId h) (heightToOffset h) = _
      rw [dropSegments_view]
      by_cases hdrop : heightToSegmentId h ∈ ids
      · -- a later segment, up to the tip's
        have hmem := Finset.mem_Icc.mp (hids ▸ hdrop)
        rw [if_pos hdrop, if_pos ⟨above_iff.mpr (.inl (by omega)), hmem.2⟩]
      · rw [if_neg hdrop, hview]
        have hout : ¬ (heightToSegmentId target < heightToSegmentId h ∧
            heightToSegmentId h ≤ heightToSegmentId tip) := fun hin =>
          hdrop (hids ▸ Finset.mem_Icc.mpr ⟨hin.1, hin.2⟩)
        by_cases hcut : heightToSegmentId h = heightToSegmentId target ∧
            heightToOffset target < heightToOffset h
        · rw [if_pos hcut, if_pos ⟨above_iff.mpr (.inr hcut), hcut.1 ▸ hle⟩]
        · rw [if_neg hcut, if_neg]
          rintro ⟨habove, hbelow⟩
          rcases above_iff.mp habove with hid | hin
          · exact hout ⟨hid, hbelow⟩
          · exact hcut hin
    · simp only [HeightMap.trim, content, htip, Option.map_some, min_eq_left hlt.le]
  · intro hnone
    simp only [truncateAbove, htip, if_neg (not_le.mpr hlt), hnone]
    rfl

variable (sentinel) in
/-- Truncation of a cache: refused without a change when the cache reaches above the target
and starts above it, and the cut of what it presents otherwise. -/
theorem Consistent.truncateAbove (hc : c.Consistent) (target : Nat) :
    ((c.content sentinel).RefusesCut target ∧
      ∃ e, c.truncateAbove sentinel target = (c, .error e)) ∨
    (¬ (c.content sentinel).RefusesCut target ∧
      ∃ c', c'.Consistent ∧ c'.content sentinel = (c.content sentinel).trim sentinel target ∧
        c.truncateAbove sentinel target = (c', .ok ())) := by
  by_cases hreach : ∃ tip ∈ c.tipHeight, target < tip
  · obtain ⟨tip, htip, hlt⟩ := hreach
    rw [Option.mem_def] at htip
    obtain ⟨c', hc', hcont, htrunc⟩ := hc.truncated sentinel htip hlt
    cases hstart : c.startHeight.filter (target < ·) with
    | none =>
      refine .inr ⟨?_, c', hc', hcont, htrunc hstart⟩
      rintro ⟨-, start, hmem, habove⟩
      simp only [content, Option.mem_def] at hmem
      simp [hmem] at hstart
      omega
    | some start =>
      obtain ⟨hmem, habove⟩ := Option.filter_eq_some_iff.mp hstart
      refine .inl ⟨⟨⟨tip, htip, hlt⟩, start, hmem, by simpa using habove⟩,
        .truncateBelowStart target start, ?_⟩
      simp [SegmentCache.truncateAbove, htip, not_le.mpr hlt, hstart]
  · push Not at hreach
    refine .inr ⟨fun hrefuse => ?_, c, hc, (HeightMap.trim_eq_self hreach).symm, ?_⟩
    · obtain ⟨⟨tip, htip, hlt⟩, -⟩ := hrefuse
      exact not_le.mpr hlt (hreach tip htip)
    · cases htip : c.tipHeight with
      | none => simp [SegmentCache.truncateAbove, htip]
      | some tip => simp [SegmentCache.truncateAbove, htip, hreach tip htip]

/-- In a well-formed cache that removes exactly the items above the target. -/
theorem WellFormed.truncateAbove (hc : c.WellFormed sentinel)
    (target : Nat) :
    ((c.content sentinel).RefusesCut target ∧
      ∃ e, c.truncateAbove sentinel target = (c, .error e)) ∨
    (¬ (c.content sentinel).RefusesCut target ∧
      ∃ c', c'.Consistent ∧ c'.content sentinel = (c.content sentinel).cut sentinel target ∧
        c.truncateAbove sentinel target = (c', .ok ())) := by
  rw [← hc.inRange.trim_eq_cut]
  exact hc.consistent.truncateAbove sentinel target

end Reset

end SegmentCache

/-! ### Well-formed caches -/

/-- A segment cache in a well-formed state. -/
structure SegmentStore {I : Type} (sentinel : I) where
  cache : SegmentCache I
  wf : cache.WellFormed sentinel

namespace SegmentStore

variable {I : Type} {sentinel : I}

@[ext]
theorem ext_cache {s s' : SegmentStore sentinel} (h : s.cache = s'.cache) : s = s' := by
  cases s
  cases s'
  simpa using h

section

variable (s : SegmentStore sentinel)

/-- The height map a store presents. -/
def content : HeightMap I := s.cache.content sentinel

/-- A store without items or files. -/
def empty : SegmentStore sentinel where
  cache := ⟨∅, ∅, none, none, ∅, ∅, 0⟩
  wf :=
    { consistent := by constructor <;> simp
      inRange := by
        intro h hne
        simp [SegmentCache.content, SegmentCache.view, SegmentCache.fetch_items] at hne }

/-- `storeItemsAtHeight` keeps a store well formed. -/
def storeItemsAtHeight (items : List I) (height : Nat) :
    SegmentStore sentinel where
  cache := s.cache.storeItemsAtHeight sentinel items height
  wf :=
    { consistent := s.wf.consistent.storeItemsAtHeight items height
      inRange := by
        rw [s.wf.consistent.storeItemsAtHeight_content]
        exact s.wf.inRange.storeAt items height }

/-- Write items above the tip. -/
def storeItems (items : List I) : SegmentStore sentinel :=
  s.storeItemsAtHeight items s.cache.nextHeight

theorem storeItems_content (items : List I) :
    (s.storeItems items).content = s.content.append items :=
  s.wf.consistent.storeItems_content items

/-- The segment of the new tip is not queued for deletion. -/
theorem storeItems_not_deleted {items : List I} (hne : items ≠ []) :
    heightToSegmentId (s.cache.nextHeight + items.length - 1) ∉
      (s.storeItems items).cache.toDelete := by
  obtain ⟨segment, hactive⟩ :=
    SegmentCache.storeLoop_active sentinel s.cache hne s.cache.nextHeight
  apply (s.storeItems items).wf.consistent.active_not_deleted
  simpa [storeItems, storeItemsAtHeight, SegmentCache.storeItemsAtHeight, hne] using hactive

end

variable [DecidableEq I]

/-- `truncateAbove` keeps a store well formed, refused or not. -/
def truncateAbove (s : SegmentStore sentinel) (target : Nat) :
    SegmentStore sentinel × Except StorageError Unit :=
  (⟨(s.cache.truncateAbove sentinel target).1, by
    obtain ⟨-, e, heq⟩ | ⟨-, c', hc', hcontent, heq⟩ := s.wf.truncateAbove target
    · rw [heq]
      exact s.wf
    · rw [heq]
      exact ⟨hc', hcontent ▸ s.wf.inRange.cut target⟩⟩,
    (s.cache.truncateAbove sentinel target).2)

variable {s : SegmentStore sentinel} {target : Nat}

/-- A refused truncation changes nothing at all. -/
theorem truncateAbove_of_refuses
    (h : s.content.RefusesCut target) : ∃ e, s.truncateAbove target = (s, .error e) := by
  obtain ⟨-, e, heq⟩ | ⟨haccept, -⟩ := s.wf.truncateAbove target
  · refine ⟨e, Prod.ext (ext_cache ?_) ?_⟩
    · exact (Prod.ext_iff.mp heq).1
    · exact (Prod.ext_iff.mp heq).2
  · exact absurd h haccept

/-- An accepted truncation is the cut of the presented map. -/
theorem truncateAbove_of_accepts (h : ¬ s.content.RefusesCut target) :
    ∃ s', s.truncateAbove target = (s', .ok ()) ∧ s'.content = s.content.cut sentinel target := by
  obtain ⟨hrefuse, -⟩ | ⟨-, c', hc', hcont, heq⟩ := s.wf.truncateAbove target
  · exact absurd hrefuse h
  · refine ⟨⟨c', hc', hcont ▸ s.wf.inRange.cut target⟩, Prod.ext (ext_cache ?_) ?_, hcont⟩
    · exact (Prod.ext_iff.mp heq).1
    · exact (Prod.ext_iff.mp heq).2

end SegmentStore

end Dashcore
