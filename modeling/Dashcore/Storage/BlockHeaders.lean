import Dashcore.Chain.Header
import Dashcore.Lib.Runs
import Dashcore.Storage.Refinement

/-!
# The header store

Headers by height in a segment cache, with an index from block hash to height.

Reading activates segments on the way. Activation is invisible in what a store presents
(`SegmentCache.Consistent.getSegmentMut`), so reads are functions of the presented map and
of the deletion queue.
-/

namespace Dashcore

open List

/-- Items of consecutive heights `lo ≤ h < hi`. A range that meets a segment queued for
deletion is refused. -/
def SegmentStore.getItems {I : Type} {sentinel : I} (s : SegmentStore sentinel) (lo hi : Nat) :
    Except StorageError (List I) :=
  if hi < lo then .error (.rangeUnderflow lo hi)
  else if ∃ id ∈ Finset.Icc (heightToSegmentId lo) (heightToSegmentId (hi - 1)),
      id ∈ s.cache.toDelete then .error (.rangeQueuedForDeletion lo hi)
  else .ok ((range (hi - lo)).map fun i => s.content.slot (lo + i))

/-- Reading a range gives its slots. -/
theorem SegmentStore.getItems_ok {I : Type} {sentinel : I} {s : SegmentStore sentinel}
    {lo hi : Nat} {items : List I} (h : s.getItems lo hi = .ok items) :
    lo ≤ hi ∧ items = (range (hi - lo)).map fun i => s.content.slot (lo + i) := by
  unfold SegmentStore.getItems at h
  split_ifs at h with hlt hdel
  exact ⟨not_lt.mp hlt, (Except.ok.inj h).symm⟩

/-- The header in an empty slot. -/
def Header.sentinel : Header where
  version := 2 ^ 31 - 1
  prevBlockhash := ⟨2 ^ 256 - 1, by decide⟩
  merkleRoot := ⟨2 ^ 256 - 1, by decide⟩
  time := 2 ^ 32 - 1
  bits := 2 ^ 32 - 1
  nonce := 2 ^ 32 - 1

/-- The item of an empty slot of the header store. -/
def HashedBlockHeader.sentinel (blockHash : Header → BlockHash) : HashedBlockHeader :=
  .ofHeader blockHash Header.sentinel

/-- Header storage over a segment cache. -/
structure PersistentBlockHeaderStorage (blockHash : Header → BlockHash) where
  blockHeaders : SegmentStore (HashedBlockHeader.sentinel blockHash)
  headerHashIndex : SortedMap BlockHash Nat

/-- The last stored header and its height. -/
structure BlockHeaderTip where
  height : Nat
  header : HashedBlockHeader
  deriving DecidableEq

namespace PersistentBlockHeaderStorage

variable {blockHash : Header → BlockHash}

/-- Enter headers at consecutive heights into the hash index. -/
def indexHeaders (index : SortedMap BlockHash Nat) :
    List HashedBlockHeader → Nat → SortedMap BlockHash Nat
  | [], _ => index
  | header :: rest, height => indexHeaders (index.insert header.hash height) rest (height + 1)

variable (s : PersistentBlockHeaderStorage blockHash)

/-- Append headers above the tip. -/
def storeHashedHeaders
    (headers : List HashedBlockHeader) : PersistentBlockHeaderStorage blockHash :=
  { blockHeaders := s.blockHeaders.storeItems headers
    headerHashIndex := indexHeaders s.headerHashIndex headers s.blockHeaders.cache.nextHeight }

/-- The hash index after a truncation: pruned only if the truncation removes a header. -/
def prunedIndex (targetHeight : Nat) : SortedMap BlockHash Nat :=
  if s.blockHeaders.cache.tipHeight.any (targetHeight < ·) then
    s.headerHashIndex.filter fun _ h => h ≤ targetHeight
  else s.headerHashIndex

/-- Drop all headers above a height, from the store and from the index. -/
def truncateAbove (targetHeight : Nat) :
    PersistentBlockHeaderStorage blockHash × Except StorageError Unit :=
  match s.blockHeaders.truncateAbove targetHeight with
  | (blockHeaders, .error e) => ({ s with blockHeaders }, .error e)
  | (blockHeaders, .ok ()) =>
    ({ blockHeaders, headerHashIndex := s.prunedIndex targetHeight }, .ok ())

def getTipHeight : Option Nat :=
  s.blockHeaders.cache.tipHeight

def getStartHeight : Option Nat :=
  s.blockHeaders.cache.startHeight

/-- The last header; none in an empty store. -/
def getTip : Option BlockHeaderTip :=
  match s.getTipHeight with
  | none => none
  | some height =>
    match s.blockHeaders.getItems height (height + 1) with
    | .error _ => none
    | .ok items => items.head?.map fun header => { height, header }

/-- Headers of consecutive heights. -/
def loadHeaders (lo hi : Nat) : Except StorageError (List Header) :=
  (s.blockHeaders.getItems lo hi).map fun items => items.map HashedBlockHeader.header

/-- The header at a height, if the height is stored. -/
def getHeader (height : Nat) : Except StorageError (Option Header) :=
  match s.getTipHeight, s.getStartHeight with
  | some tipHeight, some startHeight =>
    if tipHeight < height ∨ height < startHeight then .ok none
    else (s.loadHeaders height (height + 1)).map head?
  | _, _ => .ok none

/-- The height of the header with a hash. -/
def getHeaderHeightByHash (hash : BlockHash) : Option Nat :=
  s.headerHashIndex.get? hash

/-! ### The stored headers -/

/-- The stored headers by height. -/
def chain : HeightMap HashedBlockHeader :=
  s.blockHeaders.content

theorem storeHashedHeaders_chain (headers : List HashedBlockHeader) :
    (s.storeHashedHeaders headers).chain = s.chain.append headers :=
  s.blockHeaders.storeItems_content headers

variable {s : PersistentBlockHeaderStorage blockHash}

theorem loadHeaders_ok {lo hi : Nat} {headers : List Header} (h : s.loadHeaders lo hi = .ok headers) :
    lo ≤ hi ∧ headers = (range (hi - lo)).map fun i => (s.chain.slot (lo + i)).header := by
  unfold loadHeaders at h
  cases hitems : s.blockHeaders.getItems lo hi with
  | error e => simp [hitems, Except.map] at h
  | ok items =>
    obtain ⟨hle, rfl⟩ := SegmentStore.getItems_ok hitems
    simp only [hitems, Except.map, Except.ok.injEq] at h
    refine ⟨hle, ?_⟩
    rw [← h, map_map]
    rfl

variable {headers : List HashedBlockHeader}

/-- The last of the appended headers can be read back as the tip. -/
theorem getTip_storeHashedHeaders {tip : Nat}
    (htip : s.getTipHeight = some tip) (hne : headers ≠ []) :
    (s.storeHashedHeaders headers).getTip =
      some { height := tip + headers.length, header := headers.getLast hne } := by
  have hlen := length_pos_of_ne_nil hne
  have hstored : s.chain.tip = some tip := htip
  have hnext : s.blockHeaders.cache.nextHeight = tip + 1 := by
    have htip' : s.blockHeaders.cache.tipHeight = some tip := htip
    simp [SegmentCache.nextHeight, htip']
  have hchain := s.storeHashedHeaders_chain headers
  have hslot : (s.storeHashedHeaders headers).chain.slot (tip + headers.length) =
      headers.getLast hne := by
    rw [hchain]
    apply HeightMap.append_slot_of_lt hstored (by omega)
    rw [show tip + headers.length - (tip + 1) = headers.length - 1 by omega,
      ← getLast?_eq_getElem?, getLast?_eq_some_getLast hne]
  have hheight : (s.storeHashedHeaders headers).getTipHeight = some (tip + headers.length) :=
    (congrArg HeightMap.tip hchain).trans (HeightMap.append_tip hstored headers)
  have hkept := s.blockHeaders.storeItems_not_deleted hne
  have hlast : tip + 1 + headers.length - 1 = tip + headers.length := by omega
  rw [hnext, hlast] at hkept
  have hitems : (s.storeHashedHeaders headers).blockHeaders.getItems (tip + headers.length)
      (tip + headers.length + 1) = .ok [headers.getLast hne] := by
    unfold SegmentStore.getItems
    rw [if_neg (by omega), Nat.add_sub_cancel, Finset.Icc_self, if_neg]
    · rw [Nat.add_sub_cancel_left, range_one, map_singleton, Nat.add_zero]
      exact congrArg (fun header => Except.ok [header]) hslot
    · rintro ⟨id, hid, hdeleted⟩
      rw [Finset.mem_singleton.mp hid] at hdeleted
      exact hkept hdeleted
  simp only [getTip, hheight, hitems, head?_cons, Option.map_some]

/-- Entering headers leads to the height of the last of them. -/
theorem indexHeaders_getLast (index : SortedMap BlockHash Nat)
    (hne : headers ≠ []) (height : Nat) :
    (indexHeaders index headers height).get? (headers.getLast hne).hash =
      some (height + headers.length - 1) := by
  induction headers generalizing index height with
  | nil => exact absurd rfl hne
  | cons header rest ih =>
    rw [indexHeaders]
    cases rest with
    | nil => simp [indexHeaders]
    | cons next others =>
      rw [getLast_cons (cons_ne_nil next others), ih _ (cons_ne_nil next others) (height + 1)]
      simp only [length_cons, Option.some.injEq]
      omega

theorem truncateAbove_of_refuses {target : Nat}
    (h : s.chain.RefusesCut target) : ∃ e, s.truncateAbove target = (s, .error e) := by
  obtain ⟨e, heq⟩ := SegmentStore.truncateAbove_of_refuses h
  exact ⟨e, by simp [truncateAbove, heq]⟩

theorem truncateAbove_of_accepts {target : Nat} (h : ¬ s.chain.RefusesCut target) :
    ∃ s', s.truncateAbove target = (s', .ok ()) ∧
      s'.chain = s.chain.cut (.sentinel blockHash) target ∧
      s'.headerHashIndex = s.prunedIndex target := by
  obtain ⟨blockHeaders, heq, hcont⟩ := SegmentStore.truncateAbove_of_accepts h
  refine ⟨⟨blockHeaders, s.prunedIndex target⟩, ?_, hcont, rfl⟩
  simp only [truncateAbove, heq]

end PersistentBlockHeaderStorage

open HeightMap PersistentBlockHeaderStorage SortedMap

/-! ### An index of a height map -/

/-- A header with the hash is held at the height: the height is in the range, and its slot
has the hash. -/
def HeightMap.Holds (m : HeightMap HashedBlockHeader) (hash : BlockHash) (height : Nat) : Prop :=
  (∃ start ∈ m.start, start ≤ height) ∧ height < m.nextHeight ∧ (m.slot height).hash = hash

/-- No two held headers have the same hash. -/
def HeightMap.HoldsOnce (m : HeightMap HashedBlockHeader) : Prop :=
  ∀ hash h k, m.Holds hash h → m.Holds hash k → h = k

/-- An index has the held headers and no others. -/
def Indexes (index : SortedMap BlockHash Nat) (m : HeightMap HashedBlockHeader) : Prop :=
  ∀ hash height, index.get? hash = some height ↔ m.Holds hash height

section

variable {index : SortedMap BlockHash Nat} {m : HeightMap HashedBlockHeader}
  {headers : List HashedBlockHeader}

/-- Headers with different hashes are entered with their heights; other entries stay. -/
theorem get?_indexHeaders (hnodup : (headers.map HashedBlockHeader.hash).Nodup)
    (index : SortedMap BlockHash Nat) (n : Nat) (hash : BlockHash) (height : Nat) :
    (indexHeaders index headers n).get? hash = some height ↔
      (∃ i, (headers.map HashedBlockHeader.hash)[i]? = some hash ∧ height = n + i) ∨
      hash ∉ headers.map HashedBlockHeader.hash ∧ index.get? hash = some height := by
  induction headers generalizing index n with
  | nil => simp [indexHeaders]
  | cons header rest ih =>
    obtain ⟨hnew, hrest⟩ := nodup_cons.mp hnodup
    have hcons : (∃ i, ((header :: rest).map HashedBlockHeader.hash)[i]? = some hash ∧
          height = n + i) ↔ (header.hash = hash ∧ height = n) ∨
        ∃ i, (rest.map HashedBlockHeader.hash)[i]? = some hash ∧ height = n + 1 + i := by
      rw [← Nat.or_exists_add_one]
      simp [Nat.add_right_comm n 1, Nat.add_assoc]
    rw [indexHeaders, ih hrest, get?_insert, hcons]
    grind

/-- A continued map holds what it held before and the new headers. -/
theorem holds_append (m : HeightMap HashedBlockHeader) (headers : List HashedBlockHeader)
    (hash : BlockHash) (height : Nat) :
    (m.append headers).Holds hash height ↔
      (∃ i, (headers.map HashedBlockHeader.hash)[i]? = some hash ∧ height = m.nextHeight + i) ∨
      m.Holds hash height := by
  cases headers with
  | nil => simp [append, storeAt]
  | cons first rest =>
    have hstart : (∃ start ∈ (m.append (first :: rest)).start, start ≤ height) ↔
        (∃ start ∈ m.start, start ≤ height) ∨ m.nextHeight ≤ height := by
      unfold append storeAt
      cases m.start <;> simp
    rw [Holds, nextHeight_append, append_slot, hstart]
    rcases Nat.lt_or_ge height m.nextHeight with hlt | hge
    · have hold : ∀ i, height ≠ m.nextHeight + i := fun i => by omega
      simp [Holds, hlt, not_le.mpr hlt, hold, Nat.lt_add_right]
    · have hnot : ¬ m.Holds hash height := fun hholds => absurd hholds.2.1 (not_lt.mpr hge)
      obtain ⟨i, rfl⟩ := Nat.exists_eq_add_of_le hge
      rw [or_iff_left hnot, if_pos hge, Nat.add_sub_cancel_left]
      simp only [getElem?_map, Nat.add_left_cancel_iff, exists_eq_right', Nat.add_lt_add_iff_left]
      rcases Nat.lt_or_ge i (first :: rest).length with hlen | hlen
      · simp [-length_cons, hlen]
      · simp [-length_cons, not_lt.mpr hlen]

theorem Indexes.append (h : Indexes index m)
    (hnodup : (headers.map HashedBlockHeader.hash).Nodup)
    (hfresh : ∀ hash ∈ headers.map HashedBlockHeader.hash, ∀ height, ¬ m.Holds hash height) :
    Indexes (indexHeaders index headers m.nextHeight) (m.append headers) := by
  intro hash height
  rw [get?_indexHeaders hnodup, holds_append, h,
    and_iff_right_of_imp fun hholds hmem => hfresh hash hmem height hholds]

/-- A truncation that removes headers removes those above its target. -/
theorem Indexes.trim (h : Indexes index m) (sentinel : HashedBlockHeader) (target : Nat) :
    Indexes (if m.tip.any (target < ·) then index.filter fun _ h => h ≤ target else index)
      (m.trim sentinel target) := by
  by_cases hcut : ∃ tip ∈ m.tip, target < tip
  · obtain ⟨tip, htip, hlt⟩ := hcut
    rw [Option.mem_def] at htip
    have hnext : (m.trim sentinel target).nextHeight = target + 1 :=
      nextHeight_of_tip (by simp [HeightMap.trim, htip, hlt.le])
    rw [if_pos (by simp [htip, hlt])]
    intro hash height
    rw [get?_filter, Option.filter_eq_some_iff, h, Holds, Holds, hnext,
      nextHeight_of_tip htip, decide_eq_true_iff]
    have hslot : height ≤ target → (m.trim sentinel target).slot height = m.slot height :=
      fun hle => if_neg fun habove => absurd habove.1 (not_lt.mpr hle)
    constructor
    · rintro ⟨⟨hstart, -, hhash⟩, hle⟩
      exact ⟨hstart, Nat.lt_succ_of_le hle, (congrArg _ (hslot hle)).trans hhash⟩
    · rintro ⟨hstart, hle, hhash⟩
      rw [hslot (Nat.le_of_lt_succ hle)] at hhash
      exact ⟨⟨hstart, by omega, hhash⟩, Nat.le_of_lt_succ hle⟩
  · push Not at hcut
    rw [trim_eq_self hcut, if_neg]
    · exact h
    · cases htip : m.tip with
      | none => simp
      | some tip => simpa [htip] using hcut

theorem indexes_empty (h : m.start = none ∨ m.tip = none) : Indexes ∅ m := by
  intro hash height
  rcases h with h | h <;> simp [Holds, nextHeight, h]

/-- The index built from the headers of the range, if no two of them have the same hash. -/
theorem indexes_range {start : Nat} (hstart : m.start = some start)
    (honce : m.HoldsOnce) :
    Indexes (indexHeaders ∅ ((List.range (m.nextHeight - start)).map fun i => m.slot (start + i))
      start) m := by
  have hholds : ∀ i < m.nextHeight - start, m.Holds (m.slot (start + i)).hash (start + i) :=
    fun i hi => ⟨⟨start, hstart, Nat.le_add_right start i⟩, by omega, rfl⟩
  intro hash height
  rw [get?_indexHeaders, map_map]
  · constructor
    · rintro (⟨i, hget, rfl⟩ | ⟨-, hget⟩)
      · obtain ⟨k, hk, rfl⟩ := Option.map_eq_some_iff.mp ((getElem?_map ..).symm.trans hget)
        obtain ⟨hi, rfl⟩ := List.getElem?_eq_some_iff.mp hk
        rw [length_range] at hi
        simpa using hholds i hi
      · cases hget
    · rintro ⟨⟨start', hstart', hle⟩, hlt, rfl⟩
      obtain rfl := Option.mem_unique hstart hstart'
      refine .inl ⟨height - start, ?_, by omega⟩
      rw [getElem?_map, getElem?_range (by omega), Option.map_some, Function.comp_apply,
        Nat.add_sub_cancel' hle]
  · rw [map_map]
    refine Nodup.map_on (fun i hi k hk heq => ?_) nodup_range
    rw [mem_range] at hi hk
    have hsame := hholds k hk
    rw [← show (m.slot (start + i)).hash = (m.slot (start + k)).hash from heq] at hsame
    exact Nat.add_left_cancel (honce _ _ _ (hholds i hi) hsame)

end

/-! ### Runs of the header store -/

/-- A call that changes the header store. -/
inductive HeaderCall
  | storeHeaders (headers : List Header)
  | truncateAbove (targetHeight : Nat)

namespace PersistentBlockHeaderStorage

variable {blockHash : Header → BlockHash} (s : PersistentBlockHeaderStorage blockHash)

def step : HeaderCall → PersistentBlockHeaderStorage blockHash
  | .storeHeaders headers => s.storeHashedHeaders (headers.map (.ofHeader blockHash))
  | .truncateAbove targetHeight => (s.truncateAbove targetHeight).1

end PersistentBlockHeaderStorage

end Dashcore
