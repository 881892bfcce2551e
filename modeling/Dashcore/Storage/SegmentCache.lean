import Mathlib.Data.Finset.Sort
import Mathlib.Data.List.MinMax
import Mathlib.Data.Nat.Log
import Mathlib.Order.Interval.Finset.Nat
import Dashcore.Lib.SortedMap

/-!
# The segment cache

Every persistent store of the client keeps its items by height in segments of 50 000
slots. At most ten segments are active in memory; a segment that makes room for another
waits in `evicted` if it has unsaved changes, and is reloaded from its file otherwise. An
empty slot holds the item type's sentinel.

Reads, writes and deletions of files are taken to succeed. The readings of the monotonic
clock are successive numbers.
-/

namespace Dashcore

/-- Slots per segment. -/
def itemsPerSegment : Nat := 50000

theorem itemsPerSegment_pos : 0 < itemsPerSegment := by decide

/-- Segments kept active in memory. -/
def maxActiveSegments : Nat := 10

/-- Whether a segment is up to date on disk. -/
inductive SegmentStatus
  | clean
  | dirty
  deriving DecidableEq

/-- The slots of one segment. -/
abbrev Slots (I : Type) := Fin itemsPerSegment → I

/-- A segment in memory. -/
structure Segment (I : Type) where
  segmentId : Nat
  items : Slots I
  state : SegmentStatus
  lastAccessed : Nat

inductive StorageError
  /-- `truncate_above(target) below start_height (start)`. -/
  | truncateBelowStart (target start : Nat)
  /-- A range of heights that ends before it starts. -/
  | rangeUnderflow (lo hi : Nat)
  /-- `get_items range lo..hi extends into a segment queued for deletion`. -/
  | rangeQueuedForDeletion (lo hi : Nat)
  deriving DecidableEq

/-- The cache of all segments of a store, with the files under it. -/
structure SegmentCache (I : Type) where
  segments : SortedMap Nat (Segment I)
  evicted : SortedMap Nat (Segment I)
  tipHeight : Option Nat
  startHeight : Option Nat
  /-- Segments whose files the next persist removes. -/
  toDelete : Finset Nat
  /-- Segment files by id. -/
  disk : SortedMap Nat (Slots I)
  /-- The next reading of the clock. -/
  clock : Nat

/-- The segment of a height. -/
def heightToSegmentId (height : Nat) : Nat := height / itemsPerSegment

/-- The slot of a height in its segment. -/
def heightToOffset (height : Nat) : Fin itemsPerSegment :=
  ⟨height % itemsPerSegment, Nat.mod_lt _ itemsPerSegment_pos⟩

variable {I : Type} (sentinel : I)

/-- A segment without items. -/
def Segment.vacant (segmentId now : Nat) : Segment I :=
  { segmentId, items := fun _ => sentinel, state := .dirty, lastAccessed := now }

/-- Read a segment from its file; without a file it is empty and unsaved. -/
def Segment.load (disk : SortedMap Nat (Slots I)) (segmentId now : Nat) : Segment I :=
  match disk.get? segmentId with
  | some items => { segmentId, items, state := .clean, lastAccessed := now }
  | none => Segment.vacant sentinel segmentId now

section

variable (segment : Segment I)

/-- Put an item in a slot. -/
def Segment.insert (item : I) (offset : Fin itemsPerSegment) (now : Nat) :
    Segment I :=
  { segment with
    items := Function.update segment.items offset item
    state := .dirty
    lastAccessed := now }

/-- Whether one of the slots from `i` on is in use, looking at `fuel` of them. -/
def usedFrom [DecidableEq I] (items : Slots I) : Nat → Nat → Bool
  | 0, _ => false
  | fuel + 1, i =>
    if h : i < itemsPerSegment then items ⟨i, h⟩ ≠ sentinel || usedFrom items fuel (i + 1)
    else false

/-- Whether a slot above `offset` is in use. -/
def Segment.usedAbove [DecidableEq I] (offset : Fin itemsPerSegment) : Bool :=
  usedFrom sentinel segment.items itemsPerSegment (offset + 1)

/-- Empty every slot above `offset`; the segment is touched only if one was in use. -/
def Segment.resetAbove [DecidableEq I] (offset : Fin itemsPerSegment)
    (now : Nat) : Segment I :=
  if segment.usedAbove sentinel offset then
    { segment with
      items := fun slot => if offset < slot then sentinel else segment.items slot
      state := .dirty
      lastAccessed := now }
  else segment

/-- The first slot in use from `i` on, looking at `fuel` of them. -/
def firstUsedFrom [DecidableEq I] (items : Slots I) : Nat → Nat → Option (Fin itemsPerSegment)
  | 0, _ => none
  | fuel + 1, i =>
    if h : i < itemsPerSegment then
      if items ⟨i, h⟩ ≠ sentinel then some ⟨i, h⟩ else firstUsedFrom items fuel (i + 1)
    else none

/-- The last slot in use below `i`. -/
def lastUsedBelow [DecidableEq I] (items : Slots I) : Nat → Option (Fin itemsPerSegment)
  | 0 => none
  | i + 1 =>
    if h : i < itemsPerSegment then
      if items ⟨i, h⟩ ≠ sentinel then some ⟨i, h⟩ else lastUsedBelow items i
    else lastUsedBelow items i

/-- The first slot in use. -/
def Segment.firstValidOffset [DecidableEq I] : Option (Fin itemsPerSegment) :=
  firstUsedFrom sentinel segment.items itemsPerSegment 0

/-- The last slot in use. -/
def Segment.lastValidOffset [DecidableEq I] : Option (Fin itemsPerSegment) :=
  lastUsedBelow sentinel segment.items itemsPerSegment

/-- Note an access; a read does no more to a segment. -/
def Segment.touch (now : Nat) : Segment I :=
  { segment with lastAccessed := now }

/-- The slots from `lo` up to, not including, `hi`. -/
def Segment.get (lo hi : Nat) : List I :=
  ((List.finRange itemsPerSegment).drop lo).take (hi - lo) |>.map segment.items

/-- One change to the files of a store. -/
inductive FileOp (I : Type)
  | remove (segmentId : Nat)
  | write (segmentId : Nat) (items : Slots I)

/-- Files are written and removed whole. -/
def FileOp.apply (disk : SortedMap Nat (Slots I)) : FileOp I → SortedMap Nat (Slots I)
  | .remove segmentId => disk.erase segmentId
  | .write segmentId items => disk.insert segmentId items

/-- The write of a segment with unsaved changes. -/
def Segment.fileOp : Option (FileOp I) :=
  match segment.state with
  | .clean => none
  | .dirty => some (.write segment.segmentId segment.items)

end

/-- The segment id read back from the name of a segment file: the name holds the id in at
least four digits, and the first four of them are read. -/
def listedId (segmentId : Nat) : Nat := segmentId / 10 ^ (Nat.log 10 segmentId - 3)

/-- The first height of a segment. -/
def segmentIdToStartHeight (segmentId : Nat) : Nat := segmentId * itemsPerSegment

namespace SegmentCache

variable (c : SegmentCache I)

/-- Drop the active segment accessed longest ago; one with unsaved changes waits in
`evicted`. -/
def evictOldest : SegmentCache I :=
  match c.segments.entries.argmin (fun e => e.2.lastAccessed) with
  | some ⟨key, segment⟩ =>
    { c with
      segments := c.segments.erase key
      evicted := if segment.state = .dirty then c.evicted.insert key segment else c.evicted }
  | none => c

section

variable (segmentId : Nat)

/-- The segment under an id that is not active: an evicted one, an empty one in place of
one queued for deletion, or the one on disk. -/
def fetch : Segment I :=
  match c.evicted.get? segmentId with
  | some segment => segment
  | none =>
    if segmentId ∈ c.toDelete then Segment.vacant sentinel segmentId c.clock
    else Segment.load sentinel c.disk segmentId c.clock

/-- Make a segment active and return it, evicting another one when memory is full. -/
def getSegmentMut : SegmentCache I × Segment I :=
  match c.segments.get? segmentId with
  | some segment => (c, segment)
  | none =>
    let c := if maxActiveSegments ≤ c.segments.size then c.evictOldest else c
    let segment := c.fetch sentinel segmentId
    ({ c with
       segments := c.segments.insert segmentId segment
       evicted := c.evicted.erase segmentId
       toDelete :=
         -- a waiting segment is taken before the deletion queue is looked at
         if (c.evicted.get? segmentId).isSome then c.toDelete else c.toDelete.erase segmentId
       clock := c.clock + 1 }, segment)

/-- Activate a segment and change it. -/
def modifySegment (change : Segment I → Nat → Segment I) : SegmentCache I :=
  let (c, segment) := c.getSegmentMut sentinel segmentId
  { c with
    segments := c.segments.insert segmentId (change segment c.clock)
    clock := c.clock + 1 }

end

/-- Write items at consecutive heights. -/
def storeLoop : List I → Nat → SegmentCache I → SegmentCache I
  | [], _, c => c
  | item :: rest, height, c =>
    storeLoop rest (height + 1)
      (c.modifySegment sentinel (heightToSegmentId height) fun segment now =>
        segment.insert item (heightToOffset height) now)

/-- Write items from a height on and extend the range of stored heights over them. -/
def storeItemsAtHeight (items : List I) (startHeight : Nat) : SegmentCache I :=
  if items.isEmpty then c
  else
    let c := storeLoop sentinel items startHeight c
    let height := startHeight + items.length
    { c with
      tipHeight := match c.tipHeight with
        | some current => some (max current (height - 1))
        | none => some (height - 1)
      startHeight := match c.startHeight with
        | some current => some (min current startHeight)
        | none => some startHeight }

/-- The height above the tip. -/
def nextHeight : Nat :=
  match c.tipHeight with
  | some height => height + 1
  | none => 0

/-- Write items above the tip. -/
def storeItems (items : List I) : SegmentCache I :=
  c.storeItemsAtHeight sentinel items c.nextHeight

/-- Drop segments from memory and queue their files for deletion. -/
def dropSegments (ids : Finset Nat) : SegmentCache I :=
  { c with
    segments := c.segments.filter fun id _ => id ∉ ids
    evicted := c.evicted.filter fun id _ => id ∉ ids
    toDelete := c.toDelete ∪ ids }

/-- Remove every item above a height. A height below the first stored one is refused. -/
def truncateAbove [DecidableEq I] (c : SegmentCache I) (targetHeight : Nat) :
    SegmentCache I × Except StorageError Unit :=
  match c.tipHeight with
  | none => (c, .ok ())
  | some tip =>
    if tip ≤ targetHeight then (c, .ok ())
    else
      match c.startHeight.filter (targetHeight < ·) with
      | some start => (c, .error (.truncateBelowStart targetHeight start))
      | none =>
        let boundarySegmentId := heightToSegmentId targetHeight
        let boundaryOffset := heightToOffset targetHeight
        let maxSegmentId := heightToSegmentId tip
        let c :=
          -- a target in the last slot of its segment leaves nothing to empty there
          if boundaryOffset.val + 1 < itemsPerSegment then
            c.modifySegment sentinel boundarySegmentId fun segment now =>
              segment.resetAbove sentinel boundaryOffset now
          else c
        let c := c.dropSegments (Finset.Icc (boundarySegmentId + 1) maxSegmentId)
        ({ c with tipHeight := some targetHeight }, .ok ())

/-- The segments a cache without further reads knows of: those of its range of heights, and
without a range those in memory. -/
def knownIds : Finset Nat :=
  match c.startHeight, c.tipHeight with
  | some start, some tip => Finset.Icc (heightToSegmentId start) (heightToSegmentId tip)
  | _, _ => (c.segments.keys ++ c.evicted.keys).toFinset

/-- Queue the known segments for deletion and forget the range of heights. -/
def clearAll : SegmentCache I :=
  { c.dropSegments c.knownIds with tipHeight := none, startHeight := none }

/-! ### Reading -/

/-- The item at a height; none in an empty slot and in a segment queued for deletion. -/
def getItem [DecidableEq I] (c : SegmentCache I) (height : Nat) : SegmentCache I × Option I :=
  let segmentId := heightToSegmentId height
  if segmentId ∈ c.toDelete then (c, none)
  else
    let item := (c.getSegmentMut sentinel segmentId).2.items (heightToOffset height)
    (c.modifySegment sentinel segmentId Segment.touch,
      if item = sentinel then none else some item)

/-- The first slot of a segment that a range from `lo` reads. -/
def segStart (lo segmentId : Nat) : Nat :=
  if segmentId = heightToSegmentId lo then (heightToOffset lo).val else 0

/-- The slot of a segment before which a range up to `hi` ends. -/
def segEnd (hi segmentId : Nat) : Nat :=
  let segEnd :=
    if segmentId = heightToSegmentId (hi - 1) then (heightToOffset hi).val else itemsPerSegment
  -- an end that is a multiple of the segment size lies in the next segment
  if segEnd = 0 then itemsPerSegment else segEnd

/-- Read the parts of the heights `lo ≤ h < hi` that lie in the given segments. -/
def getItemsLoop (lo hi : Nat) :
    List Nat → SegmentCache I → SegmentCache I × Except StorageError (List I)
  | [], c => (c, .ok [])
  | segmentId :: rest, c =>
    -- activating a segment queued for deletion would take it off the queue
    if segmentId ∈ c.toDelete then (c, .error (.rangeQueuedForDeletion lo hi))
    else
      let segment := (c.getSegmentMut sentinel segmentId).2
      let c := c.modifySegment sentinel segmentId Segment.touch
      match getItemsLoop lo hi rest c with
      | (c, .error e) => (c, .error e)
      | (c, .ok items) =>
        (c, .ok (segment.get (segStart lo segmentId) (segEnd hi segmentId) ++ items))

/-- The items of consecutive heights `lo ≤ h < hi`, empty slots included. -/
def getItems (lo hi : Nat) : SegmentCache I × Except StorageError (List I) :=
  if hi < lo then (c, .error (.rangeUnderflow lo hi))
  else
    let startSegment := heightToSegmentId lo
    let endSegment := heightToSegmentId (hi - 1)
    getItemsLoop sentinel lo hi (List.range' startSegment (endSegment + 1 - startSegment)) c

/-! ### Files -/

/-- The changes to the files that save a cache. -/
def fileOps : List (FileOp I) :=
  (c.toDelete.sort (· ≤ ·)).map .remove ++ c.evicted.values.filterMap Segment.fileOp ++
    c.segments.values.filterMap Segment.fileOp

/-- Save a cache to its files. -/
def persist : SegmentCache I :=
  { c with
    segments := c.segments.mapVal fun _ segment => { segment with state := .clean }
    evicted := ∅
    toDelete := ∅
    disk := c.fileOps.foldl FileOp.apply c.disk }

/-- Activate the last listed segment and take the last height from it. -/
def loadTip [DecidableEq I] (c : SegmentCache I) : SegmentCache I :=
  match (c.disk.keys.map listedId).max? with
  | none => c
  | some segmentId =>
    let segment := (c.getSegmentMut sentinel segmentId).2
    { (c.getSegmentMut sentinel segmentId).1 with
      tipHeight := (segment.lastValidOffset sentinel).map fun offset =>
        segmentIdToStartHeight segmentId + offset }

/-- Activate the first listed segment and take the first height from it. -/
def loadStart [DecidableEq I] (c : SegmentCache I) : SegmentCache I :=
  match (c.disk.keys.map listedId).min? with
  | none => c
  | some segmentId =>
    let segment := (c.getSegmentMut sentinel segmentId).2
    { (c.getSegmentMut sentinel segmentId).1 with
      startHeight := (segment.firstValidOffset sentinel).map fun offset =>
        segmentIdToStartHeight segmentId + offset }

/-- Open the files of a store. The range of heights is read off the last and the first
segment file; the files between them are not looked at. -/
def loadOrNew [DecidableEq I] (disk : SortedMap Nat (Slots I)) (clock : Nat) : SegmentCache I :=
  loadStart sentinel (loadTip sentinel ⟨∅, ∅, none, none, ∅, disk, clock⟩)

end SegmentCache

end Dashcore
