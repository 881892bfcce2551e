import Dashcore.Storage.SegmentFiles
import Dashcore.Sync.Reorg

/-!
# The consistency check at startup

After the stores are opened and before anything reads them, the stores are brought back into
order: nothing may reach above what it depends on. With the sentinel of a reorg in progress
on disk, all stores are first cut at the highest header whose parent link is in the hash
index. Then filter headers are cut at the header tip, filters at the filter-header tip, and
blocks at the header tip if one is found in a window above it. Every repair is saved at once,
and the first refused cut ends the check.

An opened store need not have the range of heights its items have, so the stores are plain
caches here and not well-formed ones.
-/

namespace Dashcore

open SegmentCache

/-- What is stored as the best chainlock: a lock, of which only the height matters here, or
bytes that do not decode. -/
inductive StoredChainlock
  | unreadable
  | lock (blockHeight : Nat)
  deriving DecidableEq

/-- The stores of the client that the check looks at. -/
structure DiskStorages (blockHash : Header → BlockHash) {Block : Type} (noBlock : Block) where
  blockHeaders : SegmentCache HashedBlockHeader
  headerHashIndex : SortedMap BlockHash Nat
  filterHeaders : SegmentCache FilterHeader
  filters : SegmentCache Filter
  blocks : SegmentCache Block
  reorgSentinel : Bool
  bestChainlock : Option StoredChainlock

/-- The files of the stores. -/
structure DiskFiles (Block : Type) where
  blockHeaders : SortedMap Nat (Slots HashedBlockHeader)
  filterHeaders : SortedMap Nat (Slots FilterHeader)
  filters : SortedMap Nat (Slots Filter)
  blocks : SortedMap Nat (Slots Block)
  reorgSentinel : Bool
  bestChainlock : Option StoredChainlock

/-- Cut a cache and save it. -/
def SegmentCache.truncateAndPersist {I : Type} [DecidableEq I] (sentinel : I)
    (c : SegmentCache I) (targetHeight : Nat) : SegmentCache I × Except StorageError Unit :=
  match c.truncateAbove sentinel targetHeight with
  | (c, .error e) => (c, .error e)
  | (c, .ok ()) => (c.persist, .ok ())

variable {blockHash : Header → BlockHash} {Block : Type} {noBlock : Block}

/-- Open the header files and index the stored headers by hash. -/
def openBlockHeaders (blockHash : Header → BlockHash)
    (disk : SortedMap Nat (Slots HashedBlockHeader)) (clock : Nat) :
    Except StorageError (SegmentCache HashedBlockHeader × SortedMap BlockHash Nat) :=
  let c := loadOrNew (.sentinel blockHash) disk clock
  match c.startHeight, c.tipHeight with
  | some start, some tip =>
    match c.getItems (.sentinel blockHash) start (tip + 1) with
    | (_, .error e) => .error e
    | (c, .ok headers) => .ok (c, PersistentBlockHeaderStorage.indexHeaders ∅ headers start)
  | _, _ => .ok (c, ∅)

/-- Walk down from a height to the highest header whose predecessor the index has one below,
and stop at the first stored height. -/
def highestValidTipLoop (blockHash : Header → BlockHash) (index : SortedMap BlockHash Nat)
    (start : Nat) : Nat → SegmentCache HashedBlockHeader →
      SegmentCache HashedBlockHeader × Option Nat
  -- the walk starts above the first stored height, so it stops there at the latest
  | 0, c => (c, if start = 0 then some 0 else none)
  | parentHeight + 1, c =>
    if parentHeight + 1 = start then (c, some start)
    else
      match c.getItem (.sentinel blockHash) (parentHeight + 1) with
      | (c, none) => highestValidTipLoop blockHash index start parentHeight c
      | (c, some current) =>
        if index.get? current.header.prevBlockhash = some parentHeight then
          (c, some (parentHeight + 1))
        else highestValidTipLoop blockHash index start parentHeight c

/-- The highest height with an intact parent link; none in a store without a range. -/
def highestValidTip (blockHash : Header → BlockHash) (c : SegmentCache HashedBlockHeader)
    (index : SortedMap BlockHash Nat) : SegmentCache HashedBlockHeader × Option Nat :=
  match c.tipHeight, c.startHeight with
  | some tip, some start => highestValidTipLoop blockHash index start tip c
  | _, _ => (c, none)

/-- Heights above the header tip that are probed for stale blocks. -/
def probeWindow : Nat := 1024

/-- Look for a stored block in `count` heights from `probe` on. -/
def probeBlocks [DecidableEq Block] (noBlock : Block) :
    Nat → Nat → SegmentCache Block → SegmentCache Block × Bool
  | 0, _, c => (c, false)
  | count + 1, probe, c =>
    match c.getItem noBlock probe with
    | (c, some _) => (c, true)
    | (c, none) => probeBlocks noBlock count (probe + 1) c

namespace DiskStorages

/-- Open all stores. -/
def openStores [DecidableEq Block] (blockHash : Header → BlockHash) (noBlock : Block)
    (files : DiskFiles Block) (clock : Nat) :
    Except StorageError (DiskStorages blockHash noBlock) :=
  match openBlockHeaders blockHash files.blockHeaders clock with
  | .error e => .error e
  | .ok (blockHeaders, headerHashIndex) =>
    .ok
      { blockHeaders
        headerHashIndex
        filterHeaders := loadOrNew 0 files.filterHeaders clock
        filters := loadOrNew [] files.filters clock
        blocks := loadOrNew noBlock files.blocks clock
        reorgSentinel := files.reorgSentinel
        bestChainlock := files.bestChainlock }

/-- Go on unless a repair failed. -/
def andThen (result : DiskStorages blockHash noBlock × Except StorageError Unit)
    (next : DiskStorages blockHash noBlock →
      DiskStorages blockHash noBlock × Except StorageError Unit) :
    DiskStorages blockHash noBlock × Except StorageError Unit :=
  match result with
  | (s, .error e) => (s, .error e)
  | (s, .ok ()) => next s

section

variable (target : Nat)

/-- Cut the headers and their index. -/
def cutBlockHeaders (s : DiskStorages blockHash noBlock) :
    DiskStorages blockHash noBlock × Except StorageError Unit :=
  match s.blockHeaders.truncateAbove (.sentinel blockHash) target with
  | (blockHeaders, .error e) => ({ s with blockHeaders }, .error e)
  | (blockHeaders, .ok ()) =>
    ({ s with
       blockHeaders := blockHeaders.persist
       headerHashIndex :=
         -- the index is pruned only if the cut removes a header
         if s.blockHeaders.tipHeight.any (target < ·) then
           s.headerHashIndex.filter fun _ h => h ≤ target
         else s.headerHashIndex }, .ok ())

def cutFilterHeaders (s : DiskStorages blockHash noBlock) :
    DiskStorages blockHash noBlock × Except StorageError Unit :=
  let (filterHeaders, result) := s.filterHeaders.truncateAndPersist 0 target
  ({ s with filterHeaders }, result)

def cutFilters (s : DiskStorages blockHash noBlock) :
    DiskStorages blockHash noBlock × Except StorageError Unit :=
  let (filters, result) := s.filters.truncateAndPersist [] target
  ({ s with filters }, result)

def cutBlocks [DecidableEq Block] (s : DiskStorages blockHash noBlock) :
    DiskStorages blockHash noBlock × Except StorageError Unit :=
  let (blocks, result) := s.blocks.truncateAndPersist noBlock target
  ({ s with blocks }, result)

end

variable (s : DiskStorages blockHash noBlock)

/-- With a reorg in progress at the last shutdown, cut every store at the safe tip. -/
def recoverReorg [DecidableEq Block] :
    DiskStorages blockHash noBlock × Except StorageError Unit :=
  if s.reorgSentinel then
    let (blockHeaders, safeTip) := highestValidTip blockHash s.blockHeaders s.headerHashIndex
    let s := { s with blockHeaders }
    match safeTip with
    | some safeTip =>
      andThen (andThen (andThen (andThen (s.cutBlockHeaders safeTip) (cutFilterHeaders safeTip))
        (cutFilters safeTip)) (cutBlocks safeTip))
        fun s => ({ s with reorgSentinel := false }, .ok ())
    | none => ({ s with reorgSentinel := false }, .ok ())
  else (s, .ok ())

section

variable (blockTip : Nat)

/-- Forget a chainlock above the header tip, and one that does not decode. -/
def clearStaleChainlock (s : DiskStorages blockHash noBlock) :
    DiskStorages blockHash noBlock :=
  { s with
    bestChainlock := match s.bestChainlock with
      | some (.lock blockHeight) => if blockTip < blockHeight then none else s.bestChainlock
      | some .unreadable => none
      | none => none }

/-- Filter headers may not reach above the headers. -/
def repairFilterHeaders (s : DiskStorages blockHash noBlock) :
    DiskStorages blockHash noBlock × Except StorageError Unit :=
  match s.filterHeaders.tipHeight with
  | some fhTip => if blockTip < fhTip then s.cutFilterHeaders blockTip else (s, .ok ())
  | none => (s, .ok ())

/-- Filters may not reach above the filter headers. A store without filters reports the tip
0, as one with a filter at height 0 only. -/
def repairFilters :
    DiskStorages blockHash noBlock × Except StorageError Unit :=
  let fTip := s.filters.tipHeight.getD 0
  match s.filterHeaders.tipHeight with
  | some fhBound => if fhBound < fTip then s.cutFilters fhBound else (s, .ok ())
  | none =>
    if 0 < fTip then ({ s with filters := s.filters.clearAll.persist }, .ok ())
    else (s, .ok ())

/-- Cut the blocks if one is found above the header tip. -/
def repairBlocksAboveTip [DecidableEq Block]
    (s : DiskStorages blockHash noBlock) :
    DiskStorages blockHash noBlock × Except StorageError Unit :=
  let (blocks, foundStale) := probeBlocks noBlock probeWindow (blockTip + 1) s.blocks
  let s := { s with blocks }
  if foundStale then s.cutBlocks blockTip else (s, .ok ())

/-- Filter headers that cannot be read are cut at the header tip, and the filters with
them. -/
def checkFilterHeaders (s : DiskStorages blockHash noBlock) :
    DiskStorages blockHash noBlock × Except StorageError Unit :=
  match s.filterHeaders.startHeight with
  | none => (s, .ok ())
  | some start =>
    let tip := s.filterHeaders.tipHeight.getD start
    if start ≤ tip then
      match s.filterHeaders.getItems 0 start (tip + 1) with
      | (filterHeaders, .ok _) => ({ s with filterHeaders }, .ok ())
      | (filterHeaders, .error _) =>
        andThen (cutFilterHeaders blockTip { s with filterHeaders }) (cutFilters blockTip)
    else (s, .ok ())

/-- The repairs below a header tip. -/
def repairBelow [DecidableEq Block] (s : DiskStorages blockHash noBlock) :
    DiskStorages blockHash noBlock × Except StorageError Unit :=
  andThen (andThen (andThen ((s.clearStaleChainlock blockTip).repairFilterHeaders blockTip)
    repairFilters) (repairBlocksAboveTip blockTip)) (checkFilterHeaders blockTip)

end

/-- The check at startup. -/
def checkAndRepairConsistency [DecidableEq Block] :
    DiskStorages blockHash noBlock × Except StorageError Unit :=
  andThen s.recoverReorg fun s =>
    match s.blockHeaders.tipHeight with
    | none => (s, .ok ())
    | some blockTip => s.repairBelow blockTip

end DiskStorages

end Dashcore
