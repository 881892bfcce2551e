import Dashcore.Storage.Repair
import Dashcore.Sync.BlockHeaders.HashLinked

/-!
# Crashes around a reorg

`handleReorg` rewrites the headers in memory only. The files follow when the background
worker saves the header store, one file after the other, and the sentinel of the reorg may be
gone by then. A crash between two of these changes leaves some files of the old chain beside
files of the new one. The check at startup looks for a broken link at the top of the store
only, and only if it finds a sentinel.

As long as the files present the chain when a reorg begins, and the reorg rewrites heights of
one segment, a single file tells the old chain from the new one, so every crash leaves one of
the two.
-/

namespace Dashcore

open SegmentCache

/-! ### Linked files -/

section Files

variable {blockHash : Header → BlockHash}

/-- Every header between the first and the last height follows the one below. -/
def RangeLinked (m : HeightMap HashedBlockHeader) : Prop :=
  ∀ start tip, m.start = some start → m.tip = some tip →
    ∀ h, start ≤ h → h < tip → Follows (m.slot h) (m.slot (h + 1))

/-- Between any two headers in the files, every header follows the one below. -/
def FilesLinked (blockHash : Header → BlockHash)
    (disk : SortedMap Nat (Slots HashedBlockHeader)) : Prop :=
  ∀ lo hi, fileSlot (.sentinel blockHash) disk lo ≠ .sentinel blockHash →
    fileSlot (.sentinel blockHash) disk hi ≠ .sentinel blockHash →
    ∀ h, lo ≤ h → h < hi → Follows (fileSlot (.sentinel blockHash) disk h)
      (fileSlot (.sentinel blockHash) disk (h + 1))

theorem RangeLinked.trim {m : HeightMap HashedBlockHeader} (hm : RangeLinked m)
    (sentinel : HashedBlockHeader) (target : Nat) : RangeLinked (m.trim sentinel target) := by
  intro start tip hstart htip h hle hlt
  obtain ⟨tip', htip', rfl⟩ := Option.map_eq_some_iff.mp htip
  -- both heights are at most the target, so neither slot is emptied
  have hslot : ∀ k ≤ target, (m.trim sentinel target).slot k = m.slot k := by
    intro k hk
    exact if_neg fun hcut => absurd hcut.1 (not_lt.mpr hk)
  rw [hslot h (by omega), hslot (h + 1) (by omega)]
  exact hm start tip' hstart htip' h hle (by omega)

variable {disk : SortedMap Nat (Slots HashedBlockHeader)}

/-- Files that hold what a linked store presents are linked. -/
theorem HashLinked.filesLinked {c : SegmentCache HashedBlockHeader}
    (hc : c.WellFormed (.sentinel blockHash))
    (hlinked : HashLinked blockHash (c.content (.sentinel blockHash)))
    (hview : onDisk (.sentinel blockHash) disk = c.view (.sentinel blockHash)) :
    FilesLinked blockHash disk := by
  have hslot : fileSlot (.sentinel blockHash) disk = (c.content (.sentinel blockHash)).slot := by
    funext h
    exact congrFun (congrFun hview _) _
  intro lo hi hlo hhi h hle hlt
  rw [hslot] at hlo hhi ⊢
  obtain ⟨start, -, hstart, -, hlo', -⟩ := hc.inRange lo hlo
  obtain ⟨-, tip, -, htip, -, hhi'⟩ := hc.inRange hi hhi
  exact hlinked.linked hstart htip (by omega) (by omega)

/-- Linked files are opened as a linked store: both ends of its range are in use. -/
theorem FilesLinked.rangeLinked (hdisk : FilesLinked blockHash disk) (clock : Nat) :
    RangeLinked ((loadOrNew (.sentinel blockHash) disk clock).content
      (.sentinel blockHash)) := by
  obtain ⟨hopened, htip, hstart⟩ := loadOrNew_spec (HashedBlockHeader.sentinel blockHash) disk clock
  intro start tip hs ht h hle hlt
  have hs' : (loadOrNew (.sentinel blockHash) disk clock).startHeight = some start := hs
  have ht' : (loadOrNew (.sentinel blockHash) disk clock).tipHeight = some tip := ht
  rw [hs'] at hstart
  rw [ht'] at htip
  rw [hopened.slot]
  cases hstart with
  | some _ hlo _ =>
    cases htip with
    | some _ hhi _ => exact hdisk start tip hlo hhi h hle hlt

end Files

/-! ### What the check leaves of the headers -/

namespace DiskStorages

variable {blockHash : Header → BlockHash} {Block : Type} {noBlock : Block}

/-- Later repairs that leave the header cache alone leave it as an earlier repair did. -/
theorem andThen_blockHeaders
    {next : DiskStorages blockHash noBlock → DiskStorages blockHash noBlock × Except StorageError Unit}
    (hnext : ∀ s, (next s).1.blockHeaders = s.blockHeaders)
    (result : DiskStorages blockHash noBlock × Except StorageError Unit) :
    (andThen result next).1.blockHeaders = result.1.blockHeaders := by
  obtain ⟨s, _ | _⟩ := result
  · rfl
  · exact hnext s

theorem repairFilterHeaders_blockHeaders (blockTip : Nat) (s : DiskStorages blockHash noBlock) :
    (s.repairFilterHeaders blockTip).1.blockHeaders = s.blockHeaders := by
  unfold repairFilterHeaders
  split
  · split_ifs <;> rfl
  · rfl

theorem repairFilters_blockHeaders (s : DiskStorages blockHash noBlock) :
    s.repairFilters.1.blockHeaders = s.blockHeaders := by
  unfold repairFilters
  split
  · dsimp only
    split_ifs <;> rfl
  · dsimp only
    split_ifs <;> rfl

theorem checkFilterHeaders_blockHeaders (blockTip : Nat) (s : DiskStorages blockHash noBlock) :
    (s.checkFilterHeaders blockTip).1.blockHeaders = s.blockHeaders := by
  unfold checkFilterHeaders
  split
  · rfl
  · dsimp only
    split_ifs
    · split
      · rfl
      · exact andThen_blockHeaders (fun _ => rfl) _
    · rfl

variable [DecidableEq Block]

theorem repairBlocksAboveTip_blockHeaders (blockTip : Nat) (s : DiskStorages blockHash noBlock) :
    (s.repairBlocksAboveTip blockTip).1.blockHeaders = s.blockHeaders := by
  unfold repairBlocksAboveTip
  dsimp only
  split_ifs <;> rfl

theorem repairBelow_blockHeaders (blockTip : Nat) (s : DiskStorages blockHash noBlock) :
    (s.repairBelow blockTip).1.blockHeaders = s.blockHeaders := by
  unfold repairBelow
  rw [andThen_blockHeaders (checkFilterHeaders_blockHeaders blockTip),
    andThen_blockHeaders (repairBlocksAboveTip_blockHeaders blockTip),
    andThen_blockHeaders repairFilters_blockHeaders, repairFilterHeaders_blockHeaders]
  rfl

omit [DecidableEq Block] in
theorem cutBlockHeaders_blockHeaders {s : DiskStorages blockHash noBlock}
    (hs : s.blockHeaders.Sound) (target : Nat) :
    (s.cutBlockHeaders target).1.blockHeaders.content (.sentinel blockHash) =
      s.blockHeaders.content (.sentinel blockHash) ∨
    (s.cutBlockHeaders target).1.blockHeaders.content (.sentinel blockHash) =
      (s.blockHeaders.content (.sentinel blockHash)).trim (.sentinel blockHash) target := by
  unfold cutBlockHeaders
  have hk := hs.keyed.truncateAbove (.sentinel blockHash) target
  obtain ⟨-, _, heq⟩ | ⟨-, _, hc, hcont, heq⟩ :=
    hs.consistent.truncateAbove (.sentinel blockHash) target
  · rw [heq]
    exact .inl rfl
  · rw [heq] at hk ⊢
    exact .inr ((Consistent.persist hc hk).2.trans hcont)

/-- Whether it succeeds or not, the recovery leaves the headers as they are or trims them. -/
theorem recoverReorg_blockHeaders {s : DiskStorages blockHash noBlock} (hs : s.blockHeaders.Sound) :
    s.recoverReorg.1.blockHeaders.content (.sentinel blockHash) =
      s.blockHeaders.content (.sentinel blockHash) ∨
    ∃ target, s.recoverReorg.1.blockHeaders.content (.sentinel blockHash) =
      (s.blockHeaders.content (.sentinel blockHash)).trim (.sentinel blockHash) target := by
  have hwalk := @highestValidTip_keeps blockHash _ hs s.headerHashIndex
  unfold recoverReorg
  split_ifs with hsentinel
  · generalize highestValidTip blockHash s.blockHeaders s.headerHashIndex = walk at hwalk ⊢
    obtain ⟨c, safeTip⟩ := walk
    obtain ⟨hc, hcont⟩ := hwalk
    cases safeTip with
    | none => exact .inl hcont
    | some safeTip =>
      rw [andThen_blockHeaders (fun _ => rfl), andThen_blockHeaders (fun _ => rfl),
        andThen_blockHeaders (fun _ => rfl), andThen_blockHeaders (fun _ => rfl), ← hcont]
      obtain hsame | hcut := @cutBlockHeaders_blockHeaders blockHash Block noBlock
        { s with blockHeaders := c } hc safeTip
      · exact .inl hsame
      · exact .inr ⟨safeTip, hcut⟩
  · exact .inl rfl

theorem checkAndRepairConsistency_blockHeaders (s : DiskStorages blockHash noBlock) :
    s.checkAndRepairConsistency.1.blockHeaders = s.recoverReorg.1.blockHeaders := by
  refine andThen_blockHeaders (fun s => ?_) _
  split
  · rfl
  · exact repairBelow_blockHeaders _ s

/-- Linked files are opened and repaired to a linked header store, whatever the other files
are. -/
theorem exists_openStores_rangeLinked {files : DiskFiles Block}
    (hfiles : FilesLinked blockHash files.blockHeaders) (clock : Nat) :
    ∃ s : DiskStorages blockHash noBlock, openStores blockHash noBlock files clock = .ok s ∧
      RangeLinked (s.checkAndRepairConsistency.1.blockHeaders.content (.sentinel blockHash)) := by
  obtain ⟨s, hopen, hs, -, -, hhdrs, -⟩ := @openStores_spec blockHash Block noBlock _ files clock
  refine ⟨s, hopen, ?_⟩
  have hlinked : RangeLinked (s.blockHeaders.content (.sentinel blockHash)) :=
    hhdrs ▸ hfiles.rangeLinked clock
  rw [checkAndRepairConsistency_blockHeaders]
  obtain hsame | ⟨target, htrim⟩ := recoverReorg_blockHeaders hs.blockHeaders
  · rw [hsame]
    exact hlinked
  · rw [htrim]
    exact hlinked.trim _ target

end DiskStorages

/-! ### The running client -/

/-- Save a store whose segments know their ids. -/
def SegmentStore.persist {I : Type} {sentinel : I} (s : SegmentStore sentinel)
    (hk : s.cache.Keyed) : SegmentStore sentinel where
  cache := s.cache.persist
  wf := by
    obtain ⟨hc, hcontent⟩ := @SegmentCache.Consistent.persist I sentinel _ s.wf.consistent hk
    exact ⟨hc, hcontent ▸ s.wf.inRange⟩

namespace PersistentBlockHeaderStorage

variable {blockHash : Header → BlockHash} (s : PersistentBlockHeaderStorage blockHash)
  (candidate : ForkCandidate)

theorem rewrite_cache :
    (s.rewrite candidate).blockHeaders.cache =
      (s.blockHeaders.cache.truncateAbove (.sentinel blockHash)
        candidate.ancestorHeight).1.storeItems (.sentinel blockHash) candidate.headers := by
  have htrunc : (s.truncateAbove candidate.ancestorHeight).1.blockHeaders =
      (s.blockHeaders.truncateAbove candidate.ancestorHeight).1 := by
    unfold truncateAbove
    split <;> next heq => rw [heq]
  change ((s.truncateAbove candidate.ancestorHeight).1.blockHeaders.storeItems
    candidate.headers).cache = _
  rw [htrunc]
  rfl

theorem rewrite_keyed {s : PersistentBlockHeaderStorage blockHash}
    (hk : s.blockHeaders.cache.Keyed) (candidate : ForkCandidate) :
    (s.rewrite candidate).blockHeaders.cache.Keyed := by
  rw [rewrite_cache]
  exact (hk.truncateAbove _ _).storeItemsAtHeight _ _ _

/-- A reorg reaches no header file. -/
theorem rewrite_disk :
    (s.rewrite candidate).blockHeaders.cache.disk = s.blockHeaders.cache.disk := by
  rw [rewrite_cache]
  exact (storeItemsAtHeight_disk _ _ _ _).trans
    (truncateAbove_disk _ _ _)

end PersistentBlockHeaderStorage

/-- The reorg cascade of a client whose header segments know their ids. -/
structure RunningClient (blockHash : Header → BlockHash) {Block : Type} (noBlock : Block) where
  cascade : Cascade blockHash noBlock
  keyed : cascade.storages.blockHeaderStorage.blockHeaders.cache.Keyed

/-- What moves the header store: a reorg, and a save by the background worker. The save holds
the lock of the store, so no reorg runs inside it. -/
inductive ClientAction
  | handleReorg (ctx : ReorgContext) (candidate : ForkCandidate)
  | persist

namespace RunningClient

variable {blockHash : Header → BlockHash} {Block : Type} {noBlock : Block}

section

variable (c : RunningClient blockHash noBlock)

def headers : PersistentBlockHeaderStorage blockHash :=
  c.cascade.storages.blockHeaderStorage

/-- The header cache, with the header files. -/
def cache : SegmentCache HashedBlockHeader :=
  c.headers.blockHeaders.cache

/-- What a crash may leave on disk: the worker has made some of the changes of a save, in any
order. Nothing is assumed of the sentinel and of the other stores' files, since a crash may
come at any step of the cascade and of their own saves. -/
def CrashFiles (files : DiskFiles Block) : Prop :=
  ∃ (order : List (FileOp HashedBlockHeader)) (n : Nat), order.Perm c.cache.fileOps ∧
    files.blockHeaders = (order.take n).foldl FileOp.apply c.cache.disk

/-- The reorg is a fork of the stored chain. -/
def Legitimate : ClientAction → Prop
  | .handleReorg _ candidate => Anchored blockHash c.headers.chain candidate
  | .persist => True

/-- The reorg begins with current files, and all heights it rewrites lie in one segment. -/
def RewritesOneFile : ClientAction → Prop
  | .handleReorg _ candidate =>
    c.cache.FilesCurrent (.sentinel blockHash) ∧
    ∀ tip, c.headers.chain.tip = some tip →
      heightToSegmentId (candidate.ancestorHeight + 1) =
        heightToSegmentId (max tip (candidate.ancestorHeight + candidate.headers.length))
  | .persist => True

end

variable [DecidableEq Block]

section

variable (c : RunningClient blockHash noBlock)

theorem handleReorg_keyed (ctx : ReorgContext)
    (candidate : ForkCandidate) :
    (handleReorg ctx candidate c.cascade).1.storages.blockHeaderStorage.blockHeaders.cache.Keyed := by
  obtain hsame | ⟨-, -, hrewrite⟩ := handleReorg_blockHeaderStorage ctx candidate c.cascade
  · rw [hsame]
    exact c.keyed
  · rw [hrewrite]
    exact PersistentBlockHeaderStorage.rewrite_keyed c.keyed candidate

def step : ClientAction → RunningClient blockHash noBlock
  | .handleReorg ctx candidate =>
    ⟨(handleReorg ctx candidate c.cascade).1, c.handleReorg_keyed ctx candidate⟩
  | .persist =>
    { cascade :=
        { c.cascade with
          storages :=
            { c.cascade.storages with
              blockHeaderStorage :=
                { c.headers with blockHeaders := c.headers.blockHeaders.persist c.keyed } } }
      keyed := c.keyed.persist }

/-- Whatever a crash leaves, the stores can be opened, and after the check the headers are
linked. -/
def RecoversLinked : Prop :=
  ∀ (files : DiskFiles Block) (clock : Nat), c.CrashFiles files →
    ∃ s : DiskStorages blockHash noBlock,
      DiskStorages.openStores blockHash noBlock files clock = .ok s ∧
      RangeLinked (s.checkAndRepairConsistency.1.blockHeaders.content (.sentinel blockHash))

end

omit [DecidableEq Block] in
/-- The chain in memory and the files are linked, and at most one file is not current. -/
structure OneFileBehind (c : RunningClient blockHash noBlock) : Prop where
  chain : HashLinked blockHash c.headers.chain
  files : FilesLinked blockHash c.cache.disk
  behind : ∃ behind, ∀ id, id ≠ behind →
    onDisk (.sentinel blockHash) c.cache.disk id = c.cache.view (.sentinel blockHash) id

omit [DecidableEq Block] in
theorem OneFileBehind.of_filesCurrent {c : RunningClient blockHash noBlock}
    (hlinked : HashLinked blockHash c.headers.chain)
    (hcurrent : c.cache.FilesCurrent (.sentinel blockHash)) : c.OneFileBehind :=
  ⟨hlinked, HashLinked.filesLinked c.headers.blockHeaders.wf hlinked hcurrent, 0,
    fun id _ => congrFun hcurrent id⟩

omit [DecidableEq Block] in
/-- With one file behind, a crash leaves the old files or the new ones. -/
theorem OneFileBehind.crashFiles {c : RunningClient blockHash noBlock} (hc : c.OneFileBehind)
    {files : DiskFiles Block} (hcrash : c.CrashFiles files) :
    FilesLinked blockHash files.blockHeaders := by
  obtain ⟨order, n, hperm, heq⟩ := hcrash
  obtain ⟨behind, hothers⟩ := hc.behind
  have hsub : order.take n ⊆ c.cache.fileOps := fun op hop =>
    hperm.subset (List.mem_of_mem_take hop)
  have hfile : ∀ id, files.blockHeaders.get? id = c.cache.disk.get? id ∨
      files.blockHeaders.get? id = c.cache.saved id := by
    intro id
    rw [heq]
    exact c.headers.blockHeaders.wf.consistent.get?_partial_save c.keyed hsub id
  -- all other files are the same in both cases
  have hother : ∀ id, id ≠ behind → onDisk (.sentinel blockHash) files.blockHeaders id =
      c.cache.view (.sentinel blockHash) id := by
    intro id hid
    obtain hold | hnew := hfile id
    · rw [← hothers id hid, onDisk, hold, onDisk]
    · rw [onDisk, hnew, view_eq_saved]
  obtain hold | hnew := hfile behind
  · have hsame : onDisk (.sentinel blockHash) files.blockHeaders =
        onDisk (.sentinel blockHash) c.cache.disk := by
      funext id
      by_cases hid : id = behind
      · rw [hid, onDisk, hold, onDisk]
      · rw [hother id hid, hothers id hid]
    have hslot : fileSlot (.sentinel blockHash) files.blockHeaders =
        fileSlot (.sentinel blockHash) c.cache.disk := by
      funext h
      rw [fileSlot, hsame, fileSlot]
    unfold FilesLinked
    rw [hslot]
    exact hc.files
  · refine HashLinked.filesLinked c.headers.blockHeaders.wf hc.chain ?_
    funext id
    by_cases hid : id = behind
    · rw [hid, onDisk, hnew]
      exact (c.cache.view_eq_saved behind).symm
    · exact hother id hid

omit [DecidableEq Block] in
/-- A reorg leaves every slot outside the rewritten heights alone. -/
theorem rewrittenChain_slot_outside {chain : HeightMap HashedBlockHeader}
    (hrange : chain.InRange (.sentinel blockHash)) {candidate : ForkCandidate}
    (hanchored : Anchored blockHash chain candidate) {tip h : Nat} (htip : chain.tip = some tip)
    (hh : h ≤ candidate.ancestorHeight ∨
      max tip (candidate.ancestorHeight + candidate.headers.length) < h) :
    (rewrittenChain blockHash chain candidate).slot h = chain.slot h := by
  have hcut := hanchored.cut_tip
  rcases hh with hle | hgt
  · rw [rewrittenChain, HeightMap.append_slot_of_le hcut _ hle]
    exact if_pos hle
  · rw [rewrittenChain, HeightMap.append_slot, HeightMap.nextHeight_of_tip hcut, if_pos (by omega),
      List.getElem?_eq_none (by omega), Option.getD_none, hrange.slot_above htip (by omega)]
    exact if_neg (by omega)

/-- Every action keeps all but one file current. -/
theorem OneFileBehind.step {c : RunningClient blockHash noBlock} (hc : c.OneFileBehind)
    {action : ClientAction} (hlegit : c.Legitimate action) (hone : c.RewritesOneFile action) :
    (c.step action).OneFileBehind := by
  cases action with
  | persist =>
    have hsound : c.cache.Sound := ⟨c.headers.blockHeaders.wf.consistent, c.keyed⟩
    obtain ⟨-, hcont⟩ := @SegmentCache.Consistent.persist _ (.sentinel blockHash) _
      hsound.consistent hsound.keyed
    refine .of_filesCurrent ?_ hsound.filesCurrent_persist
    have hchain : (c.step .persist).headers.chain = c.headers.chain := hcont
    rw [hchain]
    exact hc.chain
  | handleReorg ctx candidate =>
    obtain ⟨hcurrent, hsegment⟩ := hone
    obtain hsame | ⟨-, haccepts, hrewrite⟩ := handleReorg_blockHeaderStorage ctx candidate c.cascade
    · have hhdrs : (c.step (.handleReorg ctx candidate)).headers = c.headers := hsame
      obtain ⟨hchain, hfiles, hbehind⟩ := hc
      constructor
      · rwa [hhdrs]
      · rwa [cache, hhdrs]
      · rwa [cache, hhdrs]
    · have hhdrs : (c.step (.handleReorg ctx candidate)).headers = c.headers.rewrite candidate :=
        hrewrite
      have hdisk := c.headers.rewrite_disk candidate
      have hchain : (c.headers.rewrite candidate).chain =
          rewrittenChain blockHash c.headers.chain candidate :=
        PersistentBlockHeaderStorage.rewrite_chain haccepts
      obtain ⟨tip, htip, -⟩ := id hlegit.stored
      constructor
      · rw [hhdrs, hchain]
        exact hc.chain.rewritten hlegit
      · rw [cache, hhdrs, hdisk]
        exact hc.files
      · refine ⟨heightToSegmentId (candidate.ancestorHeight + 1), fun id hid => ?_⟩
        rw [cache, hhdrs, hdisk]
        funext offset
        have hslot := @rewrittenChain_slot_outside blockHash c.headers.chain
          c.headers.blockHeaders.wf.inRange candidate hlegit tip
          (segmentIdToStartHeight id + offset) htip ?_
        · rw [view_apply]
          change _ = (c.headers.rewrite candidate).chain.slot _
          rw [hchain, hslot]
          exact (congrFun (congrFun hcurrent id) offset).trans (c.cache.view_apply id offset)
        · -- a height between the ancestor and the higher tip would lie in the one segment
          by_contra hinside
          push Not at hinside
          apply hid
          have hlo := heightToSegmentId_mono (Nat.succ_le_of_lt hinside.1)
          have hhi := heightToSegmentId_mono hinside.2
          rw [heightToSegmentId_start_add] at hlo hhi
          rw [← hsegment tip htip] at hhi
          exact le_antisymm hhi hlo

/-- From linked headers with current files: in every run of forks that each rewrite one file
and of saves, every crash is recovered to linked headers. -/
theorem run_recoversLinked {c : RunningClient blockHash noBlock}
    (hlinked : HashLinked blockHash c.headers.chain)
    (hcurrent : c.cache.FilesCurrent (.sentinel blockHash)) {actions : List ClientAction}
    (hlegit : Runs.Along step Legitimate c actions)
    (hone : Runs.Along step RewritesOneFile c actions) :
    (Runs.run step c actions).RecoversLinked := by
  have hend : (Runs.run step c actions).OneFileBehind :=
    Runs.invariant_run (fun c action hc h => hc.step h.1 h.2)
      (OneFileBehind.of_filesCurrent hlinked hcurrent) (hlegit.and hone)
  intro files clock hcrash
  exact DiskStorages.exists_openStores_rangeLinked (hend.crashFiles hcrash) clock

end RunningClient

/-! ### A reorg across two segments -/

namespace SegmentBoundary

open SparseBlocks

def oldHeaders : List HashedBlockHeader :=
  [headerAfter 0 1, headerAfter 1 2, headerAfter 2 3]

section

variable (start : Nat)

/-- Three headers in memory, from a height on. -/
def unsaved : SegmentStore (HashedBlockHeader.sentinel nonceHash) :=
  SegmentStore.empty.storeItemsAtHeight oldHeaders start

theorem unsaved_keyed : (unsaved start).cache.Keyed := by
  dsimp only [unsaved, SegmentStore.storeItemsAtHeight]
  apply SegmentCache.Keyed.storeItemsAtHeight
  constructor <;> simp [SegmentStore.empty]

/-- A client with these headers, saved. -/
def client : RunningClient nonceHash (0 : Nat) where
  cascade :=
    { state := ⟨∅, false⟩
      generation := 0
      storages :=
        { blockHeaderStorage := ⟨(unsaved start).persist (unsaved_keyed start), ∅⟩
          filterHeaderStorage := none
          filterStorage := none
          blockStorage := none
          reorgSentinel := false } }
  keyed := (unsaved_keyed start).persist

def forkHeaders : List HashedBlockHeader :=
  [headerAfter 1 12, headerAfter 12 13, headerAfter 13 14]

/-- A longer fork after the first header. -/
def fork : ForkCandidate where
  ancestorHeight := start
  headers := forkHeaders
  totalWork := 6
  nonempty := by decide

def context : ReorgContext where
  checkpointManager := .new []
  bestChainlockHeight := none
  currentTipHeight := start + 2
  currentTipHash := 3
  force := false

/-- The three headers by height. -/
def chain : HeightMap HashedBlockHeader where
  slot := fun h =>
    if start ≤ h then
      (oldHeaders[h - start]?).getD (.sentinel nonceHash)
    else .sentinel nonceHash
  start := some start
  tip := some (start + 2)

theorem client_chain : (client start).headers.chain = chain start := by
  have hsaved : ((unsaved start).cache.persist).content (.sentinel nonceHash) =
      (unsaved start).content :=
    (SegmentCache.Consistent.persist (unsaved start).wf.consistent (unsaved_keyed start)).2
  have hstored : (unsaved start).content = (SegmentStore.empty.content).storeAt
      oldHeaders start :=
    SegmentStore.empty.wf.consistent.storeItemsAtHeight_content _ start
  exact hsaved.trans hstored

theorem chain_slot_add (start i : Nat) : (chain start).slot (start + i) =
    (oldHeaders[i]?).getD (.sentinel nonceHash) := by
  simp [chain]

theorem client_hashLinked : HashLinked nonceHash (client start).headers.chain := by
  rw [client_chain]
  constructor
  · intro h
    by_cases hle : start ≤ h
    · obtain ⟨i, rfl⟩ := Nat.exists_eq_add_of_le hle
      rw [chain_slot_add]
      match i with
      | 0 => rfl
      | 1 => rfl
      | 2 => rfl
      | _ + 3 => rfl
    · simp only [chain, if_neg hle]
      rfl
  · intro start' tip h hstart htip hle hlt
    obtain rfl : start = start' := Option.some.inj hstart
    obtain rfl : start + 2 = tip := Option.some.inj htip
    obtain ⟨i, rfl⟩ := Nat.exists_eq_add_of_le hle
    rw [Nat.add_assoc, chain_slot_add, chain_slot_add]
    match i with
    | 0 => rfl
    | 1 => rfl
    | i + 2 => omega

theorem client_filesCurrent :
    (client start).cache.FilesCurrent (.sentinel nonceHash) :=
  SegmentCache.Sound.filesCurrent_persist ⟨(unsaved start).wf.consistent, unsaved_keyed start⟩

theorem fork_anchored :
    Anchored nonceHash (client start).headers.chain (fork start) := by
  rw [client_chain]
  have hchain : forkHeaders.IsChain Follows := by simpa [forkHeaders] using ⟨rfl, rfl⟩
  have hhashed : ∀ header ∈ forkHeaders, header.hash = nonceHash header.header := by decide
  refine ⟨hchain, hhashed, ?_, start + 2, rfl, Nat.le_add_right start 2⟩
  change Follows ((chain start).slot (start + 0)) (headerAfter 1 12)
  rw [chain_slot_add]
  rfl

end

/-- At heights 0 to 3 the fork rewrites one file, and every crash up to the end of the save is
recovered. -/
theorem run_recoversLinked_bottom :
    (Runs.run RunningClient.step (client 0) [.handleReorg (context 0) (fork 0)]).RecoversLinked ∧
    (Runs.run RunningClient.step (client 0)
      [.handleReorg (context 0) (fork 0), .persist]).RecoversLinked := by
  have hone : (client 0).RewritesOneFile (.handleReorg (context 0) (fork 0)) := by
    refine ⟨client_filesCurrent 0, fun tip htip => ?_⟩
    obtain rfl := Option.some.inj htip
    rfl
  have hlegit := fork_anchored 0
  exact ⟨RunningClient.run_recoversLinked (client_hashLinked 0) (client_filesCurrent 0)
      ⟨hlegit, trivial⟩ ⟨hone, trivial⟩,
    RunningClient.run_recoversLinked (client_hashLinked 0) (client_filesCurrent 0)
      ⟨hlegit, trivial, trivial⟩ ⟨hone, trivial, trivial⟩⟩

/-- The client after the fork of a chain across the first two segments. -/
def forked : RunningClient nonceHash (0 : Nat) :=
  (client 49998).step (.handleReorg (context 49998) (fork 49998))

/-- The files if the save of the fork ends after the first of its two files. -/
def halfSaved : SortedMap Nat (Slots HashedBlockHeader) :=
  (forked.cache.fileOps.take 1).foldl FileOp.apply forked.cache.disk

/-- The opened store ranges over the end of the first segment. -/
theorem loadOrNew_halfSaved_range (clock : Nat) : ∃ start tip,
    (loadOrNew (.sentinel nonceHash) halfSaved clock).startHeight = some start ∧
    (loadOrNew (.sentinel nonceHash) halfSaved clock).tipHeight = some tip ∧
    start ≤ 49999 ∧ 50000 ≤ tip := by
  obtain ⟨-, htip, hstart⟩ := loadOrNew_spec (HashedBlockHeader.sentinel nonceHash) halfSaved clock
  have hlast : lastListed halfSaved = some 1 := by decide +kernel
  have hfirst : firstListed halfSaved = some 0 := by decide +kernel
  have hlow : fileSlot (.sentinel nonceHash) halfSaved 49998 ≠ .sentinel nonceHash := by
    decide +kernel
  have hhigh : fileSlot (.sentinel nonceHash) halfSaved 50000 ≠ .sentinel nonceHash := by
    decide +kernel
  obtain ⟨start, hs, hstart, -⟩ := exists_start_of_used hstart hfirst (used_of_fileSlot hlow)
  obtain ⟨tip, ht, htip, -⟩ := exists_tip_of_used htip hlast (used_of_fileSlot hhigh)
  unfold heightToSegmentId itemsPerSegment at hstart htip
  exact ⟨start, tip, hs, ht, by omega, by omega⟩

/-- The header at height 50000 is the old one and does not follow the fork's header below
it. -/
theorem loadOrNew_halfSaved_not_linked (clock : Nat) :
    ¬ RangeLinked ((loadOrNew (.sentinel nonceHash) halfSaved clock).content
      (.sentinel nonceHash)) := by
  intro hlinked
  obtain ⟨start, tip, hstart, htip, hle, hlt⟩ := loadOrNew_halfSaved_range clock
  obtain ⟨hopened, -⟩ := loadOrNew_spec (HashedBlockHeader.sentinel nonceHash) halfSaved clock
  have hfollows := hlinked start tip hstart htip 49999 hle (by omega)
  rw [hopened.slot] at hfollows
  revert hfollows
  unfold Follows
  decide +kernel

/-- The disk after the crash: the other stores have no files, and the sentinel is as the
completed reorg left it. -/
def crashed : DiskFiles Nat where
  blockHeaders := halfSaved
  filterHeaders := ∅
  filters := ∅
  blocks := ∅
  reorgSentinel := forked.cascade.storages.reorgSentinel
  bestChainlock := none

theorem crashed_sentinel : crashed.reorgSentinel = false := by
  decide +kernel

theorem crashed_crashFiles : forked.CrashFiles crashed :=
  ⟨forked.cache.fileOps, 1, .refl _, rfl⟩

/-- The fork crosses a segment boundary and its save ends after one of two files. Without a
sentinel the check does not look at the broken link. -/
theorem crashed_not_rangeLinked :
    HashLinked nonceHash (client 49998).headers.chain ∧
    (client 49998).cache.FilesCurrent (.sentinel nonceHash) ∧
    (client 49998).Legitimate (.handleReorg (context 49998) (fork 49998)) ∧
    (Runs.run RunningClient.step (client 49998)
      [.handleReorg (context 49998) (fork 49998)]).CrashFiles crashed ∧
    ∃ s : DiskStorages nonceHash (0 : Nat),
      DiskStorages.openStores nonceHash 0 crashed 0 = .ok s ∧
      ¬ RangeLinked (s.checkAndRepairConsistency.1.blockHeaders.content (.sentinel nonceHash)) := by
  obtain ⟨s, hopen, -, -, hsentinel, hhdrs, -⟩ :=
    @DiskStorages.openStores_spec nonceHash Nat 0 _ crashed 0
  refine ⟨client_hashLinked 49998, client_filesCurrent 49998, fork_anchored 49998,
    crashed_crashFiles, s, hopen, ?_⟩
  have hkept : s.checkAndRepairConsistency.1.blockHeaders = s.blockHeaders := by
    have hrecover : s.recoverReorg = (s, .ok ()) :=
      if_neg (by rw [hsentinel, crashed_sentinel]; exact Bool.false_ne_true)
    rw [DiskStorages.checkAndRepairConsistency_blockHeaders, hrecover]
  rw [hkept, hhdrs]
  exact loadOrNew_halfSaved_not_linked 0

end SegmentBoundary

end Dashcore
