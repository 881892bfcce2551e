import Dashcore.Chain.Checkpoints
import Dashcore.Chain.Work
import Dashcore.Storage.BlockHeaders
import Dashcore.Sync.Basic

/-!
# The reorg cascade

A fork that outweighs the active chain replaces it by a cascade over four stores: headers
are cut at the common ancestor and continued by the fork, and filter headers, filters and
blocks above the ancestor are removed. Guards run first. The stores are cut one after the
other, and the first refusal ends the cascade.
-/

namespace Dashcore

open PersistentBlockHeaderStorage

/-- A fork of the active chain. -/
structure ForkCandidate where
  ancestorHeight : Nat
  headers : List HashedBlockHeader
  totalWork : ChainWork
  nonempty : headers ≠ []
  deriving DecidableEq

/-- Hash of the fork's last header. -/
def ForkCandidate.tipHash (candidate : ForkCandidate) : BlockHash :=
  (candidate.headers.getLast candidate.nonempty).hash

/-- Single-flight flag, and fork tips rejected by a guard with the chainlock height at which
they are forgiven. -/
structure ReorgState where
  denyList : SortedMap BlockHash Nat
  inFlight : Bool
  deriving DecidableEq

namespace ReorgState

/-- Forgive the tips whose height the chainlocks have reached. -/
def evictExpiredDenials (s : ReorgState) (bestChainlockHeight : Nat) : ReorgState :=
  { s with denyList := s.denyList.filter fun _ ttl => bestChainlockHeight < ttl }

/-- Reject a fork tip. -/
def deny (s : ReorgState) (tip : BlockHash) (ttl : Nat) : ReorgState :=
  { s with denyList := s.denyList.insert tip ttl }

end ReorgState

/-- A filter header; the empty slot holds zero. -/
abbrev FilterHeader := Hash256

/-- A serialized block filter; the empty slot holds no bytes. -/
abbrev Filter := List UInt8

/-- The stores of the cascade. The last three are absent when filter sync is off. -/
structure ReorgStorages (blockHash : Header → BlockHash) {Block : Type} (noBlock : Block) where
  blockHeaderStorage : PersistentBlockHeaderStorage blockHash
  filterHeaderStorage : Option (SegmentStore (0 : FilterHeader))
  filterStorage : Option (SegmentStore ([] : Filter))
  blockStorage : Option (SegmentStore noBlock)
  /-- Whether the sentinel of a reorg in progress is on disk. -/
  reorgSentinel : Bool

/-- What the cascade may change. -/
structure Cascade (blockHash : Header → BlockHash) {Block : Type} (noBlock : Block) where
  state : ReorgState
  generation : Nat
  storages : ReorgStorages blockHash noBlock

/-- Deepest rewrite the cascade accepts. -/
def maxReorgDepth : Nat := 100

/-- Distance of the floor below the tip while no chainlock is known. -/
def freshClientForkFloor : Nat := 100

/-- The greatest 32-bit number. -/
def u32Max : Nat := 2 ^ 32 - 1

/-- Whether a fork rewrites a block at or below the best chainlock. -/
def isBelowChainlockFloor (ancestorHeight clHeight : Nat) : Bool := ancestorHeight < clHeight

/-- What the call knows besides its stores. -/
structure ReorgContext where
  checkpointManager : CheckpointManager
  bestChainlockHeight : Option Nat
  currentTipHeight : Nat
  currentTipHash : BlockHash
  force : Bool

namespace ReorgContext

/-- The floor a fork has to respect: the best chainlock, or for a fresh client the last
checkpoint and the blocks near the tip. -/
def floor (ctx : ReorgContext) : Nat :=
  match ctx.bestChainlockHeight with
  | some clHeight => clHeight
  | none =>
    max ((ctx.checkpointManager.lastCheckpoint.map Checkpoint.height).getD 0)
      (ctx.currentTipHeight - freshClientForkFloor)

/-- The guards, in order: checkpoint floor, chainlock floor, depth cap. A rejection carries
the time to live of its deny-list entry and the event, if it is reported. -/
def rejection (ctx : ReorgContext) (ancestorHeight : Nat) : Option (Nat × Option SyncEvent) :=
  let depth := ctx.currentTipHeight - ancestorHeight
  if ctx.checkpointManager.shouldRejectFork ancestorHeight then
    some ((ctx.checkpointManager.lastCheckpoint.map Checkpoint.height).getD u32Max, none)
  -- a validated chainlock overrides the other two guards
  else if ctx.force then none
  else if isBelowChainlockFloor ancestorHeight ctx.floor then some (ctx.floor, none)
  else if maxReorgDepth < depth then
    some (u32Max, some (.deepReorgDetected ancestorHeight depth))
  else none

end ReorgContext

section Cascade

variable {blockHash : Header → BlockHash} {Block : Type} {noBlock : Block}

/-- Cut a store that may be absent. -/
def truncateOptional {I : Type} [DecidableEq I] {sentinel : I}
    (store : Option (SegmentStore sentinel)) (height : Nat) :
    Option (SegmentStore sentinel) × Except SyncError Unit :=
  match store with
  | none => (none, .ok ())
  | some store =>
    let (store, result) := store.truncateAbove height
    (some store, result.mapError SyncError.storage)

variable [DecidableEq Block]

/-- Cut and continue the headers, then cut the other stores, up to the first refusal. -/
def truncateAll (s : ReorgStorages blockHash noBlock) (candidate : ForkCandidate) :
    ReorgStorages blockHash noBlock × Except SyncError Unit :=
  let height := candidate.ancestorHeight
  match s.blockHeaderStorage.truncateAbove height with
  | (headers, .error e) => ({ s with blockHeaderStorage := headers }, .error (.storage e))
  | (headers, .ok ()) =>
    let s := { s with blockHeaderStorage := headers.storeHashedHeaders candidate.headers }
    match truncateOptional s.filterHeaderStorage height with
    | (filterHeaders, .error e) => ({ s with filterHeaderStorage := filterHeaders }, .error e)
    | (filterHeaders, .ok ()) =>
      let s := { s with filterHeaderStorage := filterHeaders }
      match truncateOptional s.filterStorage height with
      | (filters, .error e) => ({ s with filterStorage := filters }, .error e)
      | (filters, .ok ()) =>
        let s := { s with filterStorage := filters }
        let (blocks, result) := truncateOptional s.blockStorage height
        ({ s with blockStorage := blocks }, result)

/-- Guards and cascade of one claimed reorg. The generation moves before the first cut. -/
def runGuardsAndCascade (ctx : ReorgContext) (candidate : ForkCandidate)
    (s : Cascade blockHash noBlock) :
    Cascade blockHash noBlock × Except SyncError (Option SyncEvent) :=
  match ctx.rejection candidate.ancestorHeight with
  | some (ttl, event) => ({ s with state := s.state.deny candidate.tipHash ttl }, .ok event)
  | none =>
    let generation := s.generation + 1
    match truncateAll { s.storages with reorgSentinel := true } candidate with
    | (storages, .error e) => ({ s with generation, storages }, .error e)
    | (storages, .ok ()) =>
      ({ s with generation, storages := { storages with reorgSentinel := false } },
        .ok (some (.chainReorg candidate.ancestorHeight ctx.currentTipHash candidate.tipHash
          generation)))

/-- Drive the cascade for a fork. Only one call runs at a time, and a denied tip is
ignored. -/
def handleReorg (ctx : ReorgContext) (candidate : ForkCandidate)
    (s : Cascade blockHash noBlock) :
    Cascade blockHash noBlock × Except SyncError (Option SyncEvent) :=
  if s.state.inFlight then (s, .ok none)
  else if s.state.denyList.contains candidate.tipHash then (s, .ok none)
  else
    let (s, result) := runGuardsAndCascade ctx candidate
      { s with state := { s.state with inFlight := true } }
    ({ s with state := { s.state with inFlight := false } }, result)

/-! ### All or nothing -/

variable {candidate : ForkCandidate} {s : ReorgStorages blockHash noBlock}

variable {oldTip newTip : BlockHash}

section Guarded

variable {ctx : ReorgContext} {candidate : ForkCandidate} {s : Cascade blockHash noBlock}

section

variable (hidle : s.state.inFlight = false)
  (hallowed : s.state.denyList.contains candidate.tipHash = false)
include hidle hallowed

section

variable (hguards : ctx.rejection candidate.ancestorHeight = none)
include hguards

end

end

/-- No guard reports a completed reorg. -/
theorem rejection_event_ne_chainReorg {ancestorHeight ttl forkHeight generation : Nat} :
    ctx.rejection ancestorHeight ≠
      some (ttl, some (.chainReorg forkHeight oldTip newTip generation)) := by
  unfold ReorgContext.rejection
  split_ifs <;> simp

end Guarded

/-! ### What happens to the headers -/

/-- The headers cut at the ancestor and continued by the fork. -/
def PersistentBlockHeaderStorage.rewrite (s : PersistentBlockHeaderStorage blockHash)
    (candidate : ForkCandidate) : PersistentBlockHeaderStorage blockHash :=
  (s.truncateAbove candidate.ancestorHeight).1.storeHashedHeaders candidate.headers

theorem PersistentBlockHeaderStorage.rewrite_chain {s : PersistentBlockHeaderStorage blockHash} (h : ¬ s.chain.RefusesCut candidate.ancestorHeight) :
    (s.rewrite candidate).chain =
      (s.chain.cut (.sentinel blockHash) candidate.ancestorHeight).append candidate.headers := by
  obtain ⟨headers, heq, hchain, -⟩ := truncateAbove_of_accepts h
  rw [rewrite, storeHashedHeaders_chain, heq, hchain]

section

variable (s : ReorgStorages blockHash noBlock) (candidate : ForkCandidate)

/-- The cascade rewrites the header store, or the header store refuses the cut. -/
theorem truncateAll_blockHeaderStorage :
    (truncateAll s candidate).2 ≠ .ok () ∧
      (truncateAll s candidate).1.blockHeaderStorage = s.blockHeaderStorage ∨
    ¬ s.blockHeaderStorage.chain.RefusesCut candidate.ancestorHeight ∧
      (truncateAll s candidate).1.blockHeaderStorage = s.blockHeaderStorage.rewrite candidate := by
  unfold truncateAll PersistentBlockHeaderStorage.rewrite
  by_cases hrefuses : s.blockHeaderStorage.chain.RefusesCut candidate.ancestorHeight
  · obtain ⟨e, heq⟩ := truncateAbove_of_refuses hrefuses
    simp [heq]
  · obtain ⟨headers, heq, -⟩ := PersistentBlockHeaderStorage.truncateAbove_of_accepts hrefuses
    refine .inr ⟨hrefuses, ?_⟩
    -- whatever the later stores answer, the headers are already rewritten
    simp only [heq]
    split
    · rfl
    · split <;> rfl

/-- The cascade cuts and continues the headers, or the header store refuses the cut. -/
theorem truncateAll_headers :
    (truncateAll s candidate).2 ≠ .ok () ∧
      (truncateAll s candidate).1.blockHeaderStorage = s.blockHeaderStorage ∨
    (truncateAll s candidate).1.blockHeaderStorage.chain =
      (s.blockHeaderStorage.chain.cut (.sentinel blockHash) candidate.ancestorHeight).append
        candidate.headers := by
  refine (truncateAll_blockHeaderStorage s candidate).imp_right ?_
  rintro ⟨haccepts, heq⟩
  rw [heq, rewrite_chain haccepts]

end

/-- No other call is running, the tip is not denied, and the guards let the fork pass. -/
def Cascade.Admits (ctx : ReorgContext) (s : Cascade blockHash noBlock)
    (candidate : ForkCandidate) : Prop :=
  s.state.inFlight = false ∧ s.state.denyList.contains candidate.tipHash = false ∧
    ctx.rejection candidate.ancestorHeight = none

instance (ctx : ReorgContext) (s : Cascade blockHash noBlock) (candidate : ForkCandidate) :
    Decidable (s.Admits ctx candidate) :=
  inferInstanceAs (Decidable (_ ∧ _ ∧ _))

/-- The header store changes only in a reorg that the guards admit, and then it is
rewritten. -/
theorem handleReorg_blockHeaderStorage (ctx : ReorgContext) (candidate : ForkCandidate)
    (s : Cascade blockHash noBlock) :
    (handleReorg ctx candidate s).1.storages.blockHeaderStorage = s.storages.blockHeaderStorage ∨
    (s.Admits ctx candidate ∧
      ¬ s.storages.blockHeaderStorage.chain.RefusesCut candidate.ancestorHeight ∧
      (handleReorg ctx candidate s).1.storages.blockHeaderStorage =
        s.storages.blockHeaderStorage.rewrite candidate) := by
  unfold handleReorg
  split_ifs with hflight hdenied
  · exact .inl rfl
  · exact .inl rfl
  · unfold runGuardsAndCascade
    cases hguards : ctx.rejection candidate.ancestorHeight with
    | some rejection => exact .inl rfl
    | none =>
      have hhdrs :=
        truncateAll_blockHeaderStorage { s.storages with reorgSentinel := true } candidate
      have hadmits : s.Admits ctx candidate :=
        ⟨by simpa using hflight, by simpa using hdenied, hguards⟩
      cases htrunc : truncateAll { s.storages with reorgSentinel := true } candidate with
      | mk storages result =>
        rw [htrunc] at hhdrs
        cases result with
        | error _ | ok _ => exact hhdrs.imp And.right fun h => ⟨hadmits, h⟩

/-- The headers change only in a reorg that the guards admit, and then they are cut at the
ancestor and continued by the fork. -/
theorem handleReorg_headers (ctx : ReorgContext) (candidate : ForkCandidate)
    (s : Cascade blockHash noBlock) :
    (handleReorg ctx candidate s).1.storages.blockHeaderStorage = s.storages.blockHeaderStorage ∨
    (s.Admits ctx candidate ∧
      (handleReorg ctx candidate s).1.storages.blockHeaderStorage.chain =
        (s.storages.blockHeaderStorage.chain.cut (.sentinel blockHash)
          candidate.ancestorHeight).append candidate.headers) := by
  refine (handleReorg_blockHeaderStorage ctx candidate s).imp_right ?_
  rintro ⟨hadmits, haccepts, heq⟩
  exact ⟨hadmits, by rw [heq, rewrite_chain haccepts]⟩

/-- A completed reorg reports the ancestor of its candidate, and the headers are cut there and
continued by the fork. -/
theorem handleReorg_chainReorg {ctx : ReorgContext}
    {s s' : Cascade blockHash noBlock} {forkHeight generation : Nat}
    (h : handleReorg ctx candidate s =
      (s', .ok (some (.chainReorg forkHeight oldTip newTip generation)))) :
    forkHeight = candidate.ancestorHeight ∧
      s'.storages.blockHeaderStorage.chain =
        (s.storages.blockHeaderStorage.chain.cut (.sentinel blockHash)
          candidate.ancestorHeight).append candidate.headers := by
  unfold handleReorg at h
  split_ifs at h
  · simp at h
  · simp at h
  · unfold runGuardsAndCascade at h
    cases hguards : ctx.rejection candidate.ancestorHeight with
    | some rejection =>
      obtain ⟨ttl, event⟩ := rejection
      simp only [hguards, Prod.mk.injEq, Except.ok.injEq] at h
      exact absurd (h.2 ▸ hguards) rejection_event_ne_chainReorg
    | none =>
      have hhdrs := truncateAll_headers { s.storages with reorgSentinel := true } candidate
      cases htrunc : truncateAll { s.storages with reorgSentinel := true } candidate with
      | mk storages result =>
        rw [htrunc] at hhdrs
        cases result with
        | error e => simp [hguards, htrunc] at h
        | ok u =>
          simp only [hguards, htrunc, Prod.mk.injEq, Except.ok.injEq, Option.some.injEq,
            SyncEvent.chainReorg.injEq] at h
          obtain ⟨rfl, rfl, -⟩ := h
          rcases hhdrs with ⟨hne, -⟩ | hchain
          · exact absurd rfl hne
          · exact ⟨rfl, hchain⟩

end Cascade

/-! ### A store that starts above the ancestor -/

namespace SparseBlocks

/-- A hash that reads the nonce. -/
def nonceHash (header : Header) : BlockHash := Fin.ofNat (2 ^ 256) header.nonce

/-- A header with this nonce after the block with that hash. -/
def headerAfter (prev : BlockHash) (nonce : Nat) : HashedBlockHeader :=
  .ofHeader nonceHash
    { version := 1, prevBlockhash := prev, merkleRoot := 0, time := nonce, bits := 0x207fffff,
      nonce := nonce }

/-- Headers 1, 2, 3 at heights 0 to 2, and one block, at height 2. -/
def stores : ReorgStorages nonceHash (0 : Nat) where
  blockHeaderStorage :=
    storeHashedHeaders ⟨.empty, ∅⟩
      [headerAfter 0 1, headerAfter 1 2, headerAfter 2 3]
  filterHeaderStorage := none
  filterStorage := none
  blockStorage := some (SegmentStore.empty.storeItemsAtHeight [7] 2)
  reorgSentinel := false

/-- A longer fork of the block at height 1. -/
def fork : ForkCandidate where
  ancestorHeight := 1
  headers := [headerAfter 2 13, headerAfter 13 14]
  totalWork := 4
  nonempty := by decide

/-- No checkpoints and no chainlock. -/
def context : ReorgContext where
  checkpointManager := .new []
  bestChainlockHeight := none
  currentTipHeight := 2
  currentTipHash := 3
  force := false

def idle : Cascade nonceHash (0 : Nat) := { state := ⟨∅, false⟩, generation := 0, storages := stores }

end SparseBlocks

end Dashcore
