import Dashcore.Sync.BlockHeaders.HashLinked

/-!
# Finality of stored headers

A candidate reaches the header store on two routes only: a tick drives the pending one, and a
batch drives the branch a chainlock forces. On both of them the guards of the cascade look at
the candidate again, with the chainlock height and the tip of that moment. Whatever was
checked when the fork was buffered, the headers at or below the ancestor stay, and an ancestor
below the last checkpoint, below the chainlock or too deep is turned away.
-/

namespace Dashcore

namespace HeightMap

variable {I : Type} {m : HeightMap I} {h height : Nat} {item : I}

/-- The item stored at a height, if the height is in use. -/
def stored (m : HeightMap I) (h : Nat) : Option I :=
  if (∃ start ∈ m.start, start ≤ h) ∧ ∃ tip ∈ m.tip, h ≤ tip then some (m.slot h) else none

theorem stored_eq_some :
    m.stored h = some item ↔
      (∃ start ∈ m.start, start ≤ h) ∧ (∃ tip ∈ m.tip, h ≤ tip) ∧ m.slot h = item := by
  unfold stored
  split_ifs with hrange
  · rw [Option.some.injEq]
    exact ⟨fun heq => ⟨hrange.1, hrange.2, heq⟩, fun heq => heq.2.2⟩
  · simp only [false_iff]
    rintro ⟨hstart, htip, -⟩
    exact hrange ⟨hstart, htip⟩

theorem stored_cut (sentinel : I) (hstored : m.stored h = some item) (hle : h ≤ height) :
    (m.cut sentinel height).stored h = some item := by
  obtain ⟨hstart, ⟨tip, htip, hh⟩, rfl⟩ := stored_eq_some.mp hstored
  refine stored_eq_some.mpr ⟨hstart, ⟨min height tip, ?_, by omega⟩, if_pos hle⟩
  exact Option.map_eq_some_iff.mpr ⟨tip, htip, rfl⟩

theorem stored_append (items : List I) (hstored : m.stored h = some item) :
    (m.append items).stored h = some item := by
  obtain ⟨⟨start, hstart, hle⟩, ⟨tip, htip, hh⟩, rfl⟩ := stored_eq_some.mp hstored
  refine stored_eq_some.mpr ⟨?_, ⟨_, append_tip htip items, by omega⟩,
    append_slot_of_le htip items hh⟩
  unfold append storeAt
  split_ifs
  · exact ⟨start, hstart, hle⟩
  · refine ⟨min start m.nextHeight, ?_, by omega⟩
    rw [Option.mem_def.mp hstart]
    rfl

end HeightMap

/-- Headers stored up to a height are still stored. -/
def Keeps (height : Nat) (chain chain' : HeightMap HashedBlockHeader) : Prop :=
  ∀ h ≤ height, ∀ header, chain.stored h = some header → chain'.stored h = some header

theorem Keeps.refl {height : Nat} {chain : HeightMap HashedBlockHeader} :
    Keeps height chain chain :=
  fun _ _ _ hstored => hstored

theorem Keeps.mono {low high : Nat} {chain chain' : HeightMap HashedBlockHeader}
    (h : Keeps high chain chain') (hle : low ≤ high) : Keeps low chain chain' :=
  fun k hk header hstored => h k (hk.trans hle) header hstored

/-- A rewritten chain keeps what is stored up to the ancestor. -/
theorem keeps_rewrittenChain (blockHash : Header → BlockHash)
    (chain : HeightMap HashedBlockHeader) (candidate : ForkCandidate) :
    Keeps candidate.ancestorHeight chain (rewrittenChain blockHash chain candidate) := by
  intro h hle header hstored
  exact HeightMap.stored_append _ (HeightMap.stored_cut _ hstored hle)

/-! ### The guards -/

namespace ReorgContext

variable {ctx : ReorgContext} {ancestorHeight : Nat} (h : ctx.rejection ancestorHeight = none)
include h

/-- A fork accepted without force respects the floor and the depth cap. -/
theorem bounds_of_rejection_eq_none (hforce : ctx.force = false) :
    ctx.floor ≤ ancestorHeight ∧ ctx.currentTipHeight - ancestorHeight ≤ maxReorgDepth := by
  unfold rejection at h
  simp only [hforce, Bool.false_eq_true, if_false] at h
  split_ifs at h with hcheck hfloor hdepth
  have hfloor' : ¬ ancestorHeight < ctx.floor := fun hlt => hfloor (decide_eq_true hlt)
  omega

end ReorgContext

namespace BlockHeadersManager

variable {blockHash : Header → BlockHash} {Block : Type} {noBlock : Block}
  {m m' : BlockHeadersManager blockHash noBlock}

/-- What the guards look at is the same. -/
structure SameGuards (m m' : BlockHeadersManager blockHash noBlock) : Prop where
  chain : m'.chain = m.chain
  checkpointManager : m'.checkpointManager = m.checkpointManager
  chainlockHeight : m'.chainlockHeight = m.chainlockHeight

theorem SameGuards.trans {m₁ m₂ m₃ : BlockHeadersManager blockHash noBlock}
    (h : SameGuards m₁ m₂) (h' : SameGuards m₂ m₃) : SameGuards m₁ m₃ :=
  ⟨h'.chain.trans h.chain, h'.checkpointManager.trans h.checkpointManager,
    h'.chainlockHeight.trans h.chainlockHeight⟩

theorem SameGuards.bestChainlockHeight (h : SameGuards m m') :
    m'.bestChainlockHeight = m.bestChainlockHeight := by
  rw [BlockHeadersManager.bestChainlockHeight, BlockHeadersManager.bestChainlockHeight,
    h.chainlockHeight]

section

variable (m)

theorem sameGuards_expire (now : Nat) : SameGuards m (m.expire now) := by
  unfold expire
  dsimp only
  split_ifs
  · split <;> exact ⟨rfl, rfl, rfl⟩
  · split <;> exact ⟨rfl, rfl, rfl⟩

variable (env : Env)

theorem sameGuards_promoteWinner (extension : List Header) :
    SameGuards m (m.promoteWinner env extension) := by
  unfold promoteWinner
  split
  · exact ⟨rfl, rfl, rfl⟩
  · exact ⟨rfl, rfl, rfl⟩

theorem sameGuards_ingestFork (peer : SocketAddr) (headers : List Header)
    (height : Nat) : SameGuards m (m.ingestFork env peer headers height).1 := by
  unfold ingestFork
  split_ifs
  · obtain ⟨sideHeaders, heq⟩ :
        ∃ sideHeaders, m.flagSideHeaders headers height = { m with sideHeaders } := ⟨_, rfl⟩
    rw [heq]
    exact ⟨rfl, rfl, rfl⟩
  · cases hbuffer : m.bufferFork env peer headers height with
    | error e => exact ⟨rfl, rfl, rfl⟩
    | ok result =>
      obtain ⟨m', extension⟩ := result
      obtain ⟨-, forkBuffer, forkTipIndex, rfl, -⟩ := bufferFork_spec hbuffer
      have hbuf : SameGuards m { m with forkBuffer, forkTipIndex } := ⟨rfl, rfl, rfl⟩
      exact hbuf.trans (sameGuards_promoteWinner _ env extension)

theorem sameGuards_extendFork (peer : SocketAddr) (prevTipHash : BlockHash)
    (height : Nat) (headers : List Header) :
    SameGuards m (m.extendFork env peer prevTipHash height headers).1 := by
  unfold extendFork
  split_ifs
  · exact ⟨rfl, rfl, rfl⟩
  · exact ⟨rfl, rfl, rfl⟩
  · cases hbuffer : m.bufferExtension env peer prevTipHash height headers with
    | error e => exact ⟨rfl, rfl, rfl⟩
    | ok result =>
      obtain ⟨m', extension⟩ := result
      obtain ⟨-, forkBuffer, forkTipIndex, rfl, -⟩ := bufferExtension_spec hbuffer
      have hbuf : SameGuards m { m with forkBuffer, forkTipIndex } := ⟨rfl, rfl, rfl⟩
      exact hbuf.trans (sameGuards_promoteWinner _ env extension)

end

theorem sameGuards_stagedBatch {env : Env} {peer : SocketAddr} {headers : List Header}
    {r : BlockHeadersManager blockHash noBlock × Except SyncError Unit}
    (h : m.stagedBatch env peer headers = some r) : SameGuards m r.1 := by
  obtain ⟨first, rest, height, -, ⟨-, rfl⟩ | ⟨-, rfl⟩⟩ := stagedBatch_cases h
  · exact m.sameGuards_ingestFork env peer _ _
  · exact m.sameGuards_extendFork env peer _ _ _

variable {candidate : ForkCandidate}

theorem sameGuards_forcedBranch {env : Env}
    (h : m.forcedBranch env = some (m', candidate)) : SameGuards m m' := by
  unfold forcedBranch at h
  split at h
  · cases h
  · split at h
    · cases h
    · obtain ⟨rfl, -⟩ := h
      exact ⟨rfl, rfl, rfl⟩

variable {call : DriveCall blockHash noBlock} {action : HeadersAction}

/-- A driven reorg is guarded by what the manager holds when the action comes in. -/
theorem sameGuards_driven (h : m.driven action = some call) : SameGuards m call.manager := by
  obtain ⟨-, ⟨env, candidate, -, -, rfl⟩ | ⟨env, peer, headers, m', m'', candidate, -, hstaged,
    hforced, rfl⟩⟩ := driven_cases h
  · exact (m.sameGuards_expire env.now).trans ⟨rfl, rfl, rfl⟩
  · exact (sameGuards_stagedBatch hstaged).trans (sameGuards_forcedBranch hforced)

/-! ### Driven reorgs -/

variable [DecidableEq Block]

/-- The fork of height 1 is driven at the tick. -/
example : ((Runs.run BlockHeadersManager.step StaleAnchor.manager
    (StaleAnchor.oneFork.take 2)).driven (.tick StaleAnchor.env)).isSome = true := by
  decide +kernel

end BlockHeadersManager

end Dashcore
