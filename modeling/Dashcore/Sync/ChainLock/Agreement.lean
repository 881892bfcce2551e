import Dashcore.Sync.BlockHeaders.Finality
import Dashcore.Sync.ChainLock.Manager

/-!
# The best chainlock and the active chain

A chainlock that is committed when its header is stored agrees with the chain: headers are only
appended, and a reorg that respects the chainlock floor leaves the header in place. There are
two ways to lose the agreement. When the masternode data arrives, the chainlock that waited for
it is committed even if no header is stored at its height yet, and another block may be stored
there later. And a reorg that another chainlock forces may start below the best chainlock, which
stays the best one. The published height never goes back.
-/

namespace Dashcore

open ChainLockManager

variable {blockHash : Header → BlockHash}

/-- The header at a height is stored. -/
theorem PersistentBlockHeaderStorage.stored_of_getHeader
    {s : PersistentBlockHeaderStorage blockHash}
    {height : Nat} {header : Header} (h : s.getHeader height = .ok (some header)) :
    ∃ item, s.chain.stored height = some item ∧ item.header = header := by
  unfold getHeader at h
  cases htip : s.getTipHeight with
  | none => simp [htip] at h
  | some tip =>
    cases hstart : s.getStartHeight with
    | none => simp [htip, hstart] at h
    | some start =>
      simp only [htip, hstart] at h
      split_ifs at h with hrange
      · cases h
      unfold loadHeaders SegmentStore.getItems at h
      rw [if_neg (by omega)] at h
      split_ifs at h
      · cases h
      · refine ⟨s.chain.slot height, HeightMap.stored_eq_some.mpr
          ⟨⟨start, hstart, by omega⟩, ⟨tip, htip, by omega⟩, rfl⟩, ?_⟩
        simpa [Except.map, chain] using h

/-- The block of a chainlock is stored at its height. -/
def ChainLock.Anchored (chain : HeightMap HashedBlockHeader) (blockHash : Header → BlockHash)
    (cl : ChainLock) : Prop :=
  ∃ item, chain.stored cl.blockHeight = some item ∧ blockHash item.header = cl.blockHash

theorem anchored_of_matching {headerStorage : PersistentBlockHeaderStorage blockHash}
    {cl : ChainLock} (h : verifyBlockHash headerStorage cl = .matching) :
    cl.Anchored headerStorage.chain blockHash := by
  unfold verifyBlockHash at h
  split at h
  case h_1 header hget =>
    split_ifs at h with hhash
    obtain ⟨item, hstored, rfl⟩ := PersistentBlockHeaderStorage.stored_of_getHeader hget
    exact ⟨item, hstored, hhash⟩
  all_goals cases h

/-! ### The manager -/

namespace ChainLockManager

variable {headerStorage : PersistentBlockHeaderStorage blockHash} {m m' : ChainLockManager}

/-- The published height is that of the best chainlock, and the chainlock that waits for
masternode data is above it. -/
structure Ordered (m : ChainLockManager) : Prop where
  published : m.chainlockHeight = (m.bestChainlock.map ChainLock.blockHeight).getD 0
  ready : m.masternodeReady = true → m.pendingValidation = none
  above : ∀ pending, m.pendingValidation = some pending →
    ∀ best, m.bestChainlock = some best → best.blockHeight < pending.blockHeight

/-- The published height did not go back, and a new best chainlock matches its header. -/
def Advances (headerStorage : PersistentBlockHeaderStorage blockHash) (m m' : ChainLockManager) :
    Prop :=
  m.chainlockHeight ≤ m'.chainlockHeight ∧ (m'.bestChainlock = m.bestChainlock ∨
    ∃ cl, m'.bestChainlock = some cl ∧ verifyBlockHash headerStorage cl = .matching)

theorem Advances.of_same (hheight : m'.chainlockHeight = m.chainlockHeight)
    (hbest : m'.bestChainlock = m.bestChainlock) : Advances headerStorage m m' :=
  ⟨hheight.ge, .inl hbest⟩

theorem Advances.trans {m₁ m₂ m₃ : ChainLockManager} (h : Advances headerStorage m₁ m₂)
    (h' : Advances headerStorage m₂ m₃) : Advances headerStorage m₁ m₃ := by
  refine ⟨h.1.trans h'.1, ?_⟩
  rcases h'.2 with hsame | hnew
  · rw [hsame]
    exact h.2
  · exact .inr hnew

theorem ordered_new (saved : Option ChainLock) : (new saved).Ordered where
  published := rfl
  ready := fun _ => rfl
  above := fun _ h => by cases h

namespace Ordered

theorem congr (h : m.Ordered) (hheight : m'.chainlockHeight = m.chainlockHeight)
    (hbest : m'.bestChainlock = m.bestChainlock) (hready : m'.masternodeReady = m.masternodeReady)
    (hpending : m'.pendingValidation = m.pendingValidation) : m'.Ordered := by
  refine ⟨?_, ?_, ?_⟩
  · rw [hheight, hbest]
    exact h.published
  · rw [hready, hpending]
    exact h.ready
  · rw [hpending, hbest]
    exact h.above

/-- Nothing that matters changes. -/
theorem kept (h : m.Ordered) (hheight : m'.chainlockHeight = m.chainlockHeight)
    (hbest : m'.bestChainlock = m.bestChainlock) (hready : m'.masternodeReady = m.masternodeReady)
    (hpending : m'.pendingValidation = m.pendingValidation) :
    m'.Ordered ∧ Advances headerStorage m m' :=
  ⟨h.congr hheight hbest hready hpending, .of_same hheight hbest⟩

/-- Nothing waits for masternode data any more. -/
theorem of_none (h : m.Ordered) (hheight : m'.chainlockHeight = m.chainlockHeight)
    (hbest : m'.bestChainlock = m.bestChainlock) (hpending : m'.pendingValidation = none) :
    m'.Ordered := by
  refine ⟨?_, fun _ => hpending, fun pending hwaits => ?_⟩
  · rw [hheight, hbest]
    exact h.published
  · rw [hpending] at hwaits
    cases hwaits

/-- A chainlock above the best one is committed while none waits. -/
theorem commit (cl : ChainLock) (hpending : m.pendingValidation = none) :
    (m.commitValidatedChainlock cl).Ordered where
  published := rfl
  ready := fun _ => hpending
  above := fun pending hwaits => by
    rw [commitValidatedChainlock, hpending] at hwaits
    cases hwaits

theorem le_commit (h : m.Ordered) {cl : ChainLock}
    (habove : ∀ best, m.bestChainlock = some best → best.blockHeight < cl.blockHeight) :
    m.chainlockHeight ≤ (m.commitValidatedChainlock cl).chainlockHeight := by
  rw [h.published]
  cases hbest : m.bestChainlock with
  | none => exact Nat.zero_le _
  | some best => exact (habove best hbest).le

/-- A chainlock arrives. -/
theorem processChainlock (h : m.Ordered) (validSignature : ChainLock → Bool) (cl : ChainLock)
    (peer : Option SocketAddr) (now : Nat) :
    (m.processChainlock headerStorage validSignature cl peer now).1.Ordered ∧
      Advances headerStorage m
        (m.processChainlock headerStorage validSignature cl peer now).1 := by
  unfold ChainLockManager.processChainlock
  by_cases hbetter : m.bestChainlock.any (cl.blockHeight ≤ ·.blockHeight)
  · rw [if_pos hbetter]
    exact h.kept rfl rfl rfl rfl
  rw [if_neg hbetter]
  have habove : ∀ best, m.bestChainlock = some best → best.blockHeight < cl.blockHeight := by
    intro best hbest
    rw [hbest] at hbetter
    simpa using hbetter
  by_cases hnot : m.masternodeReady = false
  · rw [if_pos hnot]
    refine ⟨⟨h.published, fun hready => ?_, ?_⟩, .of_same rfl rfl⟩
    · rw [hnot] at hready
      cases hready
    · -- whichever of the two is kept is above the best
      intro pending hwaits best hbest
      unfold replacePending at hwaits
      split_ifs at hwaits
      · obtain rfl := Option.some.inj hwaits
        exact habove best hbest
      · exact h.above pending hwaits best hbest
  have hready : m.masternodeReady = true := by simpa using hnot
  cases hverify : verifyBlockHash headerStorage cl with
  | unknown =>
    unfold queueUnknown
    split_ifs <;> exact h.kept rfl rfl rfl rfl
  | mismatch localHeaderHash =>
    dsimp only
    split_ifs <;> exact h.kept rfl rfl rfl rfl
  | matching =>
    split_ifs
    · exact ⟨commit cl (h.ready hready), h.le_commit habove, .inr ⟨cl, rfl, hverify⟩⟩
    · exact h.kept rfl rfl rfl rfl

theorem retryLoop (validSignature : ChainLock → Bool) (now : Nat)
    (entries : List ((_ : BlockHash) × (ChainLock × Option SocketAddr × Nat)))
    (h : m.Ordered) :
    (ChainLockManager.retryLoop headerStorage validSignature now entries m).1.Ordered ∧
      Advances headerStorage m
        (ChainLockManager.retryLoop headerStorage validSignature now entries m).1 := by
  induction entries generalizing m with
  | nil => exact ⟨h, .of_same rfl rfl⟩
  | cons e rest ih =>
    obtain ⟨hash, cl, peer, time⟩ := e
    have herased : Ordered { m with pendingUnknownHash := m.pendingUnknownHash.erase hash } :=
      h.congr rfl rfl rfl rfl
    obtain ⟨hfirst, hadvances⟩ :=
      @processChainlock _ headerStorage _ herased validSignature cl peer now
    obtain ⟨hrest, hadvances'⟩ := ih hfirst
    exact ⟨hrest, Advances.trans hadvances hadvances'⟩

/-- The masternode data is there. If the chainlock that waited for it has a header, then a new
best chainlock matches it. -/
theorem onMasternodeReady (h : m.Ordered) (validSignature : ChainLock → Bool) :
    (m.onMasternodeReady headerStorage validSignature).1.Ordered ∧
      m.chainlockHeight ≤ (m.onMasternodeReady headerStorage validSignature).1.chainlockHeight ∧
      ((∀ pending, m.pendingValidation = some pending →
          verifyBlockHash headerStorage pending ≠ .unknown) →
        Advances headerStorage m (m.onMasternodeReady headerStorage validSignature).1) := by
  unfold ChainLockManager.onMasternodeReady
  cases hpend : m.pendingValidation with
  | none => exact ⟨h.of_none rfl rfl rfl, le_rfl, fun _ => .of_same rfl rfl⟩
  | some pending =>
    have hle := h.le_commit (h.above pending hpend)
    dsimp only
    cases hverify : verifyBlockHash headerStorage pending with
    | matching =>
      split_ifs
      · exact ⟨commit pending rfl, hle, fun _ => ⟨hle, .inr ⟨pending, rfl, hverify⟩⟩⟩
      · exact ⟨h.of_none rfl rfl rfl, le_rfl, fun _ => .of_same rfl rfl⟩
    | unknown =>
      have hknown : ¬ ∀ other, some pending = some other →
          verifyBlockHash headerStorage other ≠ .unknown := fun hknown => hknown pending rfl hverify
      dsimp only
      split_ifs
      · exact ⟨commit pending rfl, hle, fun h => absurd h hknown⟩
      · exact ⟨h.of_none rfl rfl rfl, le_rfl, fun _ => .of_same rfl rfl⟩
    | mismatch localHeaderHash =>
      split_ifs
      · exact ⟨h.of_none rfl rfl rfl, le_rfl, fun _ => .of_same rfl rfl⟩
      · exact ⟨h.of_none rfl rfl rfl, le_rfl, fun _ => .of_same rfl rfl⟩

end Ordered

end ChainLockManager

/-! ### Beside the header store -/

namespace LockedChain

variable {Block : Type} {noBlock : Block}

section

variable (s : LockedChain blockHash noBlock)

/-- If a header is stored at the height of the best chainlock, it is that of its block. -/
def Agrees : Prop :=
  ∀ cl, s.chainLocks.bestChainlock = some cl →
    ∀ header, s.headerStorage.getHeader cl.blockHeight = .ok (some header) →
      blockHash header = cl.blockHash

/-- When the masternode data arrives, the chainlock that waited for it has a header, and a
forced reorg does not start below the best chainlock. -/
def Regular : Action → Prop
  | .masternodeStateUpdated _ => ∀ pending, s.chainLocks.pendingValidation = some pending →
      ∃ header, s.headerStorage.getHeader pending.blockHeight = .ok (some header)
  | .reorg _ _ _ force candidate => force = true →
      ∀ best, s.chainLocks.bestChainlock = some best → best.blockHeight ≤ candidate.ancestorHeight
  | _ => True

/-- The block of the best chainlock is stored. -/
def Anchored : Prop :=
  ∀ cl, s.chainLocks.bestChainlock = some cl → cl.Anchored s.headerStorage.chain blockHash

end

theorem Anchored.agrees {s : LockedChain blockHash noBlock} (h : s.Anchored) : s.Agrees := by
  intro cl hbest header hget
  obtain ⟨item, hstored, hhash⟩ := h cl hbest
  obtain ⟨item', hstored', rfl⟩ := PersistentBlockHeaderStorage.stored_of_getHeader hget
  obtain rfl := Option.mem_unique hstored hstored'
  exact hhash

variable {s s' : LockedChain blockHash noBlock}

/-- The manager advances over the same headers. -/
theorem Anchored.advance (h : s.Anchored) (hheaders : s'.headerStorage = s.headerStorage)
    (hadvances : ChainLockManager.Advances s.headerStorage s.chainLocks s'.chainLocks) :
    s'.Anchored := by
  intro cl hbest
  rw [hheaders]
  rcases hadvances.2 with hsame | ⟨new, hnew, hmatching⟩
  · exact h cl (hsame ▸ hbest)
  · obtain rfl := Option.mem_unique hnew hbest
    exact anchored_of_matching hmatching

/-- The headers up to the best chainlock are kept. -/
theorem Anchored.keep (h : s.Anchored) (hlocks : s'.chainLocks = s.chainLocks)
    (hkeeps : ∀ cl, s.chainLocks.bestChainlock = some cl →
      Keeps cl.blockHeight s.headerStorage.chain s'.headerStorage.chain) : s'.Anchored := by
  intro cl hbest
  rw [hlocks] at hbest
  obtain ⟨item, hstored, hhash⟩ := h cl hbest
  exact ⟨item, hkeeps cl hbest _ le_rfl item hstored, hhash⟩

/-- A reorg that the guards admit leaves the header of the best chainlock, unless it is forced
and starts below. -/
theorem le_of_admitted (h : s.chainLocks.Ordered) {checkpointManager : CheckpointManager}
    {currentTipHeight : Nat} {currentTipHash : BlockHash} {force : Bool}
    {candidate : ForkCandidate}
    (hregular : s.Regular
      (.reorg checkpointManager currentTipHeight currentTipHash force candidate))
    (hadmits : s.cascade.Admits
      (s.context checkpointManager currentTipHeight currentTipHash force) candidate)
    {best : ChainLock} (hbest : s.chainLocks.bestChainlock = some best) :
    best.blockHeight ≤ candidate.ancestorHeight := by
  cases hforce : force with
  | true => exact hregular hforce best hbest
  | false =>
    have hfloor := (ReorgContext.bounds_of_rejection_eq_none hadmits.2.2 hforce).1
    have hheight : s.chainLocks.chainlockHeight = best.blockHeight := by
      rw [h.published, hbest]
      rfl
    unfold ReorgContext.floor context bestChainlockHeight at hfloor
    rw [hheight] at hfloor
    split_ifs at hfloor with hzero
    · omega
    · exact hfloor

variable [DecidableEq Block]

/-- Every action keeps the chainlocks ordered, and the published height does not go back. -/
theorem ordered_step (h : s.chainLocks.Ordered) (a : Action) :
    (s.step a).chainLocks.Ordered ∧
      s.chainLocks.chainlockHeight ≤ (s.step a).chainLocks.chainlockHeight := by
  cases a with
  | clsig cl peer now validSignature =>
    obtain ⟨hordered, hadvances⟩ :=
      @ChainLockManager.Ordered.processChainlock _ s.headerStorage _ h validSignature cl (some peer)
        now
    exact ⟨hordered, hadvances.1⟩
  | inventory hashes accepted =>
    unfold step handleInventory
    dsimp only
    split_ifs <;> exact ⟨h.congr rfl rfl rfl rfl, le_rfl⟩
  | syncEvent event now order validSignature =>
    cases event with
    | chainReorg forkHeight oldTip newTip generation => exact ⟨h.of_none rfl rfl rfl, le_rfl⟩
    | blockHeadersStored tipHeight =>
      obtain ⟨hordered, hadvances⟩ := @ChainLockManager.Ordered.retryLoop _ s.headerStorage _
        validSignature now ((s.chainLocks.pendingUnknownHash.entries.insertionSort
          fun x y => order x.1 ≤ order y.1).filter fun e =>
            verifyBlockHash s.headerStorage e.2.1 ≠ .unknown) h
      exact ⟨hordered, hadvances.1⟩
    | _ => exact ⟨h, le_rfl⟩
  | masternodeStateUpdated validSignature =>
    unfold step handleMasternodeStateUpdated
    split_ifs
    · exact ⟨h, le_rfl⟩
    · obtain ⟨hordered, hle, -⟩ :=
        @ChainLockManager.Ordered.onMasternodeReady _ s.headerStorage _ h validSignature
      exact ⟨hordered.congr rfl rfl rfl rfl, hle⟩
  | tick now => exact ⟨h.congr rfl rfl rfl rfl, le_rfl⟩
  | networkEvent connectedCount =>
    unfold step handleNetworkEvent
    dsimp only
    split_ifs
    · exact ⟨⟨h.published, fun hready => absurd hready Bool.false_ne_true, h.above⟩, le_rfl⟩
    · exact ⟨h.congr rfl rfl rfl rfl, le_rfl⟩
    · exact ⟨h, le_rfl⟩
  | append | reorg => exact ⟨h, le_rfl⟩

/-- A regular action keeps the best chainlock's block stored. -/
theorem Anchored.step (hanchored : s.Anchored) (hordered : s.chainLocks.Ordered) (a : Action)
    (hregular : s.Regular a) : (s.step a).Anchored := by
  cases a with
  | clsig cl peer now validSignature =>
    exact hanchored.advance rfl (hordered.processChainlock validSignature cl (some peer) now).2
  | inventory hashes accepted =>
    refine hanchored.advance rfl ?_
    unfold LockedChain.step handleInventory
    dsimp only
    split_ifs <;> exact .of_same rfl rfl
  | syncEvent event now order validSignature =>
    cases event with
    | chainReorg forkHeight oldTip newTip generation =>
      exact hanchored.advance rfl (.of_same rfl rfl)
    | blockHeadersStored tipHeight =>
      exact hanchored.advance rfl (ChainLockManager.Ordered.retryLoop validSignature now _ hordered).2
    | _ => exact hanchored
  | masternodeStateUpdated validSignature =>
    refine hanchored.advance rfl ?_
    unfold LockedChain.step handleMasternodeStateUpdated
    split_ifs
    · exact .of_same rfl rfl
    · have hknown : ∀ pending, s.chainLocks.pendingValidation = some pending →
          verifyBlockHash s.headerStorage pending ≠ .unknown := by
        intro pending hwaits
        obtain ⟨header, hget⟩ := hregular pending hwaits
        unfold verifyBlockHash
        rw [hget]
        dsimp only
        split_ifs <;> simp
      exact (hordered.onMasternodeReady validSignature).2.2 hknown
  | tick now => exact hanchored.advance rfl (.of_same rfl rfl)
  | networkEvent connectedCount =>
    refine hanchored.advance rfl ?_
    unfold LockedChain.step handleNetworkEvent
    dsimp only
    split_ifs <;> exact .of_same rfl rfl
  | append headers =>
    refine hanchored.keep rfl fun cl hbest h hle header hstored => ?_
    have hchain := s.headerStorage.storeHashedHeaders_chain headers
    have happend : (s.step (.append headers)).headerStorage.chain =
        s.headerStorage.chain.append headers := hchain
    rw [happend]
    exact HeightMap.stored_append headers hstored
  | reorg checkpointManager currentTipHeight currentTipHash force candidate =>
    refine hanchored.keep rfl fun cl hbest => ?_
    rcases handleReorg_headers
        (s.context checkpointManager currentTipHeight currentTipHash force) candidate s.cascade with
      hsame | ⟨hadmits, hchain⟩
    · have hhdrs : (s.step (.reorg checkpointManager currentTipHeight currentTipHash force
          candidate)).headerStorage = s.headerStorage := hsame
      rw [hhdrs]
      exact .refl
    · have hrewr : (s.step (.reorg checkpointManager currentTipHeight currentTipHash force
          candidate)).headerStorage.chain = rewrittenChain blockHash s.headerStorage.chain candidate :=
        hchain
      rw [hrewr]
      exact (keeps_rewrittenChain blockHash _ candidate).mono
        (le_of_admitted hordered hregular hadmits hbest)

/-- In every run, with reorgs, disconnects and chainlocks in any order, the published height is
that of the best chainlock, and a chainlock that waits for masternode data is above it. -/
theorem run_ordered (saved : Option ChainLock) (cascade : Cascade blockHash noBlock)
    (actions : List Action) :
    (Runs.run step ⟨.new saved, cascade⟩ actions).chainLocks.Ordered := by
  have hkeep : ∀ (s : LockedChain blockHash noBlock) (a : Action), s.chainLocks.Ordered →
      (s.step a).chainLocks.Ordered := fun _ a h => (ordered_step h a).1
  exact Runs.invariant_of_step hkeep (ChainLockManager.ordered_new saved) actions

/-- In every run, the published chainlock height never goes back. If the chainlock saved on
disk, if any, is of a stored block, then in every run in which the chainlock that waits for
masternode data has a header when they arrive, and no forced reorg starts below the best
chainlock, the best chainlock agrees with the stored headers. -/
theorem run_best_agrees (saved : Option ChainLock) (cascade : Cascade blockHash noBlock) :
    (∀ actions more : List Action,
      (Runs.run step ⟨.new saved, cascade⟩ actions).chainLocks.chainlockHeight ≤
        (Runs.run step ⟨.new saved, cascade⟩ (actions ++ more)).chainLocks.chainlockHeight) ∧
    ((∀ cl, saved = some cl →
        cl.Anchored cascade.storages.blockHeaderStorage.chain blockHash) →
      ∀ actions : List Action, Runs.Along step Regular ⟨.new saved, cascade⟩ actions →
        (Runs.run step ⟨.new saved, cascade⟩ actions).Agrees) := by
  have hordered : ∀ actions : List Action,
      (Runs.run step ⟨.new saved, cascade⟩ actions).chainLocks.Ordered :=
    fun actions => @Runs.invariant_of_step _ _ step (fun s => s.chainLocks.Ordered)
      (fun _ a h => (ordered_step h a).1) _ (ChainLockManager.ordered_new saved) actions
  refine ⟨fun actions more => ?_, fun hsaved actions hregular => ?_⟩
  · -- the height is at least what it was, in every state after the first actions
    rw [Runs.run_append]
    exact (@Runs.invariant_of_step _ _ step
      (fun s => s.chainLocks.Ordered ∧
        (Runs.run step ⟨.new saved, cascade⟩ actions).chainLocks.chainlockHeight ≤
          s.chainLocks.chainlockHeight)
      (fun _ a h => ⟨(ordered_step h.1 a).1, h.2.trans (ordered_step h.1 a).2⟩) _
      ⟨hordered actions, le_rfl⟩ more).2
  · have hstart : Anchored (⟨.new saved, cascade⟩ : LockedChain blockHash noBlock) := hsaved
    exact (@Runs.invariant_run _ _ step (fun s => s.chainLocks.Ordered ∧ s.Anchored) Regular
      (fun _ a h hstep => ⟨(ordered_step h.1 a).1, h.2.step h.1 a hstep⟩) _ actions
      ⟨ChainLockManager.ordered_new saved, hstart⟩ hregular).2.agrees

/-! ### The two ways -/

namespace LateHeader

open SparseBlocks

def lockOf (height : Nat) (hash : BlockHash) : ChainLock where
  blockHeight := height
  blockHash := hash
  signature := Vector.replicate 96 0

/-- Headers 1, 2, 3 at heights 0 to 2, and no chainlock. -/
def start : LockedChain nonceHash (0 : Nat) := ⟨.new none, idle⟩

/-- A chainlock for height 3 arrives before the masternode data and its header, and another
block is stored at that height. -/
def unknownHeader : List Action :=
  [.clsig (lockOf 3 9) 0 0 fun _ => true, .masternodeStateUpdated fun _ => true,
    .append [headerAfter 3 4]]

/-- The stored block at height 2 is locked. -/
def locked : List Action :=
  [.masternodeStateUpdated fun _ => true, .clsig (lockOf 2 3) 0 0 fun _ => true]

/-- Then a block is stored at height 3, a chainlock for another block at that height forces a
reorg, and the branch of that block starts at height 1. -/
def forcedBelow : List Action :=
  locked ++ [.append [headerAfter 3 4], .clsig (lockOf 3 14) 0 0 fun _ => true,
    .reorg (.new []) 3 4 true fork]

/-- The lock of a stored block agrees. -/
theorem run_best_agrees_locked :
    (Runs.run step start locked).chainLocks.bestChainlock = some (lockOf 2 3) ∧
      (Runs.run step start locked).Agrees := by
  refine ⟨by decide +kernel, (run_best_agrees none idle).2 (fun cl h => by cases h) locked ?_⟩
  refine ⟨fun pending h => ?_, trivial, trivial⟩
  cases h

/-- On both ways the best chainlock is of another block than the one stored at its height. -/
theorem best_disagrees :
    ¬ (Runs.run step start unknownHeader).Agrees ∧ ¬ (Runs.run step start forcedBelow).Agrees := by
  constructor
  · intro h
    have hhash := h (lockOf 3 9) (by decide +kernel) (headerAfter 3 4).header (by decide +kernel)
    exact absurd hhash (by decide +kernel)
  · intro h
    have hhash := h (lockOf 2 3) (by decide +kernel) (headerAfter 2 13).header (by decide +kernel)
    exact absurd hhash (by decide +kernel)

end LateHeader

end LockedChain

end Dashcore
