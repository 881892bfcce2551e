import Dashcore.Sync.BlockHeaders.HashLinked

/-!
# The work of a committed fork

A branch is promoted when it outweighs the active headers above the ancestor of the batch
that was handled last, and committed at a later tick. The work it has to beat at the commit
is that of the active headers above its own ancestor at that time. The two agree as long as
no buffered branch has an ancestor below that of a batch, and the active headers stay the
same between promotion and tick.

A run is watched with one more piece of state: the chain at the time the pending candidate
was chosen.
-/

namespace Dashcore

open ChainWork

/-! ### Work above a height -/

theorem ChainWork.accumulate_append (base : ChainWork) (headers headers' : List Header) :
    accumulate base (headers ++ headers') = accumulate (accumulate base headers) headers' :=
  List.foldl_append

theorem ChainWork.accumulate_eq_add (base : ChainWork) (headers : List Header) :
    accumulate base headers = base + accumulate 0 headers := by
  apply BitVec.eq_of_toNat_eq
  simp [toNat_accumulate, BitVec.toNat_add]

theorem ChainWork.toNat_accumulate_zero (headers : List Header) :
    (accumulate 0 headers).toNat = total headers % 2 ^ 256 := by
  simp [toNat_accumulate]

/-- What the accumulated work shows, the headers really have. -/
theorem ChainWork.toNat_accumulate_le (headers : List Header) :
    (accumulate 0 headers).toNat ≤ total headers := by
  rw [toNat_accumulate_zero]
  exact Nat.mod_le _ _

namespace BlockHeadersManager

/-- The higher the ancestor, the less work above it. -/
theorem total_activeAbove_le (chain : HeightMap HashedBlockHeader) {low high : Nat}
    (hle : low ≤ high) : total (activeAbove chain high) ≤ total (activeAbove chain low) := by
  cases htip : chain.tip with
  | none => simp [activeAbove, htip]
  | some tip =>
    by_cases hhigh : tip ≤ high
    · simp [activeAbove, htip, Nat.sub_eq_zero_of_le hhigh]
    · -- the headers above `low` are those up to `high` and those above it
      have hsplit : tip - low = (high - low) + (tip - high) := by omega
      have habove : activeAbove chain low =
          (List.range (high - low)).map (fun i => (chain.slot (low + 1 + i)).header) ++
            activeAbove chain high := by
        simp only [activeAbove, htip, Option.getD_some, hsplit, List.range_add, List.map_append,
          List.map_map]
        congr 2
        funext i
        simp only [Function.comp_apply]
        congr 2
        omega
      rw [habove, total_append]
      omega

variable {blockHash : Header → BlockHash} {Block : Type} {noBlock : Block}
  {m m' : BlockHeadersManager blockHash noBlock} {chosen : HeightMap HashedBlockHeader}

/-- The work of every branch is accounted for, and the pending candidate outweighs the
headers of the `chosen` chain above its ancestor. -/
structure Weighed (m : BlockHeadersManager blockHash noBlock)
    (chosen : HeightMap HashedBlockHeader) : Prop where
  branches : ∀ branch ∈ m.branches,
    branch.totalWork = accumulate 0 (branch.headers.map HashedBlockHeader.header)
  pending : ∀ candidate ∈ m.pendingForkCandidate,
    total (activeAbove chosen candidate.ancestorHeight) <
      total (candidate.headers.map HashedBlockHeader.header)
  pipeline : m.pipeline.Hashed blockHash

section

variable (hm : Weighed m chosen)
include hm

theorem Weighed.of_same (hbranches : ∀ branch ∈ m'.branches, branch ∈ m.branches)
    (hpending : m'.pendingForkCandidate = m.pendingForkCandidate)
    (hpipeline : m'.pipeline.Hashed blockHash) : Weighed m' chosen where
  branches := fun branch hbranch => hm.branches branch (hbranches branch hbranch)
  pending := fun candidate hc => hm.pending candidate (hpending ▸ hc)
  pipeline := hpipeline

theorem Weighed.quiet (h : Quiet m m') : Weighed m' chosen :=
  hm.of_same h.branches h.pending (h.pipeline hm.pipeline)

/-- A batch through the pipeline adds no branch and promotes none. -/
theorem Weighed.receiveThroughPipeline (env : Env)
    (headers : List Header) :
    Weighed (m.receiveThroughPipeline env headers).1 chosen ∧
      (m.receiveThroughPipeline env headers).1.pendingForkCandidate = m.pendingForkCandidate := by
  have hstable : Stable fun m' : BlockHeadersManager blockHash noBlock =>
      Weighed m' chosen ∧ m'.pendingForkCandidate = m.pendingForkCandidate :=
    { pipeline := fun h => h.1.pipeline
      quiet := fun hquiet h => ⟨h.1.quiet hquiet, hquiet.pending.trans h.2⟩
      append := fun h _ _ _ _ =>
        ⟨h.1.of_same (fun _ hb => hb) rfl h.1.pipeline, h.2⟩ }
  exact hstable.receiveThroughPipeline env headers ⟨hm, rfl⟩

end

/-! ### Watching the promotion -/

/-- The ancestor height that a fork batch is weighed at. -/
def stagedHeight (m : BlockHeadersManager blockHash noBlock) : List Header → Option Nat
  | [] => none
  | first :: _ =>
    match m.headerStorage.getTipHeight with
    | none => none
    | some tipHeight =>
      match m.routeHeaders first.prevBlockhash tipHeight with
      | .fork height => some height
      | .continuation height => some height
      | .pipeline => none

/-- The chain the pending candidate of `m'` was weighed against, if `m'` comes after `m`. -/
def chosenAfter (m m' : BlockHeadersManager blockHash noBlock)
    (chosen : HeightMap HashedBlockHeader) : HeightMap HashedBlockHeader :=
  if m'.pendingForkCandidate = m.pendingForkCandidate then chosen else m.chain

/-- A promoted branch outweighs the active headers above its own ancestor. -/
theorem Weighed.staged {height : Nat} {New : BufferedBranch → Prop} (hm : Weighed m chosen)
    (h : Staged height New m m')
    (hnew : ∀ branch, New branch → height ≤ branch.ancestorHeight ∧
      branch.totalWork = accumulate 0 (branch.headers.map HashedBlockHeader.header))
    (hlow : ∀ branch ∈ m.branches, height ≤ branch.ancestorHeight)
    (hfits : total (activeAbove m.chain height) < 2 ^ 256) :
    Weighed m' (chosenAfter m m' chosen) := by
  have hbranch : ∀ branch, branch ∈ m.branches ∨ New branch → height ≤ branch.ancestorHeight ∧
      branch.totalWork = accumulate 0 (branch.headers.map HashedBlockHeader.header) := by
    intro branch hor
    rcases hor with hold | hor
    · exact ⟨hlow branch hold, hm.branches branch hold⟩
    · exact hnew branch hor
  refine ⟨fun branch hb => (hbranch branch (h.branches branch hb)).2, ?_, h.pipeline ▸ hm.pipeline⟩
  intro candidate hc
  unfold chosenAfter
  split_ifs with hsame
  · exact hm.pending candidate (hsame ▸ hc)
  · obtain ⟨branch, hor, hwork, hpromoted⟩ := h.pending.resolve_left hsame
    obtain ⟨hheight, hsum⟩ := hbranch branch hor
    rw [hpromoted, Option.mem_some_iff] at hc
    subst hc
    have hactive : (accumulate 0 (activeAbove m.chain height)).toNat =
        total (activeAbove m.chain height) := by
      rw [toNat_accumulate_zero, Nat.mod_eq_of_lt hfits]
    calc total (activeAbove m.chain branch.ancestorHeight)
        ≤ total (activeAbove m.chain height) := total_activeAbove_le m.chain hheight
      _ = (accumulate 0 (activeAbove m.chain height)).toNat := hactive.symm
      _ < branch.totalWork.toNat := hwork
      _ ≤ total (branch.headers.map HashedBlockHeader.header) := by
        rw [hsum]
        exact toNat_accumulate_le _

theorem map_header_ofHeader (headers : List Header) :
    (headers.map (HashedBlockHeader.ofHeader blockHash)).map HashedBlockHeader.header = headers := by
  rw [List.map_map]
  exact List.map_id headers

theorem Weighed.stagedBatch (hm : Weighed m chosen) {env : Env} {peer : SocketAddr}
    {headers : List Header} {r : BlockHeadersManager blockHash noBlock × Except SyncError Unit}
    (h : m.stagedBatch env peer headers = some r)
    (hlow : ∀ height ∈ m.stagedHeight headers, ∀ branch ∈ m.branches,
      height ≤ branch.ancestorHeight)
    (hfits : ∀ height ∈ m.stagedHeight headers, total (activeAbove m.chain height) < 2 ^ 256) :
    Weighed r.1 (chosenAfter m r.1 chosen) := by
  cases headers with
  | nil => cases h
  | cons first rest =>
    simp only [BlockHeadersManager.stagedBatch] at h
    simp only [stagedHeight] at hlow hfits
    cases htip : m.headerStorage.getTipHeight with
    | none => simp [htip] at h
    | some tipHeight =>
      simp only [htip] at h hlow hfits
      cases hroute : m.routeHeaders first.prevBlockhash tipHeight with
      | fork height =>
        simp only [hroute, Option.some.injEq] at h hlow hfits
        subst h
        refine hm.staged (m.ingestFork_staged env peer (first :: rest) height) ?_ (hlow height rfl)
          (hfits height rfl)
        intro branch hbranch
        refine ⟨hbranch.ancestorHeight.ge, ?_⟩
        rw [hbranch.totalWork, hbranch.headers, map_header_ofHeader]
      | continuation height =>
        simp only [hroute, Option.some.injEq] at h hlow hfits
        subst h
        refine hm.staged (m.extendFork_staged env peer first.prevBlockhash height (first :: rest))
          ?_ (hlow height rfl) (hfits height rfl)
        rintro branch ⟨old, hold, hcontinues⟩
        constructor
        · rw [hcontinues.ancestorHeight]
          exact hlow height rfl old hold
        · rw [hcontinues.totalWork, hcontinues.headers, List.map_append, map_header_ofHeader,
            accumulate_append, ← hm.branches old hold, accumulate_eq_add old.totalWork]
      | pipeline => simp [hroute] at h

variable [DecidableEq Block]

theorem Weighed.driveReorg (hm : Weighed m chosen) (candidate : ForkCandidate) (force : Bool) :
    Weighed (m.driveReorg candidate force).1 chosen ∧
      (m.driveReorg candidate force).1.pendingForkCandidate = m.pendingForkCandidate := by
  obtain ⟨reorgState, reorgGeneration, storages, heq, -⟩ := m.driveReorg_spec candidate force
  rw [heq]
  exact ⟨hm.of_same (fun _ hb => hb) rfl hm.pipeline, rfl⟩

end BlockHeadersManager

/-- A manager, and the chain when its pending candidate was chosen. -/
structure Watched (blockHash : Header → BlockHash) {Block : Type} (noBlock : Block) where
  manager : BlockHeadersManager blockHash noBlock
  chosen : HeightMap HashedBlockHeader

namespace Watched

open BlockHeadersManager

variable {blockHash : Header → BlockHash} {Block : Type} {noBlock : Block}

/-- The chain is noted when the pending candidate changes. -/
def step [DecidableEq Block] (w : Watched blockHash noBlock) (action : HeadersAction) :
    Watched blockHash noBlock where
  manager := w.manager.step action
  chosen := chosenAfter w.manager (w.manager.step action) w.chosen

/-- What one action has to meet. A fork batch arrives when no branch has a lower ancestor and
the work above its ancestor fits in 256 bits; a tick comes while the active headers
above the ancestor of the pending candidate are those of its choice. -/
def WeighsFairly (w : Watched blockHash noBlock) : HeadersAction → Prop
  | .headers _ _ headers =>
    ∀ height ∈ w.manager.stagedHeight headers,
      (∀ branch ∈ w.manager.branches, height ≤ branch.ancestorHeight) ∧
        total (activeAbove w.manager.chain height) < 2 ^ 256
  | .tick _ =>
    ∀ candidate ∈ w.manager.pendingForkCandidate,
      activeAbove w.manager.chain candidate.ancestorHeight =
        activeAbove w.chosen candidate.ancestorHeight
  | _ => True

instance (w : Watched blockHash noBlock) :
    (action : HeadersAction) → Decidable (w.WeighsFairly action)
  | .headers _ _ headers =>
    inferInstanceAs (Decidable (∀ height ∈ w.manager.stagedHeight headers, _ ∧ _))
  | .tick _ => inferInstanceAs (Decidable (∀ candidate ∈ w.manager.pendingForkCandidate, _ = _))
  | .inventory _ _ => .isTrue trivial
  | .peerConnected _ _ => .isTrue trivial
  | .peerDisconnected _ => .isTrue trivial
  | .peersUpdated _ _ _ => .isTrue trivial
  | .chainLockForcedReorg _ => .isTrue trivial
  | .chainlockHeight _ => .isTrue trivial

/-- The pending candidate outweighs what it was weighed against. -/
def PendingOutweighs (w : Watched blockHash noBlock) : Prop := Weighed w.manager w.chosen

variable [DecidableEq Block] {w : Watched blockHash noBlock} {action : HeadersAction}

theorem step_chosen_of_same
    (h : (w.manager.step action).pendingForkCandidate = w.manager.pendingForkCandidate) :
    (w.step action).chosen = w.chosen :=
  if_pos h

/-- One action that weighs fairly keeps the pending candidate heavier than what it was
weighed against. -/
theorem step_pendingOutweighs (hw : w.PendingOutweighs) (hfair : w.WeighsFairly action) :
    (w.step action).PendingOutweighs := by
  unfold PendingOutweighs at *
  rcases w.manager.step_cases action with
    hsteady | ⟨env, -, headers, -, -, hstep⟩ | ⟨env, peer, headers, r, rfl, hstaged, hstep⟩ |
      ⟨call, hdriven, hsteady⟩
  · rw [step_chosen_of_same hsteady.pending]
    exact hw.quiet hsteady.quiet
  · obtain ⟨hweighed, hpend⟩ := hw.receiveThroughPipeline env headers
    rw [← hstep] at hweighed hpend
    rw [step_chosen_of_same hpend]
    exact hweighed
  · have hweighed := hw.stagedBatch hstaged (fun height hheight => (hfair height hheight).1)
      (fun height hheight => (hfair height hheight).2)
    simp only [Watched.step, hstep]
    exact hweighed
  · cases action with
    | tick env =>
      simp only [BlockHeadersManager.driven] at hdriven
      split_ifs at hdriven
      obtain ⟨candidate, -, rfl⟩ := Option.map_eq_some_iff.mp hdriven
      have hexpired := hw.quiet (w.manager.steady_expire env.now).quiet
      have hcleared : Weighed { w.manager.expire env.now with pendingForkCandidate := none }
          (w.step (.tick env)).chosen := ⟨hexpired.branches, by simp, hexpired.pipeline⟩
      exact (hcleared.driveReorg candidate false).1.quiet hsteady.quiet
    | headers env peer headers =>
      simp only [BlockHeadersManager.driven] at hdriven
      split_ifs at hdriven
      split at hdriven
      · next m' hstaged =>
        obtain ⟨⟨m'', candidate⟩, hforced, rfl⟩ := Option.map_eq_some_iff.mp hdriven
        obtain ⟨htaken, -⟩ := forcedBranch_spec hforced
        have hweighed := hw.stagedBatch hstaged (fun height hheight => (hfair height hheight).1)
          (fun height hheight => (hfair height hheight).2)
        obtain ⟨hcommitted, hpend⟩ := (hweighed.quiet htaken.quiet).driveReorg candidate true
        -- taking the branch and driving the reorg leave the pending candidate alone
        have hsame : (w.manager.step (.headers env peer headers)).pendingForkCandidate =
            m'.pendingForkCandidate := hsteady.pending.trans (hpend.trans htaken.pending)
        have hchosen : (w.step (.headers env peer headers)).chosen =
            chosenAfter w.manager m' w.chosen := by
          simp only [Watched.step, chosenAfter, hsame]
        rw [hchosen]
        exact hcommitted.quiet hsteady.quiet
      · cases hdriven
    | _ => cases hdriven

/-- In every run whose actions weigh fairly, the candidate that a tick drives has strictly
more work than the active headers it would replace. -/
theorem commit_outweighs {storages : ReorgStorages blockHash noBlock} {cm : CheckpointManager}
    {network : Network} {generation chainlockHeight : Nat} {lastTargetHeight : Option Nat}
    {m : BlockHeadersManager blockHash noBlock}
    (hnew : new storages cm network generation chainlockHeight lastTargetHeight = .ok m)
    {actions : List HeadersAction} {env : Env}
    (halong : Runs.Along Watched.step WeighsFairly ⟨m, m.chain⟩ (actions ++ [.tick env])) :
    ∀ call ∈ (Runs.run BlockHeadersManager.step m actions).driven (.tick env),
      total (activeAbove call.manager.chain call.candidate.ancestorHeight) <
        total (call.candidate.headers.map HashedBlockHeader.header) := by
  obtain ⟨halong, hfair, -⟩ := Runs.along_append.mp halong
  have hstart : PendingOutweighs ⟨m, m.chain⟩ := by
    unfold new at hnew
    split at hnew
    · cases hnew
    · obtain rfl := Except.ok.inj hnew
      refine ⟨?_, by simp, ?_⟩
      · intro branch hbranch
        cases hbranch
      · intro segment hsegment
        cases hsegment
  have hweighed := Runs.invariant_run (fun _ _ => step_pendingOutweighs) hstart halong
  have hmanager : (Runs.run Watched.step ⟨m, m.chain⟩ actions).manager =
      Runs.run BlockHeadersManager.step m actions :=
    Runs.run_map (f := Watched.manager) (fun _ _ => rfl) _ actions
  intro call hcall
  rw [← hmanager] at hcall
  generalize Runs.run Watched.step ⟨m, m.chain⟩ actions = w at hfair hweighed hcall
  rw [Option.mem_def, BlockHeadersManager.driven] at hcall
  split_ifs at hcall
  obtain ⟨candidate, hpend, rfl⟩ := Option.map_eq_some_iff.mp hcall
  have hchain : BlockHeadersManager.chain
      { w.manager.expire env.now with pendingForkCandidate := none } = w.manager.chain :=
    (w.manager.steady_expire env.now).quiet.chain
  rw [hchain, hfair candidate hpend]
  exact hweighed.pending candidate hpend

end Watched

/-! ### A branch weighed at another branch's ancestor -/

namespace OtherAncestor

open StaleAnchor BlockHeadersManager Watched

/-- Three headers against the two active ones above height 1. -/
theorem commit_outweighs_oneFork :
    Runs.Along Watched.step WeighsFairly ⟨manager, manager.chain⟩
      ([.peersUpdated env 1 none, .headers env 7 (batch 2 [10, 11, 12])] ++ [.tick env]) ∧
    ((Runs.run BlockHeadersManager.step manager
      [.peersUpdated env 1 none, .headers env 7 (batch 2 [10, 11, 12])]).driven
        (.tick env)).isSome = true ∧
    ∀ call ∈ (Runs.run BlockHeadersManager.step manager
      [.peersUpdated env 1 none, .headers env 7 (batch 2 [10, 11, 12])]).driven (.tick env),
      total (activeAbove call.manager.chain call.candidate.ancestorHeight) <
        total (call.candidate.headers.map HashedBlockHeader.header) := by
  have halong : Runs.Along Watched.step WeighsFairly ⟨manager, manager.chain⟩
      ([.peersUpdated env 1 none, .headers env 7 (batch 2 [10, 11, 12])] ++ [.tick env]) := by
    decide +kernel
  exact ⟨halong, by decide +kernel, commit_outweighs new_eq_manager halong⟩

/-- A fork of height 0 with less work than the active chain is buffered; then a fork of height
2 arrives, and the heaviest branch is weighed against the one header above height 2. -/
def twoAncestors : List HeadersAction :=
  [.peersUpdated env 1 none, .headers env 7 (batch 1 [10, 11]), .headers env 8 (batch 3 [20])]

theorem twoAncestors_commits_lighter :
    new storages (.new []) .regtest 0 0 none = .ok manager ∧
    ∃ call, (Runs.run BlockHeadersManager.step manager twoAncestors).driven (.tick env) =
        some call ∧ call.force = false ∧
      (call.manager.driveReorg call.candidate call.force).2 = .ok (some (.chainReorg 0 4 11 1)) ∧
      total (activeAbove call.manager.chain call.candidate.ancestorHeight) = 6 ∧
      total (call.candidate.headers.map HashedBlockHeader.header) = 4 := by
  refine ⟨new_eq_manager, ?_⟩
  have hsome : ((Runs.run BlockHeadersManager.step manager twoAncestors).driven
      (.tick env)).isSome = true := by decide +kernel
  obtain ⟨call, hcall⟩ := Option.isSome_iff_exists.mp hsome
  have hlighter : ∀ call ∈ (Runs.run BlockHeadersManager.step manager twoAncestors).driven
      (.tick env), call.force = false ∧
      (call.manager.driveReorg call.candidate call.force).2 = .ok (some (.chainReorg 0 4 11 1)) ∧
      total (activeAbove call.manager.chain call.candidate.ancestorHeight) = 6 ∧
      total (call.candidate.headers.map HashedBlockHeader.header) = 4 := by
    decide +kernel
  exact ⟨call, hcall, hlighter call hcall⟩

end OtherAncestor

end Dashcore
