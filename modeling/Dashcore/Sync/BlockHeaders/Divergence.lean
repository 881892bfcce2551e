import Dashcore.Sync.BlockHeaders.Finality

/-!
# The fork height of a committed reorg

A batch counts as a fork because the header it continues lies below the tip. Whether its first
header is already the stored one is not looked at, so a batch that repeats the active chain and
goes on beyond the tip is buffered, wins and is committed as a reorg at a height where nothing
diverges. The same happens to a branch that two peers sent, once one copy is committed.

A reported fork height is the point of divergence as long as every branch that waits differs
from the active chain in its first header. Conforming steps keep that: no batch is buffered
that repeats the stored header, and no stored header begins a branch that waits.
-/

namespace Dashcore

open HeightMap

/-- A stored item of a continued map was stored before, or is one of the new ones. -/
theorem HeightMap.append_slot_cases {I : Type} {m : HeightMap I} {items : List I} {tip h : Nat}
    (htip : (m.append items).tip = some tip) (hle : h ≤ tip) :
    (∃ old, m.tip = some old ∧ h ≤ old ∧ (m.append items).slot h = m.slot h) ∨
      (m.append items).slot h ∈ items := by
  have hnext := m.nextHeight_append items
  rw [nextHeight_of_tip htip] at hnext
  rcases Nat.lt_or_ge h m.nextHeight with hlt | hge
  · obtain ⟨old, hold, hh⟩ := lt_nextHeight.mp hlt
    exact .inl ⟨old, hold, hh, append_slot_of_le hold items hh⟩
  · have hnew : h - m.nextHeight < items.length := by omega
    rw [append_slot, if_pos hge, List.getElem?_eq_getElem hnew]
    exact .inr (List.getElem_mem hnew)

/-- First header of a fork. -/
def ForkCandidate.first (fork : ForkCandidate) : HashedBlockHeader :=
  fork.headers.head fork.nonempty

/-- If the chain goes on above the ancestor of a fork, then with another header. -/
def DivergesFrom (chain : HeightMap HashedBlockHeader) (fork : ForkCandidate) : Prop :=
  ∀ tip, chain.tip = some tip → fork.ancestorHeight < tip →
    (chain.slot (fork.ancestorHeight + 1)).header ≠ fork.first.header

section Chain

variable {blockHash : Header → BlockHash} {chain : HeightMap HashedBlockHeader}
  {fork candidate : ForkCandidate}

/-- Appended headers lie above the tip, and a fork that leaves the chain below the tip does not
see them. -/
theorem DivergesFrom.append (h : DivergesFrom chain fork) {tip : Nat} (htip : chain.tip = some tip)
    (hlt : fork.ancestorHeight < tip) (headers : List HashedBlockHeader) :
    DivergesFrom (chain.append headers) fork := by
  intro _ _ _
  rw [HeightMap.append_slot_of_le htip headers hlt]
  exact h tip htip hlt

/-- A rewritten chain does not run into a fork that begins with none of the new headers. -/
theorem DivergesFrom.rewritten (h : DivergesFrom chain fork)
    (hfresh : ∀ header ∈ candidate.headers, header.header ≠ fork.first.header) :
    DivergesFrom (rewrittenChain blockHash chain candidate) fork := by
  intro tip htip hlt
  rcases append_slot_cases htip hlt with ⟨old, hold, hle, hslot⟩ | hmem
  · obtain ⟨oldTip, holdTip, rfl⟩ := Option.map_eq_some_iff.mp hold
    have hkept : fork.ancestorHeight + 1 ≤ candidate.ancestorHeight := by omega
    have hsame := h oldTip holdTip (by omega)
    rw [rewrittenChain, hslot]
    simpa only [cut, if_pos hkept] using hsame
  · exact hfresh _ hmem

/-- Above its ancestor, the rewritten chain goes on with the fork. -/
theorem stored_rewrittenChain {old : HashedBlockHeader}
    (hold : chain.stored (candidate.ancestorHeight + 1) = some old) :
    (rewrittenChain blockHash chain candidate).stored (candidate.ancestorHeight + 1) =
      some candidate.first := by
  obtain ⟨⟨start, hstart, hle⟩, ⟨tip, htip, hlt⟩, -⟩ := stored_eq_some.mp hold
  have hcut : (chain.cut (.sentinel blockHash) candidate.ancestorHeight).tip =
      some candidate.ancestorHeight := by
    rw [cut, Option.mem_def.mp htip, Option.map_some, Option.some.injEq]
    omega
  have hlen := List.length_pos_of_ne_nil candidate.nonempty
  refine stored_eq_some.mpr ⟨?_, ⟨_, append_tip hcut _, by omega⟩, ?_⟩
  · refine ⟨min start (candidate.ancestorHeight + 1), ?_, by omega⟩
    simp only [rewrittenChain, HeightMap.append, storeAt, nextHeight, hcut,
      List.isEmpty_iff, candidate.nonempty, if_false]
    simp [cut, Option.mem_def.mp hstart]
  · apply append_slot_of_lt hcut (Nat.lt_succ_self _)
    rw [Nat.sub_self, ← List.head?_eq_getElem?, List.head?_eq_some_head candidate.nonempty]
    rfl

end Chain

namespace BlockHeadersManager

variable {blockHash : Header → BlockHash} {Block : Type} {noBlock : Block}
  {m m' : BlockHeadersManager blockHash noBlock} {fork : ForkCandidate}

/-! ### Forks that wait -/

/-- The buffered branches and the pending candidate. -/
def waitingForks (m : BlockHeadersManager blockHash noBlock) : List ForkCandidate :=
  m.branches.map BufferedBranch.toCandidate ++ m.pendingForkCandidate.toList

theorem mem_waitingForks :
    fork ∈ m.waitingForks ↔
      (∃ branch ∈ m.branches, branch.toCandidate = fork) ∨ m.pendingForkCandidate = some fork := by
  simp [waitingForks]

theorem Quiet.waitingForks (h : Quiet m m') (hfork : fork ∈ m'.waitingForks) :
    fork ∈ m.waitingForks := by
  rcases mem_waitingForks.mp hfork with ⟨branch, hbranch, heq⟩ | hpend
  · exact mem_waitingForks.mpr (.inl ⟨branch, h.branches branch hbranch, heq⟩)
  · exact mem_waitingForks.mpr (.inr (h.pending ▸ hpend))

variable {New : BufferedBranch → Prop} {height : Nat}

theorem Staged.waitingForks (h : Staged height New m m') (hfork : fork ∈ m'.waitingForks) :
    fork ∈ m.waitingForks ∨ ∃ branch, New branch ∧ branch.toCandidate = fork := by
  have hbranch : ∀ branch, branch ∈ m.branches ∨ New branch → branch.toCandidate = fork →
      fork ∈ m.waitingForks ∨ ∃ branch, New branch ∧ branch.toCandidate = fork := by
    rintro branch (hold | hnew) heq
    · exact .inl (mem_waitingForks.mpr (.inl ⟨branch, hold, heq⟩))
    · exact .inr ⟨branch, hnew, heq⟩
  rcases mem_waitingForks.mp hfork with ⟨branch, hmem, heq⟩ | hpend
  · exact hbranch branch (h.branches branch hmem) heq
  · rcases h.pending with hsame | ⟨branch, hor, -, hpromoted⟩
    · exact .inl (mem_waitingForks.mpr (.inr (hsame ▸ hpend)))
    · rw [hpromoted, Option.some.injEq] at hpend
      exact hbranch branch hor hpend

/-- Every fork that waits diverges from the chain. -/
structure Divergent (m : BlockHeadersManager blockHash noBlock) : Prop where
  forks : ∀ fork ∈ m.waitingForks, DivergesFrom m.chain fork
  pipeline : m.pipeline.Hashed blockHash

theorem Divergent.quiet (h : Quiet m m') (hm : Divergent m) : Divergent m' where
  forks := fun fork hfork => h.chain ▸ hm.forks fork (h.waitingForks hfork)
  pipeline := h.pipeline hm.pipeline

/-! ### One step -/

/-- The chain goes on above the ancestor of every fork that waits. -/
def ForksBelowTip (m : BlockHeadersManager blockHash noBlock) : Prop :=
  ∀ fork ∈ m.waitingForks, ∃ tip ∈ m.chain.tip, fork.ancestorHeight < tip

instance (m : BlockHeadersManager blockHash noBlock) : Decidable m.ForksBelowTip :=
  inferInstanceAs (Decidable (∀ fork ∈ m.waitingForks, ∃ tip ∈ m.chain.tip, _))

/-- A batch that is taken for a fork does not begin with the stored header above the one it
continues, and headers go through the pipeline while the chain goes on above every fork that
waits. -/
def RouteDiverges (m : BlockHeadersManager blockHash noBlock) (headers : List Header) :
    HeadersRoute → Prop
  | .fork height => ∀ first ∈ headers.head?, first ≠ (m.chain.slot (height + 1)).header
  | .continuation _ => True
  | .pipeline => m.ForksBelowTip

instance (m : BlockHeadersManager blockHash noBlock) (headers : List Header) :
    (route : HeadersRoute) → Decidable (m.RouteDiverges headers route)
  | .fork height =>
    inferInstanceAs (Decidable (∀ first ∈ headers.head?, first ≠ (m.chain.slot (height + 1)).header))
  | .continuation _ => inferInstanceAs (Decidable True)
  | .pipeline => inferInstanceAs (Decidable m.ForksBelowTip)

/-- The batch an action brings. -/
def batchOf : HeadersAction → Option (List Header)
  | .headers _ _ headers => some headers
  | _ => none

/-- The batch that comes in diverges, and if the action drives a reorg that no guard stops,
then no fork that still waits begins with one of the headers that are committed. -/
def Diverges (m : BlockHeadersManager blockHash noBlock) (action : HeadersAction) : Prop :=
  (∀ headers ∈ batchOf action, m.RouteDiverges headers (m.routeOf headers)) ∧
  ∀ call ∈ m.driven action, call.manager.admits call.candidate call.force = true →
    ∀ fork ∈ call.manager.waitingForks, ∀ header ∈ call.candidate.headers,
      header.header ≠ fork.first.header

instance (m : BlockHeadersManager blockHash noBlock) (action : HeadersAction) :
    Decidable (m.Diverges action) :=
  inferInstanceAs (Decidable ((∀ headers ∈ batchOf action, _) ∧ ∀ call ∈ m.driven action, _))

/-- What goes through the pipeline is stored above every fork's first header. -/
theorem Divergent.receiveThroughPipeline (hm : Divergent m) (hbelow : m.ForksBelowTip)
    (env : Env) (headers : List Header) : Divergent (m.receiveThroughPipeline env headers).1 := by
  have hstable : Stable fun m : BlockHeadersManager blockHash noBlock =>
      Divergent m ∧ m.ForksBelowTip :=
    { pipeline := fun h => h.1.pipeline
      quiet := by
        rintro m m' hquiet ⟨hm, hbelow⟩
        refine ⟨hm.quiet hquiet, fun fork hfork => ?_⟩
        rw [hquiet.chain]
        exact hbelow fork (hquiet.waitingForks hfork)
      append := by
        rintro m tip headers ⟨hm, hbelow⟩ htip - - -
        have hlt : ∀ fork ∈ m.waitingForks, fork.ancestorHeight < tip := by
          intro fork hfork
          obtain ⟨tip', htip', hlt⟩ := hbelow fork hfork
          rw [Option.mem_def, htip, Option.some.injEq] at htip'
          exact htip' ▸ hlt
        refine ⟨⟨fun fork hfork => ?_, hm.pipeline⟩, fun fork hfork => ?_⟩
        · rw [appendHeaders_chain]
          exact (hm.forks fork hfork).append htip (hlt fork hfork) headers
        · rw [appendHeaders_chain, append_tip htip]
          exact ⟨_, rfl, (hlt fork hfork).trans_le (Nat.le_add_right tip headers.length)⟩ }
  exact (hstable.receiveThroughPipeline env headers ⟨hm, hbelow⟩).1

theorem Divergent.staged (h : Staged height New m m')
    (hnew : ∀ branch, New branch → DivergesFrom m.chain branch.toCandidate) (hm : Divergent m) :
    Divergent m' where
  forks := by
    intro fork hfork
    rw [h.chain]
    rcases h.waitingForks hfork with hold | ⟨branch, hbranch, rfl⟩
    · exact hm.forks fork hold
    · exact hnew branch hbranch
  pipeline := h.pipeline ▸ hm.pipeline

/-- A branch made of a batch begins with the first header of the batch. -/
theorem ForkedAt.first {chain : HeightMap HashedBlockHeader} {first : Header}
    {rest : List Header} {branch : BufferedBranch}
    (h : ForkedAt blockHash chain (first :: rest) height branch) :
    branch.toCandidate.first.header = first := by
  simp [ForkCandidate.first, BufferedBranch.toCandidate, h.headers, HashedBlockHeader.ofHeader]

/-- A continued branch begins as before. -/
theorem Continues.first {batch : List Header} {old branch : BufferedBranch}
    (h : Continues blockHash batch old branch) :
    branch.toCandidate.first = old.toCandidate.first := by
  simp [ForkCandidate.first, BufferedBranch.toCandidate, h.headers,
    List.head_append_of_ne_nil old.nonempty]

theorem Divergent.stagedBatch {env : Env} {peer : SocketAddr} {headers : List Header}
    {r : BlockHeadersManager blockHash noBlock × Except SyncError Unit}
    (h : m.stagedBatch env peer headers = some r)
    (hbatch : m.RouteDiverges headers (m.routeOf headers)) (hm : Divergent m) : Divergent r.1 := by
  obtain ⟨first, rest, height, rfl, ⟨hroute, rfl⟩ | ⟨-, rfl⟩⟩ := stagedBatch_cases h
  · rw [hroute] at hbatch
    refine hm.staged (m.ingestFork_staged env peer (first :: rest) height) ?_
    intro branch hforked _ _ _
    rw [hforked.first, branch.toCandidate_ancestorHeight, hforked.ancestorHeight]
    exact (hbatch first rfl).symm
  · refine hm.staged (m.extendFork_staged env peer first.prevBlockhash height (first :: rest)) ?_
    rintro branch ⟨old, hold, hcontinues⟩
    have hdiverges := hm.forks _ (mem_waitingForks.mpr (.inl ⟨old, hold, rfl⟩))
    intro tip htip hlt
    rw [hcontinues.first, branch.toCandidate_ancestorHeight, hcontinues.ancestorHeight]
    rw [branch.toCandidate_ancestorHeight, hcontinues.ancestorHeight] at hlt
    exact hdiverges tip htip hlt

variable {action : HeadersAction}

/-- The candidate of a driven reorg diverges, and so does whatever still waits. -/
theorem Divergent.driven {call : DriveCall blockHash noBlock}
    (hm : Divergent m) (hstep : m.Diverges action) (h : m.driven action = some call) :
    Divergent call.manager ∧ DivergesFrom call.manager.chain call.candidate := by
  obtain ⟨-, ⟨env, candidate, -, hpend, rfl⟩ |
    ⟨env, peer, headers, m', m'', candidate, rfl, hstaged, hforced, rfl⟩⟩ := driven_cases h
  · have hexpired := hm.quiet (m.steady_expire env.now).quiet
    refine ⟨⟨fun fork hfork => ?_, hexpired.pipeline⟩, ?_⟩
    · apply hexpired.forks fork
      rcases mem_waitingForks.mp hfork with hbranch | hnone
      · exact mem_waitingForks.mpr (.inl hbranch)
      · cases hnone
    · apply hexpired.forks candidate
      rw [mem_waitingForks, (m.steady_expire env.now).quiet.pending]
      exact .inr hpend
  · have hm' : Divergent m' := hm.stagedBatch hstaged (hstep.1 headers rfl)
    obtain ⟨hsteady, branch, hbranch, rfl⟩ := forcedBranch_spec hforced
    refine ⟨hm'.quiet hsteady.quiet, ?_⟩
    rw [hsteady.quiet.chain]
    exact hm'.forks _ (mem_waitingForks.mpr (.inl ⟨branch, hbranch, rfl⟩))

variable [DecidableEq Block] {candidate : ForkCandidate} {force : Bool}

theorem Divergent.driveReorg (hm : Divergent m)
    (hfresh : m.admits candidate force = true → ∀ fork ∈ m.waitingForks,
      ∀ header ∈ candidate.headers, header.header ≠ fork.first.header) :
    Divergent (m.driveReorg candidate force).1 := by
  obtain ⟨reorgState, reorgGeneration, storages, heq, hchain⟩ := m.driveReorg_spec candidate force
  rw [heq]
  rcases hchain with hsame | ⟨hadmits, hrewr⟩
  · exact hm.quiet (Steady.quiet ⟨hsame, fun _ hb => hb, rfl, .refl _⟩)
  · refine ⟨fun fork hfork => ?_, hm.pipeline⟩
    have hdiverges : DivergesFrom (rewrittenChain blockHash m.chain candidate) fork :=
      (hm.forks fork hfork).rewritten (hfresh hadmits fork hfork)
    rw [← hrewr] at hdiverges
    exact hdiverges

/-- One conforming step keeps every fork that waits divergent. -/
theorem step_divergent (hm : Divergent m) (hstep : m.Diverges action) :
    Divergent (m.step action) := by
  rcases m.step_cases action with
    hsteady | ⟨env, peer, headers, rfl, hroute, heq⟩ | ⟨env, peer, headers, r, rfl, hstaged, heq⟩ |
      ⟨call, hdriven, hsteady⟩
  · exact hm.quiet hsteady.quiet
  · have hbatch := hstep.1 headers rfl
    rw [hroute] at hbatch
    rw [heq]
    exact hm.receiveThroughPipeline hbatch env headers
  · rw [heq]
    exact hm.stagedBatch hstaged (hstep.1 headers rfl)
  · obtain ⟨hmanager, -⟩ := hm.driven hstep hdriven
    exact (hmanager.driveReorg (hstep.2 call hdriven)).quiet hsteady.quiet

/-! ### The reported height -/

/-- A completed reorg reports the ancestor of its candidate and rewrites the chain. -/
theorem driveReorg_chainReorg {forkHeight : Nat}
    {oldTip newTip : BlockHash} {generation : Nat}
    (h : m.driveReorg candidate force =
      (m', .ok (some (.chainReorg forkHeight oldTip newTip generation)))) :
    forkHeight = candidate.ancestorHeight ∧
      m'.chain = rewrittenChain blockHash m.chain candidate := by
  unfold BlockHeadersManager.driveReorg at h
  split at h
  · cases h
  · next tip _ =>
    cases hhandle : handleReorg (m.reorgContext tip force) candidate m.cascade with
    | mk cascade result =>
      simp only [hhandle, Prod.mk.injEq] at h
      obtain ⟨rfl, rfl⟩ := h
      exact handleReorg_chainReorg hhandle

/-- If the action drives a reorg that completes at a fork height above which the chain went
on, then the chain now goes on with another header. -/
def TrueForkHeight (m : BlockHeadersManager blockHash noBlock) (action : HeadersAction) : Prop :=
  ∀ call, m.driven action = some call →
    ∀ m' forkHeight oldTip newTip generation,
      call.manager.driveReorg call.candidate call.force =
        (m', .ok (some (.chainReorg forkHeight oldTip newTip generation))) →
      ∀ old, m.chain.stored (forkHeight + 1) = some old →
        ∃ new, m'.chain.stored (forkHeight + 1) = some new ∧ new.header ≠ old.header

theorem trueForkHeight (hm : Divergent m) (hstep : m.Diverges action) :
    m.TrueForkHeight action := by
  intro call hcall m' forkHeight oldTip newTip generation hdrive old hold
  obtain ⟨rfl, hchain⟩ := driveReorg_chainReorg hdrive
  have hdiverges := (hm.driven hstep hcall).2
  rw [(sameGuards_driven hcall).chain] at hchain hdiverges
  refine ⟨call.candidate.first, ?_, ?_⟩
  · rw [hchain]
    exact stored_rewrittenChain hold
  · obtain ⟨-, ⟨tip, htip, hlt⟩, rfl⟩ := stored_eq_some.mp hold
    exact (hdiverges tip htip hlt).symm

/-- In every run from a new manager whose steps conform, every fork height that is reported is
the point of divergence. -/
theorem run_trueForkHeight {storages : ReorgStorages blockHash noBlock} {cm : CheckpointManager}
    {network : Network} {generation chainlockHeight : Nat} {lastTargetHeight : Option Nat}
    (hnew : new storages cm network generation chainlockHeight lastTargetHeight = .ok m)
    {actions : List HeadersAction}
    (halong : Runs.Along BlockHeadersManager.step Diverges m actions) :
    Runs.Along BlockHeadersManager.step TrueForkHeight m actions := by
  refine Runs.along_of_invariant (fun _ _ => step_divergent) (fun _ _ => trueForkHeight) ?_ halong
  -- nothing waits in a new manager
  unfold new at hnew
  split at hnew
  · cases hnew
  · obtain rfl := Except.ok.inj hnew
    refine ⟨fun fork hfork => ?_, fun segment hsegment => ?_⟩
    · cases hfork
    · cases hsegment

end BlockHeadersManager

/-! ### A batch that repeats the tip -/

namespace RepeatedTip

open SparseBlocks StaleAnchor BlockHeadersManager

theorem run_trueForkHeight_oneFork :
    Runs.Along BlockHeadersManager.step Diverges manager oneFork ∧
    Runs.Along BlockHeadersManager.step TrueForkHeight manager oneFork := by
  have halong : Runs.Along BlockHeadersManager.step Diverges manager oneFork := by
    decide +kernel
  exact ⟨halong, run_trueForkHeight new_eq_manager halong⟩

/-- After a batch that holds the stored header of height 3, which is the tip, and a new one. -/
def repeatedTip : BlockHeadersManager nonceHash (0 : Nat) :=
  Runs.run BlockHeadersManager.step manager
    [.peersUpdated env 1 none, .headers env 7 (batch 3 [4, 20])]

/-- The reorg that the next tick drives. -/
def repeatedTipCall : DriveCall nonceHash (0 : Nat) :=
  (repeatedTip.driven (.tick env)).get (by decide +kernel)

/-- What that reorg does. -/
def repeatedTipReorg :
    BlockHeadersManager nonceHash (0 : Nat) × Except SyncError (Option SyncEvent) :=
  repeatedTipCall.manager.driveReorg repeatedTipCall.candidate repeatedTipCall.force

/-- The tick drives a reorg that reports height 2 and leaves the header above it as it was. -/
theorem repeatedTip_reorgs_nothing :
    new storages (.new []) .regtest 0 0 none = .ok manager ∧
    repeatedTip.driven (.tick env) = some repeatedTipCall ∧
    repeatedTipReorg.2 = .ok (some (.chainReorg 2 4 20 1)) ∧
    repeatedTip.chain.stored 3 = some (headerAfter 3 4) ∧
    repeatedTipReorg.1.chain.stored 3 = some (headerAfter 3 4) ∧
    ¬ repeatedTip.TrueForkHeight (.tick env) := by
  have hcall : repeatedTip.driven (.tick env) = some repeatedTipCall := (Option.some_get _).symm
  have hevent : repeatedTipReorg.2 = .ok (some (.chainReorg 2 4 20 1)) := by decide +kernel
  have hold : repeatedTip.chain.stored 3 = some (headerAfter 3 4) := by decide +kernel
  have hnew : repeatedTipReorg.1.chain.stored 3 = some (headerAfter 3 4) := by decide +kernel
  refine ⟨new_eq_manager, hcall, hevent, hold, hnew, ?_⟩
  intro htrue
  obtain ⟨new, hstored, hne⟩ :=
    htrue _ hcall repeatedTipReorg.1 2 4 20 1 (Prod.ext rfl hevent) _ hold
  rw [hnew, Option.some.injEq] at hstored
  exact hne (congrArg HashedBlockHeader.header hstored.symm)

end RepeatedTip

end Dashcore
