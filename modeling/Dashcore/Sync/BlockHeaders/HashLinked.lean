import Dashcore.Sync.BlockHeaders.ManagerSpec

/-!
# The stored chain stays hash-linked

Every way headers enter the store checks them against what is stored: a batch of the
pipeline against the tip, a fork against its ancestor. A fork is anchored by height only,
though, and waits in the buffer while other reorgs go on. As long as no reorg is driven
while a branch anchored above its ancestor is still buffered or pending, every waiting branch
keeps its anchor and every stored header follows the one below.
-/

namespace Dashcore

open HeightMap PersistentBlockHeaderStorage List

/-! ### Linked chains -/

/-- Every slot carries the hash of its header, and every stored header follows the one
below. -/
structure HashLinked (blockHash : Header → BlockHash) (chain : HeightMap HashedBlockHeader) :
    Prop where
  hashed : ∀ h, (chain.slot h).hash = blockHash (chain.slot h).header
  linked : ∀ {start tip h : Nat}, chain.start = some start → chain.tip = some tip →
    start ≤ h → h < tip → Follows (chain.slot h) (chain.slot (h + 1))

/-- A fork whose headers are linked and whose first header follows the stored header at the
ancestor height. -/
structure Anchored (blockHash : Header → BlockHash) (chain : HeightMap HashedBlockHeader)
    (candidate : ForkCandidate) : Prop where
  isChain : candidate.headers.IsChain Follows
  hashed : ∀ header ∈ candidate.headers, header.hash = blockHash header.header
  anchor : Follows (chain.slot candidate.ancestorHeight) (candidate.headers.head candidate.nonempty)
  stored : ∃ tip, chain.tip = some tip ∧ candidate.ancestorHeight ≤ tip

section Chain

variable {blockHash : Header → BlockHash} {chain : HeightMap HashedBlockHeader}

theorem HashLinked.cut (h : HashLinked blockHash chain) (height : Nat) :
    HashLinked blockHash (chain.cut (.sentinel blockHash) height) := by
  constructor
  · intro k
    simp only [HeightMap.cut]
    split_ifs
    · exact h.hashed k
    · rfl
  · intro start tip k hstart htip hle hlt
    obtain ⟨tip', htip', rfl⟩ := Option.map_eq_some_iff.mp htip
    have hk : k + 1 ≤ height := by omega
    have hk' : k ≤ height := by omega
    simp only [HeightMap.cut, if_pos hk, if_pos hk']
    exact h.linked hstart htip' hle (by omega)

variable {headers : List HashedBlockHeader}

/-- Linked headers that follow the tip, if there is one, keep the chain linked. -/
theorem HashLinked.append (h : HashLinked blockHash chain)
    (hchain : headers.IsChain Follows)
    (hhashed : ∀ header ∈ headers, header.hash = blockHash header.header)
    (hfirst : ∀ tip ∈ chain.tip, ∀ first ∈ headers.head?, Follows (chain.slot tip) first) :
    HashLinked blockHash (chain.append headers) := by
  constructor
  · intro k
    rw [append_slot]
    split_ifs
    · cases hitem : headers[k - chain.nextHeight]? with
      | none => exact h.hashed k
      | some header => exact hhashed header (mem_of_getElem? hitem)
    · exact h.hashed k
  · intro start tip k hstart htip hle hlt
    have hnext := chain.nextHeight_append headers
    rw [nextHeight_of_tip htip] at hnext
    rw [append_slot, append_slot]
    rcases Nat.lt_trichotomy (k + 1) chain.nextHeight with hk | hk | hk
    · -- both headers were stored before
      obtain ⟨old, hold, hkold⟩ := lt_nextHeight.mp hk
      obtain ⟨start', hstart', hle'⟩ := HeightMap.le_start_append hstart hle (Nat.lt_of_succ_lt hk)
      rw [if_neg (by omega), if_neg (by omega)]
      exact h.linked hstart' hold hle' hkold
    · -- the first new header follows the old tip
      obtain ⟨first, rest, rfl⟩ := exists_cons_of_length_pos (show 0 < headers.length by omega)
      obtain ⟨old, hold, hkold⟩ := lt_nextHeight.mp (Nat.lt_of_succ_le hk.le)
      obtain rfl : old = k := Nat.succ.inj ((HeightMap.nextHeight_of_tip hold).symm.trans hk.symm)
      rw [if_neg (by omega), if_pos hk.ge, hk, Nat.sub_self]
      exact hfirst old hold first rfl
    · -- both headers are new
      obtain ⟨i, rfl⟩ := Nat.exists_eq_add_of_le (Nat.lt_succ_iff.mp hk)
      have hi : i + 1 < headers.length := by omega
      rw [if_pos (by omega), if_pos (by omega), Nat.add_assoc, Nat.add_sub_cancel_left,
        Nat.add_sub_cancel_left, getElem?_eq_getElem hi, getElem?_eq_getElem (Nat.lt_of_succ_lt hi)]
      exact isChain_iff_getElem.mp hchain i hi

variable {candidate : ForkCandidate}

theorem Anchored.cut_tip (h : Anchored blockHash chain candidate) :
    (chain.cut (.sentinel blockHash) candidate.ancestorHeight).tip =
      some candidate.ancestorHeight := by
  obtain ⟨tip, htip, hle⟩ := h.stored
  simp [HeightMap.cut, htip, hle]

/-- A reorg to an anchored fork keeps the chain linked. -/
theorem HashLinked.rewritten (h : HashLinked blockHash chain)
    (hc : Anchored blockHash chain candidate) :
    HashLinked blockHash (rewrittenChain blockHash chain candidate) := by
  refine (h.cut candidate.ancestorHeight).append hc.isChain hc.hashed ?_
  intro tip htip first hfirst
  obtain rfl := Option.mem_unique hc.cut_tip htip
  have hhead : candidate.headers.head candidate.nonempty = first := by
    rw [head?_eq_some_head candidate.nonempty] at hfirst
    exact Option.some.inj hfirst
  rw [← hhead]
  simpa [HeightMap.cut] using hc.anchor

/-- Storing headers above the tip moves no anchor. -/
theorem Anchored.append (hc : Anchored blockHash chain candidate)
    (headers : List HashedBlockHeader) : Anchored blockHash (chain.append headers) candidate := by
  obtain ⟨tip, htip, hle⟩ := hc.stored
  refine ⟨hc.isChain, hc.hashed, ?_, tip + headers.length, append_tip htip headers,
    by omega⟩
  rw [append_slot_of_le htip headers hle]
  exact hc.anchor

/-- A reorg moves no anchor at or below its ancestor. -/
theorem Anchored.rewritten {candidate other : ForkCandidate}
    (hc : Anchored blockHash chain candidate) (ho : Anchored blockHash chain other)
    (hle : other.ancestorHeight ≤ candidate.ancestorHeight) :
    Anchored blockHash (rewrittenChain blockHash chain candidate) other := by
  refine ⟨ho.isChain, ho.hashed, ?_, candidate.ancestorHeight + candidate.headers.length,
    append_tip hc.cut_tip _, by omega⟩
  rw [rewrittenChain, append_slot_of_le hc.cut_tip candidate.headers hle]
  simpa [HeightMap.cut, hle] using ho.anchor

/-- The first headers of an empty store. -/
theorem HashLinked.of_empty (hempty : chain.tip = none) (hhashed : ∀ h, (chain.slot h).hash =
    blockHash (chain.slot h).header)
    (hchain : headers.IsChain Follows) (hall : AllHashed blockHash headers) :
    HashLinked blockHash (chain.append headers) := by
  have hlinked : HashLinked blockHash chain := ⟨hhashed, fun _ htip => by simp [hempty] at htip⟩
  exact hlinked.append hchain hall fun tip htip => by simp [hempty] at htip

end Chain

/-! ### Waiting branches keep their anchor -/

namespace BlockHeadersManager

variable {blockHash : Header → BlockHash} {Block : Type} {noBlock : Block}
  {m m' : BlockHeadersManager blockHash noBlock}

/-- The chain is linked, and every branch that waits is anchored in it. -/
structure Waiting (m : BlockHeadersManager blockHash noBlock) : Prop where
  linked : HashLinked blockHash m.chain
  branches : ∀ branch ∈ m.branches, Anchored blockHash m.chain branch.toCandidate
  pending : ∀ candidate ∈ m.pendingForkCandidate, Anchored blockHash m.chain candidate
  pipeline : m.pipeline.Hashed blockHash

/-- No branch waits with an anchor above a height. -/
def NothingAbove (m : BlockHeadersManager blockHash noBlock) (height : Nat) : Prop :=
  (∀ branch ∈ m.branches, branch.ancestorHeight ≤ height) ∧
    ∀ candidate ∈ m.pendingForkCandidate, candidate.ancestorHeight ≤ height

instance (m : BlockHeadersManager blockHash noBlock) (height : Nat) :
    Decidable (m.NothingAbove height) :=
  inferInstanceAs (Decidable (_ ∧ _))

/-- If the action drives a reorg that no guard stops, then no other branch waits with an
anchor above its ancestor. -/
def DrivesTopmost (m : BlockHeadersManager blockHash noBlock) (action : HeadersAction) : Prop :=
  ∀ call ∈ m.driven action, call.manager.admits call.candidate call.force = true →
    call.manager.NothingAbove call.candidate.ancestorHeight

instance (m : BlockHeadersManager blockHash noBlock) (action : HeadersAction) :
    Decidable (m.DrivesTopmost action) :=
  inferInstanceAs (Decidable (∀ call ∈ m.driven action, _))

theorem Waiting.quiet (h : Quiet m m') (hm : Waiting m) : Waiting m' where
  linked := h.chain ▸ hm.linked
  branches := fun branch hbranch => h.chain ▸ hm.branches branch (h.branches branch hbranch)
  pending := fun candidate hc => h.chain ▸ hm.pending candidate (h.pending ▸ hc)
  pipeline := h.pipeline hm.pipeline

theorem appendHeaders_chain (m : BlockHeadersManager blockHash noBlock)
    (headers : List HashedBlockHeader) :
    (m.appendHeaders headers).chain = m.chain.append headers :=
  storeHashedHeaders_chain _ _

theorem waiting_stable : Stable (Waiting : BlockHeadersManager blockHash noBlock → Prop) where
  pipeline := fun hm => hm.pipeline
  quiet := fun h hm => hm.quiet h
  append := by
    intro m tip headers hm htip hchain hhashed hfirst
    have hlinked := hm.linked.append hchain hhashed fun tip' htip' first => by
      obtain rfl := Option.mem_unique htip htip'
      exact hfirst first
    refine ⟨?_, ?_, ?_, hm.pipeline⟩
    · rw [appendHeaders_chain]
      exact hlinked
    · intro branch hbranch
      rw [appendHeaders_chain]
      exact (hm.branches branch hbranch).append headers
    · intro candidate hc
      rw [appendHeaders_chain]
      exact (hm.pending candidate hc).append headers

variable {chain : HeightMap HashedBlockHeader} {batch : List Header} {height : Nat}

/-- A new fork follows the stored header it was validated against. -/
theorem ForkedAt.anchored {branch : BufferedBranch} (h : ForkedAt blockHash chain batch height branch)
    (hlinked : HashLinked blockHash chain) : Anchored blockHash chain branch.toCandidate := by
  obtain ⟨first, rest, hcons⟩ := exists_cons_of_ne_nil branch.nonempty
  have hchain := h.isChain
  rw [hcons, isChain_cons_cons] at hchain
  refine ⟨?_, ?_, ?_, ?_⟩
  · rw [branch.toCandidate_headers, hcons]
    exact hchain.2
  · intro header hheader
    have hmem : header ∈ batch.map (HashedBlockHeader.ofHeader blockHash) := h.headers ▸ hheader
    obtain ⟨raw, -, rfl⟩ := mem_map.mp hmem
    rfl
  · -- the ancestor's stored hash is the hash of its header
    have hhead : branch.toCandidate.headers.head branch.toCandidate.nonempty = first := by
      simp [BufferedBranch.toCandidate, hcons]
    rw [hhead, branch.toCandidate_ancestorHeight, h.ancestorHeight]
    exact hchain.1.trans (hlinked.hashed height).symm
  · rw [branch.toCandidate_ancestorHeight, h.ancestorHeight]
    exact h.stored

/-- A continued branch keeps its anchor. -/
theorem Continues.anchored {old branch : BufferedBranch} (h : Continues blockHash batch old branch)
    (hold : Anchored blockHash chain old.toCandidate) :
    Anchored blockHash chain branch.toCandidate := by
  have hlast := hold.hashed _ (getLast_mem old.nonempty)
  refine ⟨?_, ?_, ?_, ?_⟩
  · rw [branch.toCandidate_headers, h.headers]
    refine isChain_append.mpr ⟨hold.isChain, h.isChain.tail, ?_⟩
    -- the batch was validated against the last header of the old branch
    intro last hmem first hfirst
    rw [getLast?_eq_some_getLast old.nonempty, Option.mem_some_iff] at hmem
    obtain ⟨others, hothers⟩ := head?_eq_some_iff.mp hfirst
    have hcons := h.isChain
    rw [hothers, isChain_cons_cons] at hcons
    rw [← hmem]
    exact hcons.1.trans hlast.symm
  · intro header hheader
    rw [branch.toCandidate_headers, h.headers] at hheader
    rcases mem_append.mp hheader with hmem | hmem
    · exact hold.hashed header hmem
    · obtain ⟨raw, -, rfl⟩ := mem_map.mp hmem
      rfl
  · have hhead : branch.toCandidate.headers.head branch.toCandidate.nonempty =
        old.headers.head old.nonempty := by
      simp [BufferedBranch.toCandidate, h.headers, head_append_of_ne_nil old.nonempty]
    rw [hhead, branch.toCandidate_ancestorHeight, h.ancestorHeight]
    exact hold.anchor
  · rw [branch.toCandidate_ancestorHeight, h.ancestorHeight]
    exact hold.stored

/-- The handling of a fork batch keeps the anchors if the new branches are anchored. -/
theorem Waiting.staged {New : BufferedBranch → Prop} (h : Staged height New m m')
    (hnew : ∀ branch, New branch → Anchored blockHash m.chain branch.toCandidate)
    (hm : Waiting m) : Waiting m' := by
  have hbranch : ∀ branch, branch ∈ m.branches ∨ New branch →
      Anchored blockHash m'.chain branch.toCandidate := by
    intro branch hor
    rw [h.chain]
    exact hor.elim (hm.branches branch) (hnew branch)
  refine ⟨h.chain ▸ hm.linked, fun b hb => hbranch b (h.branches b hb), ?_, h.pipeline ▸ hm.pipeline⟩
  intro candidate hc
  rcases h.pending with hsame | ⟨branch, hor, -, hpromoted⟩
  · rw [h.chain]
    exact hm.pending candidate (hsame ▸ hc)
  · rw [hpromoted, Option.mem_some_iff] at hc
    exact hc ▸ hbranch branch hor

theorem Waiting.stagedBatch {env : Env} {peer : SocketAddr} {headers : List Header}
    {r : BlockHeadersManager blockHash noBlock × Except SyncError Unit}
    (h : m.stagedBatch env peer headers = some r) (hm : Waiting m) : Waiting r.1 := by
  obtain ⟨first, rest, height, -, ⟨-, rfl⟩ | ⟨-, rfl⟩⟩ := stagedBatch_cases h
  · exact hm.staged (m.ingestFork_staged env peer headers height)
      fun branch hbranch => hbranch.anchored hm.linked
  · refine hm.staged (m.extendFork_staged env peer first.prevBlockhash height headers) ?_
    rintro branch ⟨old, hold, hcontinues⟩
    exact hcontinues.anchored (hm.branches old hold)

variable {action : HeadersAction}

/-- Whenever a reorg is driven, its candidate is anchored. -/
theorem Waiting.driven {call : DriveCall blockHash noBlock}
    (hm : Waiting m) (h : m.driven action = some call) :
    Waiting call.manager ∧ Anchored blockHash call.manager.chain call.candidate := by
  obtain ⟨-, ⟨env, candidate, -, hpend, rfl⟩ |
    ⟨env, peer, headers, m', m'', candidate, -, hstaged, hforced, rfl⟩⟩ := driven_cases h
  · have hexpired := hm.quiet (m.steady_expire env.now).quiet
    refine ⟨⟨hexpired.linked, hexpired.branches, by simp, hexpired.pipeline⟩, ?_⟩
    exact hexpired.pending candidate ((m.steady_expire env.now).quiet.pending ▸ hpend)
  · have hm' : Waiting m' := hm.stagedBatch hstaged
    obtain ⟨hsteady, branch, hbranch, rfl⟩ := forcedBranch_spec hforced
    exact ⟨hm'.quiet hsteady.quiet, hsteady.quiet.chain ▸ hm'.branches branch hbranch⟩

variable [DecidableEq Block]

/-- A reorg to an anchored candidate keeps every anchor at or below its ancestor. -/
theorem Waiting.driveReorg {candidate : ForkCandidate} {force : Bool} (hm : Waiting m)
    (hc : Anchored blockHash m.chain candidate)
    (htop : m.admits candidate force = true → m.NothingAbove candidate.ancestorHeight) :
    Waiting (m.driveReorg candidate force).1 := by
  obtain ⟨reorgState, reorgGeneration, storages, heq, hchain⟩ := m.driveReorg_spec candidate force
  rw [heq]
  rcases hchain with hsame | ⟨hadmits, hrewr⟩
  · exact hm.quiet (Steady.quiet ⟨hsame, fun _ hb => hb, rfl, .refl _⟩)
  · obtain ⟨hbranches, hpend⟩ := htop hadmits
    have hchain : BlockHeadersManager.chain { m with reorgState, reorgGeneration, storages } =
        rewrittenChain blockHash m.chain candidate := hrewr
    refine ⟨?_, ?_, ?_, hm.pipeline⟩
    · rw [hchain]
      exact hm.linked.rewritten hc
    · intro branch hbranch
      rw [hchain]
      exact hc.rewritten (hm.branches branch hbranch) (hbranches branch hbranch)
    · intro other hother
      rw [hchain]
      exact hc.rewritten (hm.pending other hother) (hpend other hother)

/-- One action keeps the chain linked and every waiting branch anchored. -/
theorem step_waiting (hm : Waiting m) (htop : m.DrivesTopmost action) :
    Waiting (m.step action) := by
  rcases m.step_cases action with
    hsteady | ⟨env, -, headers, -, -, hstep⟩ | ⟨env, peer, headers, r, -, hstaged, hstep⟩ |
      ⟨call, hdriven, hsteady⟩
  · exact hm.quiet hsteady.quiet
  · rw [hstep]
    exact waiting_stable.receiveThroughPipeline env headers hm
  · rw [hstep]
    exact hm.stagedBatch hstaged
  · obtain ⟨hmanager, hanchored⟩ := hm.driven hdriven
    exact (hmanager.driveReorg hanchored (htop call hdriven)).quiet hsteady.quiet

/-- In every run from a linked store in which no reorg is driven below the anchor of a
waiting branch, the chain is linked, and whatever fork is committed next follows the stored
header at its ancestor height. -/
theorem run_hashLinked {storages : ReorgStorages blockHash noBlock} {cm : CheckpointManager}
    {network : Network} {generation chainlockHeight : Nat} {lastTargetHeight : Option Nat}
    (hnew : new storages cm network generation chainlockHeight lastTargetHeight = .ok m)
    (hlinked : HashLinked blockHash storages.blockHeaderStorage.chain)
    {actions : List HeadersAction}
    (halong : Runs.Along BlockHeadersManager.step DrivesTopmost m actions) :
    HashLinked blockHash (Runs.run BlockHeadersManager.step m actions).chain ∧
      ∀ action, ∀ call ∈ (Runs.run BlockHeadersManager.step m actions).driven action,
        Follows (call.manager.chain.slot call.candidate.ancestorHeight)
          (call.candidate.headers.head call.candidate.nonempty) := by
  have hstart : Waiting m := by
    -- a manager over a linked store starts with nothing waiting
    unfold new at hnew
    split at hnew
    · cases hnew
    · obtain rfl := Except.ok.inj hnew
      refine ⟨hlinked, ?_, by simp, ?_⟩
      · intro branch hbranch
        cases hbranch
      · intro segment hsegment
        cases hsegment
  have hwaiting := Runs.invariant_run (fun _ _ => step_waiting) hstart halong
  refine ⟨hwaiting.linked, ?_⟩
  intro action call hcall
  exact (hwaiting.driven hcall).2.anchor

end BlockHeadersManager

/-! ### A fork that lost its ancestor -/

namespace StaleAnchor

open SparseBlocks BlockHeadersManager

/-- Four headers, at heights 0 to 3, and no other store. -/
def storages : ReorgStorages nonceHash (0 : Nat) where
  blockHeaderStorage :=
    storeHashedHeaders ⟨.empty, ∅⟩
      [headerAfter 0 1, headerAfter 1 2, headerAfter 2 3, headerAfter 3 4]
  filterHeaderStorage := none
  filterStorage := none
  blockStorage := none
  reorgSentinel := false

theorem storages_hashLinked : HashLinked nonceHash storages.blockHeaderStorage.chain := by
  rw [storages, storeHashedHeaders_chain]
  refine .of_empty rfl (fun _ => rfl) ?_ ?_
  · exact .cons_cons rfl (.cons_cons rfl (.cons_cons rfl (.singleton _)))
  · unfold AllHashed
    decide

def env : Env := { now := 0, accepts := fun _ _ => true, order := fun _ => 0 }

/-- Manager on regtest, without checkpoints or chainlocks. -/
def manager : BlockHeadersManager nonceHash (0 : Nat) :=
  (new storages (.new []) .regtest 0 0 none).toOption.get rfl

theorem new_eq_manager : new storages (.new []) .regtest 0 0 none = .ok manager := rfl

/-- Consecutive headers with these nonces after the block with that hash. -/
def batch : BlockHash → List Nat → List Header
  | _, [] => []
  | prev, nonce :: rest =>
    (headerAfter prev nonce).header :: batch (headerAfter prev nonce).hash rest

/-- A fork of height 1 is promoted and committed at the next tick. -/
def oneFork : List HeadersAction :=
  [.peersUpdated env 1 none, .headers env 7 (batch 2 [10, 11, 12]), .tick env]

theorem run_hashLinked_oneFork :
    Runs.Along BlockHeadersManager.step DrivesTopmost manager oneFork ∧
    (Runs.run BlockHeadersManager.step manager oneFork).chain.tip = some 4 ∧
    HashLinked nonceHash (Runs.run BlockHeadersManager.step manager oneFork).chain := by
  have halong : Runs.Along BlockHeadersManager.step DrivesTopmost manager oneFork := by
    decide +kernel
  exact ⟨halong, by decide +kernel, (run_hashLinked new_eq_manager storages_hashLinked halong).1⟩

/-- A short fork of height 2 waits while the chain is rewritten from height 1 on. It is then
extended, promoted and committed onto a header it does not follow. -/
def twoForks : List HeadersAction :=
  [.peersUpdated env 1 none, .headers env 7 (batch 3 [20]), .headers env 7 (batch 2 [10, 11, 12]),
    .tick env, .headers env 7 (batch 20 [21, 22, 23]), .tick env]

theorem twoForks_not_hashLinked :
    HashLinked nonceHash storages.blockHeaderStorage.chain ∧
    new storages (.new []) .regtest 0 0 none = .ok manager ∧
    ((Runs.run BlockHeadersManager.step manager twoForks).chain.slot 2).hash = 10 ∧
    ((Runs.run BlockHeadersManager.step manager twoForks).chain.slot 3).header.prevBlockhash = 3 ∧
    ¬ HashLinked nonceHash (Runs.run BlockHeadersManager.step manager twoForks).chain := by
  have hhash : ((Runs.run BlockHeadersManager.step manager twoForks).chain.slot 2).hash = 10 := by
    decide +kernel
  have hprev : ((Runs.run BlockHeadersManager.step manager twoForks).chain.slot
      3).header.prevBlockhash = 3 := by decide +kernel
  refine ⟨storages_hashLinked, new_eq_manager, hhash, hprev, ?_⟩
  intro hlinked
  have hstart : (Runs.run BlockHeadersManager.step manager twoForks).chain.start = some 0 := by
    decide +kernel
  have htip : (Runs.run BlockHeadersManager.step manager twoForks).chain.tip = some 6 := by
    decide +kernel
  have hfollows := hlinked.linked hstart htip (h := 2) (by decide) (by decide)
  rw [Follows, hhash, hprev] at hfollows
  exact absurd hfollows (by decide)

end StaleAnchor

end Dashcore
