import Dashcore.Sync.BlockHeaders.Manager
import Dashcore.Sync.BlockHeaders.PipelineHashed

/-!
# What the headers manager does to chain and forks

One lemma for each function of the manager says how it acts on the stored chain, the fork
buffer and the pending candidate. Everything else about the manager is invisible here.
-/

namespace Dashcore

open HeadersPipeline PersistentBlockHeaderStorage ForkBuffer SortedMap List Option

/-- The chain a reorg leaves: cut at the ancestor, continued by the fork. -/
def rewrittenChain (blockHash : Header → BlockHash) (chain : HeightMap HashedBlockHeader)
    (candidate : ForkCandidate) : HeightMap HashedBlockHeader :=
  (chain.cut (.sentinel blockHash) candidate.ancestorHeight).append candidate.headers

namespace BlockHeadersManager

variable {blockHash : Header → BlockHash} {Block : Type} {noBlock : Block}
  {m m' : BlockHeadersManager blockHash noBlock}

section

variable (m : BlockHeadersManager blockHash noBlock)

/-- The stored headers by height. -/
def chain : HeightMap HashedBlockHeader :=
  m.headerStorage.chain

/-- The stored headers above a height. -/
def activeAbove (chain : HeightMap HashedBlockHeader) (height : Nat) : List Header :=
  (range (chain.tip.getD height - height)).map fun i => (chain.slot (height + 1 + i)).header

/-- The branches in the fork buffer. -/
def branches : List BufferedBranch :=
  m.forkBuffer.branches.values

end

/-! ### Reading the store -/

theorem tip_ok {tip : BlockHeaderTip} (h : m.tip = .ok tip) :
    m.chain.tip = some tip.height ∧ tip.header = m.chain.slot tip.height := by
  unfold BlockHeadersManager.tip getTip at h
  cases htip : m.headerStorage.getTipHeight with
  | none => simp [htip] at h
  | some height =>
    simp only [htip] at h
    cases hitems : m.headerStorage.blockHeaders.getItems height (height + 1) with
    | error e => simp [hitems] at h
    | ok items =>
      obtain ⟨-, rfl⟩ := SegmentStore.getItems_ok hitems
      simp only [hitems, Nat.add_sub_cancel_left, range_one, map_cons, map_nil,
        head?_cons, map_some, Except.ok.injEq] at h
      subst h
      exact ⟨htip, rfl⟩

variable {ancestorHeight : Nat}

/-- The last header of the history is the stored ancestor. -/
theorem loadHistory_getLast {history : List Header} {ancestor : Header}
    (h : m.loadHistory ancestorHeight = .ok history) (hlast : history.getLast? = some ancestor) :
    ancestor = (m.chain.slot ancestorHeight).header := by
  unfold loadHistory at h
  cases hload : m.headerStorage.loadHeaders (ancestorHeight - dgwHistory) (ancestorHeight + 1) with
  | error e => simp [hload] at h
  | ok headers =>
    obtain ⟨hle, rfl⟩ := loadHeaders_ok hload
    simp only [hload] at h
    split_ifs at h
    rw [← Except.ok.inj h] at hlast
    have hlen : ancestorHeight + 1 - (ancestorHeight - dgwHistory) =
        ancestorHeight - (ancestorHeight - dgwHistory) + 1 := by omega
    rw [hlen, range_succ, map_append, map_singleton, getLast?_concat, Option.some.injEq] at hlast
    rw [← hlast, Nat.add_sub_cancel' (by omega)]
    rfl

theorem loadActiveExtension_ok {extension : List Header}
    (h : m.loadActiveExtension ancestorHeight = .ok extension) :
    (∃ tip, m.chain.tip = some tip ∧ ancestorHeight ≤ tip) ∧
      extension = activeAbove m.chain ancestorHeight := by
  unfold loadActiveExtension at h
  cases htip : m.headerStorage.getTipHeight with
  | none => simp [htip] at h
  | some tip =>
    simp only [htip] at h
    cases hload : m.headerStorage.loadHeaders (ancestorHeight + 1) (tip + 1) with
    | error e => simp [hload, Except.mapError] at h
    | ok headers =>
      obtain ⟨hle, rfl⟩ := loadHeaders_ok hload
      simp only [hload, Except.mapError, Except.ok.injEq] at h
      have htip' : m.chain.tip = some tip := htip
      refine ⟨⟨tip, htip', by omega⟩, ?_⟩
      rw [← h, activeAbove, htip', getD_some, Nat.add_sub_add_right]
      rfl

/-! ### Quiet changes -/

/-- No stored header is touched, no branch is added, and the pending candidate stays. -/
structure Quiet (m m' : BlockHeadersManager blockHash noBlock) : Prop where
  chain : m'.chain = m.chain
  branches : ∀ branch ∈ m'.branches, branch ∈ m.branches
  pending : m'.pendingForkCandidate = m.pendingForkCandidate
  pipeline : m.pipeline.Hashed blockHash → m'.pipeline.Hashed blockHash

/-- A quiet change that leaves the header store and the positions of the pipeline alone. -/
structure Steady (m m' : BlockHeadersManager blockHash noBlock) : Prop where
  storage : m'.headerStorage = m.headerStorage
  branches : ∀ branch ∈ m'.branches, branch ∈ m.branches
  pending : m'.pendingForkCandidate = m.pendingForkCandidate
  pipeline : m.pipeline.Idle m'.pipeline

theorem Steady.refl (m : BlockHeadersManager blockHash noBlock) : Steady m m :=
  ⟨rfl, fun _ h => h, rfl, .refl _⟩

theorem Steady.trans {m₁ m₂ m₃ : BlockHeadersManager blockHash noBlock} (h : Steady m₁ m₂)
    (h' : Steady m₂ m₃) : Steady m₁ m₃ where
  storage := h'.storage.trans h.storage
  branches := fun branch hb => h.branches branch (h'.branches branch hb)
  pending := h'.pending.trans h.pending
  pipeline := h.pipeline.trans h'.pipeline

theorem Steady.quiet (h : Steady m m') : Quiet m m' where
  chain := congrArg PersistentBlockHeaderStorage.chain h.storage
  branches := h.branches
  pending := h.pending
  pipeline := fun hp => hp.idle h.pipeline

variable {pipeline : HeadersPipeline}

theorem steady_pipeline (h : m.pipeline.Idle pipeline) :
    Steady m { m with pipeline } :=
  ⟨rfl, fun _ hb => hb, rfl, h⟩

/-- A change of the pipeline that keeps its buffered headers. -/
theorem quiet_pipeline (h : m.pipeline.Hashed blockHash → pipeline.Hashed blockHash) :
    Quiet m { m with pipeline } :=
  ⟨rfl, fun _ hb => hb, rfl, h⟩

section

variable (m) (env : Env)

theorem steady_requestFromTip (call : Nat) :
    Steady m (m.requestFromTip env call).1 := by
  unfold requestFromTip
  have hreset : Steady m { m with pipeline := m.pipeline.resetTipSegment.1 } :=
    steady_pipeline (.reopened _)
  dsimp only
  split
  · exact hreset
  · exact hreset.trans (steady_pipeline (idle_sendPending _ _ _ _))

theorem steady_finishSync (events : List SyncEvent) :
    Steady m (m.finishSync env events).1 := by
  unfold finishSync
  split_ifs
  · exact m.steady_requestFromTip env 1
  · split
    · exact .refl m
    · exact ⟨rfl, fun _ hb => hb, rfl, .refl _⟩

theorem steady_expire (now : Nat) : Steady m (m.expire now) := by
  have hcommon : Steady m
      { m with
        pipeline := m.pipeline.handleTimeouts now
        forkBuffer := m.forkBuffer.expireStale now forkBufferTtl } :=
    ⟨rfl, fun _ hb => mem_values_filter hb, rfl,
      idle_map fun _ => ⟨_, rfl⟩⟩
  unfold expire
  dsimp only
  split_ifs
  · split
    · exact hcommon.trans ⟨rfl, fun _ hb => hb, rfl, .refl _⟩
    · exact hcommon.trans ⟨rfl, fun _ hb => hb, rfl, .refl _⟩
  · split
    · exact hcommon.trans ⟨rfl, fun _ hb => hb, rfl, .refl _⟩
    · exact hcommon

theorem steady_requestOnTick (events : List SyncEvent) :
    Steady m (m.requestOnTick env events).1 := by
  unfold requestOnTick
  split
  · exact steady_pipeline (idle_sendPending _ _ _ _)
  · dsimp only
    split_ifs
    · have hrequest := m.steady_requestFromTip env 0
      split
      · next heq =>
        rw [heq] at hrequest
        exact hrequest
      · next heq =>
        rw [heq] at hrequest
        exact hrequest.trans ⟨rfl, fun _ hb => hb, rfl, .refl _⟩
    · exact .refl m
  · exact .refl m

theorem steady_handleInventory (hashes : List BlockHash) (now : Nat) :
    Steady m (m.handleInventory hashes now) := by
  unfold handleInventory
  induction hashes generalizing m with
  | nil => exact .refl m
  | cons hash rest ih =>
    rw [foldl_cons]
    refine Steady.trans ?_ (ih _)
    split_ifs
    · exact .refl m
    · exact .refl m
    · exact ⟨rfl, fun _ hb => hb, rfl, .refl _⟩

theorem steady_startSync : Steady m (m.startSync env).1 := by
  have hstate : Steady m { m with progress := { m.progress with state := .syncing } } :=
    ⟨rfl, fun _ hb => hb, rfl, .refl _⟩
  unfold startSync
  dsimp only
  split_ifs with _ hfresh
  · exact .refl m
  · split
    · exact hstate
    · split
      · exact ⟨rfl, fun _ hb => hb, rfl, .cut hfresh _ _ _⟩
      · exact ⟨rfl, fun _ hb => hb, rfl,
          (HeadersPipeline.Idle.cut hfresh _ _ _).trans (idle_sendPending _ _ _ _)⟩
  · exact hstate.trans (steady_requestFromTip _ env 0)

theorem steady_peerConnected (address : SocketAddr) (accepted : Bool) :
    Steady m (m.peerConnected address accepted).1 := by
  unfold peerConnected
  split
  · split
    · exact .refl m
    · exact .refl m
    · split
      · exact ⟨rfl, fun _ hb => hb, rfl, .refl _⟩
      · exact .refl m
  · exact .refl m

theorem steady_peerDisconnected (address : SocketAddr) : Steady m (m.peerDisconnected address) :=
  ⟨rfl, fun _ hb => mem_values_filter hb, rfl, .refl _⟩

theorem steady_updateTarget (bestHeight : Option Nat) :
    Steady m (match bestHeight with
      | some height => { m with progress := m.progress.updateTargetHeight height }
      | none => m) := by
  cases bestHeight with
  | none => exact .refl m
  | some height => exact ⟨rfl, fun _ hb => hb, rfl, .refl _⟩

theorem steady_peersUpdated (connectedCount : Nat) (bestHeight : Option Nat) :
    Steady m (m.peersUpdated env connectedCount bestHeight).1 := by
  unfold peersUpdated
  have htarget := steady_updateTarget m bestHeight
  dsimp only
  split_ifs
  · exact htarget.trans ⟨rfl, fun _ hb => hb, rfl,
      idle_map fun _ => ⟨_, rfl⟩⟩
  · exact htarget.trans (steady_startSync _ env)
  · exact htarget.trans (steady_requestFromTip _ env 0)
  · exact htarget

end

/-! ### Storing -/

variable {headers : List HashedBlockHeader}

theorem validateHeaders_ok {prev : Option HashedBlockHeader}
    {i : Nat} (h : validateHeaders prev headers i = .ok ()) :
    headers.IsChain Follows ∧ ∀ p ∈ prev, ∀ first ∈ headers.head?, Follows p first := by
  induction headers generalizing prev i with
  | nil => exact ⟨.nil, by simp⟩
  | cons header rest ih =>
    rw [validateHeaders] at h
    split_ifs at h with hprev hpow
    obtain ⟨hchain, hhead⟩ := ih h
    refine ⟨isChain_cons.mpr ⟨hhead header rfl, hchain⟩, ?_⟩
    intro p hp first hfirst
    obtain rfl := mem_some_iff.mp hfirst
    by_contra hne
    exact hprev (by simpa [mem_def.mp hp, Follows] using hne)

/-- A property of managers that survives quiet changes and the appending of linked headers.
It has to know that the pipeline's headers carry their hashes. -/
structure Stable (P : BlockHeadersManager blockHash noBlock → Prop) : Prop where
  pipeline : ∀ {m}, P m → m.pipeline.Hashed blockHash
  quiet : ∀ {m m'}, Quiet m m' → P m → P m'
  append : ∀ {m tip headers}, P m → m.chain.tip = some tip → headers.IsChain Follows →
    AllHashed blockHash headers → (∀ first ∈ headers.head?, Follows (m.chain.slot tip) first) →
    P (m.appendHeaders headers)

variable {P : BlockHeadersManager blockHash noBlock → Prop}

section

variable (hP : Stable P)
include hP

theorem Stable.storeHeaders {tip : Nat}
    (hm : P m) (htip : m.chain.tip = some tip) (hhashed : AllHashed blockHash headers)
    (hfirst : ∀ first ∈ headers.head?, Follows (m.chain.slot tip) first) :
    P (m.storeHeaders headers).1 := by
  unfold BlockHeadersManager.storeHeaders
  split
  · exact hm
  · next hvalid =>
    have happend := hP.append hm htip (validateHeaders_ok hvalid).1 hhashed hfirst
    dsimp only
    split
    · exact happend
    · exact hP.quiet (m := m.appendHeaders headers) ⟨rfl, fun _ hb => hb, rfl, id⟩ happend

/-- Storing released batches, each of which is checked against the tip. -/
theorem Stable.storeBatches {batches : List (Nat × List HashedBlockHeader)}
    (hbatches : ∀ batch ∈ batches, AllHashed blockHash batch.2) (events : List SyncEvent)
    (hm : P m) : P (storeBatches batches m events).1 := by
  induction batches generalizing m events with
  | nil => exact hm
  | cons batch rest ih =>
    obtain ⟨height, headers⟩ := batch
    have hrest := fun b hb => hbatches b (mem_cons_of_mem (height, headers) hb)
    cases headers with
    | nil => exact ih hrest events hm
    | cons first others =>
      have hhashed : AllHashed blockHash (first :: others) := hbatches _ mem_cons_self
      unfold BlockHeadersManager.storeBatches
      split
      · exact hm
      · next tip htip =>
        obtain ⟨hheight, hheader⟩ := tip_ok htip
        split_ifs with hbreak
        · exact hm
        · dsimp only
          -- the announcements of the batch are dropped first
          have hquiet : P { m with
              pendingAnnouncements := m.pendingAnnouncements.filter fun hash _ =>
                hash ∉ (first :: others).map HashedBlockHeader.hash } :=
            hP.quiet (m := m) ⟨rfl, fun _ hb => hb, rfl, id⟩ hm
          have hfirst : ∀ f ∈ (first :: others).head?, Follows (m.chain.slot tip.height) f := by
            intro f hf
            obtain rfl := mem_some_iff.mp hf
            rw [← hheader]
            exact not_not.mp hbreak
          have hstored := hP.storeHeaders hquiet hheight hhashed hfirst
          split
          · next heq =>
            rw [heq] at hstored
            exact hstored
          · next m' newTip heq =>
            rw [heq] at hstored
            exact ih hrest _ (hP.quiet (m := m') ⟨rfl, fun _ hb => hb, rfl, id⟩ hstored)

theorem Stable.finishSyncIf (done : Prop) [Decidable done] (env : Env)
    (events : List SyncEvent) (hm : P m) :
    P (if done then m.finishSync env events else (m, .ok events)).1 := by
  split_ifs
  · exact hP.quiet (m.steady_finishSync env events).quiet hm
  · exact hm

/-- A batch that goes through the pipeline. -/
theorem Stable.receiveThroughPipeline (env : Env) (headers : List Header)
    (hm : P m) : P (m.receiveThroughPipeline env headers).1 := by
  have hp := hP.pipeline hm
  unfold BlockHeadersManager.receiveThroughPipeline
  dsimp only
  have hrecv := hp.receiveHeaders env.now headers
  split
  · next heq =>
    rw [heq] at hrecv
    exact hP.quiet (quiet_pipeline fun _ => hrecv) hm
  · next pipeline _ heq =>
    rw [heq] at hrecv
    have hsend : (if m.progress.state = .syncing ∨ m.pipeline.isTipComplete = false then
        pipeline.sendPending env.now (env.accepts 0) [] else (pipeline, .ok [])).1.Hashed
          blockHash := by
      split_ifs
      · exact HeadersPipeline.Hashed.sendPending hrecv _ _ _
      · exact hrecv
    split
    · next heq =>
      rw [heq] at hsend
      exact hP.quiet (quiet_pipeline fun _ => hsend) hm
    · next pipeline _ heq =>
      rw [heq] at hsend
      obtain ⟨htaken, hready⟩ := HeadersPipeline.Hashed.takeReadyToStore hsend
      have hstored := hP.storeBatches hready [] (hP.quiet (quiet_pipeline fun _ => htaken) hm)
      split
      · next heq =>
        rw [heq] at hstored
        exact hstored
      · next m' events heq =>
        rw [heq] at hstored
        have hmarked : P (if ¬ m.progress.state = .syncing ∧ m.pipeline.isTipComplete = true ∧
            events ≠ [] then { m' with pipeline := m'.pipeline.markTipComplete } else m') := by
          split_ifs
          · exact hP.quiet (quiet_pipeline fun h => h.markTipComplete) hstored
          · exact hstored
        exact hP.finishSyncIf _ env events hmarked

end

/-! ### Forks -/

/-- A branch made of a batch that continues the stored header at a height. -/
structure ForkedAt (blockHash : Header → BlockHash) (chain : HeightMap HashedBlockHeader)
    (batch : List Header) (height : Nat) (branch : BufferedBranch) : Prop where
  ancestorHeight : branch.ancestorHeight = height
  headers : branch.headers = batch.map (.ofHeader blockHash)
  isChain : (HashedBlockHeader.ofHeader blockHash (chain.slot height).header ::
    branch.headers).IsChain Follows
  totalWork : branch.totalWork = ChainWork.accumulate 0 batch
  stored : ∃ tip, chain.tip = some tip ∧ height ≤ tip

/-- A branch made of an old one and a batch that continues it. -/
structure Continues (blockHash : Header → BlockHash) (batch : List Header)
    (old branch : BufferedBranch) : Prop where
  ancestorHeight : branch.ancestorHeight = old.ancestorHeight
  headers : branch.headers = old.headers ++ batch.map (.ofHeader blockHash)
  isChain : (HashedBlockHeader.ofHeader blockHash (old.headers.getLast old.nonempty).header ::
    batch.map (.ofHeader blockHash)).IsChain Follows
  totalWork : branch.totalWork = old.totalWork + ChainWork.accumulate 0 batch

/-- A fork batch was handled: branches are old or `New`, and a branch is promoted only if it
outweighs the active headers above `height`. -/
structure Staged (height : Nat) (New : BufferedBranch → Prop)
    (m m' : BlockHeadersManager blockHash noBlock) : Prop where
  storage : m'.headerStorage = m.headerStorage
  pipeline : m'.pipeline = m.pipeline
  branches : ∀ branch ∈ m'.branches, branch ∈ m.branches ∨ New branch
  pending : m'.pendingForkCandidate = m.pendingForkCandidate ∨
    ∃ branch, (branch ∈ m.branches ∨ New branch) ∧
      ChainWork.accumulate 0 (activeAbove m.chain height) < branch.totalWork ∧
      m'.pendingForkCandidate = some branch.toCandidate

variable {New : BufferedBranch → Prop} {height : Nat}

theorem Staged.chain (h : Staged height New m m') :
    m'.chain = m.chain :=
  congrArg PersistentBlockHeaderStorage.chain h.storage

theorem Staged.refl : Staged height New m m :=
  ⟨rfl, rfl, fun _ h => .inl h, .inl rfl⟩

variable {peer : SocketAddr} {env : Env} {headers extension : List Header}

/-- Buffering changes the fork buffer and its index only. -/
theorem bufferFork_spec (h : m.bufferFork env peer headers height = .ok (m', extension)) :
    extension = activeAbove m.chain height ∧
      ∃ forkBuffer forkTipIndex, m' = { m with forkBuffer, forkTipIndex } ∧
        ∀ branch ∈ forkBuffer.branches.values,
          branch ∈ m.branches ∨ ForkedAt blockHash m.chain headers height branch := by
  obtain ⟨history, hhistory, h⟩ := bind_eq_ok h
  split at h
  · cases h
  · next ancestor hlast =>
    have hancestor := loadHistory_getLast hhistory hlast
    obtain ⟨extension', hextension, h⟩ := bind_eq_ok h
    obtain ⟨hstored, hactive⟩ := loadActiveExtension_ok hextension
    obtain ⟨forkBuffer, hingest, h⟩ := bind_eq_ok h
    obtain ⟨rfl, rfl⟩ := Prod.mk.inj (Except.ok.inj h)
    refine ⟨hactive, forkBuffer, _, rfl, ?_⟩
    intro branch hbranch
    rcases ingest_spec hingest with rfl | ⟨new, rfl, hheight, hhdrs, hchain, hwork⟩
    · exact .inl hbranch
    · rcases mem_put hbranch with rfl | hold
      · exact .inr ⟨hheight, hhdrs, hancestor ▸ hchain, hwork, hstored⟩
      · exact .inl hold

theorem bufferExtension_spec {prevTipHash : BlockHash}
    (h : m.bufferExtension env peer prevTipHash height headers = .ok (m', extension)) :
    extension = activeAbove m.chain height ∧
      ∃ forkBuffer forkTipIndex, m' = { m with forkBuffer, forkTipIndex } ∧
        ∀ branch ∈ forkBuffer.branches.values,
          branch ∈ m.branches ∨ ∃ old ∈ m.branches, Continues blockHash headers old branch := by
  obtain ⟨history, hhistory, h⟩ := bind_eq_ok h
  obtain ⟨extension', hextension, h⟩ := bind_eq_ok h
  obtain ⟨-, hactive⟩ := loadActiveExtension_ok hextension
  obtain ⟨⟨forkBuffer, update⟩, hextend, h⟩ := bind_eq_ok h
  obtain ⟨rfl, rfl⟩ := Prod.mk.inj (Except.ok.inj h)
  refine ⟨hactive, forkBuffer, _, rfl, ?_⟩
  intro branch hbranch
  obtain ⟨old, hold, new, rfl, hheight, hhdrs, hchain, hwork⟩ :=
    extendBranch_spec hextend
  rcases mem_put hbranch with rfl | hkept
  · exact .inr ⟨old, hold, hheight, hhdrs, hchain, hwork⟩
  · exact .inl (mem_values_erase hkept)

/-- The promotion after a batch was buffered. -/
theorem staged_promoteWinner (env : Env)
    {forkBuffer : ForkBuffer} {forkTipIndex : SortedMap BlockHash Nat}
    (hbranches : ∀ branch ∈ forkBuffer.branches.values, branch ∈ m.branches ∨ New branch) :
    Staged height New m
      (promoteWinner { m with forkBuffer, forkTipIndex } env (activeAbove m.chain height)) := by
  unfold promoteWinner
  rcases takeWinningCandidate_spec forkBuffer env.order
      (ChainWork.accumulate 0 (activeAbove m.chain height)) with
    heq | ⟨branch, hbranch, key, hwork, heq⟩
  · simp only [heq]
    exact ⟨rfl, rfl, hbranches, .inl rfl⟩
  · simp only [heq]
    refine ⟨rfl, rfl, ?_, .inr ⟨branch, hbranches branch hbranch, hwork, rfl⟩⟩
    intro other hother
    exact hbranches other (mem_values_erase hother)

section

variable (m : BlockHeadersManager blockHash noBlock)

theorem ingestFork_staged (env : Env)
    (peer : SocketAddr) (headers : List Header) (height : Nat) :
    Staged height (ForkedAt blockHash m.chain headers height) m
      (m.ingestFork env peer headers height).1 := by
  unfold ingestFork
  split_ifs
  · have hside : ∃ sideHeaders, m.flagSideHeaders headers height = { m with sideHeaders } :=
      ⟨_, rfl⟩
    obtain ⟨sideHeaders, heq⟩ := hside
    rw [heq]
    exact ⟨rfl, rfl, fun _ h => .inl h, .inl rfl⟩
  · cases hbuffer : m.bufferFork env peer headers height with
    | error e => exact .refl
    | ok result =>
      obtain ⟨m', extension⟩ := result
      obtain ⟨rfl, forkBuffer, forkTipIndex, rfl, hbranches⟩ := bufferFork_spec hbuffer
      exact staged_promoteWinner env hbranches

theorem extendFork_staged (env : Env)
    (peer : SocketAddr) (prevTipHash : BlockHash) (height : Nat) (headers : List Header) :
    Staged height (fun branch => ∃ old ∈ m.branches, Continues blockHash headers old branch) m
      (m.extendFork env peer prevTipHash height headers).1 := by
  unfold extendFork
  split_ifs
  · exact .refl
  · exact .refl
  · split
    · exact .refl
    · next hbuffer =>
      obtain ⟨rfl, forkBuffer, forkTipIndex, rfl, hbranches⟩ := bufferExtension_spec hbuffer
      exact staged_promoteWinner env hbranches

/-! ### Reorgs -/

/-- Whether the cascade would run for a candidate: no guard stops it. -/
def admits (candidate : ForkCandidate)
    (force : Bool) : Bool :=
  match m.tip with
  | .error _ => false
  | .ok tip => m.cascade.Admits (m.reorgContext tip force) candidate

end

variable [DecidableEq Block] in
/-- A driven reorg touches neither branches nor pipeline. The chain changes only if the
candidate was admitted, and then it is cut at the ancestor and continued by the fork. -/
theorem driveReorg_spec (m : BlockHeadersManager blockHash noBlock) (candidate : ForkCandidate)
    (force : Bool) :
    ∃ reorgState reorgGeneration storages,
      (m.driveReorg candidate force).1 = { m with reorgState, reorgGeneration, storages } ∧
      (storages.blockHeaderStorage = m.headerStorage ∨
        m.admits candidate force = true ∧
          storages.blockHeaderStorage.chain = rewrittenChain blockHash m.chain candidate) := by
  unfold driveReorg admits
  cases htip : m.tip with
  | error e => exact ⟨_, _, _, rfl, .inl rfl⟩
  | ok tip =>
    refine ⟨_, _, _, rfl, ?_⟩
    rcases handleReorg_headers (m.reorgContext tip force) candidate m.cascade with
      hsame | ⟨hadmits, hchain⟩
    · exact .inl hsame
    · exact .inr ⟨decide_eq_true hadmits, hchain⟩

/-- The forced branch was buffered, and taking it changes nothing else. -/
theorem forcedBranch_spec {candidate : ForkCandidate}
    (h : m.forcedBranch env = some (m', candidate)) :
    Steady m m' ∧ ∃ branch ∈ m.branches, candidate = branch.toCandidate := by
  unfold forcedBranch at h
  split at h
  · cases h
  · next cl _ =>
    rcases takeBranchByTip_spec m.forkBuffer env.order cl.blockHash with
      heq | ⟨branch, hbranch, key, heq⟩
    · simp [heq] at h
    · simp only [heq, Option.some.injEq, Prod.mk.injEq] at h
      obtain ⟨rfl, rfl⟩ := h
      exact ⟨⟨rfl, fun _ hb => mem_values_erase hb, rfl, .refl _⟩, branch, hbranch, rfl⟩

/-- A call of `driveReorg`: the manager that makes it, and its arguments. -/
structure DriveCall (blockHash : Header → BlockHash) {Block : Type} (noBlock : Block) where
  manager : BlockHeadersManager blockHash noBlock
  candidate : ForkCandidate
  force : Bool

section

variable (m : BlockHeadersManager blockHash noBlock)

/-- The route of a batch; an empty one goes to the pipeline. -/
def routeOf : List Header → HeadersRoute
  | [] => .pipeline
  | first :: _ =>
    match m.headerStorage.getTipHeight with
    | none => .pipeline
    | some tipHeight => m.routeHeaders first.prevBlockhash tipHeight

/-- The handling of a batch that is a fork or continues one, up to the forced reorg. -/
def stagedBatch (env : Env) (peer : SocketAddr) :
    List Header → Option (BlockHeadersManager blockHash noBlock × Except SyncError Unit)
  | [] => none
  | first :: rest =>
    match m.headerStorage.getTipHeight with
    | none => none
    | some tipHeight =>
      match m.routeHeaders first.prevBlockhash tipHeight with
      | .fork height => some (m.ingestFork env peer (first :: rest) height)
      | .continuation height =>
        some (m.extendFork env peer first.prevBlockhash height (first :: rest))
      | .pipeline => none

end

variable {r : BlockHeadersManager blockHash noBlock × Except SyncError Unit} {headers : List Header}

section

variable (h : m.stagedBatch env peer headers = some r)
include h

/-- A staged batch is a new fork, or continues one. -/
theorem stagedBatch_cases :
    ∃ first rest height, headers = first :: rest ∧
      (m.routeOf headers = .fork height ∧ r = m.ingestFork env peer headers height ∨
        m.routeOf headers = .continuation height ∧
          r = m.extendFork env peer first.prevBlockhash height headers) := by
  cases headers with
  | nil => cases h
  | cons first rest =>
    simp only [stagedBatch] at h
    split at h
    · cases h
    · next htip =>
      simp only [routeOf, htip]
      split at h
      · next height hroute => exact ⟨first, rest, height, rfl, .inl ⟨hroute, (Option.some.inj h).symm⟩⟩
      · next height hroute => exact ⟨first, rest, height, rfl, .inr ⟨hroute, (Option.some.inj h).symm⟩⟩
      · cases h

theorem staged_stagedBatch : ∃ height New, Staged height New m r.1 := by
  obtain ⟨first, rest, height, -, ⟨-, rfl⟩ | ⟨-, rfl⟩⟩ := stagedBatch_cases h
  · exact ⟨_, _, m.ingestFork_staged env peer headers height⟩
  · exact ⟨_, _, m.extendFork_staged env peer first.prevBlockhash height headers⟩

end

/-- The call an action makes, if it makes one: a tick for the pending candidate, a batch for
a branch that a chainlock forces. -/
def driven (m : BlockHeadersManager blockHash noBlock) :
    HeadersAction → Option (DriveCall blockHash noBlock)
  | .tick env =>
    if m.pipeline.initialized = false then none
    else
      m.pendingForkCandidate.map fun candidate =>
        ⟨{ m.expire env.now with pendingForkCandidate := none }, candidate, false⟩
  | .headers env peer headers =>
    if m.pipeline.initialized = false then none
    else
      match m.stagedBatch env peer headers with
      | some (m, .ok ()) => (m.forcedBranch env).map fun (m, candidate) => ⟨m, candidate, true⟩
      | _ => none
  | _ => none

variable {call : DriveCall blockHash noBlock} {action : HeadersAction}

/-- A reorg is driven on a tick, for the pending candidate, or after a staged batch, for the
branch that a chainlock forces. -/
theorem driven_cases (h : m.driven action = some call) : m.pipeline.initialized = true ∧
    ((∃ env candidate, action = .tick env ∧ m.pendingForkCandidate = some candidate ∧
      call = ⟨{ m.expire env.now with pendingForkCandidate := none }, candidate, false⟩) ∨
    ∃ env peer headers m' m'' candidate, action = .headers env peer headers ∧
      m.stagedBatch env peer headers = some (m', .ok ()) ∧
      m'.forcedBranch env = some (m'', candidate) ∧ call = ⟨m'', candidate, true⟩) := by
  cases action with
  | tick env =>
    simp only [driven] at h
    split_ifs at h with hinit
    obtain ⟨candidate, hpend, rfl⟩ := map_eq_some_iff.mp h
    exact ⟨Bool.not_eq_false _ ▸ hinit, .inl ⟨env, candidate, rfl, hpend, rfl⟩⟩
  | headers env peer headers =>
    simp only [driven] at h
    split_ifs at h with hinit
    split at h
    · next m' hstaged =>
      obtain ⟨⟨m'', candidate⟩, hforced, rfl⟩ := map_eq_some_iff.mp h
      exact ⟨Bool.not_eq_false _ ▸ hinit,
        .inr ⟨env, peer, headers, m', m'', candidate, rfl, hstaged, hforced, rfl⟩⟩
    · cases h
  | _ => cases h

/-! ### One action -/

variable [DecidableEq Block]

section

variable (m : BlockHeadersManager blockHash noBlock)

theorem handleHeadersPipeline_cases (env : Env)
    (peer : SocketAddr) (headers : List Header) :
    m.pipeline.initialized = false ∧ (m.handleHeadersPipeline env peer headers).1 = m ∨
    m.stagedBatch env peer headers = none ∧
      ((m.handleHeadersPipeline env peer headers).1 = m ∨ m.routeOf headers = .pipeline ∧
        (m.handleHeadersPipeline env peer headers).1 = (m.receiveThroughPipeline env headers).1) ∨
    m.pipeline.initialized = true ∧ ∃ r, m.stagedBatch env peer headers = some r ∧
      m.handleHeadersPipeline env peer headers = driveForcedAfter r env := by
  unfold handleHeadersPipeline
  cases hinit : m.pipeline.initialized with
  | false => exact .inl ⟨rfl, rfl⟩
  | true =>
    cases headers with
    | nil => exact .inr (.inl ⟨rfl, .inr ⟨rfl, rfl⟩⟩)
    | cons first rest =>
      simp only [Bool.true_eq_false, if_false, stagedBatch, routeOf]
      cases htip : m.headerStorage.getTipHeight with
      | none => exact .inr (.inl ⟨rfl, .inl rfl⟩)
      | some tipHeight =>
        dsimp only
        cases hroute : m.routeHeaders first.prevBlockhash tipHeight with
        | fork height | continuation height => exact .inr (.inr ⟨trivial, _, rfl, rfl⟩)
        | pipeline => exact .inr (.inl ⟨rfl, .inr ⟨rfl, rfl⟩⟩)

/-- After a forced branch was looked for: nothing was found, or the reorg was driven. -/
theorem driveForcedAfter_cases (env : Env) :
    (m.forcedBranch env = none ∧ (driveForcedAfter (m, .ok ()) env).1 = m) ∨
    ∃ m' candidate, m.forcedBranch env = some (m', candidate) ∧
      Steady (m'.driveReorg candidate true).1 (driveForcedAfter (m, .ok ()) env).1 := by
  cases hforced : m.forcedBranch env with
  | none => exact .inl ⟨rfl, by simp only [driveForcedAfter, tryDriveForcedReorg, hforced]⟩
  | some found =>
    obtain ⟨m', candidate⟩ := found
    refine .inr ⟨m', candidate, rfl, ?_⟩
    simp only [driveForcedAfter, tryDriveForcedReorg, hforced]
    cases hdrive : m'.driveReorg candidate true with
    | mk driven result =>
      cases result with
      | error e => exact .refl driven
      | ok event => exact ⟨rfl, fun _ hb => hb, rfl, .refl _⟩

end

theorem handleHeadersPipeline_of_staged (hinit : m.pipeline.initialized = true)
    (h : m.stagedBatch env peer headers = some r) :
    m.handleHeadersPipeline env peer headers = driveForcedAfter r env := by
  rcases m.handleHeadersPipeline_cases env peer headers with
    ⟨hnot, -⟩ | ⟨hnone, -⟩ | ⟨-, r', hr', heq⟩
  · simp [hinit] at hnot
  · simp [hnone] at h
  · rw [heq, mem_unique hr' h]

/-- An action that drives a reorg does nothing else of note. -/
theorem steady_step_of_driven (h : m.driven action = some call) :
    Steady (call.manager.driveReorg call.candidate call.force).1 (m.step action) := by
  obtain ⟨hinit, ⟨env, candidate, rfl, hpend, rfl⟩ |
    ⟨env, peer, headers, m', m'', candidate, rfl, hstaged, hforced, rfl⟩⟩ := driven_cases h
  · simp only [BlockHeadersManager.step, tick, hinit, drivePending,
      (m.steady_expire env.now).pending, hpend]
    cases hdrive : driveReorg { m.expire env.now with pendingForkCandidate := none } candidate
        false with
    | mk driven result =>
      cases result with
      | error e => exact .refl driven
      | ok event => exact driven.steady_requestOnTick env event.toList
  · rw [BlockHeadersManager.step, handleHeadersPipeline_of_staged hinit hstaged]
    rcases m'.driveForcedAfter_cases env with ⟨hnone, -⟩ | ⟨_, _, hsome, hsteady⟩
    · simp [hforced] at hnone
    · simp only [hforced, Option.some.injEq, Prod.mk.injEq] at hsome
      obtain ⟨rfl, rfl⟩ := hsome
      exact hsteady

/-- What an action does: it is steady, sends a batch through the pipeline, stages a fork, or
drives a reorg. -/
theorem step_cases (m : BlockHeadersManager blockHash noBlock) (action : HeadersAction) :
    Steady m (m.step action) ∨
    (∃ env peer headers, action = .headers env peer headers ∧ m.routeOf headers = .pipeline ∧
      m.step action = (m.receiveThroughPipeline env headers).1) ∨
    (∃ env peer headers r, action = .headers env peer headers ∧
      m.stagedBatch env peer headers = some r ∧ m.step action = r.1) ∨
    ∃ call, m.driven action = some call ∧
      Steady (call.manager.driveReorg call.candidate call.force).1 (m.step action) := by
  cases action with
  | headers env peer headers =>
    simp only [BlockHeadersManager.step, driven]
    rcases m.handleHeadersPipeline_cases env peer headers with
      ⟨-, hsame⟩ | ⟨-, hsame | ⟨hroute, hstored⟩⟩ | ⟨hinit, r, hstaged, heq⟩
    · exact .inl (by rw [hsame]; exact .refl m)
    · exact .inl (by rw [hsame]; exact .refl m)
    · exact .inr (.inl ⟨env, peer, headers, rfl, hroute, hstored⟩)
    · obtain ⟨m', result⟩ := r
      rw [heq, hstaged, hinit]
      cases result with
      | error e => exact .inr (.inr (.inl ⟨env, peer, headers, _, rfl, hstaged, rfl⟩))
      | ok u =>
        rcases m'.driveForcedAfter_cases env with ⟨-, hnone⟩ | ⟨m'', candidate, hforced, hsteady⟩
        · exact .inr (.inr (.inl ⟨env, peer, headers, _, rfl, hstaged, hnone⟩))
        · refine .inr (.inr (.inr ⟨⟨m'', candidate, true⟩, ?_, hsteady⟩))
          simp [hforced]
  | inventory hashes now => exact .inl (m.steady_handleInventory hashes now)
  | tick env =>
    simp only [BlockHeadersManager.step, driven, tick]
    cases hinit : m.pipeline.initialized with
    | false => exact .inl (.refl m)
    | true =>
      simp only [Bool.true_eq_false, if_false, drivePending]
      rw [(m.steady_expire env.now).pending]
      cases hpend : m.pendingForkCandidate with
      | none =>
        exact .inl ((m.steady_expire env.now).trans (steady_requestOnTick _ env []))
      | some candidate =>
        have hdriven : m.driven (.tick env) =
            some ⟨{ m.expire env.now with pendingForkCandidate := none }, candidate, false⟩ := by
          simp [driven, hinit, hpend]
        have hsteady := steady_step_of_driven hdriven
        simp only [BlockHeadersManager.step, tick, hinit, drivePending,
          (m.steady_expire env.now).pending, hpend] at hsteady
        exact .inr (.inr (.inr ⟨_, rfl, hsteady⟩))
  | peerConnected address accepted => exact .inl (m.steady_peerConnected address accepted)
  | peerDisconnected address => exact .inl (m.steady_peerDisconnected address)
  | peersUpdated env connectedCount bestHeight =>
    exact .inl (m.steady_peersUpdated env connectedCount bestHeight)
  | chainLockForcedReorg | chainlockHeight => exact .inl ⟨rfl, fun _ hb => hb, rfl, .refl _⟩

end BlockHeadersManager

end Dashcore
