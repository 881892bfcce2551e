import Dashcore.Sync.BlockHeaders.Finality
import Dashcore.Sync.BlockHeaders.PipelineTip

/-!
# Following the chain after the initial sync

The tip segment of the pipeline keeps its own copy of the stored tip. Headers that go through
the pipeline move both. A reorg moves the store only, and a batch that fails validation moves
the segment only; after either of them the segment waits for headers that nobody will send.

Without such steps the copy agrees with the store in every run, whatever else happens to the
manager, disconnects and new downloads included. A batch that continues the stored tip is then
matched and stored.
-/

namespace Dashcore

open HeadersPipeline PersistentBlockHeaderStorage List

namespace BlockHeadersManager

variable {blockHash : Header → BlockHash} {Block : Type} {noBlock : Block}
  {m m' : BlockHeadersManager blockHash noBlock} {tip : BlockHeaderTip}

/-- The tip segment holds hash and height of the stored tip. -/
def TipAgrees (m : BlockHeadersManager blockHash noBlock) : Prop :=
  ∃ segment tip, m.pipeline.tipSegment = some segment ∧ m.tip = .ok tip ∧
    segment.currentTipHash = tip.header.hash ∧ segment.currentHeight = tip.height

/-- The pipeline only follows the stored tip, and the index leads to it. -/
structure FollowsTip (m : BlockHeadersManager blockHash noBlock) (tip : BlockHeaderTip) :
    Prop where
  read : m.tip = .ok tip
  pipeline : m.pipeline.AtTip tip.header.hash tip.height
  indexed : m.headerStorage.getHeaderHeightByHash tip.header.hash = some tip.height

/-- The manager follows the stored tip. -/
def Following (m : BlockHeadersManager blockHash noBlock) : Prop := ∃ tip, m.FollowsTip tip

theorem Following.tipAgrees (h : m.Following) : m.TipAgrees := by
  obtain ⟨tip, htip, ⟨cm, earlier, segment, next, hp, hearlier, htarget, -, hhash, hheight, -⟩, -⟩ := h
  refine ⟨segment, tip, ?_, htip, hhash, hheight⟩
  rw [hp]
  exact tipSegment_ending hearlier htarget

/-- Reading the tip depends on the store only. -/
theorem tip_congr (h : m'.headerStorage = m.headerStorage) : m'.tip = m.tip := by
  simp only [BlockHeadersManager.tip, h]

section

variable (h : m.FollowsTip tip)
include h

theorem FollowsTip.idle (hstorage : m'.headerStorage = m.headerStorage)
    (hidle : m.pipeline.Idle m'.pipeline) : m'.FollowsTip tip where
  read := (tip_congr hstorage).trans h.read
  pipeline := h.pipeline.idle hidle
  indexed := hstorage ▸ h.indexed

theorem FollowsTip.steady (hsteady : Steady m m') : m'.FollowsTip tip :=
  h.idle hsteady.storage hsteady.pipeline

theorem FollowsTip.finishSyncIf (done : Prop) [Decidable done] (env : Env)
    (events : List SyncEvent) :
    FollowsTip (if done then m.finishSync env events else (m, .ok events)).1 tip := by
  split_ifs
  · exact h.steady (m.steady_finishSync env events)
  · exact h

end

theorem finishSyncIf_storage (m : BlockHeadersManager blockHash noBlock) (done : Prop)
    [Decidable done] (env : Env) (events : List SyncEvent) :
    (if done then m.finishSync env events else (m, .ok events)).1.headerStorage =
      m.headerStorage := by
  split_ifs
  · exact (m.steady_finishSync env events).storage
  · rfl

/-! ### Storing a batch -/

variable {others : List HashedBlockHeader} {first : HashedBlockHeader}

/-- A valid batch after the stored tip becomes the end of the store. -/
theorem storeBatches_singleton (m : BlockHeadersManager blockHash noBlock)
    (htip : m.tip = .ok tip) (height : Nat) (hprev : first.header.prevBlockhash = tip.header.hash)
    (hvalid : validateHeaders none (first :: others) 0 = .ok ()) :
    ∃ m' events, storeBatches [(height, first :: others)] m [] = (m', .ok events) ∧ events ≠ [] ∧
      m'.headerStorage = m.headerStorage.storeHashedHeaders (first :: others) ∧
      m'.pipeline = m.pipeline := by
  have hheight : m.headerStorage.getTipHeight = some tip.height := (tip_ok htip).1
  have hread := getTip_storeHashedHeaders hheight
    (cons_ne_nil first others)
  simp only [storeBatches, htip, hprev, ne_eq, not_true_eq_false, if_false,
    BlockHeadersManager.storeHeaders, hvalid]
  have hstored : ∀ m₁ : BlockHeadersManager blockHash noBlock,
      m₁.headerStorage = m.headerStorage.storeHashedHeaders (first :: others) →
      m₁.tip = .ok ⟨tip.height + (first :: others).length, (first :: others).getLast
        (cons_ne_nil first others)⟩ := by
    intro m₁ hm₁
    simp only [BlockHeadersManager.tip, hm₁, hread]
  rw [hstored _ rfl]
  exact ⟨_, _, rfl, by simp, rfl, rfl⟩

/-- A store that was extended is followed if the segment was moved along. -/
theorem followsTip_append (htip : m.tip = .ok tip)
    (hstorage : m'.headerStorage = m.headerStorage.storeHashedHeaders (first :: others))
    (hpipeline : m'.pipeline.AtTip ((first :: others).getLast (cons_ne_nil first others)).hash
      (tip.height + (first :: others).length)) :
    m'.FollowsTip ⟨tip.height + (first :: others).length,
      (first :: others).getLast (cons_ne_nil first others)⟩ := by
  have hheight : m.headerStorage.getTipHeight = some tip.height := (tip_ok htip).1
  have hnext : m.headerStorage.blockHeaders.cache.nextHeight = tip.height + 1 := by
    have hheight' : m.headerStorage.blockHeaders.cache.tipHeight = some tip.height := hheight
    simp [SegmentCache.nextHeight, hheight']
  refine ⟨?_, hpipeline, ?_⟩
  · rw [BlockHeadersManager.tip, hstorage, getTip_storeHashedHeaders
      hheight (cons_ne_nil first others)]
  · rw [hstorage, getHeaderHeightByHash, storeHashedHeaders, indexHeaders_getLast, hnext]
    simp only [Option.some.injEq]
    omega

/-! ### Batches -/

/-- Whether a batch is followed by requests. -/
def SendsAfter (m : BlockHeadersManager blockHash noBlock) : Prop :=
  m.progress.state = .syncing ∨ m.pipeline.isTipComplete = false

instance (m : BlockHeadersManager blockHash noBlock) : Decidable m.SendsAfter :=
  inferInstanceAs (Decidable (_ ∨ _))

section

variable (m : BlockHeadersManager blockHash noBlock) (env : Env)

/-- The pipeline after the requests that follow a batch. -/
def sentAfter
    (pipeline : HeadersPipeline) : HeadersPipeline × Except SyncError (List (List BlockHash)) :=
  if m.SendsAfter then pipeline.sendPending env.now (env.accepts 0) [] else (pipeline, .ok [])

theorem idle_sentAfter
    (pipeline : HeadersPipeline) : pipeline.Idle (m.sentAfter env pipeline).1 := by
  unfold sentAfter
  split_ifs
  · exact pipeline.idle_sendPending _ _ _
  · exact .refl _

/-- What follows the storing of a batch: `m` is the manager before the batch, `m'` the one after
storing. -/
def finishBatch (m m' : BlockHeadersManager blockHash noBlock) (env : Env)
    (events : List SyncEvent) :
    BlockHeadersManager blockHash noBlock × Except SyncError (List SyncEvent) :=
  let m' := if ¬ m.progress.state = .syncing ∧ m.pipeline.isTipComplete = true ∧ events ≠ [] then
      { m' with pipeline := m'.pipeline.markTipComplete } else m'
  if m.progress.state = .syncing ∧ m'.pipeline.isComplete = true then m'.finishSync env events
  else (m', .ok events)

/-- What is done with a batch after the requests. -/
def storeReady (pipeline : HeadersPipeline) :
    BlockHeadersManager blockHash noBlock × Except SyncError (List SyncEvent) :=
  match storeBatches pipeline.takeReadyToStore.2
      { m with pipeline := pipeline.takeReadyToStore.1 } [] with
  | (m', .error e) => (m', .error e)
  | (m', .ok events) => finishBatch m m' env events

end

variable {headers : List Header} {env : Env} {id : Option Nat} {pipeline : HeadersPipeline}

theorem receiveThroughPipeline_of_ok
    (hreceive : m.pipeline.receiveHeaders blockHash env.now headers = (pipeline, .ok id)) :
    m.receiveThroughPipeline env headers =
      match m.sentAfter env pipeline with
      | (sent, .error e) => ({ m with pipeline := sent }, .error e)
      | (sent, .ok _) => m.storeReady env sent := by
  simp only [receiveThroughPipeline, hreceive]
  rfl

/-- Closing the tip segment and finishing the sync moves nothing. -/
theorem FollowsTip.finishBatch (h : m'.FollowsTip tip) (m : BlockHeadersManager blockHash noBlock)
    (env : Env) (events : List SyncEvent) :
    (finishBatch m m' env events).1.FollowsTip tip ∧
      (BlockHeadersManager.finishBatch m m' env events).1.headerStorage = m'.headerStorage := by
  have hmarked : ∀ (mark : Prop) [Decidable mark],
      FollowsTip (if mark then { m' with pipeline := m'.pipeline.markTipComplete } else m') tip ∧
        (if mark then { m' with pipeline := m'.pipeline.markTipComplete } else m').headerStorage =
          m'.headerStorage := by
    intro mark _
    split_ifs
    · exact ⟨⟨h.read, h.pipeline.markTipComplete, h.indexed⟩, rfl⟩
    · exact ⟨h, rfl⟩
  obtain ⟨hfollows, hstorage⟩ := hmarked (¬ m.progress.state = .syncing ∧
    m.pipeline.isTipComplete = true ∧ events ≠ [])
  exact ⟨hfollows.finishSyncIf _ env events, (finishSyncIf_storage _ _ env events).trans hstorage⟩

/-- A batch that leaves the pipeline where it stands stores nothing. -/
theorem FollowsTip.of_received (h : m.FollowsTip tip)
    (hreceive : m.pipeline.receiveHeaders blockHash env.now headers = (pipeline, .ok id))
    (hat : pipeline.AtTip tip.header.hash tip.height) :
    (m.receiveThroughPipeline env headers).1.FollowsTip tip := by
  have hsent := hat.idle (m.idle_sentAfter env pipeline)
  rw [receiveThroughPipeline_of_ok hreceive]
  cases hsend : m.sentAfter env pipeline with
  | mk sent result =>
    rw [hsend] at hsent
    have hm : FollowsTip { m with pipeline := sent } tip := ⟨h.read, hsent, h.indexed⟩
    cases result with
    | error e => exact hm
    | ok _ =>
      obtain ⟨cm, earlier, segment, next, rfl, hearlier, -, hdrained, -⟩ := hsent
      simp only [storeReady, takeReadyToStore_ending_of_drained hearlier hdrained, storeBatches]
      exact (hm.finishBatch m env []).1

/-- A batch that the tip segment has taken is stored if it is valid and no request fails in
between. -/
theorem FollowsTip.of_loaded (h : m.FollowsTip tip) {first : Header}
    {rest : List Header} {cm : CheckpointManager} {earlier : List SegmentState}
    {segment : SegmentState} {coordinator : DownloadCoordinator BlockHash}
    (hearlier : HeadersPipeline.Stored earlier) (htarget : segment.targetHeight = none)
    (hheight : segment.currentHeight = tip.height)
    (hreceive : m.pipeline.receiveHeaders blockHash env.now (first :: rest) =
      (.ending cm earlier (segment.loaded blockHash coordinator first rest) earlier.length, .ok id))
    (hprev : first.prevBlockhash = tip.header.hash)
    (hvalid : validateHeaders none ((first :: rest).map (.ofHeader blockHash)) 0 = .ok ())
    (haccepts : m.SendsAfter → env.accepts 0 0 = true) :
    (m.receiveThroughPipeline env (first :: rest)).1.Following ∧
      (m.receiveThroughPipeline env (first :: rest)).1.chain =
        m.chain.append ((first :: rest).map (.ofHeader blockHash)) := by
  -- the requests in between only touch the coordinator
  obtain ⟨coordinator', sent, hsend⟩ : ∃ coordinator' sent,
      m.sentAfter env (.ending cm earlier (segment.loaded blockHash coordinator first rest)
        earlier.length) =
      (.ending cm earlier (segment.loaded blockHash coordinator' first rest) earlier.length,
        .ok sent) := by
    unfold sentAfter
    split_ifs with hsends
    · obtain ⟨coordinator', result, heq, hok⟩ := sendPending_ending hearlier
        env.now (env.accepts 0) []
      obtain ⟨sent, rfl⟩ := hok (haccepts hsends)
      exact ⟨coordinator', sent, heq⟩
    · exact ⟨coordinator, [], rfl⟩
  -- the segment after its buffer was handed out
  let segment' := { segment.loaded blockHash coordinator' first rest with bufferedHeaders := [] }
  have hready : takeReadyToStore
      (.ending cm earlier (segment.loaded blockHash coordinator' first rest) earlier.length) =
      (.ending cm earlier segment' earlier.length,
        [(segment.startHeight + 1, (first :: rest).map (.ofHeader blockHash))]) :=
    takeReadyToStore_ending hearlier rfl (cons_ne_nil _ _)
  have hlast : ((first :: rest).map (HashedBlockHeader.ofHeader blockHash)).getLast
      (cons_ne_nil _ _) = .ofHeader blockHash ((first :: rest).getLast
        (cons_ne_nil _ _)) := getLast_map _
  have hat : HeadersPipeline.AtTip (.ending cm earlier segment' earlier.length)
      (((first :: rest).map (HashedBlockHeader.ofHeader blockHash)).getLast
        (cons_ne_nil _ _)).hash
      (tip.height + ((first :: rest).map (HashedBlockHeader.ofHeader blockHash)).length) := by
    refine ⟨cm, earlier, segment', _, rfl, hearlier, htarget, rfl, ?_, ?_, fun _ => rfl⟩
    · rw [hlast]
      rfl
    · rw [length_map, ← hheight]
      rfl
  obtain ⟨m', events, hstore, hne, hstorage, hpipe⟩ := storeBatches_singleton
    { m with pipeline := .ending cm earlier segment' earlier.length } h.read
    (segment.startHeight + 1) hprev hvalid
  have hstorage' : m'.headerStorage = m.headerStorage.storeHashedHeaders
      ((first :: rest).map (.ofHeader blockHash)) := hstorage
  have hfollows := followsTip_append h.read hstorage' (hpipe ▸ hat)
  have hstore' : storeBatches
      [(segment.startHeight + 1, (first :: rest).map (.ofHeader blockHash))]
      { m with pipeline := .ending cm earlier segment' earlier.length } [] = (m', .ok events) :=
    hstore
  rw [receiveThroughPipeline_of_ok hreceive, hsend]
  simp only [storeReady, hready, hstore']
  obtain ⟨hfin, hkept⟩ := hfollows.finishBatch m env events
  refine ⟨⟨_, hfin⟩, ?_⟩
  rw [chain, hkept, hstorage']
  exact m.headerStorage.storeHashedHeaders_chain _

/-- A batch that the pipeline matches is valid, and the request that may follow it is taken. -/
def TipBatchValid (m : BlockHeadersManager blockHash noBlock) (env : Env)
    (headers : List Header) : Prop :=
  ∀ first ∈ headers.head?, m.pipeline.route first.prevBlockhash ≠ none →
    validateHeaders none (headers.map (.ofHeader blockHash)) 0 = .ok () ∧
      (m.SendsAfter → env.accepts 0 0 = true)

instance (m : BlockHeadersManager blockHash noBlock) (env : Env) (headers : List Header) :
    Decidable (m.TipBatchValid env headers) :=
  inferInstanceAs (Decidable (∀ first ∈ headers.head?, _))

/-- Whatever a batch brings, the copy of the tip stays right. -/
theorem FollowsTip.receiveThroughPipeline
    (h : m.FollowsTip tip) (hbatch : m.TipBatchValid env headers) :
    (m.receiveThroughPipeline env headers).1.Following := by
  obtain ⟨cm, earlier, segment, next, hp, hearlier, htarget, hdrained, hhash, hheight, hdue⟩ :=
    h.pipeline
  cases headers with
  | nil =>
    obtain ⟨complete, coordinator, id, hrecv, hopen⟩ :=
      receiveHeaders_nil_ending hearlier env.now
    rw [← hp] at hrecv
    exact ⟨tip, h.of_received hrecv ⟨cm, earlier, _, next, rfl, hearlier, htarget, hdrained,
      hhash, hheight, fun hfalse => hdue (hopen hfalse)⟩⟩
  | cons first rest =>
    by_cases hprev : segment.currentTipHash = first.prevBlockhash
    · have hroute : m.pipeline.route first.prevBlockhash ≠ none := by
        rw [hp, route_ending hearlier htarget, if_pos hprev]
        simp
      obtain ⟨hvalid, haccepts⟩ := hbatch first rfl hroute
      rcases receiveHeaders_ending hearlier htarget hdrained hdue env.now hprev with
        ⟨-, e, hrefused⟩ | ⟨coordinator, id, hrecv⟩
      · -- nobody asked for the batch
        rw [← hp] at hrefused
        refine ⟨tip, ?_⟩
        rw [BlockHeadersManager.receiveThroughPipeline, hrefused]
        exact h
      · rw [← hp] at hrecv
        exact (h.of_loaded hearlier htarget hheight hrecv (hprev.symm.trans hhash) hvalid
          haccepts).1
    · have hrecv : m.pipeline.receiveHeaders blockHash env.now (first :: rest) =
          (m.pipeline, .ok none) := by
        rw [hp]
        exact receiveHeaders_ending_of_ne hearlier htarget env.now hprev
      exact ⟨tip, h.of_received hrecv h.pipeline⟩

/-! ### Runs -/

section

variable (m : BlockHeadersManager blockHash noBlock)

/-- What an action hands to the pipeline. -/
def pipelineBatch :
    HeadersAction → Option (Env × List Header)
  | .headers env _ headers => if m.routeOf headers = .pipeline then some (env, headers) else none
  | _ => none

/-- The action drives no reorg that passes the guards, and what it hands to the pipeline does
not fail there halfway. -/
def Undisturbed (action : HeadersAction) : Prop :=
  (∀ call ∈ m.driven action, call.manager.admits call.candidate call.force = false) ∧
    ∀ batch ∈ m.pipelineBatch action, m.TipBatchValid batch.1 batch.2

end

instance (m : BlockHeadersManager blockHash noBlock) (action : HeadersAction) :
    Decidable (m.Undisturbed action) :=
  inferInstanceAs (Decidable ((∀ call ∈ m.driven action, _) ∧
    ∀ batch ∈ m.pipelineBatch action, m.TipBatchValid batch.1 batch.2))

/-- A batch that continues the stored tip of a synced manager, and that validates, is matched by
the pipeline and stored. -/
def StoresNext [DecidableEq Block] (m : BlockHeadersManager blockHash noBlock) : Prop :=
  m.progress.state = .synced → m.pipeline.isTipComplete = true →
    ∀ tip, m.tip = .ok tip → ∀ env peer first rest, first.prevBlockhash = tip.header.hash →
      validateHeaders none ((first :: rest).map (.ofHeader blockHash)) 0 = .ok () →
      m.pipeline.route first.prevBlockhash ≠ none ∧
        (m.step (.headers env peer (first :: rest))).chain =
          m.chain.append ((first :: rest).map (.ofHeader blockHash))

theorem FollowsTip.stagedBatch {peer : SocketAddr}
    {r : BlockHeadersManager blockHash noBlock × Except SyncError Unit} (h : m.FollowsTip tip)
    (hstaged : m.stagedBatch env peer headers = some r) : r.1.FollowsTip tip := by
  obtain ⟨height, New, hstaged⟩ := staged_stagedBatch hstaged
  exact h.idle hstaged.storage (hstaged.pipeline ▸ .refl _)

variable {action : HeadersAction}

/-- The manager that drives a reorg still follows the tip. -/
theorem FollowsTip.driven {call : DriveCall blockHash noBlock}
    (h : m.FollowsTip tip) (hcall : m.driven action = some call) : call.manager.FollowsTip tip := by
  obtain ⟨-, ⟨env, candidate, -, -, rfl⟩ | ⟨env, peer, headers, m', m'', candidate, -, hstaged,
    hforced, rfl⟩⟩ := driven_cases hcall
  · have hexpired := h.steady (m.steady_expire env.now)
    exact ⟨hexpired.read, hexpired.pipeline, hexpired.indexed⟩
  · have hm' : m'.FollowsTip tip := h.stagedBatch hstaged
    exact hm'.steady (forcedBranch_spec hforced).1

/-- A new pipeline over a store that has all checkpoints follows the tip from the start. -/
theorem followsTip_startSync (hfresh : m.pipeline.initialized = false)
    (hwaiting : m.progress.state = .waitingForConnections) (htip : m.tip = .ok tip)
    (hindexed : m.headerStorage.getHeaderHeightByHash tip.header.hash = some tip.height)
    (hpassed : ∀ height ∈ m.pipeline.checkpointManager.sortedHeights,
      ¬ (tip.height < height ∧ height ≤ m.progress.targetHeight)) (env : Env) :
    (m.startSync env).1.FollowsTip tip := by
  have hbounds : boundaries m.pipeline.checkpointManager tip.height
      tip.header.hash m.progress.targetHeight = [(tip.height, tip.header.hash)] := by
    have hnone : m.pipeline.checkpointManager.sortedHeights.filterMap (fun height =>
        if tip.height < height ∧ height ≤ m.progress.targetHeight then
          (m.pipeline.checkpointManager.getCheckpoint height).map fun cp => (height, cp.blockHash)
        else none) = [] := by
      rw [filterMap_eq_nil_iff]
      intro height hheight
      exact if_neg (hpassed height hheight)
    simp only [boundaries, hnone, insertionSort_cons, insertionSort_nil, orderedInsert_nil]
  have hat : (m.pipeline.init tip.height tip.header.hash m.progress.targetHeight).AtTip
      tip.header.hash tip.height := by
    refine ⟨m.pipeline.checkpointManager, [],
      .new 0 tip.height tip.header.hash none none, 0, ?_, ?_, rfl, rfl, rfl, rfl, fun _ => rfl⟩
    · simp [init, hbounds, ending]
    · intro s hs
      cases hs
  have htip' : BlockHeadersManager.tip
      { m with progress := { m.progress with state := .syncing } } = .ok tip := htip
  simp only [startSync, hwaiting, ne_eq, not_true_eq_false, if_false, hfresh, if_true, htip']
  split
  · exact ⟨htip, hat, hindexed⟩
  · exact ⟨htip, hat.idle (idle_sendPending _ _ _ _), hindexed⟩

variable [DecidableEq Block]

theorem step_following (h : m.Following) (hstep : m.Undisturbed action) :
    (m.step action).Following := by
  obtain ⟨tip, h⟩ := h
  rcases m.step_cases action with
    hsteady | ⟨env, peer, headers, rfl, hroute, heq⟩ | ⟨env, peer, headers, r, rfl, hstaged, heq⟩ |
      ⟨call, hdriven, hsteady⟩
  · exact ⟨tip, h.steady hsteady⟩
  · rw [heq]
    exact h.receiveThroughPipeline (hstep.2 (env, headers) (if_pos hroute))
  · rw [heq]
    exact ⟨tip, h.stagedBatch hstaged⟩
  · -- a reorg that is not admitted leaves the store alone
    have hcall := h.driven hdriven
    obtain ⟨reorgState, reorgGeneration, storages, hdrive, hstorage⟩ :=
      call.manager.driveReorg_spec call.candidate call.force
    rw [hdrive] at hsteady
    rcases hstorage with hsame | ⟨hadmits, -⟩
    · have hkept : FollowsTip
          { call.manager with reorgState, reorgGeneration, storages } tip :=
        hcall.idle hsame (.refl _)
      exact ⟨tip, hkept.steady hsteady⟩
    · rw [hstep.1 call hdriven] at hadmits
      cases hadmits

/-- A manager that follows the stored tip stores the next batch. -/
theorem Following.storesNext (h : m.Following) : m.StoresNext := by
  obtain ⟨tip', h⟩ := h
  intro hsynced hcomp tip htip env peer first rest hprev hvalid
  obtain rfl : tip' = tip := Except.ok.inj (h.read.symm.trans htip)
  obtain ⟨cm, earlier, segment, next, hp, hearlier, htarget, hdrained, hhash, hheight, hdue⟩ :=
    h.pipeline
  have hmatched : segment.currentTipHash = first.prevBlockhash := hhash.trans hprev.symm
  have hclosed : segment.complete = true := by
    rw [hp, isTipComplete_ending hearlier htarget] at hcomp
    exact hcomp
  constructor
  · rw [hp, route_ending hearlier htarget, if_pos hmatched]
    simp
  · -- the stored tip is no ancestor of a fork
    have hroute : m.routeHeaders first.prevBlockhash tip'.height = .pipeline := by
      simp [routeHeaders, hprev, h.indexed]
    have hstep : (m.step (.headers env peer (first :: rest))) =
        (m.receiveThroughPipeline env (first :: rest)).1 := by
      have hinit : m.pipeline.initialized = true := by rw [hp]; rfl
      have hheight' : m.headerStorage.getTipHeight = some tip'.height := (tip_ok htip).1
      simp only [BlockHeadersManager.step, handleHeadersPipeline, hinit, Bool.true_eq_false,
        if_false, hheight', hroute]
    rw [hstep]
    rcases receiveHeaders_ending hearlier htarget hdrained hdue env.now hmatched
      with ⟨hopen, -⟩ | ⟨coordinator, id, hrecv⟩
    · rw [hclosed] at hopen
      cases hopen
    · rw [← hp] at hrecv
      refine (h.of_loaded hearlier htarget hheight hrecv hprev hvalid ?_).2
      rintro (hsyncing | hopen)
      · rw [hsynced] at hsyncing
        cases hsyncing
      · rw [hcomp] at hopen
        cases hopen

/-- In every run of a manager that follows the stored tip, none of whose steps commits a reorg or
hands the pipeline a batch that fails halfway, the tip segment stays at the stored tip, and the
next batch is stored. -/
theorem run_tipAgrees (hm : m.Following) {actions : List HeadersAction}
    (halong : Runs.Along BlockHeadersManager.step Undisturbed m actions) :
    (Runs.run BlockHeadersManager.step m actions).TipAgrees ∧
      (Runs.run BlockHeadersManager.step m actions).StoresNext := by
  have hfollowing := Runs.invariant_run (fun _ _ => step_following) hm halong
  exact ⟨hfollowing.tipAgrees, hfollowing.storesNext⟩

end BlockHeadersManager

/-! ### A reorg moves the store only -/

namespace StaleSegment

open SparseBlocks StaleAnchor BlockHeadersManager

/-- The manager over four headers after its first peer connected. -/
def connected : BlockHeadersManager nonceHash (0 : Nat) := (manager.startSync env).1

theorem connected_following : connected.Following := by
  have htip : manager.tip = .ok ⟨3, headerAfter 3 4⟩ := by decide +kernel
  have hindexed : manager.headerStorage.getHeaderHeightByHash 4 = some 3 := by decide +kernel
  have hpassed : ∀ height ∈ manager.pipeline.checkpointManager.sortedHeights,
      ¬ (3 < height ∧ height ≤ manager.progress.targetHeight) := by
    intro height hheight
    cases hheight
  exact ⟨_, followsTip_startSync rfl rfl htip hindexed hpassed env⟩

/-- An empty response ends the sync; two new headers follow. -/
def newHeaders : List HeadersAction := [.headers env 7 [], .headers env 7 (batch 4 [5, 6])]

theorem run_tipAgrees_newHeaders :
    connected.Following ∧ Runs.Along BlockHeadersManager.step Undisturbed connected newHeaders ∧
    (Runs.run BlockHeadersManager.step connected newHeaders).progress.state = .synced ∧
    (Runs.run BlockHeadersManager.step connected newHeaders).pipeline.isTipComplete = true ∧
    (Runs.run BlockHeadersManager.step connected newHeaders).chain.tip = some 5 ∧
    (Runs.run BlockHeadersManager.step connected newHeaders).TipAgrees ∧
    (Runs.run BlockHeadersManager.step connected newHeaders).StoresNext := by
  have halong : Runs.Along BlockHeadersManager.step Undisturbed connected newHeaders := by
    decide +kernel
  exact ⟨connected_following, halong, by decide +kernel, by decide +kernel, by decide +kernel,
    run_tipAgrees connected_following halong⟩

/-- The manager after the sync ended. -/
def synced : BlockHeadersManager nonceHash (0 : Nat) := connected.step (.headers env 7 [])

/-- The synced manager after it moved to a fork of three headers. -/
def reorged : BlockHeadersManager nonceHash (0 : Nat) :=
  Runs.run BlockHeadersManager.step synced [.headers env 7 (batch 2 [10, 11, 12]), .tick env]

/-- After the reorg the stored tip is block 12 at height 4, the tip segment still stands at block
4 at height 3, and no segment takes the headers after block 12. -/
theorem reorged_not_tipAgrees :
    connected.Following ∧ synced.progress.state = .synced ∧
    synced.pipeline.isTipComplete = true ∧
    reorged.progress.state = .synced ∧ reorged.pipeline.isTipComplete = true ∧
    reorged.tip = .ok ⟨4, headerAfter 11 12⟩ ∧
    reorged.pipeline.tipSegment.map (fun s => (s.currentTipHash, s.currentHeight)) = some (4, 3) ∧
    reorged.pipeline.route 12 = none ∧
    ¬ reorged.TipAgrees := by
  have htip : reorged.tip = .ok ⟨4, headerAfter 11 12⟩ := by decide +kernel
  have hsegment : reorged.pipeline.tipSegment.map (fun s => (s.currentTipHash, s.currentHeight)) =
      some (4, 3) := by decide +kernel
  refine ⟨connected_following, by decide +kernel, by decide +kernel, by decide +kernel,
    by decide +kernel, htip, hsegment, by decide +kernel, ?_⟩
  rintro ⟨segment, tip, hfound, hread, -, hheight⟩
  rw [htip, Except.ok.injEq] at hread
  rw [hfound, Option.map_some, Option.some.injEq, Prod.mk.injEq, hheight, ← hread] at hsegment
  exact absurd hsegment.2 (by decide)

end StaleSegment

end Dashcore
