import Dashcore.Sml.MessageVerification
import Dashcore.Sync.BlockHeaders.ForkBuffer
import Dashcore.Sync.BlockHeaders.Pipeline

/-!
# The block headers manager

The manager routes each batch of headers: a batch that continues a stored header below the
tip is a fork and goes to the fork buffer, as does a batch that continues a buffered fork;
every other batch goes through the download pipeline and is appended to the stored chain.
A buffered branch that outweighs the active chain becomes the pending candidate, and the
next tick drives the reorg for it. A validated chainlock on a buffered branch forces the
reorg at once.

What the environment decides in one call (the clock, whether the request channel takes a
request, the iteration order of the fork buffer) is `Env`.
-/

namespace Dashcore

/-- Progress the manager decides on. -/
structure BlockHeadersProgress where
  state : SyncState
  tipHeight : Nat
  targetHeight : Nat
  deriving DecidableEq

/-- The target height only rises. -/
def BlockHeadersProgress.updateTargetHeight (p : BlockHeadersProgress) (height : Nat) :
    BlockHeadersProgress :=
  { p with targetHeight := max p.targetHeight height }

/-- Choices of the environment within one call. -/
structure Env where
  /-- The clock, in milliseconds. -/
  now : Nat
  /-- Whether the request channel takes a request, by call of `sendPending` and request. -/
  accepts : Nat → Nat → Bool
  /-- Iteration order of the fork buffer. -/
  order : BranchKey → Nat

/-- State of the headers manager. -/
structure BlockHeadersManager (blockHash : Header → BlockHash) {Block : Type}
    (noBlock : Block) where
  progress : BlockHeadersProgress
  storages : ReorgStorages blockHash noBlock
  checkpointManager : CheckpointManager
  pipeline : HeadersPipeline
  pendingAnnouncements : SortedMap BlockHash Nat
  announcedPeers : Finset SocketAddr
  forkBuffer : ForkBuffer
  /-- A branch that has beaten the active chain, waiting for the next tick. -/
  pendingForkCandidate : Option ForkCandidate
  /-- Ancestor heights by the tip of a buffered branch. -/
  forkTipIndex : SortedMap BlockHash Nat
  reorgGeneration : Nat
  /-- Best validated chainlock height, 0 before the first. -/
  chainlockHeight : Nat
  reorgState : ReorgState
  /-- Headers seen on forks below the chainlock. -/
  sideHeaders : List (Nat × BlockHash)
  clForcedReorgPending : Option ChainLock

/-- Continuity and proof of work of a batch; the first failure is reported. -/
def validateHeaders : Option HashedBlockHeader → List HashedBlockHeader → Nat →
    Except SyncError Unit
  | _, [], _ => .ok ()
  | prev, header :: rest, i =>
    -- the first header has no predecessor in the batch
    if prev.any fun p => header.header.prevBlockhash ≠ p.hash then .error (.invalidHeaderChain i)
    else if header.header.target.isMetBy header.hash = false then .error (.invalidProofOfWork i)
    else validateHeaders (some header) rest (i + 1)

namespace HeadersPipeline

variable (p : HeadersPipeline)

def isComplete : Bool :=
  p.segments.all fun s => s.complete && s.bufferedHeaders.isEmpty

def isTipComplete : Bool :=
  p.segments.any fun s => s.targetHeight.isNone && s.complete

def tipSegmentHasPendingRequest : Bool :=
  (p.segments.find? fun s => s.targetHeight.isNone).any fun s =>
    !s.complete && 0 < s.coordinator.activeCount

end HeadersPipeline

namespace BlockHeadersManager

variable {blockHash : Header → BlockHash} {Block : Type} {noBlock : Block}

/-- A manager over opened stores, before the first connection. -/
def new (storages : ReorgStorages blockHash noBlock) (checkpointManager : CheckpointManager)
    (network : Network) (reorgGeneration chainlockHeight : Nat) (lastTargetHeight : Option Nat) :
    Except SyncError (BlockHeadersManager blockHash noBlock) :=
  match storages.blockHeaderStorage.getTip with
  | none => .error .missingTip
  | some tip =>
    .ok
      { progress := BlockHeadersProgress.updateTargetHeight
          { state := .waitingForConnections, tipHeight := tip.height, targetHeight := 0 }
          (lastTargetHeight.getD tip.height)
        storages
        checkpointManager
        pipeline := .new checkpointManager
        pendingAnnouncements := ∅
        announcedPeers := ∅
        forkBuffer := .new (.new network)
        pendingForkCandidate := none
        forkTipIndex := ∅
        reorgGeneration
        chainlockHeight
        reorgState := { denyList := ∅, inFlight := false }
        sideHeaders := []
        clForcedReorgPending := none }

variable (m : BlockHeadersManager blockHash noBlock) (env : Env)

/-- The header store. -/
def headerStorage : PersistentBlockHeaderStorage blockHash :=
  m.storages.blockHeaderStorage

/-- Best chainlock height; 0 means that there is none yet. -/
def bestChainlockHeight : Option Nat :=
  if m.chainlockHeight = 0 then none else some m.chainlockHeight

def tip : Except SyncError BlockHeaderTip :=
  match m.headerStorage.getTip with
  | some tip => .ok tip
  | none => .error .missingTip

/-! ### Forks -/

/-- Headers before an ancestor that its difficulty depends on. -/
def dgwHistory : Nat := 24

/-- Most side headers kept. -/
def maxSideHeaders : Nat := 10000

section

variable (ancestorHeight : Nat)

/-- The stored headers up to an ancestor, the ancestor last. -/
def loadHistory : Except SyncError (List Header) :=
  let historyStart := ancestorHeight - dgwHistory
  let expectedLen := ancestorHeight + 1 - historyStart
  match m.headerStorage.loadHeaders historyStart (ancestorHeight + 1) with
  | .error e => .error (.storage e)
  | .ok history =>
    if history.length ≠ expectedLen then
      .error (.storageGap ancestorHeight expectedLen history.length)
    else .ok history

/-- The active headers above an ancestor. -/
def loadActiveExtension : Except SyncError (List Header) :=
  match m.headerStorage.getTipHeight with
  | none => .error .missingTip
  | some tipHeight =>
    (m.headerStorage.loadHeaders (ancestorHeight + 1) (tipHeight + 1)).mapError SyncError.storage

/-- Drop index entries whose branch is no longer buffered. -/
def pruneForkTipIndex : BlockHeadersManager blockHash noBlock :=
  { m with forkTipIndex := m.forkTipIndex.filter fun tip _ => tip ∈ m.forkBuffer.branchTipHashes }

/-- Promote the heaviest branch if it outweighs the given active headers. -/
def promoteWinner (activeExtension : List Header) : BlockHeadersManager blockHash noBlock :=
  match m.forkBuffer.takeWinningCandidate env.order (ChainWork.accumulate 0 activeExtension) with
  | (_, none) => m
  | (forkBuffer, some candidate) =>
    pruneForkTipIndex { m with forkBuffer, pendingForkCandidate := some candidate }

/-- Record headers of a fork below the chainlock, dropping the oldest beyond the cap. -/
def flagSideHeaders (headers : List Header)
    (ancestorHeight : Nat) : BlockHeadersManager blockHash noBlock :=
  let excess := min (m.sideHeaders.length + headers.length - maxSideHeaders) m.sideHeaders.length
  { m with
    sideHeaders := m.sideHeaders.drop excess ++
      (headers.zipIdx (ancestorHeight + 1)).map fun (header, height) => (height, blockHash header) }

/-- Whether a fork at this ancestor rewrites a chainlocked block. -/
def belowChainlockFloor : Bool :=
  m.bestChainlockHeight.any fun clHeight => isBelowChainlockFloor ancestorHeight clHeight

end

/-- Whether a batch ends in the block of the chainlock that waits for its branch. -/
def onForcedBranch (headers : List Header) : Bool :=
  match m.clForcedReorgPending, headers.getLast? with
  | some cl, some last => cl.blockHash = blockHash last
  | _, _ => false

section

variable (peer : SocketAddr)

/-- Validate a fork batch against the stored ancestor and buffer it. Also returns the active
headers above the ancestor. -/
def bufferFork (headers : List Header) (ancestorHeight : Nat) :
    Except SyncError (BlockHeadersManager blockHash noBlock × List Header) := do
  let history ← m.loadHistory ancestorHeight
  match history.getLast? with
  | none => .error (.missingAncestor ancestorHeight)
  | some ancestor =>
    let activeExtension ← m.loadActiveExtension ancestorHeight
    let forkBuffer ←
      m.forkBuffer.ingest blockHash peer headers ancestorHeight ancestor history env.now
    let forkTipIndex := match headers.getLast? with
      | some last => m.forkTipIndex.insert (blockHash last) ancestorHeight
      | none => m.forkTipIndex
    return ({ m with forkBuffer, forkTipIndex }, activeExtension)

/-- Buffer a fork of the active chain and promote the heaviest branch. A fork below the
chainlock is only recorded, unless a forced reorg waits for it. -/
def ingestFork (headers : List Header) (ancestorHeight : Nat) :
    BlockHeadersManager blockHash noBlock × Except SyncError Unit :=
  if !m.onForcedBranch headers && m.belowChainlockFloor ancestorHeight then
    (m.flagSideHeaders headers ancestorHeight, .ok ())
  else
    match m.bufferFork env peer headers ancestorHeight with
    | .error e => (m, .error e)
    | .ok (m, activeExtension) => (m.promoteWinner env activeExtension, .ok ())

variable (prevTipHash : BlockHash) (ancestorHeight : Nat)

/-- Validate headers that continue a buffered branch and append them to it. -/
def bufferExtension (headers : List Header) :
    Except SyncError (BlockHeadersManager blockHash noBlock × List Header) := do
  let history ← m.loadHistory ancestorHeight
  let activeExtension ← m.loadActiveExtension ancestorHeight
  let (forkBuffer, update) ←
    m.forkBuffer.extendBranch blockHash peer prevTipHash headers history env.now
  let forkTipIndex := (m.forkTipIndex.erase prevTipHash).insert update.newTip ancestorHeight
  return ({ m with forkBuffer, forkTipIndex }, activeExtension)

/-- Continue a buffered branch and promote the heaviest branch. -/
def extendFork (headers : List Header) :
    BlockHeadersManager blockHash noBlock × Except SyncError Unit :=
  if headers.isEmpty then (m, .ok ())
  else if m.belowChainlockFloor ancestorHeight then (m, .ok ())
  else
    match m.bufferExtension env peer prevTipHash ancestorHeight headers with
    | .error e => (m, .error e)
    | .ok (m, activeExtension) => (m.promoteWinner env activeExtension, .ok ())

end

/-- What the cascade is told about the active chain. -/
def reorgContext (tip : BlockHeaderTip) (force : Bool) : ReorgContext where
  checkpointManager := m.checkpointManager
  bestChainlockHeight := m.bestChainlockHeight
  currentTipHeight := tip.height
  currentTipHash := tip.header.hash
  force := force

/-- What the cascade may change. -/
def cascade : Cascade blockHash noBlock :=
  { state := m.reorgState, generation := m.reorgGeneration, storages := m.storages }

section Drive

variable [DecidableEq Block]

/-- Drive the reorg cascade for a candidate. -/
def driveReorg (candidate : ForkCandidate) (force : Bool) :
    BlockHeadersManager blockHash noBlock × Except SyncError (Option SyncEvent) :=
  match m.tip with
  | .error e => (m, .error e)
  | .ok tip =>
    let (cascade, result) := handleReorg (m.reorgContext tip force) candidate m.cascade
    ({ m with
       reorgState := cascade.state
       reorgGeneration := cascade.generation
       storages := cascade.storages }, result)

/-- The branch a forced reorg waits for, once it is buffered, and the manager without it. -/
def forcedBranch : Option (BlockHeadersManager blockHash noBlock × ForkCandidate) :=
  match m.clForcedReorgPending with
  | none => none
  | some cl =>
    match m.forkBuffer.takeBranchByTip env.order cl.blockHash with
    | (_, none) => none
    | (forkBuffer, some candidate) =>
      some ({ m with forkBuffer, forkTipIndex := m.forkTipIndex.erase cl.blockHash }, candidate)

/-- Drive the reorg to the chainlocked branch if it is buffered. -/
def tryDriveForcedReorg :
    BlockHeadersManager blockHash noBlock × Except SyncError (Option SyncEvent) :=
  match m.forcedBranch env with
  | none => (m, .ok none)
  | some (m, candidate) =>
    match m.driveReorg candidate true with
    | (m, .error e) => (m, .error e)
    | (m, .ok event) => ({ m with clForcedReorgPending := none }, .ok event)

end Drive

/-! ### Storing -/

/-- The loop of `buildLocator`: steps of one for the first entries, then doubling. Each round
lowers the height, so the height bounds the rounds. -/
def locatorLoop (storage : PersistentBlockHeaderStorage blockHash) :
    Nat → Nat → Nat → List BlockHash → Except SyncError (List BlockHash)
  | 0, _, _, locator => .ok locator
  | fuel + 1, height, step, locator =>
    match storage.getHeader height with
    | .error e => .error (.storage e)
    | .ok header =>
      let locator := match header with
        | some header => locator ++ [blockHash header]
        | none => locator
      if height = 0 then .ok locator
      else
        locatorLoop storage fuel (height - step) (if 10 < locator.length then step * 2 else step)
          locator

/-- Hashes back from the stored tip, for peers to find the last common block. -/
def buildLocator : Except SyncError (List BlockHash) :=
  match m.headerStorage.getTipHeight with
  | none => .error .missingTip
  | some tipHeight => locatorLoop m.headerStorage (tipHeight + 1) tipHeight 1 []

/-- Append headers to the stored chain. -/
def appendHeaders (headers : List HashedBlockHeader) : BlockHeadersManager blockHash noBlock :=
  { m with
    storages := { m.storages with
      blockHeaderStorage := m.headerStorage.storeHashedHeaders headers } }

/-- Validate a batch and append it to the stored chain. -/
def storeHeaders (headers : List HashedBlockHeader) :
    BlockHeadersManager blockHash noBlock × Except SyncError BlockHeaderTip :=
  match validateHeaders none headers 0 with
  | .error e => (m, .error e)
  | .ok () =>
    let m := m.appendHeaders headers
    match m.tip with
    | .error e => (m, .error e)
    | .ok tip => ({ m with progress := { m.progress with tipHeight := tip.height } }, .ok tip)

/-- Store the batches the pipeline released, each of which has to follow the stored tip. -/
def storeBatches : List (Nat × List HashedBlockHeader) → BlockHeadersManager blockHash noBlock →
    List SyncEvent → BlockHeadersManager blockHash noBlock × Except SyncError (List SyncEvent)
  | [], m, events => (m, .ok events)
  | (_, []) :: rest, m, events => storeBatches rest m events
  | (_, first :: others) :: rest, m, events =>
    match m.tip with
    | .error e => (m, .error e)
    | .ok tip =>
      if first.header.prevBlockhash ≠ tip.header.hash then
        (m, .error (.segmentChainBreak tip.header.hash first.header.prevBlockhash))
      else
        let m := { m with
          pendingAnnouncements := m.pendingAnnouncements.filter fun hash _ =>
            hash ∉ (first :: others).map HashedBlockHeader.hash }
        match m.storeHeaders (first :: others) with
        | (m, .error e) => (m, .error e)
        | (m, .ok newTip) =>
          storeBatches rest
            { m with progress := m.progress.updateTargetHeight newTip.height }
            (events ++ [.blockHeadersStored newTip.height])

/-- Request headers for the reopened tip segment from the stored tip. -/
def requestFromTip (call : Nat) : BlockHeadersManager blockHash noBlock × Except SyncError Unit :=
  let m := { m with pipeline := m.pipeline.resetTipSegment.1 }
  match m.buildLocator with
  | .error e => (m, .error e)
  | .ok locator =>
    let (pipeline, result) := m.pipeline.sendPending env.now (env.accepts call) locator
    ({ m with pipeline }, result.map fun _ => ())

/-- The end of the initial sync: headers of blocks announced meanwhile are requested first. -/
def finishSync (events : List SyncEvent) :
    BlockHeadersManager blockHash noBlock × Except SyncError (List SyncEvent) :=
  if m.pendingAnnouncements.size ≠ 0 then
    let (m, result) := m.requestFromTip env 1
    (m, result.map fun _ => events)
  else
    match m.tip with
    | .error e => (m, .error e)
    | .ok tip =>
      ({ m with progress := { m.progress.updateTargetHeight tip.height with state := .synced } },
        .ok (events ++ [.blockHeaderSyncComplete tip.height]))

/-- Hand a batch to the pipeline and store what it releases. -/
def receiveThroughPipeline (headers : List Header) :
    BlockHeadersManager blockHash noBlock × Except SyncError (List SyncEvent) :=
  let wasSyncing := m.progress.state = .syncing
  let tipWasComplete := m.pipeline.isTipComplete
  match m.pipeline.receiveHeaders blockHash env.now headers with
  | (pipeline, .error e) => ({ m with pipeline }, .error e)
  | (pipeline, .ok _) =>
    match (if wasSyncing ∨ tipWasComplete = false then
        pipeline.sendPending env.now (env.accepts 0) [] else (pipeline, .ok [])) with
    | (pipeline, .error e) => ({ m with pipeline }, .error e)
    | (pipeline, .ok _) =>
      let (pipeline, readyBatches) := pipeline.takeReadyToStore
      match storeBatches readyBatches { m with pipeline } [] with
      | (m, .error e) => (m, .error e)
      | (m, .ok events) =>
        let m := if ¬ wasSyncing ∧ tipWasComplete = true ∧ events ≠ [] then
            { m with pipeline := m.pipeline.markTipComplete } else m
        if wasSyncing ∧ m.pipeline.isComplete = true then m.finishSync env events
        else (m, .ok events)

/-! ### Entry points -/

/-- Where a batch of headers goes. -/
inductive HeadersRoute
  /-- It continues a stored header below the tip. -/
  | fork (ancestorHeight : Nat)
  /-- It continues a buffered branch. -/
  | continuation (ancestorHeight : Nat)
  | pipeline
  deriving DecidableEq

/-- The route of a batch that continues the block with this hash. -/
def routeHeaders (prev : BlockHash) (tipHeight : Nat) : HeadersRoute :=
  match m.headerStorage.getHeaderHeightByHash prev with
  | some prevHeight => if prevHeight < tipHeight then .fork prevHeight else .pipeline
  | none =>
    match m.forkTipIndex.get? prev with
    | some ancestorHeight => .continuation ancestorHeight
    | none => .pipeline

section Entry

variable [DecidableEq Block]

/-- After a fork batch was taken, drive a forced reorg that waited for it. -/
def driveForcedAfter
    (r : BlockHeadersManager blockHash noBlock × Except SyncError Unit) (env : Env) :
    BlockHeadersManager blockHash noBlock × Except SyncError (List SyncEvent) :=
  match r with
  | (m, .error e) => (m, .error e)
  | (m, .ok ()) =>
    let (m, result) := m.tryDriveForcedReorg env
    (m, result.map Option.toList)

/-- A batch of headers from a peer. -/
def handleHeadersPipeline (peer : SocketAddr) (headers : List Header) :
    BlockHeadersManager blockHash noBlock × Except SyncError (List SyncEvent) :=
  if m.pipeline.initialized = false then (m, .ok [])
  else
    match headers with
    | [] => m.receiveThroughPipeline env []
    | first :: _ =>
      match m.headerStorage.getTipHeight with
      | none => (m, .error .missingTip)
      | some tipHeight =>
        match m.routeHeaders first.prevBlockhash tipHeight with
        | .fork ancestorHeight =>
          driveForcedAfter (m.ingestFork env peer headers ancestorHeight) env
        | .continuation ancestorHeight =>
          driveForcedAfter (m.extendFork env peer first.prevBlockhash ancestorHeight headers) env
        | .pipeline => m.receiveThroughPipeline env headers

/-- Maximum age of a staged branch, in milliseconds. -/
def forkBufferTtl : Nat := 60000

/-- How long an announcement may wait for its headers, in milliseconds. -/
def unsolicitedHeadersWaitTimeout : Nat := 3000

/-- The housekeeping of a tick: request timeouts, branches that aged out, denials that the
chainlock has caught up with. -/
def expire (now : Nat) : BlockHeadersManager blockHash noBlock :=
  let forkBuffer := m.forkBuffer.expireStale now forkBufferTtl
  let evicted := forkBuffer.branches.size < m.forkBuffer.branches.size
  let m := { m with pipeline := m.pipeline.handleTimeouts now, forkBuffer }
  let m := if evicted then m.pruneForkTipIndex else m
  match m.bestChainlockHeight with
  | some clHeight => { m with reorgState := m.reorgState.evictExpiredDenials clHeight }
  | none => m

/-- Drive the pending candidate, if there is one. -/
def drivePending : BlockHeadersManager blockHash noBlock × Except SyncError (List SyncEvent) :=
  match m.pendingForkCandidate with
  | none => (m, .ok [])
  | some candidate =>
    let (m, result) := driveReorg { m with pendingForkCandidate := none } candidate false
    (m, result.map Option.toList)

/-- The requests of a tick: more headers while syncing, fallback requests for stale
announcements once synced. -/
def requestOnTick (events : List SyncEvent) :
    BlockHeadersManager blockHash noBlock × Except SyncError (List SyncEvent) :=
  match m.progress.state with
  | .syncing =>
    let (pipeline, result) := m.pipeline.sendPending env.now (env.accepts 0) []
    ({ m with pipeline }, result.map fun _ => events)
  | .synced =>
    let fresh := m.pendingAnnouncements.filter fun _ announcedAt =>
      env.now - announcedAt ≤ unsolicitedHeadersWaitTimeout
    if fresh.size < m.pendingAnnouncements.size then
      match m.requestFromTip env 0 with
      | (m, .error e) => (m, .error e)
      | (m, .ok ()) => ({ m with pendingAnnouncements := fresh }, .ok events)
    else (m, .ok events)
  | _ => (m, .ok events)

/-- The periodic step. -/
def tick : BlockHeadersManager blockHash noBlock × Except SyncError (List SyncEvent) :=
  if m.pipeline.initialized = false then (m, .ok [])
  else
    match (m.expire env.now).drivePending with
    | (m, .error e) => (m, .error e)
    | (m, .ok events) => m.requestOnTick env events

end Entry

/-- Remember announced blocks that are not stored. -/
def handleInventory (hashes : List BlockHash) (now : Nat) : BlockHeadersManager blockHash noBlock :=
  hashes.foldl (fun m hash =>
    if m.pendingAnnouncements.contains hash then m
    else if (m.headerStorage.getHeaderHeightByHash hash).isSome then m
    else { m with pendingAnnouncements := m.pendingAnnouncements.insert hash now }) m

/-- Drop what was tied to the peers of the lost connections. -/
def onDisconnect : BlockHeadersManager blockHash noBlock :=
  { m with
    pipeline := m.pipeline.clearInFlight
    pendingAnnouncements := ∅
    announcedPeers := ∅
    clForcedReorgPending := none }

def stopSync : BlockHeadersManager blockHash noBlock :=
  onDisconnect { m with progress := { m.progress with state := .waitingForConnections } }

/-- Start or resume the download. -/
def startSync : BlockHeadersManager blockHash noBlock × Except SyncError (List SyncEvent) :=
  if m.progress.state ≠ .waitingForConnections then (m, .error .syncInProgress)
  else
    let m := { m with progress := { m.progress with state := .syncing } }
    if m.pipeline.initialized = false then
      match m.tip with
      | .error e => (m, .error e)
      | .ok tip =>
        let m := { m with
          pipeline := m.pipeline.init tip.height tip.header.hash m.progress.targetHeight }
        match m.buildLocator with
        | .error e => (m, .error e)
        | .ok locator =>
          let (pipeline, result) := m.pipeline.sendPending env.now (env.accepts 0) locator
          ({ m with pipeline }, result.map fun _ => [.syncStart])
    else
      let (m, result) := m.requestFromTip env 0
      (m, result.map fun _ => [.syncStart])

/-- A peer connected: ask it for headers once, so that it learns our tip. -/
def peerConnected (address : SocketAddr)
    (accepted : Bool) : BlockHeadersManager blockHash noBlock × Except SyncError (List SyncEvent) :=
  if m.progress.state = .synced ∧ m.pipeline.initialized = true ∧ address ∉ m.announcedPeers ∧
      m.pipeline.tipSegmentHasPendingRequest = false then
    match m.tip, m.buildLocator with
    | .error e, _ => (m, .error e)
    | .ok _, .error e => (m, .error e)
    | .ok _, .ok _ =>
      if accepted then ({ m with announcedPeers := insert address m.announcedPeers }, .ok [])
      else (m, .error .requestFailed)
  else (m, .ok [])

/-- A peer disconnected: its branches go with it. -/
def peerDisconnected (address : SocketAddr) : BlockHeadersManager blockHash noBlock :=
  pruneForkTipIndex
    { m with
      announcedPeers := m.announcedPeers.erase address
      forkBuffer := m.forkBuffer.removePeer address }

/-- The set of peers changed. -/
def peersUpdated (connectedCount : Nat) (bestHeight : Option Nat) :
    BlockHeadersManager blockHash noBlock × Except SyncError (List SyncEvent) :=
  let m := match bestHeight with
    | some height => { m with progress := m.progress.updateTargetHeight height }
    | none => m
  if connectedCount = 0 then (m.stopSync, .ok [])
  else if m.progress.state = .waitingForConnections then m.startSync env
  else if m.progress.state = .synced ∧ bestHeight.any (m.progress.tipHeight < ·) ∧
      m.pipeline.tipSegmentHasPendingRequest = false then
    let (m, result) := m.requestFromTip env 0
    (m, result.map fun _ => [])
  else (m, .ok [])

end BlockHeadersManager

/-- What can happen to a headers manager. The last action is the chainlock manager's update
of the shared height. -/
inductive HeadersAction
  | headers (env : Env) (peer : SocketAddr) (headers : List Header)
  | inventory (hashes : List BlockHash) (now : Nat)
  | tick (env : Env)
  | peerConnected (address : SocketAddr) (accepted : Bool)
  | peerDisconnected (address : SocketAddr)
  | peersUpdated (env : Env) (connectedCount : Nat) (bestHeight : Option Nat)
  | chainLockForcedReorg (chainLock : ChainLock)
  | chainlockHeight (height : Nat)

/-- One action. Errors are reported and leave the manager running. -/
def BlockHeadersManager.step {blockHash : Header → BlockHash} {Block : Type} {noBlock : Block}
    [DecidableEq Block] (m : BlockHeadersManager blockHash noBlock) :
    HeadersAction → BlockHeadersManager blockHash noBlock
  | .headers env peer headers => (m.handleHeadersPipeline env peer headers).1
  | .inventory hashes now => m.handleInventory hashes now
  | .tick env => (m.tick env).1
  | .peerConnected address accepted => (m.peerConnected address accepted).1
  | .peerDisconnected address => m.peerDisconnected address
  | .peersUpdated env connectedCount bestHeight => (m.peersUpdated env connectedCount bestHeight).1
  | .chainLockForcedReorg chainLock => { m with clForcedReorgPending := some chainLock }
  | .chainlockHeight height => { m with chainlockHeight := height }

end Dashcore
