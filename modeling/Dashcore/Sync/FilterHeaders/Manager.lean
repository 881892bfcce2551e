import Dashcore.Sync.FilterHeaders.Pipeline

/-!
# The filter-headers manager

The manager follows the block headers: it requests the filter hashes of stored blocks, chains
them to filter headers and stores these. Responses are handled in height order, whatever the
order they arrive in.

Chaining starts from the filter header that the response names as the previous one. Whether
this is the header stored below is not looked at.
-/

namespace Dashcore

/-- Chain filter hashes onto a filter header. `filterHeader` is the hash of a filter hash
followed by the previous filter header. -/
def chainFilterHashes (filterHeader : FilterHash → FilterHeader → FilterHeader) :
    FilterHeader → List FilterHash → List FilterHeader
  | _, [] => []
  | prevHeader, filterHash :: rest =>
    filterHeader filterHash prevHeader ::
      chainFilterHashes filterHeader (filterHeader filterHash prevHeader) rest

/-- The filter headers of a response. -/
def computeFilterHeaders (filterHeader : FilterHash → FilterHeader → FilterHeader)
    (cfheaders : CFHeaders) : List FilterHeader :=
  chainFilterHashes filterHeader cfheaders.previousFilterHeader cfheaders.filterHashes

structure FilterHeadersProgress where
  state : SyncState
  currentHeight : Nat
  targetHeight : Nat
  blockHeaderTipHeight : Nat
  processed : Nat
  deriving DecidableEq

namespace FilterHeadersProgress

variable (p : FilterHeadersProgress)

def updateCurrentHeight (height : Nat) : FilterHeadersProgress :=
  { p with currentHeight := height }

/-- The target only grows. -/
def updateTargetHeight (height : Nat) : FilterHeadersProgress :=
  if p.targetHeight < height then { p with targetHeight := height } else p

end FilterHeadersProgress

/-- The manager with the filter-header store and the shared reorg generation. -/
structure FilterHeadersManager where
  progress : FilterHeadersProgress
  filterHeaderStorage : SegmentStore (0 : FilterHeader)
  pipeline : FilterHeadersPipeline
  checkpointStartHeight : Option Nat
  blockHeadersSynced : Bool
  reorgGeneration : Nat
  /-- The filter hash that the header stored at a height was last computed from. The code
  forgets it. -/
  reported : Nat → Option FilterHash

namespace FilterHeadersManager

/-- A manager that has just been created over its stores. -/
def new (filterHeaderStorage : SegmentStore (0 : FilterHeader)) (headerTip reorgGeneration : Nat)
    (reported : Nat → Option FilterHash) : FilterHeadersManager where
  progress :=
    { state := .waitForEvents
      currentHeight := filterHeaderStorage.cache.tipHeight.getD 0
      targetHeight := headerTip
      blockHeaderTipHeight := headerTip
      processed := 0 }
  filterHeaderStorage
  pipeline := .new
  checkpointStartHeight := none
  blockHeadersSynced := false
  reorgGeneration
  reported

variable (filterHeader : FilterHash → FilterHeader → FilterHeader) (m : FilterHeadersManager)

def setState (state : SyncState) : FilterHeadersManager :=
  { m with progress := { m.progress with state } }

/-- Report completion once, when the block headers are done and the target is reached. -/
def tryCompleteSync : FilterHeadersManager × List SyncEvent :=
  if m.blockHeadersSynced ∧ m.progress.targetHeight ≤ m.progress.currentHeight ∧
      m.progress.state ≠ .synced then
    (m.setState .synced, [.filterHeadersSyncComplete m.progress.currentHeight])
  else (m, [])

/-- Request waiting batches; the reports of an action are kept unless a request fails. -/
def sendPending (now : Nat) (accepts : Nat → Bool) : FilterHeadersManager × Except SyncError Nat :=
  let (pipeline, result) := m.pipeline.sendPendingWithGeneration now m.reorgGeneration accepts
  ({ m with pipeline }, result)

section

variable (cfheaders : CFHeaders)

section

variable (startHeight : Nat)

/-- The previous filter header of the first batch after a checkpoint is stored below it. -/
def storeCheckpointHeader : FilterHeadersManager :=
  if m.checkpointStartHeight = some startHeight ∧ 0 < startHeight then
    { m with
      filterHeaderStorage := m.filterHeaderStorage.storeItemsAtHeight
        [cfheaders.previousFilterHeader] (startHeight - 1)
      checkpointStartHeight := none }
  else m

/-- Store the headers of a response, and return their number. -/
def processCfheaders : FilterHeadersManager × Nat :=
  let filterHeaders := computeFilterHeaders filterHeader cfheaders
  let m := m.storeCheckpointHeader cfheaders startHeight
  ({ m with
     filterHeaderStorage := m.filterHeaderStorage.storeItemsAtHeight filterHeaders startHeight
     progress := { m.progress with processed := m.progress.processed + filterHeaders.length }
     reported := fun h =>
       if startHeight ≤ h then (cfheaders.filterHashes[h - startHeight]?).or (m.reported h)
       else m.reported h }, filterHeaders.length)

/-- Process a response whose turn it is, and take the next one out of the buffer. -/
def processBatch (data : CFHeaders) :
    FilterHeadersManager × Except SyncError (SyncEvent × Option (Nat × CFHeaders)) :=
  let (m, count) := m.processCfheaders filterHeader data startHeight
  if count = 0 then (m, .error .emptyCfheaders)
  else
    let (pipeline, ready) := m.pipeline.advance count
    let m := { m with
      pipeline
      progress := m.progress.updateCurrentHeight (pipeline.nextExpected - 1) }
    (m, .ok (.filterHeadersStored startHeight (startHeight + (count - 1))
      m.progress.currentHeight, ready))

/-- Process the buffered responses whose turn it is. Each round takes one out of the buffer,
so the size of the buffer bounds the rounds. -/
def processReady (filterHeader : FilterHash → FilterHeader → FilterHeader) :
    Nat → Option (Nat × CFHeaders) → List SyncEvent → FilterHeadersManager →
      FilterHeadersManager × Except SyncError (List SyncEvent)
  | _, none, events, m => (m, .ok events)
  | 0, some _, events, m => (m, .ok events)
  | fuel + 1, some (height, data), events, m =>
    match m.processBatch filterHeader height data with
    | (m, .error e) => (m, .error e)
    | (m, .ok (event, ready)) => processReady filterHeader fuel ready (events ++ [event]) m

/-- Take a matched response in and process what became ready. -/
def receiveCfheaders (cfheaders : CFHeaders) :
    FilterHeadersManager × Except SyncError (List SyncEvent) :=
  let (pipeline, inOrder) := m.pipeline.receive startHeight cfheaders
  let m := { m with pipeline }
  if inOrder then
    processReady filterHeader (pipeline.buffered.size + 1) (some (startHeight, cfheaders)) [] m
  else (m, .ok [])

end

/-- Handle a response. One that answers no request is ignored, and so is one that was
requested before a reorg. -/
def handleMessage (now : Nat) (accepts : Nat → Bool) :
    FilterHeadersManager × Except SyncError (List SyncEvent) :=
  match m.pipeline.matchResponse cfheaders with
  | none =>
    if m.pipeline.isComplete then
      let (m, events) := m.tryCompleteSync
      (m, .ok events)
    else (m, .ok [])
  | some startHeight =>
    if (m.pipeline.generationForStopHash cfheaders.stopHash).any (· ≠ m.reorgGeneration) then
      (m, .ok [])
    else
      match m.receiveCfheaders filterHeader startHeight cfheaders with
      | (m, .error e) => (m, .error e)
      | (m, .ok events) =>
        match m.sendPending now accepts with
        | (m, .error e) => (m, .error e)
        | (m, .ok _) =>
          if m.pipeline.isComplete then
            let (m, completed) := m.tryCompleteSync
            (m, .ok (events ++ completed))
          else (m, .ok events)

end

section Headers

variable {blockHash : Header → BlockHash}

/-- Remember a fresh start above height 0, so that the first batch stores its previous filter
header. -/
def markCheckpoint (startHeight filterHeadersTip : Nat) : FilterHeadersManager :=
  if 0 < startHeight ∧ filterHeadersTip = 0 then
    { m with checkpointStartHeight := some startHeight }
  else m

variable (headers : PersistentBlockHeaderStorage blockHash)

/-- Queue and request the batches from a height on. -/
def beginDownload (startHeight now : Nat) (accepts : Nat → Bool) :
    FilterHeadersManager × Except SyncError (List SyncEvent) :=
  let (pipeline, result) := m.pipeline.init headers startHeight m.progress.blockHeaderTipHeight
  let m := { m with pipeline }
  match result with
  | .error e => (m, .error e)
  | .ok () =>
    match m.sendPending now accepts with
    | (m, .error e) => (m, .error e)
    | (m, .ok _) => (m.setState .syncing, .ok [])

/-- The first height to download. A store whose last height is 0 counts as empty. -/
def downloadStart : Nat :=
  let filterHeadersTip := m.filterHeaderStorage.cache.tipHeight.getD 0
  let headerStartHeight := headers.getStartHeight.getD 0
  if filterHeadersTip = 0 then headerStartHeight else max (filterHeadersTip + 1) headerStartHeight

/-- Start or resume the download from what is stored. -/
def startDownload
    (now : Nat) (accepts : Nat → Bool) : FilterHeadersManager × Except SyncError (List SyncEvent) :=
  let filterHeadersTip := m.filterHeaderStorage.cache.tipHeight.getD 0
  let startHeight := m.downloadStart headers
  let m := { m with progress := m.progress.updateCurrentHeight filterHeadersTip }
  if m.progress.blockHeaderTipHeight < startHeight then
    let (m, events) := m.tryCompleteSync
    (m, .ok events)
  else
    (m.markCheckpoint startHeight filterHeadersTip).beginDownload headers startHeight now accepts

/-- Bring the pipeline to a new header tip: a finished one starts over above the current
height, another one is extended. -/
def extendPipeline
    (now : Nat) (accepts : Nat → Bool) : FilterHeadersManager × Except SyncError (List SyncEvent) :=
  let (pipeline, result) :=
    if m.pipeline.isComplete then
      m.pipeline.init headers (m.progress.currentHeight + 1) m.progress.blockHeaderTipHeight
    else m.pipeline.extendTarget headers m.progress.blockHeaderTipHeight
  let m := { m with pipeline }
  match result with
  | .error e => (m, .error e)
  | .ok () =>
    match m.sendPending now accepts with
    | (m, .error e) => (m, .error e)
    | (m, .ok _) => (m, .ok [])

/-- New block headers are stored. -/
def handleNewHeaders (tipHeight now : Nat) (accepts : Nat → Bool) :
    FilterHeadersManager × Except SyncError (List SyncEvent) :=
  let m := { m with progress :=
    ({ m.progress with blockHeaderTipHeight := tipHeight }).updateTargetHeight tipHeight }
  if m.progress.blockHeaderTipHeight ≤ m.progress.currentHeight then
    let (m, events) := m.tryCompleteSync
    (m, .ok events)
  else
    match m.progress.state with
    | .synced | .syncing => m.extendPipeline headers now accepts
    | .waitingForConnections | .waitForEvents => m.startDownload headers now accepts
    | .error => (m, .ok [])

def handleSyncEvent (event : SyncEvent) (now : Nat) (accepts : Nat → Bool) :
    FilterHeadersManager × Except SyncError (List SyncEvent) :=
  match event with
  | .blockHeaderSyncComplete tipHeight =>
    ({ m with blockHeadersSynced := true } : FilterHeadersManager).handleNewHeaders headers
      tipHeight now accepts
  | .blockHeadersStored tipHeight => m.handleNewHeaders headers tipHeight now accepts
  | .chainReorg forkHeight _ _ _ =>
    (({ m with
        pipeline := .new
        checkpointStartHeight := none
        progress := m.progress.updateCurrentHeight forkHeight } : FilterHeadersManager).setState
          .waitForEvents, .ok [])
  | _ => (m, .ok [])

end Headers

/-- The periodic step. -/
def tick (now : Nat) (accepts : Nat → Bool) :
    FilterHeadersManager × Except SyncError (List SyncEvent) :=
  match ({ m with pipeline := m.pipeline.handleTimeouts now } : FilterHeadersManager).sendPending
      now accepts with
  | (m, .error e) => (m, .error e)
  | (m, .ok _) => (m, .ok [])

def onDisconnect : FilterHeadersManager :=
  { m with pipeline := .new, checkpointStartHeight := none, blockHeadersSynced := false }

/-- Peers may report a best height. -/
def updateBestHeight : Option Nat → FilterHeadersManager
  | some height => { m with progress := m.progress.updateTargetHeight height }
  | none => m

/-- The number of connected peers changed. -/
def handleNetworkEvent (connectedCount : Nat)
    (bestHeight : Option Nat) : FilterHeadersManager × Except SyncError (List SyncEvent) :=
  let m := m.updateBestHeight bestHeight
  if connectedCount = 0 then ((m.setState .waitingForConnections).onDisconnect, .ok [])
  else if m.progress.state = .waitingForConnections then
    (m.setState .waitForEvents, .ok [.syncStart])
  else (m, .ok [])

/-- What happens around the manager. -/
inductive Action (blockHash : Header → BlockHash)
  | message (cfheaders : CFHeaders) (now : Nat) (accepts : Nat → Bool)
  | headersStored (headers : PersistentBlockHeaderStorage blockHash) (tipHeight : Nat)
      (syncComplete : Bool) (now : Nat) (accepts : Nat → Bool)
  | tick (now : Nat) (accepts : Nat → Bool)
  | networkEvent (connectedCount : Nat) (bestHeight : Option Nat)
  /-- A reorg cascade cuts the store and raises the generation, and its event is handled. -/
  | reorg (headers : PersistentBlockHeaderStorage blockHash) (forkHeight : Nat)
      (oldTip newTip : BlockHash)

/-- The reorg cascade as the manager sees it. -/
def cascade {blockHash : Header → BlockHash} (m : FilterHeadersManager)
    (headers : PersistentBlockHeaderStorage blockHash) (forkHeight : Nat)
    (oldTip newTip : BlockHash) : FilterHeadersManager :=
  match m.filterHeaderStorage.truncateAbove forkHeight with
  | (_, .error _) => m
  | (filterHeaderStorage, .ok ()) =>
    (handleSyncEvent
      { m with filterHeaderStorage, reorgGeneration := m.reorgGeneration + 1 } headers
      (.chainReorg forkHeight oldTip newTip (m.reorgGeneration + 1)) 0 fun _ => true).1

/-- The manager after an action. An error leaves the changes made before it. -/
def step {blockHash : Header → BlockHash}
    (filterHeader : FilterHash → FilterHeader → FilterHeader) (m : FilterHeadersManager) :
    Action blockHash → FilterHeadersManager
  | .message cfheaders now accepts => (m.handleMessage filterHeader cfheaders now accepts).1
  | .headersStored headers tipHeight syncComplete now accepts =>
    (m.handleSyncEvent headers
      (if syncComplete then .blockHeaderSyncComplete tipHeight else .blockHeadersStored tipHeight)
      now accepts).1
  | .tick now accepts => (m.tick now accepts).1
  | .networkEvent connectedCount bestHeight => (m.handleNetworkEvent connectedCount bestHeight).1
  | .reorg headers forkHeight oldTip newTip => m.cascade headers forkHeight oldTip newTip

end FilterHeadersManager

end Dashcore
