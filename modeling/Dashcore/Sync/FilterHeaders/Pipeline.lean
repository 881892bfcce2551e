import Dashcore.Sync.DownloadCoordinator
import Dashcore.Sync.Reorg

/-!
# The filter-headers pipeline

Filter headers are requested in batches of consecutive heights. A batch is named by the hash
of its last block, several batches are in flight at once, and a response that comes before
its turn waits in a buffer under its first height.
-/

namespace Dashcore

/-- The hash of one block's filter. -/
abbrev FilterHash := Hash256

/-- A response with filter hashes of consecutive blocks, up to the block with the stop hash,
and the filter header before them. -/
structure CFHeaders where
  stopHash : BlockHash
  previousFilterHeader : FilterHeader
  filterHashes : List FilterHash
  deriving DecidableEq

/-- Heights of one request. -/
def filterHeadersBatchSize : Nat := 2000

def maxConcurrentCfheadersRequests : Nat := 10

/-- Timeout of a request, in milliseconds. -/
def filterHeadersTimeout : Nat := 20000

/-- Batches by stop hash, and responses that came before their turn by first height. -/
structure FilterHeadersPipeline where
  coordinator : DownloadCoordinator BlockHash
  batchStarts : SortedMap BlockHash Nat
  buffered : SortedMap Nat CFHeaders
  nextExpected : Nat
  targetHeight : Nat
  deriving DecidableEq

namespace FilterHeadersPipeline

/-- A pipeline without work. -/
def new : FilterHeadersPipeline where
  coordinator := .new ⟨maxConcurrentCfheadersRequests, filterHeadersTimeout⟩
  batchStarts := ∅
  buffered := ∅
  nextExpected := 0
  targetHeight := 0

variable (p : FilterHeadersPipeline)

def isComplete : Bool :=
  p.coordinator.isEmpty && p.buffered.size = 0 &&
    (p.targetHeight = 0 || p.targetHeight < p.nextExpected)

section Queue

variable {blockHash : Header → BlockHash}

/-- Queue the batches from a height up to the target. Every round moves the height, so the
number of heights left bounds the rounds. -/
def queueBatches (headers : PersistentBlockHeaderStorage blockHash) (targetHeight : Nat) :
    Nat → Nat → FilterHeadersPipeline → FilterHeadersPipeline × Except SyncError Unit
  | 0, _, p => (p, .ok ())
  | fuel + 1, current, p =>
    if current ≤ targetHeight then
      let batchEnd := min (current + filterHeadersBatchSize - 1) targetHeight
      match headers.getHeader batchEnd with
      | .error e => (p, .error (.storage e))
      | .ok none => (p, .error (.missingHeader batchEnd))
      | .ok (some header) =>
        queueBatches headers targetHeight fuel (batchEnd + 1)
          { p with
            coordinator := p.coordinator.enqueue [blockHash header]
            batchStarts := p.batchStarts.insert (blockHash header) current }
    else (p, .ok ())

/-- Start over for a range of heights. -/
def init (headers : PersistentBlockHeaderStorage blockHash)
    (startHeight targetHeight : Nat) : FilterHeadersPipeline × Except SyncError Unit :=
  queueBatches headers targetHeight (targetHeight + 1 - startHeight) startHeight
    { coordinator := p.coordinator.clear
      batchStarts := ∅
      buffered := ∅
      nextExpected := startHeight
      targetHeight }

/-- Queue the batches above the old target. -/
def extendTarget (headers : PersistentBlockHeaderStorage blockHash)
    (newTarget : Nat) : FilterHeadersPipeline × Except SyncError Unit :=
  if newTarget ≤ p.targetHeight then (p, .ok ())
  else
    queueBatches headers newTarget (newTarget - p.targetHeight) (p.targetHeight + 1)
      { p with targetHeight := newTarget }

end Queue

/-- Request the batches taken off the queue. `accepts n` says whether the request channel
takes the `n`-th request; after a failure the rest of the batches is neither queued nor in
flight. -/
def sendLoop (now generation : Nat) (accepts : Nat → Bool) :
    List BlockHash → Nat → FilterHeadersPipeline → FilterHeadersPipeline × Except SyncError Nat
  | [], sent, p => (p, .ok sent)
  | stopHash :: rest, sent, p =>
    match p.batchStarts.get? stopHash with
    | none => (p, .error (.missingBatchStart stopHash))
    | some _ =>
      if accepts sent then
        sendLoop now generation accepts rest (sent + 1)
          { p with coordinator := p.coordinator.markSentWithGeneration now [stopHash] generation }
      else (p, .error .requestFailed)

/-- Request waiting batches and tag them with the reorg generation. -/
def sendPendingWithGeneration (now generation : Nat)
    (accepts : Nat → Bool) : FilterHeadersPipeline × Except SyncError Nat :=
  let count := p.coordinator.availableToSend
  if count = 0 then (p, .ok 0)
  else
    let (coordinator, stopHashes) := p.coordinator.takePending count
    sendLoop now generation accepts stopHashes 0 { p with coordinator }

def generationForStopHash (stopHash : BlockHash) : Option Nat :=
  p.coordinator.generationFor stopHash

/-- The first height of the batch that a response answers. Neither its previous filter header
nor the number of its hashes is looked at, except that there is a hash. -/
def matchResponse (cfheaders : CFHeaders) : Option Nat :=
  if cfheaders.filterHashes.isEmpty then none
  else if p.coordinator.isInFlight cfheaders.stopHash then p.batchStarts.get? cfheaders.stopHash
  else none

/-- Take a response in: the result says whether it is its turn. One that is early is
buffered, one that is late is dropped. -/
def receive (startHeight : Nat) (data : CFHeaders) : FilterHeadersPipeline × Bool :=
  let p := { p with
    coordinator := (p.coordinator.receive data.stopHash).1
    batchStarts := p.batchStarts.erase data.stopHash }
  if startHeight = p.nextExpected then (p, true)
  else if p.nextExpected < startHeight then
    ({ p with buffered := p.buffered.insert startHeight data }, false)
  else (p, false)

/-- Move on after processing, and take the buffered response whose turn it is now. -/
def advance (processedCount : Nat) : FilterHeadersPipeline × Option (Nat × CFHeaders) :=
  let nextExpected := p.nextExpected + processedCount
  match p.buffered.get? nextExpected with
  | some data =>
    ({ p with nextExpected, buffered := p.buffered.erase nextExpected }, some (nextExpected, data))
  | none => ({ p with nextExpected }, none)

/-- Queue timed-out requests again. -/
def handleTimeouts (now : Nat) : FilterHeadersPipeline :=
  let (coordinator, timedOut) := p.coordinator.checkTimeouts now
  { p with coordinator := timedOut.foldl DownloadCoordinator.enqueueRetry coordinator }

end FilterHeadersPipeline

end Dashcore
