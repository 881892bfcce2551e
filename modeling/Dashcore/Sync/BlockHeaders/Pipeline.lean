import Dashcore.Chain.Checkpoints
import Dashcore.Sync.BlockHeaders.SegmentState

/-!
# The headers pipeline

Checkpoints cut the chain into segments that download in parallel. Each segment buffers
its headers, and `takeReadyToStore` hands the buffers out in segment order, following
the index `nextToStore`.
-/

namespace Dashcore

/-- Download segments in height order, and the next of them to store. -/
structure HeadersPipeline where
  segments : List SegmentState
  /-- Index of the next segment to store (all previous must be complete). -/
  nextToStore : Nat
  checkpointManager : CheckpointManager
  initialized : Bool
  deriving DecidableEq

namespace HeadersPipeline

/-- A pipeline without segments. -/
def new (checkpointManager : CheckpointManager) : HeadersPipeline :=
  { segments := [], nextToStore := 0, checkpointManager, initialized := false }

/-- The start of each segment: the current position and the checkpoints above it up to
the target height. -/
def boundaries (cm : CheckpointManager) (currentHeight : Nat) (currentHash : BlockHash)
    (targetHeight : Nat) : List (Nat × BlockHash) :=
  let checkpoints := cm.sortedHeights.filterMap fun height =>
    if currentHeight < height ∧ height ≤ targetHeight then
      (cm.getCheckpoint height).map fun cp => (height, cp.blockHash)
    else none
  ((currentHeight, currentHash) :: checkpoints).insertionSort fun a b => a.1 ≤ b.1

variable (p : HeadersPipeline)

/-- Cut the way from the current height to the target height into segments. The last
segment goes to the tip and has no target. -/
def init (currentHeight : Nat) (currentHash : BlockHash) (targetHeight : Nat) : HeadersPipeline :=
  let bounds := boundaries p.checkpointManager currentHeight currentHash targetHeight
  { p with
    segments := bounds.mapIdx fun i start =>
      .new i start.1 start.2 (bounds[i + 1]?.map Prod.fst) (bounds[i + 1]?.map Prod.snd)
    nextToStore := 0
    initialized := true }

/-- Replace the segment at an index. -/
def setSegment (idx : Nat) (segment : SegmentState) : HeadersPipeline :=
  { p with segments := p.segments.set idx segment }

@[simp] theorem setSegment_nextToStore (idx : Nat) (s : SegmentState) :
    (p.setSegment idx s).nextToStore = p.nextToStore := rfl

/-- The locator for a segment's next request: the storage locator when the tip segment
stands at the stored tip, otherwise the segment's own position. -/
def locatorFor (segment : SegmentState) (tipLocator : List BlockHash) : List BlockHash :=
  if segment.targetHeight.isNone && tipLocator.head? = some segment.currentTipHash then
    tipLocator
  else [segment.currentTipHash]

/-- The loop of `sendPending`. `accepts n` says whether the request channel takes the
`n`-th request; a request that was taken is in flight, so a segment sends at most one. -/
def sendPendingLoop (now : Nat) (accepts : Nat → Bool) (tipLocator : List BlockHash) :
    List SegmentState → List (List BlockHash) →
      List SegmentState × List (List BlockHash) × Option SyncError
  | [], sent => ([], sent, none)
  | segment :: rest, sent =>
    if segment.canSend then
      if accepts sent.length then
        let (rest, sent, error) := sendPendingLoop now accepts tipLocator rest
          (sent ++ [locatorFor segment tipLocator])
        (segment.sendRequest now :: rest, sent, error)
      else (segment :: rest, sent, some .requestFailed)
    else
      let (rest, sent, error) := sendPendingLoop now accepts tipLocator rest sent
      (segment :: rest, sent, error)

/-- Request headers for every segment that waits for none. Returns the locators sent. -/
def sendPending (now : Nat) (accepts : Nat → Bool)
    (tipLocator : List BlockHash) : HeadersPipeline × Except SyncError (List (List BlockHash)) :=
  let (segments, sent, error) := sendPendingLoop now accepts tipLocator p.segments []
  ({ p with segments }, match error with
    | some e => .error e
    | none => .ok sent)

/-- The segment an empty response completes: the tip segment, if it has a request out. -/
def emptyRoute : Option Nat :=
  p.segments.findIdx? fun s =>
    !s.complete && s.targetHeight.isNone && 0 < s.coordinator.activeCount

/-- The segment that headers with this predecessor go to. Completed checkpoint segments
are passed over, since their tip is the start of the next segment. -/
def route (prevHash : BlockHash) : Option Nat :=
  p.segments.findIdx? fun s =>
    s.matchesPrev prevHash && !(s.complete && s.targetHeight.isSome)

/-- Hand a batch to the segment at an index. -/
def deliver (blockHash : Header → BlockHash) (p : HeadersPipeline) (idx : Nat)
    (headers : List Header) : HeadersPipeline × Except SyncError (Option Nat) :=
  match p.segments[idx]? with
  | none => (p, .ok none)
  | some segment =>
    let (segment', result) := segment.receiveHeaders blockHash headers
    (p.setSegment idx segment', result.map fun _ => some segment.segmentId)

/-- Reopen a completed tip segment for headers that arrive after it completed. -/
def reopenTip (now idx : Nat) (prevHash : BlockHash) : HeadersPipeline :=
  match p.segments[idx]? with
  | none => p
  | some segment =>
    if segment.complete && segment.targetHeight.isNone then
      { p.setSegment idx { segment with
          complete := false
          coordinator := segment.coordinator.markSent now [prevHash] } with
        nextToStore := idx }
    else p

/-- Match a batch of headers to a segment and process it there. Returns the segment it
went to. -/
def receiveHeaders (blockHash : Header → BlockHash) (p : HeadersPipeline) (now : Nat)
    (headers : List Header) : HeadersPipeline × Except SyncError (Option Nat) :=
  match headers with
  | [] =>
    match p.emptyRoute with
    | some idx => p.deliver blockHash idx []
    | none => (p, .ok none)
  | first :: _ =>
    match p.route first.prevBlockhash with
    | some idx => (p.reopenTip now idx first.prevBlockhash).deliver blockHash idx headers
    | none => (p, .ok none)

/-- Whether the segment before `nextToStore` is complete and drained. -/
def previousDrained : Bool :=
  p.nextToStore = 0 || match p.segments[p.nextToStore - 1]? with
    | some prev => prev.complete && prev.bufferedHeaders.isEmpty
    | none => false

/-- The loop of `takeReadyToStore`. Each round that goes on moves `nextToStore` by one, so
the number of segments left bounds the rounds. -/
def takeReadyLoop : Nat → HeadersPipeline → List (Nat × List HashedBlockHeader) →
    HeadersPipeline × List (Nat × List HashedBlockHeader)
  | 0, p, ready => (p, ready)
  | fuel + 1, p, ready =>
    match p.segments[p.nextToStore]? with
    | none => (p, ready)
    | some segment =>
      if segment.bufferedHeaders.isEmpty || !p.previousDrained then (p, ready)
      else
        let (segment', headers) := segment.takeBuffered
        let p := p.setSegment p.nextToStore segment'
        let ready := ready ++ [(segment.startHeight + 1, headers)]
        if segment.complete then
          takeReadyLoop fuel { p with nextToStore := p.nextToStore + 1 } ready
        else (p, ready)

/-- Hand out the buffered headers that are next in segment order, each batch with its
segment's first height. -/
def takeReadyToStore : HeadersPipeline × List (Nat × List HashedBlockHeader) :=
  takeReadyLoop (p.segments.length - p.nextToStore) p []

/-- Queue timed-out requests of every segment again. -/
def handleTimeouts (now : Nat) : HeadersPipeline :=
  { p with segments := p.segments.map fun s => s.handleTimeouts now }

/-- Drop the request bookkeeping of every segment. -/
def clearInFlight : HeadersPipeline :=
  { p with segments := p.segments.map SegmentState.clearInFlight }

/-- Mark the tip segment as complete. -/
def markTipComplete : HeadersPipeline :=
  match p.segments.findIdx? fun s => s.targetHeight.isNone && !s.complete with
  | none => p
  | some idx =>
    match p.segments[idx]? with
    | none => p
    | some segment => p.setSegment idx { segment with complete := true }

/-- The completed tip segment, if there is one. -/
def completeTip : Option Nat :=
  p.segments.findIdx? fun s => s.targetHeight.isNone && s.complete

/-- Reopen the tip segment for headers after the initial sync. -/
def resetTipSegment : HeadersPipeline × Bool :=
  match p.completeTip with
  | none => (p, false)
  | some idx =>
    match p.segments[idx]? with
    | none => (p, false)
    | some segment =>
      ({ p.setSegment idx { segment with complete := false } with nextToStore := idx }, true)

end HeadersPipeline

end Dashcore
