import Dashcore.Sync.Blocks.Pipeline
import Dashcore.Sync.Filters.Wallets

/-!
# The blocks manager

The manager takes requests for blocks, loads those that are stored, downloads the others, and
has the wallets process them in height order. For every processed block it reports the
addresses that the wallets derived.

How the wallets process a block is a parameter. The block store is a map from heights. Of the
progress only the phase is modelled. What an error leaves behind is what the code has done
before it.
-/

namespace Dashcore

/-- How wallets process a block: the wallets afterwards, and the addresses they derived. -/
abbrev BlockProcessor (Block : Type) :=
  WalletSet → Block → Nat → Finset WalletId → WalletSet × SortedMap WalletId (List Address)

structure BlocksManager (Block : Type) where
  state : SyncState
  blockStorage : SortedMap Nat Block
  pipeline : BlocksPipeline Block
  filtersSyncComplete : Bool

namespace BlocksManager

variable {Block : Type} {blockHash : Header → BlockHash}

def new (blockStorage : SortedMap Nat Block) : BlocksManager Block where
  state := .waitForEvents
  blockStorage
  pipeline := .new
  filtersSyncComplete := false

/-- What an entry point results in: the manager, the wallets, and the events or an error. -/
abbrev Outcome (Block : Type) :=
  BlocksManager Block × WalletSet × Except SyncError (List SyncEvent)

section Processing

variable (hashOf : Block → BlockHash) (process : BlockProcessor Block) (b : BlocksManager Block)
  (wallet : WalletSet)

/-- Process downloaded blocks as long as the next one is there. Every round takes one, so their
number bounds the rounds. -/
def processLoop : Nat → BlocksPipeline Block → WalletSet →
    BlocksPipeline Block × WalletSet × List SyncEvent
  | 0, pipeline, wallet => (pipeline, wallet, [])
  | fuel + 1, pipeline, wallet =>
    match pipeline.takeNextOrderedBlock hashOf with
    | (pipeline, none) => (pipeline, wallet, [])
    | (pipeline, some (block, height, interested)) =>
      let (wallet, newAddresses) := process wallet block height interested
      let (pipeline, wallet, events) := processLoop fuel pipeline wallet
      (pipeline, wallet, .blockProcessed (hashOf block) height interested newAddresses :: events)

/-- Process what is downloaded, and change the phase when nothing is left. -/
def processBufferedBlocks : BlocksManager Block × WalletSet × List SyncEvent :=
  let (pipeline, wallet, events) :=
    processLoop hashOf process b.pipeline.downloaded.size b.pipeline wallet
  let b := { b with pipeline }
  (if pipeline.isComplete ∧ b.state = .syncing then
      { b with state := if b.filtersSyncComplete then .synced else .waitForEvents }
    else b, wallet, events)

/-- Process what is downloaded, as the result of an entry point. -/
def finish : Outcome Block :=
  let (b, wallet, events) := b.processBufferedBlocks hashOf process wallet
  (b, wallet, .ok events)

/-- Send waiting requests; the result says whether one failed. -/
def sendPending (generation now : Nat) (accepts : Nat → Bool) :
    BlocksManager Block × Except SyncError Nat :=
  let (pipeline, result) := b.pipeline.sendPendingWithGeneration now generation accepts
  ({ b with pipeline }, result)

/-- Send waiting requests, if any may be sent. -/
def sendIfPending (generation now : Nat) (accepts : Nat → Bool) :
    BlocksManager Block × Except SyncError Nat :=
  if b.pipeline.hasPendingRequests then b.sendPending generation now accepts else (b, .ok 0)

/-- A block arrives. One that was requested before a reorg is dropped. The events of the blocks
processed are lost if a request fails afterwards. -/
def handleMessage
    (headers : PersistentBlockHeaderStorage blockHash) (generation : Nat) (block : Block)
    (now : Nat) (accepts : Nat → Bool) : Outcome Block :=
  if (b.pipeline.generationForHash (hashOf block)).any (· ≠ generation) then (b, wallet, .ok [])
  else
    match b.pipeline.receiveBlock hashOf block with
    | (_, false) => (b, wallet, .ok [])
    | (pipeline, true) =>
      let b := { b with pipeline }
      match headers.getHeaderHeightByHash (hashOf block) with
      | none => (b, wallet, .error (.missingBlockHeader (hashOf block)))
      | some height =>
        let b := { b with blockStorage := b.blockStorage.insert height block }
        let (b, wallet, events) := b.processBufferedBlocks hashOf process wallet
        match b.sendIfPending generation now accepts with
        | (b, .error e) => (b, wallet, .error e)
        | (b, .ok _) => (b, wallet, .ok events)

/-- Add the needed blocks that are stored, and collect those to download. It stops at a height
where another block is stored. -/
def loadNeeded (b : BlocksManager Block) :
    List ((_ : FilterMatchKey) × Finset WalletId) → List (FilterMatchKey × Finset WalletId) →
      BlocksManager Block × Except SyncError (List (FilterMatchKey × Finset WalletId))
  | [], toDownload => (b, .ok toDownload)
  | ⟨key, wallets⟩ :: rest, toDownload =>
    match b.blockStorage.get? key.height with
    | none => loadNeeded b rest (toDownload ++ [(key, wallets)])
    | some block =>
      if hashOf block ≠ key.hash then (b, .error (.storedBlockMismatch key (hashOf block)))
      else
        loadNeeded { b with
          pipeline := b.pipeline.addFromStorage hashOf block key.height wallets } rest toDownload

/-- Blocks are needed. -/
def handleBlocksNeeded (generation : Nat)
    (blocks : SortedMap FilterMatchKey (Finset WalletId)) (now : Nat) (accepts : Nat → Bool) :
    Outcome Block :=
  if blocks.size = 0 then (b, wallet, .ok [])
  else
    match b.loadNeeded hashOf blocks.entries [] with
    | (b, .error e) => (b, wallet, .error e)
    | (b, .ok toDownload) =>
      let b := { b with pipeline := b.pipeline.queue toDownload, state := .syncing }
      match b.sendIfPending generation now accepts with
      | (b, .error e) => (b, wallet, .error e)
      | (b, .ok _) => b.finish hashOf process wallet

def handleSyncEvent (generation : Nat)
    (event : SyncEvent) (now : Nat) (accepts : Nat → Bool) : Outcome Block :=
  match event with
  | .blocksNeeded blocks =>
    b.handleBlocksNeeded hashOf process wallet generation blocks now accepts
  | .chainReorg _ _ _ _ =>
    ({ b with pipeline := .new, filtersSyncComplete := false, state := .waitForEvents }, wallet,
      .ok [])
  | .filtersSyncComplete _ =>
    (if b.pipeline.isComplete ∧ (b.state = .syncing ∨ b.state = .waitForEvents) then
        { b with filtersSyncComplete := true, state := .synced }
      else { b with filtersSyncComplete := true }, wallet, .ok [])
  | _ => (b, wallet, .ok [])

def tick (generation now : Nat) (accepts : Nat → Bool) : Outcome Block :=
  match sendPending { b with pipeline := b.pipeline.handleTimeouts now } generation now accepts with
  | (b, .error e) => (b, wallet, .error e)
  | (b, .ok _) => b.finish hashOf process wallet

end Processing

variable (b : BlocksManager Block)

/-- The phase in which the manager goes on when peers are connected. -/
def startSync : BlocksManager Block :=
  { b with state :=
      if b.filtersSyncComplete ∧ b.pipeline.isComplete then .synced
      else if b.pipeline.isComplete then .waitForEvents else .syncing }

/-- The number of connected peers changed. -/
def handleNetworkEvent (connectedCount : Nat) : BlocksManager Block :=
  if connectedCount = 0 then
    { b with state := .waitingForConnections, pipeline := b.pipeline.requeueInFlight }
  else if b.state = .waitingForConnections then b.startSync else b

end BlocksManager

end Dashcore
