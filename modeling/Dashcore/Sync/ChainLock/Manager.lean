import Dashcore.Sml.MessageVerification
import Dashcore.Sync.Reorg

/-!
# The chainlock manager

The manager takes chainlocks from the network, checks each against the stored header at its
height and against its signature, and keeps the best one. Signatures can be checked once the
masternode data is there; the highest chainlock that arrives before waits for that. A chainlock
for a height without a header waits for the header.

Signature verification is a parameter of every call, since the masternode data changes. The
iteration order of the hash map of waiting chainlocks is a parameter that ranks its keys. Saving
the best chainlock to disk is not modelled.
-/

namespace Dashcore

/-- How long a chainlock waits for a header, in milliseconds. -/
def pendingUnknownHashTtl : Nat := 5 * 60 * 1000

/-- A chainlock compared with the stored header at its height. -/
inductive BlockHashVerification
  | matching
  | mismatch (localHeaderHash : BlockHash)
  /-- No header is stored at the height. -/
  | unknown
  deriving DecidableEq

/-- What the manager tells the others. -/
inductive ChainLockEvent
  | syncStart
  | chainLockReceived (chainLock : ChainLock) (validated : Bool)
  | pendingChainLockQueued (chainLock : ChainLock)
  | chainLockForcedReorg (chainLock : ChainLock) (forkHeight : Nat)
  /-- A peer sent an invalid signature for a block that is not ours. -/
  | reportMisbehavior (peer : SocketAddr)
  deriving DecidableEq

structure ChainLockProgress where
  state : SyncState
  bestValidatedHeight : Nat
  valid : Nat
  invalid : Nat
  deriving DecidableEq

namespace ChainLockProgress

variable (p : ChainLockProgress)

def addValid : ChainLockProgress := { p with valid := p.valid + 1 }

def addInvalid : ChainLockProgress := { p with invalid := p.invalid + 1 }

def updateBestValidatedHeight (height : Nat) : ChainLockProgress :=
  { p with bestValidatedHeight := height }

end ChainLockProgress

structure ChainLockManager where
  progress : ChainLockProgress
  bestChainlock : Option ChainLock
  requestedChainlocks : Finset Hash256
  masternodeReady : Bool
  /-- The highest chainlock that arrived before the masternode data. -/
  pendingValidation : Option ChainLock
  /-- Chainlocks that wait for a header, with the peer and the time. -/
  pendingUnknownHash : SortedMap BlockHash (ChainLock × Option SocketAddr × Nat)
  /-- The height of the best chainlock that the other managers read, 0 before the first. -/
  chainlockHeight : Nat

/-- Match a chainlock against the stored header. A storage error counts as no header. -/
def verifyBlockHash {blockHash : Header → BlockHash}
    (headerStorage : PersistentBlockHeaderStorage blockHash) (chainlock : ChainLock) :
    BlockHashVerification :=
  match headerStorage.getHeader chainlock.blockHeight with
  | .ok (some header) =>
    if blockHash header = chainlock.blockHash then .matching else .mismatch (blockHash header)
  | .ok none => .unknown
  | .error _ => .unknown

namespace ChainLockManager

variable {blockHash : Header → BlockHash}

/-- A manager with the chainlock that was saved on disk. -/
def new (saved : Option ChainLock) : ChainLockManager where
  progress :=
    { state := .waitForEvents
      bestValidatedHeight := (saved.map ChainLock.blockHeight).getD 0
      valid := 0
      invalid := 0 }
  bestChainlock := saved
  requestedChainlocks := ∅
  masternodeReady := false
  pendingValidation := none
  pendingUnknownHash := ∅
  chainlockHeight := (saved.map ChainLock.blockHeight).getD 0

variable (m : ChainLockManager)

def setState (state : SyncState) : ChainLockManager :=
  { m with progress := { m.progress with state } }

/-- Take a chainlock for the best one. -/
def commitValidatedChainlock (cl : ChainLock) : ChainLockManager :=
  { m with
    progress := m.progress.updateBestValidatedHeight cl.blockHeight
    bestChainlock := some cl
    chainlockHeight := cl.blockHeight }

def addValid : ChainLockManager :=
  { m with progress := m.progress.addValid }

def addInvalid : ChainLockManager :=
  { m with progress := m.progress.addInvalid }

/-- Announce the best chainlock. -/
def announceBest : List ChainLockEvent :=
  match m.bestChainlock with
  | some cl => [.chainLockReceived cl true]
  | none => []

variable (headerStorage : PersistentBlockHeaderStorage blockHash) (validSignature : ChainLock → Bool)

/-- The masternode data is there: check the chainlock that waited for it. It is committed even
if no header is stored at its height. -/
def onMasternodeReady : ChainLockManager × List ChainLockEvent :=
  let pendingValidation := m.pendingValidation
  let m := { m with masternodeReady := true, pendingValidation := none }
  match pendingValidation with
  | none => (m, m.announceBest)
  | some pending =>
    match verifyBlockHash headerStorage pending with
    | .matching | .unknown =>
      let m := if validSignature pending then m.addValid.commitValidatedChainlock pending
        else m.addInvalid
      (m, m.announceBest)
    | .mismatch _ =>
      if validSignature pending then
        (m.addValid, [.chainLockForcedReorg pending (pending.blockHeight - 1)])
      else (m.addInvalid, m.addInvalid.announceBest)

def resetForReorg : ChainLockManager :=
  { m with masternodeReady := false, pendingValidation := none }

/-- A chainlock that waits for masternode data is kept. -/
def resetForDisconnect : ChainLockManager :=
  { m with masternodeReady := false }

/-- The better one of a chainlock and the one that waits for masternode data. -/
def replacePending (pending : Option ChainLock) (chainlock : ChainLock) : Option ChainLock :=
  if pending.all (·.blockHeight < chainlock.blockHeight) then some chainlock else pending

/-- Let a chainlock wait for its header, unless one for the same block does. -/
def queueUnknown (chainlock : ChainLock) (peer : Option SocketAddr)
    (now : Nat) : ChainLockManager :=
  if m.pendingUnknownHash.contains chainlock.blockHash then m
  else
    { m with
      pendingUnknownHash := m.pendingUnknownHash.insert chainlock.blockHash (chainlock, peer, now) }

/-- A chainlock arrives, or its header did. -/
def processChainlock (chainlock : ChainLock) (peer : Option SocketAddr) (now : Nat) :
    ChainLockManager × List ChainLockEvent :=
  -- one that is not above the best is ignored
  if m.bestChainlock.any (chainlock.blockHeight ≤ ·.blockHeight) then (m, [])
  else if m.masternodeReady = false then
    ({ m with pendingValidation := replacePending m.pendingValidation chainlock },
      [.chainLockReceived chainlock false])
  else
    match verifyBlockHash headerStorage chainlock with
    | .unknown => (m.queueUnknown chainlock peer now, [.pendingChainLockQueued chainlock])
    | .mismatch _ =>
      if validSignature chainlock then
        (m.addValid, [.chainLockForcedReorg chainlock (chainlock.blockHeight - 1)])
      else (m.addInvalid, (peer.map ChainLockEvent.reportMisbehavior).toList)
    | .matching =>
      if validSignature chainlock then
        (m.addValid.commitValidatedChainlock chainlock, [.chainLockReceived chainlock true])
      else (m.addInvalid, [.chainLockReceived chainlock false])

/-- Process the chainlocks whose headers have arrived, one after the other. -/
def retryLoop (now : Nat) :
    List ((_ : BlockHash) × (ChainLock × Option SocketAddr × Nat)) → ChainLockManager →
      ChainLockManager × List ChainLockEvent
  | [], m => (m, [])
  | ⟨hash, chainlock, peer, _⟩ :: rest, m =>
    let m := { m with pendingUnknownHash := m.pendingUnknownHash.erase hash }
    let (m, produced) := m.processChainlock headerStorage validSignature chainlock peer now
    let (m, events) := retryLoop now rest m
    (m, produced ++ events)

/-- Headers were stored. -/
def retryPendingUnknownHash
    (order : BlockHash → Nat) (now : Nat) : ChainLockManager × List ChainLockEvent :=
  let entries := m.pendingUnknownHash.entries.insertionSort fun x y => order x.1 ≤ order y.1
  let toRetry := entries.filter fun e => verifyBlockHash headerStorage e.2.1 ≠ .unknown
  retryLoop headerStorage validSignature now toRetry m

/-- Drop the chainlocks that have waited too long for a header. -/
def drainExpiredPending (now : Nat) : ChainLockManager :=
  { m with
    pendingUnknownHash := m.pendingUnknownHash.filter fun _ e =>
      now - e.2.2 < pendingUnknownHashTtl }

/-- Chainlocks are announced. Those not yet requested are requested. -/
def handleInventory (hashes : List Hash256) (accepted : Bool) :
    ChainLockManager × Except SyncError (List ChainLockEvent) :=
  let toRequest := hashes.filter (· ∉ m.requestedChainlocks)
  if toRequest.isEmpty then (m, .ok [])
  else if accepted then
    ({ m with requestedChainlocks := m.requestedChainlocks ∪ toRequest.toFinset }, .ok [])
  else (m, .error .requestFailed)

/-- Events of other managers. -/
def handleSyncEvent
    (order : BlockHash → Nat) (now : Nat) : SyncEvent → ChainLockManager × List ChainLockEvent
  | .chainReorg _ _ _ _ => (m.resetForReorg, [])
  | .blockHeadersStored _ => m.retryPendingUnknownHash headerStorage validSignature order now
  | _ => (m, [])

/-- The masternode data was updated. Only the first update counts, and only with peers. -/
def handleMasternodeStateUpdated : ChainLockManager × List ChainLockEvent :=
  if m.masternodeReady ∨ m.progress.state = .waitingForConnections then (m, [])
  else
    let (m, events) := m.onMasternodeReady headerStorage validSignature
    (m.setState .synced, events)

def onDisconnect : ChainLockManager :=
  resetForDisconnect { m with requestedChainlocks := ∅ }

/-- The number of connected peers changed. -/
def handleNetworkEvent (connectedCount : Nat) : ChainLockManager × List ChainLockEvent :=
  if connectedCount = 0 then ((m.setState .waitingForConnections).onDisconnect, [])
  else if m.progress.state = .waitingForConnections then
    (m.setState .waitForEvents, [.syncStart])
  else (m, [])

end ChainLockManager

/-! ### Beside the header store -/

/-- The manager and what a reorg may change, the header store among it. -/
structure LockedChain (blockHash : Header → BlockHash) {Block : Type} (noBlock : Block) where
  chainLocks : ChainLockManager
  cascade : Cascade blockHash noBlock

namespace LockedChain

variable {blockHash : Header → BlockHash} {Block : Type} {noBlock : Block}

section

variable (s : LockedChain blockHash noBlock)

def headerStorage : PersistentBlockHeaderStorage blockHash :=
  s.cascade.storages.blockHeaderStorage

/-- What may happen. -/
inductive Action
  | clsig (chainlock : ChainLock) (peer : SocketAddr) (now : Nat) (validSignature : ChainLock → Bool)
  | inventory (hashes : List Hash256) (accepted : Bool)
  | syncEvent (event : SyncEvent) (now : Nat) (order : BlockHash → Nat)
      (validSignature : ChainLock → Bool)
  | masternodeStateUpdated (validSignature : ChainLock → Bool)
  | tick (now : Nat)
  | networkEvent (connectedCount : Nat)
  /-- Headers are stored above the tip. -/
  | append (headers : List HashedBlockHeader)
  /-- A reorg is driven, with what it knows of checkpoints and the tip. -/
  | reorg (checkpointManager : CheckpointManager) (currentTipHeight : Nat)
      (currentTipHash : BlockHash) (force : Bool) (candidate : ForkCandidate)

/-- The best chainlock height as a reorg reads it; 0 means that there is none yet. -/
def bestChainlockHeight : Option Nat :=
  if s.chainLocks.chainlockHeight = 0 then none else some s.chainLocks.chainlockHeight

def context (checkpointManager : CheckpointManager)
    (currentTipHeight : Nat) (currentTipHash : BlockHash) (force : Bool) : ReorgContext where
  checkpointManager
  bestChainlockHeight := s.bestChainlockHeight
  currentTipHeight
  currentTipHash
  force

def appendHeaders (headers : List HashedBlockHeader) :
    LockedChain blockHash noBlock :=
  { s with
    cascade.storages.blockHeaderStorage := s.headerStorage.storeHashedHeaders headers }

end

variable [DecidableEq Block]

def step (s : LockedChain blockHash noBlock) : Action → LockedChain blockHash noBlock
  | .clsig chainlock peer now validSignature =>
    { s with chainLocks :=
        (s.chainLocks.processChainlock s.headerStorage validSignature chainlock (some peer) now).1 }
  | .inventory hashes accepted =>
    { s with chainLocks := (s.chainLocks.handleInventory hashes accepted).1 }
  | .syncEvent event now order validSignature =>
    { s with chainLocks :=
        (s.chainLocks.handleSyncEvent s.headerStorage validSignature order now event).1 }
  | .masternodeStateUpdated validSignature =>
    { s with chainLocks :=
        (s.chainLocks.handleMasternodeStateUpdated s.headerStorage validSignature).1 }
  | .tick now => { s with chainLocks := s.chainLocks.drainExpiredPending now }
  | .networkEvent connectedCount =>
    { s with chainLocks := (s.chainLocks.handleNetworkEvent connectedCount).1 }
  | .append headers => s.appendHeaders headers
  | .reorg checkpointManager currentTipHeight currentTipHash force candidate =>
    { s with cascade :=
        (handleReorg (s.context checkpointManager currentTipHeight currentTipHash force) candidate
          s.cascade).1 }

end LockedChain

end Dashcore
