import Dashcore.Storage.SegmentCache
import Dashcore.Transaction

/-!
# Phases, errors and events of the sync managers

Error texts are kept as constructors that carry what the text mentions.
-/

namespace Dashcore

/-- The address of a peer. -/
abbrev SocketAddr := Nat

abbrev WalletId := Hash256

/-- A block with its height. -/
structure FilterMatchKey where
  height : Nat
  hash : BlockHash
  deriving DecidableEq

/-- Keys compare by height, then by hash. -/
instance : LinearOrder FilterMatchKey :=
  LinearOrder.lift' (fun k : FilterMatchKey => toLex (k.height, k.hash)) fun a b h => by
    cases a
    cases b
    simpa using h

/-- Phase of a sync manager. -/
inductive SyncState
  | waitForEvents
  | waitingForConnections
  | syncing
  | synced
  | error
  deriving DecidableEq

/-- Errors of the sync managers. -/
inductive SyncError
  /-- `InvalidState`: a completed segment got headers. -/
  | headersOnCompletedSegment (segmentId count height : Nat)
  /-- `InvalidState`: a segment got headers it did not ask for. -/
  | unrequestedHeaders (segmentId : Nat) (prevHash : BlockHash)
  /-- `Validation`: another block stands at a checkpoint's height. -/
  | checkpointMismatch (height : Nat) (expected got : BlockHash)
  /-- `Network`: the request channel is closed. -/
  | requestFailed
  /-- `SyncInProgress`. -/
  | syncInProgress
  /-- `MissingDependency`: the header store has no tip. -/
  | missingTip
  /-- `Storage`. -/
  | storage (error : StorageError)
  /-- `Validation`: the history before an ancestor is not stored. -/
  | storageGap (height expected got : Nat)
  /-- `Validation`: the ancestor itself is not stored. -/
  | missingAncestor (height : Nat)
  /-- `Validation`: a fork batch is too large. -/
  | forkTooLarge (count : Nat)
  /-- `Validation`: a peer has too many branches. -/
  | tooManyBranches (peer : SocketAddr)
  /-- `ForkChainBreak`: a fork header does not follow its predecessor. -/
  | forkChainBreak (expected got : BlockHash)
  /-- `ForkChainBreak`: the branch to extend is not buffered. -/
  | noBufferedBranch (peer : SocketAddr) (tip : BlockHash)
  /-- `Validation`: an extension without headers. -/
  | emptyExtension
  /-- `Validation`: an extension makes the branch too large. -/
  | extensionTooLarge (total : Nat)
  /-- `Validation`: a fork header misses its target. -/
  | forkProofOfWork (height : Nat)
  /-- `Validation`: a fork header is not later than the median time. -/
  | forkMedianTime (height time medianTime : Nat)
  /-- `Validation`: a fork header has the wrong compact target. -/
  | forkBits (height got expected : Nat)
  /-- `Validation`: a batch does not follow the stored tip. -/
  | segmentChainBreak (expected got : BlockHash)
  /-- `Validation`: a header of a batch does not follow the one before. -/
  | invalidHeaderChain (index : Nat)
  /-- `Validation`: a header of a batch misses its target. -/
  | invalidProofOfWork (index : Nat)
  /-- `Storage`: the header that ends a batch is not stored. -/
  | missingHeader (height : Nat)
  /-- `InvalidState`: a queued batch has no start height. -/
  | missingBatchStart (stopHash : BlockHash)
  /-- `Network`: a response without filter hashes. -/
  | emptyCfheaders
  /-- `InvalidState`: a queued filter batch has no tracker. -/
  | missingBatchTracker (startHeight : Nat)
  /-- `Validation`: a filter for a block that is not stored. -/
  | unknownFilterBlock (blockHash : BlockHash)
  /-- `InvalidState`: the filter header before a batch is not stored. -/
  | missingFilterHeader (height : Nat)
  /-- `Validation`: filters that do not hash to their filter headers. -/
  | invalidFilterHeaderChain (failures : List Nat)
  /-- `Validation`: another block is stored at the height of a needed one. -/
  | storedBlockMismatch (expected : FilterMatchKey) (got : BlockHash)
  /-- `InvalidState`: a received block has no stored header. -/
  | missingBlockHeader (blockHash : BlockHash)
  deriving DecidableEq

/-- Events the sync managers exchange. -/
inductive SyncEvent
  | syncStart
  | blockHeadersStored (tipHeight : Nat)
  | blockHeaderSyncComplete (tipHeight : Nat)
  | chainReorg (forkHeight : Nat) (oldTip newTip : BlockHash) (generation : Nat)
  | deepReorgDetected (forkHeight depth : Nat)
  | filterHeadersStored (startHeight endHeight tipHeight : Nat)
  | filterHeadersSyncComplete (tipHeight : Nat)
  | filtersStored (startHeight endHeight : Nat)
  | filtersSyncComplete (tipHeight : Nat)
  /-- Blocks to be processed, each for some wallets. -/
  | blocksNeeded (blocks : SortedMap FilterMatchKey (Finset WalletId))
  /-- A block was processed for some wallets, which derived new addresses. -/
  | blockProcessed (blockHash : BlockHash) (height : Nat) (wallets : Finset WalletId)
      (newAddresses : SortedMap WalletId (List Address))
  deriving DecidableEq

end Dashcore
