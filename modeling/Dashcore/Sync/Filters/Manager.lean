import Dashcore.Sync.Filters.MatchTracker
import Dashcore.Sync.Filters.Pipeline
import Dashcore.Sync.Filters.Wallets

/-!
# The filters manager

The manager downloads the compact filters of stored blocks, verifies them against the filter
headers, stores them, and matches them against the wallets in batches. Blocks whose filters
match are asked for; a batch is committed, in height order, when all of them are processed
and the addresses found in them were matched too. Up to three batches are processed at once.

The stores, the wallets and the reorg generation are shared with other managers. Headers and
filter headers are stored, a reorg cuts all stores, and wallets are added and derive addresses
at any time between the actions of the manager.
-/

namespace Dashcore

/-- Heights of one processing batch. -/
def batchProcessingSize : Nat := 5000

/-- Batches processed at once. -/
def maxLookaheadBatches : Nat := 3

structure FiltersProgress where
  state : SyncState
  committedHeight : Nat
  storedHeight : Nat
  targetHeight : Nat
  filterHeaderTipHeight : Nat
  processed : Nat
  matched : Nat
  deriving DecidableEq

namespace FiltersProgress

variable (p : FiltersProgress) (height : Nat)
include height

def updateCommittedHeight : FiltersProgress :=
  { p with committedHeight := height }

def updateStoredHeight : FiltersProgress :=
  { p with storedHeight := height }

/-- The target only grows. -/
def updateTargetHeight : FiltersProgress :=
  if p.targetHeight < height then { p with targetHeight := height } else p

/-- The known tip of the filter headers only grows. -/
def updateFilterHeaderTipHeight : FiltersProgress :=
  if p.filterHeaderTipHeight < height then { p with filterHeaderTipHeight := height } else p

end FiltersProgress

section Records

variable (blockHash : Header → BlockHash)

/-- The filters of a batch when it was scanned, and the stores at that time. -/
structure ScanRecord where
  filters : FilterMap
  headerStorage : PersistentBlockHeaderStorage blockHash
  filterHeaderStorage : SegmentStore (0 : FilterHeader)
  filterStorage : SegmentStore ([] : Filter)

/-- A batch when it was committed: with the wallets and the blocks in flight at that time, its
scan, and the filters that each wallet's addresses had been matched against. -/
structure FiltersCommit where
  batch : FiltersBatch
  wallet : WalletSet
  blocksRemaining : SortedMap BlockHash (Nat × Nat)
  scan : Option (ScanRecord blockHash)
  tested : WalletId → Address → FilterMatchKey → Bool

/-- What happened so far. The code keeps none of it. -/
structure FiltersHistory where
  /-- The last scan of the batch that starts at a height. -/
  scans : Nat → Option (ScanRecord blockHash)
  /-- Whether an address of a wallet was matched against the filter of a block. -/
  tested : WalletId → Address → FilterMatchKey → Bool
  commits : List (FiltersCommit blockHash)
  /-- The stores were cut for a reorg that the manager has not heard of. -/
  reorgPending : Bool

/-- The manager with the shared stores, wallets and reorg generation. -/
structure FiltersManager where
  progress : FiltersProgress
  headerStorage : PersistentBlockHeaderStorage blockHash
  filterHeaderStorage : SegmentStore (0 : FilterHeader)
  filterStorage : SegmentStore ([] : Filter)
  wallet : WalletSet
  filterPipeline : FiltersPipeline
  /-- Downloaded batches that wait for verification, by first height. -/
  pendingBatches : SortedMap Nat FiltersBatch
  nextBatchToStore : Nat
  /-- The batches in processing, by first height. -/
  activeBatches : SortedMap Nat FiltersBatch
  processingHeight : Nat
  tracker : BlockMatchTracker
  reorgGeneration : Nat
  history : FiltersHistory blockHash

end Records

namespace FiltersManager

variable {blockHash : Header → BlockHash} (scheme : FilterScheme) (m : FiltersManager blockHash)
  (now : Nat) (accepts : Nat → Bool)

/-- The last height of the filter store; 0 also for an empty store. -/
def filterTipHeight : Nat :=
  m.filterStorage.cache.tipHeight.getD 0

/-- A manager that has just been created over its stores. -/
def new (headerStorage : PersistentBlockHeaderStorage blockHash)
    (filterHeaderStorage : SegmentStore (0 : FilterHeader))
    (filterStorage : SegmentStore ([] : Filter)) (wallet : WalletSet) (reorgGeneration : Nat) :
    FiltersManager blockHash where
  progress :=
    { state := .waitForEvents
      committedHeight := wallet.syncedHeight
      storedHeight := filterStorage.cache.tipHeight.getD 0
      targetHeight := (headerStorage.getTip.map BlockHeaderTip.height).getD 0
      filterHeaderTipHeight := filterHeaderStorage.cache.tipHeight.getD 0
      processed := 0
      matched := 0 }
  headerStorage
  filterHeaderStorage
  filterStorage
  wallet
  filterPipeline := .new
  pendingBatches := ∅
  nextBatchToStore := 0
  activeBatches := ∅
  processingHeight := 0
  tracker := .new
  reorgGeneration
  history :=
    { scans := fun _ => none
      tested := fun _ _ _ => false
      commits := []
      reorgPending := false }

def setState (state : SyncState) : FiltersManager blockHash :=
  { m with progress := { m.progress with state } }

section

variable (batchStart : Nat)

/-- Put a batch into processing, or replace one. -/
def setBatch (batch : FiltersBatch) : FiltersManager blockHash :=
  { m with activeBatches := m.activeBatches.insert batchStart batch }

/-! ### Matching -/

/-- Remember which filters the addresses of wallets are matched against. -/
def recordTests (tests : List WalletTest) (filters : FilterMap) : FiltersManager blockHash :=
  { m with history := { m.history with
    tested := fun walletId address key =>
      m.history.tested walletId address key ||
        (filters.contains key && tests.any fun t =>
          t.walletId = walletId && t.syncedHeight < key.height && address ∈ t.addresses) } }

/-- Track the blocks that a batch's filters match, count those that are new for the batch, and
ask for those that some wallet has not had applied. -/
def requestMatches (blockToWallets : SortedMap FilterMatchKey (Finset WalletId)) :
    FiltersManager blockHash × List SyncEvent :=
  let r := m.tracker.trackMatches batchStart blockToWallets
  let activeBatches :=
    match m.activeBatches.get? batchStart with
    | some batch => m.activeBatches.insert batchStart
        (batch.setPendingBlocks (batch.pendingBlocks + r.newBlocksCount))
    | none => m.activeBatches
  ({ m with
      tracker := r.tracker
      activeBatches
      progress := { m.progress with matched := m.progress.matched + blockToWallets.size } },
    if r.blocksNeeded.size = 0 then [] else [.blocksNeeded r.blocksNeeded])

/-- The wallets behind a height that have addresses. -/
def behindTests (height : Nat) : List WalletTest :=
  ((m.wallet.walletsBehind height).map fun walletId =>
    { walletId
      syncedHeight := m.wallet.walletSyncedHeight walletId
      addresses := m.wallet.monitoredAddressesFor walletId }).filter fun t => !t.addresses.isEmpty

/-- Mark a batch as scanned, for all wallets that are behind its end. -/
def beginScan (batch : FiltersBatch) : FiltersManager blockHash :=
  let scanned := batch.markScanned.setScannedWallets
    (m.wallet.walletsBehind batch.endHeight).toFinset
  let scan : ScanRecord blockHash :=
    { filters := batch.filters
      headerStorage := m.headerStorage
      filterHeaderStorage := m.filterHeaderStorage
      filterStorage := m.filterStorage }
  recordTests
    { m.setBatch batchStart scanned with
      history := { m.history with scans := Function.update m.history.scans batchStart scan } }
    (m.behindTests batch.endHeight) batch.filters

/-- The blocks of a scan. The filters are first matched against the addresses of all wallets
together, and those that match against each wallet's. -/
def scanMatches (tests : List WalletTest) (filters : FilterMap) :
    SortedMap FilterMatchKey (Finset WalletId) :=
  let union := tests.flatMap WalletTest.addresses
  let minSynced := ((tests.map WalletTest.syncedHeight).min?).getD 0
  attributeMatches scheme tests (checkCompactFiltersForAddresses scheme filters union minSynced)

/-- Match a batch against the wallets that are behind its end. -/
def scanBatch : FiltersManager blockHash × List SyncEvent :=
  match m.activeBatches.get? batchStart with
  | none => (m, [])
  | some batch =>
    let tests := m.behindTests batch.endHeight
    let blockToWallets := scanMatches scheme tests batch.filters
    let m := m.beginScan batchStart batch
    if batch.filters.size = 0 ∨ tests = [] ∨ blockToWallets.size = 0 then (m, [])
    else m.requestMatches batchStart blockToWallets

variable (newAddresses : SortedMap WalletId (Finset Address))

/-- The addresses to rescan a batch for, above the heights their wallets are matched up to. -/
def rescanTests : List WalletTest :=
  (newAddresses.entries.map fun e =>
    { walletId := e.1
      syncedHeight := m.wallet.walletSyncedHeight e.1
      addresses := e.2.sort (· ≤ ·) }).filter fun t => !t.addresses.isEmpty

/-- Match a batch against new addresses. -/
def rescanBatch :
    FiltersManager blockHash × List SyncEvent :=
  match m.activeBatches.get? batchStart with
  | none => (m, [])
  | some batch =>
    if newAddresses.size = 0 ∨ batch.filters.size = 0 then (m, [])
    else
      let tests := m.rescanTests newAddresses
      (m.recordTests tests batch.filters).requestMatches batchStart
        (attributeMatches scheme tests batch.filters)

end

/-- Rescan several batches, one after the other. -/
def rescanBatches (newAddresses : SortedMap WalletId (Finset Address)) :
    List Nat → FiltersManager blockHash → FiltersManager blockHash × List SyncEvent
  | [], m => (m, [])
  | batchStart :: rest, m =>
    let (m, events) := m.rescanBatch scheme batchStart newAddresses
    let (m, more) := rescanBatches newAddresses rest m
    (m, events ++ more)

/-! ### Committing -/

section

variable (batchStart : Nat)

/-- The scanned batches that start above a height. -/
def laterScanned : List Nat :=
  (m.activeBatches.filter fun start batch => batchStart < start && batch.scanned).keys

/-- Take the addresses collected in a batch out, and match them against it and the scanned
batches above it. -/
def rescanCollected (batch : FiltersBatch) : FiltersManager blockHash × List SyncEvent :=
  let (emptied, addressesByWallet) := batch.takeCollectedAddresses
  let m := m.setBatch batchStart emptied
  if addressesByWallet.size = 0 then (m, [])
  else rescanBatches scheme addressesByWallet (batchStart :: m.laterScanned batchStart) m

/-- The rescan before a commit. The result says whether it found blocks that the batch has to
wait for. -/
def rescanForCommit (batch : FiltersBatch) : FiltersManager blockHash × List SyncEvent × Bool :=
  if batch.rescanComplete then (m, [], false)
  else
    let (m, events) := m.rescanCollected scheme batchStart batch
    match m.activeBatches.get? batchStart with
    | some batch =>
      if 0 < batch.pendingBlocks then (m, events, true)
      else (m.setBatch batchStart batch.markRescanComplete, events, false)
    | none => (m, events, false)

/-- Move the wallets that were behind a batch to its end. -/
def advanceWallets (ws : WalletSet) (walletIds : Finset WalletId) (height : Nat) : WalletSet :=
  (walletIds.sort (· ≤ ·)).foldl (fun ws id => ws.updateWalletSyncedHeight id height) ws

/-- Commit a batch. -/
def commitBatch (batch : FiltersBatch) : FiltersManager blockHash :=
  let history := { m.history with
    commits := m.history.commits ++
      [{ batch
         wallet := m.wallet
         blocksRemaining := m.tracker.blocksRemaining
         scan := m.history.scans batchStart
         tested := m.history.tested }] }
  let ahead := m.progress.committedHeight < batch.endHeight
  { m with
    activeBatches := m.activeBatches.erase batchStart
    progress := if ahead then m.progress.updateCommittedHeight batch.endHeight else m.progress
    wallet := if ahead then advanceWallets m.wallet batch.scannedWallets batch.endHeight
      else m.wallet
    tracker := m.tracker.pruneAtOrBelow batch.endHeight
    processingHeight := batch.endHeight + 1
    history }

end

/-- Commit batches from the lowest one on. Each round removes one, so their number bounds the
rounds. -/
def tryCommitLoop : Nat → FiltersManager blockHash → FiltersManager blockHash × List SyncEvent
  | 0, m => (m, [])
  | fuel + 1, m =>
    match m.activeBatches.entries with
    | [] => (m, [])
    | ⟨batchStart, batch⟩ :: _ =>
      if !batch.scanned || 0 < batch.pendingBlocks then (m, [])
      else
        match m.rescanForCommit scheme batchStart batch with
        | (m, events, true) => (m, events)
        | (m, events, false) =>
          match m.activeBatches.get? batchStart with
          | none => (m, events)
          | some batch =>
            let (m, more) := tryCommitLoop fuel (m.commitBatch batchStart batch)
            (m, events ++ more)

/-- Commit every batch that is ready, in height order. -/
def tryCommitBatches : FiltersManager blockHash × List SyncEvent :=
  m.tryCommitLoop scheme m.activeBatches.size

/-! ### Scanning and lookahead -/

/-- Scan several batches, one after the other. -/
def scanBatches : List Nat → FiltersManager blockHash → FiltersManager blockHash × List SyncEvent
  | [], m => (m, [])
  | batchStart :: rest, m =>
    let (m, events) := m.scanBatch scheme batchStart
    let (m, more) := scanBatches rest m
    (m, events ++ more)

/-- Scan the batches whose filters are all stored. -/
def scanReadyBatches : FiltersManager blockHash × List SyncEvent :=
  m.scanBatches scheme (m.activeBatches.filter fun _ batch =>
    !batch.scanned && batch.endHeight ≤ m.progress.storedHeight).keys

/-- The stored filters of a range, each under its block. An empty slot of the store reads as a
filter without content. -/
def loadFilters (startHeight endHeight : Nat) : Except SyncError FilterMap :=
  match m.filterStorage.getItems startHeight (endHeight + 1),
      m.headerStorage.loadHeaders startHeight (endHeight + 1) with
  | .error e, _ => .error (.storage e)
  | .ok _, .error e => .error (.storage e)
  | .ok loadedFilters, .ok loadedHeaders =>
    .ok (((loadedFilters.zip loadedHeaders).zipIdx startHeight).foldl
      (fun filters item => filters.insert ⟨item.2, blockHash item.1.2⟩ item.1.1) ∅)

/-- Put a batch into processing; one that is stored in full is marked as verified. -/
def openBatch (startHeight endHeight : Nat) (filters : FilterMap)
    (verified : Bool) : FiltersManager blockHash :=
  let batch := FiltersBatch.new startHeight endHeight filters
  m.setBatch startHeight (if verified then batch.markVerified else batch)

/-- Where the next lookahead batch starts. -/
def nextBatchStart : Nat :=
  match m.activeBatches.values.getLast? with
  | some last => last.endHeight + 1
  | none => m.processingHeight

/-- Where the next lookahead batch ends. -/
def nextBatchEnd : Nat :=
  min (m.nextBatchStart + batchProcessingSize - 1) m.progress.filterHeaderTipHeight

/-- The filters of a range that are stored already. -/
def loadAvailable (startHeight endHeight : Nat) : Except SyncError FilterMap :=
  if startHeight ≤ min m.progress.storedHeight endHeight then
    m.loadFilters startHeight (min m.progress.storedHeight endHeight)
  else .ok ∅

/-- Open batches above the last one, up to the limit. Each round opens one. -/
def lookaheadLoop : Nat → FiltersManager blockHash →
    FiltersManager blockHash × Except SyncError (List SyncEvent)
  | 0, m => (m, .ok [])
  | fuel + 1, m =>
    if maxLookaheadBatches ≤ m.activeBatches.size then (m, .ok [])
    else if m.progress.filterHeaderTipHeight < m.nextBatchStart then (m, .ok [])
    else
      let nextStart := m.nextBatchStart
      let nextEnd := m.nextBatchEnd
      match m.loadAvailable nextStart nextEnd with
      | .error e => (m, .error e)
      | .ok filters =>
        let ready := nextEnd ≤ m.progress.storedHeight
        let m := m.openBatch nextStart nextEnd filters ready
        let (m, events) := if ready then m.scanBatch scheme nextStart else (m, [])
        match lookaheadLoop fuel m with
        | (m, .error e) => (m, .error e)
        | (m, .ok more) => (m, .ok (events ++ more))

def tryCreateLookaheadBatches : FiltersManager blockHash × Except SyncError (List SyncEvent) :=
  m.lookaheadLoop scheme maxLookaheadBatches

/-- Report completion when nothing is in processing and everything is committed. -/
def reportComplete : FiltersManager blockHash × List SyncEvent :=
  if m.activeBatches.size = 0 ∧ (m.progress.state = .syncing ∨ m.progress.state = .synced) ∧
      m.progress.filterHeaderTipHeight ≤ m.progress.committedHeight ∧
      m.progress.targetHeight ≤ m.progress.committedHeight then
    (m.setState .synced, [.filtersSyncComplete m.progress.committedHeight])
  else (m, [])

/-- Commit, scan, commit what the scan made ready, and open batches. An error in the last phase
drops the events of the others. -/
def tryProcessBatch : FiltersManager blockHash × Except SyncError (List SyncEvent) :=
  let (m, committed) := m.tryCommitBatches scheme
  let (m, scanned) := m.scanReadyBatches scheme
  let (m, committedAfter) := m.tryCommitBatches scheme
  match m.tryCreateLookaheadBatches scheme with
  | (m, .error e) => (m, .error e)
  | (m, .ok opened) =>
    let (m, completed) := m.reportComplete
    (m, .ok (committed ++ scanned ++ committedAfter ++ opened ++ completed))

/-! ### Storing filters -/

/-- The filter header before a height; all zeros before height 0. -/
def getPrevFilterHeader (height : Nat) : Except SyncError FilterHeader :=
  if height = 0 then .ok 0
  else
    match m.filterHeaderStorage.cache.tipHeight, m.filterHeaderStorage.cache.startHeight with
    | some tipHeight, some startHeight =>
      if tipHeight < height - 1 ∨ height - 1 < startHeight then
        .error (.missingFilterHeader (height - 1))
      else
        match m.filterHeaderStorage.getItems (height - 1) height with
        | .error e => .error (.storage e)
        | .ok items =>
          match items.head? with
          | some header => .ok header
          | none => .error (.missingFilterHeader (height - 1))
    | _, _ => .error (.missingFilterHeader (height - 1))

/-- A filter hashes to the header expected at its height. -/
def validFilter (startHeight : Nat) (expectedHeaders : List FilterHeader)
    (prevFilterHeader : FilterHeader) (key : FilterMatchKey) (filter : Filter) : Bool :=
  startHeight ≤ key.height &&
    match (prevFilterHeader :: expectedHeaders)[key.height - startHeight]?,
        expectedHeaders[key.height - startHeight]? with
    | some previous, some expected => scheme.headerOf filter previous = expected
    | _, _ => false

/-- Check the filters of a batch against the filter headers. -/
def verifyBatch (batch : FiltersBatch) : Except SyncError Unit :=
  match m.filterHeaderStorage.getItems batch.startHeight (batch.endHeight + 1) with
  | .error e => .error (.storage e)
  | .ok filterHeaders =>
    match m.getPrevFilterHeader batch.startHeight with
    | .error e => .error e
    | .ok prevFilterHeader =>
      let failures := (batch.filters.filter fun key filter =>
        !validFilter scheme batch.startHeight filterHeaders prevFilterHeader key filter).keys
      if failures = [] then .ok ()
      else .error (.invalidFilterHeaderChain (failures.map FilterMatchKey.height))

/-- Write the filters of a batch to the store. -/
def storeFilters (store : SegmentStore ([] : Filter)) (filters : FilterMap) :
    SegmentStore ([] : Filter) :=
  filters.entries.foldl (fun s e => s.storeItemsAtHeight [e.2] e.1.height) store

/-- The filters of a downloaded batch that lie in a batch in processing. -/
def overlap (batch active : FiltersBatch) : FilterMap :=
  batch.filters.filter fun key _ =>
    max batch.startHeight active.startHeight ≤ key.height &&
      key.height ≤ min batch.endHeight active.endHeight

section

variable (batch : FiltersBatch)

/-- Give the filters of a downloaded batch to the batches in processing that it overlaps. -/
def loadIntoActive : FiltersManager blockHash :=
  { m with activeBatches := m.activeBatches.mapVal fun _ active =>
      if batch.startHeight ≤ active.endHeight ∧ active.startHeight ≤ batch.endHeight then
        { active with filters := active.filters.union (overlap batch active) }
      else active }

/-- Verify and store a downloaded batch that was not loaded from the store. -/
def verifyAndStore :
    Except SyncError (FiltersManager blockHash × List SyncEvent) :=
  if batch.verified then .ok (m, [])
  else
    match m.verifyBatch scheme batch with
    | .error e => .error e
    | .ok () =>
      .ok ({ m with filterStorage := storeFilters m.filterStorage batch.filters },
        [.filtersStored batch.startHeight batch.endHeight])

/-- Note a batch as stored, and give its filters to the batches in processing. -/
def acceptBatch : FiltersManager blockHash :=
  { m.loadIntoActive batch with
    progress := { m.progress with
      processed := m.progress.processed + (batch.endHeight - batch.startHeight + 1)
      storedHeight := batch.endHeight }
    nextBatchToStore := batch.endHeight + 1 }

end

/-- Store the downloaded batches whose turn it is. Each round takes one, so their number bounds
the rounds. A batch that does not verify is gone. -/
def storeLoop : Nat → FiltersManager blockHash →
    FiltersManager blockHash × Except SyncError (List SyncEvent)
  | 0, m => (m, .ok [])
  | fuel + 1, m =>
    match m.pendingBatches.entries with
    | [] => (m, .ok [])
    | ⟨start, batch⟩ :: _ =>
      if batch.startHeight ≠ m.nextBatchToStore then (m, .ok [])
      else
        let m := { m with pendingBatches := m.pendingBatches.erase start }
        match m.verifyAndStore scheme batch with
        | .error e => (m, .error e)
        | .ok (m, stored) =>
          match storeLoop fuel (m.acceptBatch batch) with
          | (m, .error e) => (m, .error e)
          | (m, .ok more) => (m, .ok (stored ++ more))

/-- Collect the completed batches of the pipeline that are not stored yet. -/
def collectCompleted : FiltersManager blockHash :=
  let (filterPipeline, completed) := m.filterPipeline.takeCompletedBatches
  { m with
    filterPipeline
    pendingBatches := completed.entries.foldl
      (fun pending e =>
        if e.2.startHeight < m.nextBatchToStore ∨ pending.contains e.1 then pending
        else pending.insert e.1 e.2) m.pendingBatches }

/-- Store completed batches, and go on with the processing if there were any. -/
def storeAndMatchBatches : FiltersManager blockHash × Except SyncError (List SyncEvent) :=
  let m := m.collectCompleted
  match m.storeLoop scheme m.pendingBatches.size with
  | (m, .error e) => (m, .error e)
  | (m, .ok events) =>
    if events = [] then (m, .ok [])
    else
      match m.tryProcessBatch scheme with
      | (m, .error e) => (m, .error e)
      | (m, .ok more) => (m, .ok (events ++ more))

/-! ### Starting -/

def sendPending : FiltersManager blockHash × Except SyncError Nat :=
  let (filterPipeline, result) :=
    m.filterPipeline.sendPending m.headerStorage now m.reorgGeneration accepts
  ({ m with filterPipeline }, result)

/-- Where the wallets need the scan to start. -/
def scanStart : Nat :=
  let walletBirthHeight := m.wallet.earliestRequiredHeight
  let walletCommittedHeight := m.wallet.syncedHeight
  max (if 0 < walletCommittedHeight then max walletBirthHeight (walletCommittedHeight + 1)
    else walletBirthHeight) (m.headerStorage.getStartHeight.getD 0)

/-- Where the download starts: above what is stored. A store whose last height is 0 counts as
empty. -/
def downloadStart : Nat :=
  if 0 < m.filterTipHeight then
    max (m.filterTipHeight + 1) (m.headerStorage.getStartHeight.getD 0)
  else m.scanStart

/-- Set the pipeline up for the missing filters. -/
def initPipeline : FiltersManager blockHash × Except SyncError Nat :=
  if m.downloadStart ≤ m.progress.filterHeaderTipHeight then
    sendPending { m with
      filterPipeline := m.filterPipeline.init m.downloadStart m.progress.filterHeaderTipHeight }
        now accepts
  else
    ({ m with filterPipeline := m.filterPipeline.init m.downloadStart (m.downloadStart - 1) },
      .ok 0)

/-- Whether the filter store reaches up to where a scan starts. -/
def reachesScan (scanStart : Nat) : Prop :=
  0 < m.filterTipHeight ∧ scanStart ≤ m.filterTipHeight

instance (m : FiltersManager blockHash) (scanStart : Nat) : Decidable (m.reachesScan scanStart) :=
  inferInstanceAs (Decidable (_ ∧ _))

section

variable (scanStart : Nat)

/-- Take note of the stored filters that a scan starts with. -/
def noteStored : FiltersManager blockHash :=
  if m.reachesScan scanStart then
    { m with progress := m.progress.updateStoredHeight m.filterTipHeight }
  else m

/-- Where the first batch of a scan ends. -/
def firstBatchEnd : Nat :=
  min (scanStart + batchProcessingSize - 1) m.progress.filterHeaderTipHeight

/-- The stored filters of the first batch of a scan. -/
def loadFirst : Except SyncError FilterMap :=
  if m.reachesScan scanStart then
    m.loadFilters scanStart (min m.filterTipHeight (m.firstBatchEnd scanStart))
  else .ok ∅

/-- Open the first batch of a scan. -/
def openFirst (filters : FilterMap) : FiltersManager blockHash :=
  { m.openBatch scanStart (m.firstBatchEnd scanStart) filters
      (m.firstBatchEnd scanStart ≤ m.filterTipHeight) with
    progress := m.progress.updateCommittedHeight (scanStart - 1) }

/-- Open the first batch of a scan with the filters that are stored, and scan it if they are
all there. -/
def openFirstBatch :
    FiltersManager blockHash × Except SyncError (List SyncEvent) :=
  let m := m.noteStored scanStart
  match m.loadFirst scanStart with
  | .error e => (m, .error e)
  | .ok filters =>
    if m.firstBatchEnd scanStart ≤ m.progress.storedHeight then
      let (m, events) := (m.openFirst scanStart filters).scanBatch scheme scanStart
      (m, .ok events)
    else (m.openFirst scanStart filters, .ok [])

end

/-- Set the heights that a download starts with. -/
def beginDownload : FiltersManager blockHash :=
  setState { m with nextBatchToStore := m.downloadStart, processingHeight := m.scanStart } .syncing

/-- Start downloading and scanning from what is stored and what the wallets need. -/
def startDownload : FiltersManager blockHash × Except SyncError (List SyncEvent) :=
  if m.progress.filterHeaderTipHeight < m.scanStart then
    if m.progress.targetHeight ≤ m.progress.committedHeight then
      (m.setState .synced, .ok [.filtersSyncComplete m.progress.committedHeight])
    else (m.setState .waitForEvents, .ok [])
  else
    match m.beginDownload.initPipeline now accepts with
    | (m', .error e) => (m', .error e)
    | (m', .ok _) => m'.openFirstBatch scheme m.scanStart

/-- Drop everything in processing. -/
def resetForRescan : FiltersManager blockHash :=
  { m with
    activeBatches := ∅
    tracker := .new
    pendingBatches := ∅
    filterPipeline := .new }

/-- Take the wallets back; the result is where matching has to start again. -/
def rewindWalletForReorg (forkHeight : Nat) : FiltersManager blockHash × Nat :=
  match m.wallet.rewindToHeight forkHeight with
  | some wallet => ({ m with wallet }, min wallet.syncedHeight forkHeight)
  | none => (m, forkHeight)

def resetForReorg (effectiveFloor : Nat) : FiltersManager blockHash :=
  { m.resetForRescan with
    nextBatchToStore := effectiveFloor
    processingHeight := effectiveFloor
    progress :=
      (m.progress.updateCommittedHeight effectiveFloor).updateStoredHeight effectiveFloor }

/-! ### Entry points -/

/-- Send waiting requests, keeping the events of the action unless a request fails. -/
def sendThen
    (next : FiltersManager blockHash → FiltersManager blockHash × Except SyncError (List SyncEvent)) :
    FiltersManager blockHash × Except SyncError (List SyncEvent) :=
  match m.sendPending now accepts with
  | (m, .error e) => (m, .error e)
  | (m, .ok _) => next m

/-- Take note of new filter headers. -/
def updateTips (tipHeight : Nat) : FiltersManager blockHash :=
  { m with progress :=
    (m.progress.updateFilterHeaderTipHeight tipHeight).updateTargetHeight tipHeight }

/-- Open batches if none is in processing. -/
def lookaheadIfIdle : FiltersManager blockHash × Except SyncError (List SyncEvent) :=
  if m.activeBatches.size = 0 then m.tryCreateLookaheadBatches scheme else (m, .ok [])

/-- Go on up to a new tip of the filter headers. -/
def extendDownload (tipHeight now : Nat)
    (accepts : Nat → Bool) : FiltersManager blockHash × Except SyncError (List SyncEvent) :=
  let m := m.setState .syncing
  let m := { m with filterPipeline := m.filterPipeline.extendTarget tipHeight }
  if m.progress.storedHeight < m.progress.filterHeaderTipHeight then
    m.sendThen now accepts (lookaheadIfIdle scheme)
  else m.lookaheadIfIdle scheme

/-- New filter headers are stored. -/
def handleNewFilterHeaders (tipHeight now : Nat) (accepts : Nat → Bool) :
    FiltersManager blockHash × Except SyncError (List SyncEvent) :=
  let m := m.updateTips tipHeight
  match m.progress.state with
  | .syncing | .synced =>
    if m.progress.committedHeight < m.progress.filterHeaderTipHeight then
      m.extendDownload scheme tipHeight now accepts
    else (m, .ok [])
  | .waitingForConnections | .waitForEvents =>
    -- what is in processing survives a disconnect; only the download is extended
    if m.activeBatches.size = 0 then m.startDownload scheme now accepts
    else ({ m with filterPipeline := m.filterPipeline.extendTarget tipHeight }, .ok [])
  | .error => (m, .ok [])

/-- Add the new addresses of each wallet to those a batch has collected. -/
def addAddresses (batch : FiltersBatch) (newAddresses : SortedMap WalletId (List Address)) :
    FiltersBatch :=
  newAddresses.entries.foldl
    (fun b e => if e.2 = [] then b else b.addAddressesForWallet e.1 e.2) batch

/-- Remember the new addresses of a processed block in the batch that waited for it. -/
def collectAddresses (batchStart : Nat)
    (newAddresses : SortedMap WalletId (List Address)) : FiltersManager blockHash :=
  match m.activeBatches.get? batchStart with
  | none => m
  | some batch =>
    m.setBatch batchStart (addAddresses batch.decrementPendingBlocks newAddresses)

/-- Take a processed block out of flight. The result says whether a batch waited for it. If
none did, the new addresses are dropped. -/
def finishBlock (hash : BlockHash) (height : Nat)
    (wallets : Finset WalletId) (newAddresses : SortedMap WalletId (List Address)) :
    FiltersManager blockHash × Bool :=
  let (tracker, finished) := (m.tracker.recordProcessed height hash wallets).finishInFlight hash
  let m := { m with tracker }
  match finished with
  | some (_, batchStart) => (m.collectAddresses batchStart newAddresses, true)
  | none => (m, false)

/-- A block was processed. -/
def handleBlockProcessed (hash : BlockHash)
    (height : Nat) (wallets : Finset WalletId) (newAddresses : SortedMap WalletId (List Address)) :
    FiltersManager blockHash × Except SyncError (List SyncEvent) :=
  match m.finishBlock hash height wallets newAddresses with
  | (m, true) => m.tryProcessBatch scheme
  | (m, false) => (m, .ok [])

/-- The stores were cut: take the wallets back and drop everything in processing. -/
def handleChainReorg (forkHeight : Nat) : FiltersManager blockHash :=
  let m := { m with history := { m.history with reorgPending := false } }
  let (m, effectiveFloor) := m.rewindWalletForReorg forkHeight
  (m.resetForReorg effectiveFloor).setState .waitForEvents

def handleSyncEvent (event : SyncEvent) (now : Nat) (accepts : Nat → Bool) :
    FiltersManager blockHash × Except SyncError (List SyncEvent) :=
  match event with
  | .filterHeadersSyncComplete tipHeight | .filterHeadersStored _ _ tipHeight =>
    m.handleNewFilterHeaders scheme tipHeight now accepts
  | .chainReorg forkHeight _ _ _ => (m.handleChainReorg forkHeight, .ok [])
  | .blockProcessed hash height wallets newAddresses =>
    m.handleBlockProcessed scheme hash height wallets newAddresses
  | _ => (m, .ok [])

/-- A filter arrives. One that was requested before a reorg is dropped. -/
def handleMessage (hash : BlockHash) (filter : Filter) (now : Nat) (accepts : Nat → Bool) :
    FiltersManager blockHash × Except SyncError (List SyncEvent) :=
  match m.headerStorage.getHeaderHeightByHash hash with
  | none => (m, .error (.unknownFilterBlock hash))
  | some height =>
    if (m.filterPipeline.generationForHeight height).any (· ≠ m.reorgGeneration) then (m, .ok [])
    else
      let m := { m with filterPipeline := (m.filterPipeline.receiveWithData height hash filter).1 }
      m.sendThen now accepts fun m => m.storeAndMatchBatches scheme

/-- The lowest matched height of the wallets behind the committed height. -/
def staleMinSynced : Option Nat :=
  ((m.wallet.walletsBehind m.progress.committedHeight).map m.wallet.walletSyncedHeight).min?

/-- Store what was downloaded, and process batches in any case. -/
def storeAndProcess : FiltersManager blockHash × Except SyncError (List SyncEvent) :=
  match m.storeAndMatchBatches scheme with
  | (m, .error e) => (m, .error e)
  | (m, .ok events) =>
    match m.tryProcessBatch scheme with
    | (m, .error e) => (m, .error e)
    | (m, .ok more) => (m, .ok (events ++ more))

/-- The work of a tick when no wallet fell behind. -/
def tickWork : FiltersManager blockHash × Except SyncError (List SyncEvent) :=
  if m.progress.state = .syncing ∨ (m.progress.state = .synced ∧ m.activeBatches.size ≠ 0) then
    sendThen { m with filterPipeline := m.filterPipeline.handleTimeouts now } now accepts
      (storeAndProcess scheme)
  else (m, .ok [])

/-- The lowest matched height of the wallets that make a tick start the scan again. -/
def staleWallets : Option Nat :=
  match m.progress.state with
  | .syncing | .synced | .waitForEvents => m.staleMinSynced
  | .waitingForConnections | .error => none

/-- The periodic step. A wallet that is behind the committed height starts the scan again. -/
def tick : FiltersManager blockHash × Except SyncError (List SyncEvent) :=
  match m.staleWallets with
  | some synced =>
    startDownload scheme
      { m.resetForRescan with progress := m.progress.updateCommittedHeight synced } now accepts
  | none => m.tickWork scheme now accepts

/-- Take the height of the stored filters for the tip of the filter headers. -/
def takeStoredTip : FiltersManager blockHash :=
  { m with progress := m.progress.updateFilterHeaderTipHeight m.filterTipHeight }

/-- Peers are connected: go on with what is in processing, or with what is stored. -/
def startSync : FiltersManager blockHash × Except SyncError (List SyncEvent) :=
  if m.activeBatches.size ≠ 0 then
    m.sendThen now accepts fun m => (m.setState .syncing, .ok [])
  else
    let storedFiltersTip := m.filterTipHeight
    if m.progress.committedHeight < storedFiltersTip then
      match m.takeStoredTip.startDownload scheme now accepts with
      | (m, .error e) => (m, .error e)
      | (m, .ok events) => (m, .ok (.syncStart :: events))
    else if 0 < storedFiltersTip ∧ storedFiltersTip = m.progress.committedHeight then
      let m := m.takeStoredTip
      let m := { m with
        filterPipeline := m.filterPipeline.init (storedFiltersTip + 1) storedFiltersTip }
      if m.progress.targetHeight ≤ m.progress.committedHeight then
        (m.setState .synced, .ok [.filtersSyncComplete storedFiltersTip])
      else (m.setState .waitForEvents, .ok [])
    else (m.setState .waitForEvents, .ok [])

/-- Keep everything in processing, and request again what is in flight. -/
def onDisconnect : FiltersManager blockHash :=
  { m with filterPipeline := m.filterPipeline.requeueInFlight }

/-- Peers may report a best height. -/
def updateBestHeight : Option Nat → FiltersManager blockHash
  | some height => { m with progress := m.progress.updateTargetHeight height }
  | none => m

/-- The number of connected peers changed. -/
def handleNetworkEvent
    (connectedCount : Nat) (bestHeight : Option Nat) (now : Nat) (accepts : Nat → Bool) :
    FiltersManager blockHash × Except SyncError (List SyncEvent) :=
  let m := m.updateBestHeight bestHeight
  if connectedCount = 0 then ((m.setState .waitingForConnections).onDisconnect, .ok [])
  else if m.progress.state = .waitingForConnections then m.startSync scheme now accepts
  else (m, .ok [])

/-! ### Actions -/

/-- A reorg cascade cuts the stores; the manager hears of it later. -/
def cascade (candidate : ForkCandidate) : FiltersManager blockHash :=
  let storages := (truncateAll
    { blockHeaderStorage := m.headerStorage
      filterHeaderStorage := some m.filterHeaderStorage
      filterStorage := some m.filterStorage
      blockStorage := (none : Option (SegmentStore ()))
      reorgSentinel := true } candidate).1
  { m with
    headerStorage := storages.blockHeaderStorage
    filterHeaderStorage := storages.filterHeaderStorage.getD m.filterHeaderStorage
    filterStorage := storages.filterStorage.getD m.filterStorage
    reorgGeneration := m.reorgGeneration + 1
    history := { m.history with reorgPending := true } }

/-- What happens to the manager. -/
inductive Action (blockHash : Header → BlockHash)
  | message (hash : BlockHash) (filter : Filter) (now : Nat) (accepts : Nat → Bool)
  | syncEvent (event : SyncEvent) (now : Nat) (accepts : Nat → Bool)
  | tick (now : Nat) (accepts : Nat → Bool)
  | networkEvent (connectedCount : Nat) (bestHeight : Option Nat) (now : Nat)
      (accepts : Nat → Bool)
  /-- Other managers change the header stores. -/
  | stores (headerStorage : PersistentBlockHeaderStorage blockHash)
      (filterHeaderStorage : SegmentStore (0 : FilterHeader))
  | cascade (candidate : ForkCandidate)
  /-- Wallets are added, derive addresses or process transactions. -/
  | wallets (wallet : WalletSet)

/-- The result of an action of the manager, and none of its surroundings. -/
def respond : Action blockHash → FiltersManager blockHash × Except SyncError (List SyncEvent)
  | .message hash filter now accepts => m.handleMessage scheme hash filter now accepts
  | .syncEvent event now accepts => m.handleSyncEvent scheme event now accepts
  | .tick now accepts => m.tick scheme now accepts
  | .networkEvent connectedCount bestHeight now accepts =>
    m.handleNetworkEvent scheme connectedCount bestHeight now accepts
  | .stores headerStorage filterHeaderStorage =>
    ({ m with headerStorage, filterHeaderStorage }, .ok [])
  | .cascade candidate => (m.cascade candidate, .ok [])
  | .wallets wallet => ({ m with wallet }, .ok [])

/-- The manager after an action. An error leaves the changes made before it. -/
def step (a : Action blockHash) : FiltersManager blockHash :=
  (m.respond scheme a).1

end FiltersManager

end Dashcore
