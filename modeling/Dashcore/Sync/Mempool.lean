import Dashcore.Sml.MessageVerification
import Dashcore.Sync.Basic

/-!
# The mempool manager

The manager downloads announced transactions, offers them to the wallet and tracks those
the wallet cares about. It marks a tracked transaction as InstantSend-locked when a lock
for it is announced, and remembers locks that come before their transaction. Own
transactions are broadcast again until they confirm.

The wallet is not translated here: its answers come with the action, and the calls that
hand it a transaction or a lock are results of the handlers.
-/

namespace Dashcore

open SortedMap

/-- A tracked transaction. -/
structure UnconfirmedTransaction where
  transaction : Transaction
  firstSeen : Nat
  isInstantSend : Bool
  isOutgoing : Bool
  addresses : List Address
  netAmount : Int
  deriving DecidableEq

/-- State of a demoted transaction that waits to be broadcast again. -/
structure RebroadcastState where
  walletId : Nat
  inputs : List OutPoint
  lockTime : Nat
  attempts : Nat
  nextAttempt : Nat
  deriving DecidableEq

namespace RebroadcastState

/-- Locktimes below are heights, the others are timestamps. -/
def locktimeThreshold : Nat := 500000000

def maxAttempts : Nat := 10

def new (walletId : Nat) (tx : Transaction) (now : Nat) : RebroadcastState :=
  { walletId, inputs := tx.input.map TxIn.previousOutput, lockTime := tx.lockTime
    attempts := 0, nextAttempt := now }

/-- The delay doubles from 30 seconds up to an hour. -/
def backoffForAttempt (attempt : Nat) : Nat := min (30000 * 2 ^ min attempt 20) 3600000

/-- Whether the locktime is reached, at a tip height and a wall clock in seconds. -/
def locktimeSatisfied (s : RebroadcastState) (tipHeight wallTime : Nat) : Bool :=
  s.lockTime = 0 ||
    if s.lockTime < locktimeThreshold then s.lockTime ≤ tipHeight else s.lockTime ≤ wallTime

end RebroadcastState

/-- What is done about one entry of the rebroadcast queue. -/
inductive RebroadcastDecision
  | keep (state : RebroadcastState)
  | broadcast (state : RebroadcastState)
  | drop
  | orphan
  deriving DecidableEq

/-- How transactions are selected for download. -/
inductive MempoolStrategy
  | bloomFilter
  | fetchAll
  deriving DecidableEq

/-- The wallet's answer to a mempool transaction. -/
structure MempoolTransactionResult where
  isRelevant : Bool
  isOutgoing : Bool
  addresses : List Address
  netAmount : Int
  deriving DecidableEq

/-- A call that hands the wallet a transaction or a lock. -/
inductive WalletCall
  | processMempoolTransaction (txid : Txid) (tx : Transaction) (lock : Option InstantLock)
  | processInstantSendLock (lock : InstantLock)
  deriving DecidableEq

/-- Events of the wallet that the manager reacts to. A record is given by its txid and the
outputs it spends. -/
inductive MempoolWalletEvent
  | reorg (walletId : Nat) (demotedTxids : List Txid)
  | blockProcessed (records : List (Txid × List OutPoint))
  deriving DecidableEq

/-- Choices of the environment within one call. -/
structure MempoolEnv where
  /-- The monotonic clock, in milliseconds. -/
  now : Nat
  /-- The wall clock, in seconds. -/
  wallTime : Nat
  /-- Iteration order of maps keyed by txid. -/
  order : Txid → Nat
  /-- Iteration order of the peers. -/
  peerOrder : SocketAddr → Nat
  /-- The random number that picks a peer. -/
  choice : Nat
  /-- Whether the requests that activate a peer, or renew its filter, go out. -/
  activates : SocketAddr → Bool
  /-- Whether requests for transactions go out. -/
  requestsSent : Bool
  /-- The wallet's copy of a transaction. -/
  getTransaction : Txid → Option Transaction
  /-- The height of the last ChainLock. -/
  chainlockHeight : Nat
  /-- The wallet events since the last tick. -/
  walletEvents : List MempoolWalletEvent
  /-- The revision of the wallet's monitored set. -/
  monitorRevision : Nat

/-- Connected peers: `none` before activation, then the queue of txids to request. -/
abbrev MempoolPeers := SortedMap SocketAddr (Option (List Txid))

/-- State of the mempool manager. -/
structure MempoolManager where
  state : SyncState
  transactions : SortedMap Txid UnconfirmedTransaction
  recentSends : SortedMap Txid Nat
  strategy : MempoolStrategy
  maxTransactions : Nat
  pendingRequests : SortedMap Txid Nat
  peers : MempoolPeers
  /-- Locks that came before their transaction, with the time they came. -/
  pendingIsLocks : SortedMap Txid (InstantLock × Nat)
  seenTxids : SortedMap Txid Nat
  lastMonitorRevision : Nat
  pendingRebroadcast : SortedMap Txid RebroadcastState
  currentTipHeight : Nat
  deriving DecidableEq

namespace MempoolManager

/-- 24 hours. -/
def mempoolTxExpiry : Nat := 86400000

/-- Two minutes. -/
def pendingRequestTimeout : Nat := 120000

def maxInFlight : Nat := 100

def maxPendingIsLocks : Nat := 1000

/-- Three minutes. -/
def seenTxidExpiry : Nat := 180000

/-- Ten minutes. -/
def rebroadcastInterval : Nat := 600000

/-- A manager that tracks nothing. -/
def new (strategy : MempoolStrategy) (maxTransactions initialMonitorRevision : Nat) :
    MempoolManager where
  state := .waitForEvents
  transactions := ∅
  recentSends := ∅
  strategy := strategy
  maxTransactions := maxTransactions
  pendingRequests := ∅
  peers := ∅
  pendingIsLocks := ∅
  seenTxids := ∅
  lastMonitorRevision := initialMonitorRevision
  pendingRebroadcast := ∅
  currentTipHeight := 0

/-! ### Peers and downloads -/

section

variable (peers : MempoolPeers)

/-- The peers that were activated, in key order. -/
def activatedPeers : List SocketAddr :=
  (peers.filter fun _ queue => queue.isSome).keys

/-- Number of queued txids over all peers. -/
def totalQueued : Nat :=
  (peers.values.map fun queue => (queue.getD []).length).sum

def isQueued (txid : Txid) : Bool :=
  peers.values.any fun queue => (queue.getD []).contains txid

/-- Append txids to the queue of a randomly chosen activated peer; without one they are
dropped. -/
def requeue (choice : Nat) (txids : List Txid) : MempoolPeers :=
  let activated := activatedPeers peers
  match activated[choice % activated.length]? with
  | none => peers
  | some peer => peers.insert peer (some (((peers.get? peer).getD none).getD [] ++ txids))

end

variable (m : MempoolManager) (env : MempoolEnv)

/-- Activate all peers that wait for it, up to the first whose requests fail. The result
says whether all went well. -/
def activateAllPeers : MempoolManager × Bool :=
  let inactive := (m.peers.filter fun _ queue => queue.isNone).keys.insertionSort
    fun a b => env.peerOrder a ≤ env.peerOrder b
  let activated := inactive.takeWhile env.activates
  ({ m with peers := activated.foldl (fun peers peer => peers.insert peer (some [])) m.peers },
    activated.length = inactive.length)

/-- Activate the peers and count as synced if one of them is active. -/
def startSync : MempoolManager :=
  match m.activateAllPeers env with
  | (m, true) => if (activatedPeers m.peers).isEmpty then m else { m with state := .synced }
  | (m, false) => m

/-- Take txids off one queue while there are free slots, skipping those requested or tracked
meanwhile. -/
def drainQueue (now : Nat) (tracked : Txid → Bool) :
    List Txid → SortedMap Txid Nat → Nat → List Txid × SortedMap Txid Nat × Nat
  | queue, requests, 0 => (queue, requests, 0)
  | [], requests, available => ([], requests, available)
  | txid :: queue, requests, available + 1 =>
    if requests.contains txid || tracked txid then
      drainQueue now tracked queue requests (available + 1)
    else drainQueue now tracked queue (requests.insert txid now) available

/-- The loop of `sendQueued` over the peers. -/
def drainPeers (now : Nat) (tracked : Txid → Bool) :
    List SocketAddr → MempoolPeers → SortedMap Txid Nat → Nat → MempoolPeers × SortedMap Txid Nat
  | [], peers, requests, _ => (peers, requests)
  | peer :: rest, peers, requests, available =>
    match peers.get? peer with
    | some (some queue) =>
      let (queue, requests, available) := drainQueue now tracked queue requests available
      drainPeers now tracked rest (peers.insert peer (some queue)) requests available
    | _ => drainPeers now tracked rest peers requests available

/-- Request queued transactions, as many as there are free slots. -/
def sendQueued : MempoolManager :=
  let waiting := (m.peers.filter fun _ queue => !(queue.getD []).isEmpty).keys.insertionSort
    fun a b => env.peerOrder a ≤ env.peerOrder b
  let (peers, pendingRequests) := drainPeers env.now m.transactions.contains waiting m.peers
    m.pendingRequests (maxInFlight - m.pendingRequests.size)
  { m with peers, pendingRequests }

/-- The loop of `handleInv`: queue the new txids, up to the capacity. -/
def enqueueInv (now : Nat) (peer : SocketAddr) (queued : Nat) :
    List Txid → MempoolPeers → Nat → MempoolPeers × Nat
  | [], peers, enqueued => (peers, enqueued)
  | txid :: rest, peers, enqueued =>
    let seen := match m.seenTxids.get? txid with
      | some time => now - time < seenTxidExpiry
      | none => false
    if seen || m.pendingRequests.contains txid || isQueued peers txid ||
        m.transactions.contains txid then
      enqueueInv now peer queued rest peers enqueued
    else if m.maxTransactions ≤ m.pendingRequests.size + queued + enqueued then (peers, enqueued)
    else
      -- only activated peers have a queue
      match peers.get? peer with
      | some (some queue) =>
        enqueueInv now peer queued rest (peers.insert peer (some (queue ++ [txid])))
          (enqueued + 1)
      | _ => enqueueInv now peer queued rest peers enqueued

section

variable (peer : SocketAddr)

/-- Handle the transactions a peer announces. -/
def handleInv (txids : List Txid) : MempoolManager :=
  if m.maxTransactions ≤ m.transactions.size then m
  else
    let (peers, enqueued) := m.enqueueInv env.now peer (totalQueued m.peers) txids m.peers 0
    if 0 < enqueued then { m with peers }.sendQueued env else { m with peers }

/-- Give up requests that timed out, and queue them again. -/
def prunePendingRequests : MempoolManager :=
  let timedOut := (m.pendingRequests.filter fun _ time =>
    pendingRequestTimeout ≤ env.now - time).keys.insertionSort
      fun a b => env.order a ≤ env.order b
  let pendingRequests := m.pendingRequests.filter fun _ time =>
    env.now - time < pendingRequestTimeout
  if timedOut.isEmpty then { m with pendingRequests }
  else { m with pendingRequests, peers := requeue m.peers env.choice timedOut }

/-- Register a peer, and activate it at once when synced. -/
def handlePeerConnected : MempoolManager :=
  match m.peers.get? peer with
  | some (some _) => m
  | _ =>
    if m.state = .synced && env.activates peer then
      { m with peers := m.peers.insert peer (some []) }
    else { m with peers := m.peers.insert peer none }

/-- Remove a peer and give its queue to another one. -/
def handlePeerDisconnected : MempoolManager :=
  let peers := m.peers.erase peer
  match m.peers.get? peer with
  | some (some (txid :: rest)) => { m with peers := requeue peers env.choice (txid :: rest) }
  | _ => { m with peers }

end

/-- Forget peers, requests and remembered locks. -/
def clearPending : MempoolManager :=
  { m with pendingRequests := ∅, peers := ∅, pendingIsLocks := ∅ }

/-- Follow the number of peers and the best height they report. -/
def handlePeersUpdated (connectedCount : Nat) (bestHeight : Option Nat) : MempoolManager :=
  let m := { m with currentTipHeight := max m.currentTipHeight (bestHeight.getD 0) }
  if connectedCount = 0 then { m with state := .waitingForConnections }.clearPending
  else if m.state = .waitingForConnections then m.startSync env
  else m

/-! ### Transactions and locks -/

/-- Handle a received transaction. `isLocal` marks those the node itself sends. A lock that
came before is handed to the wallet together with the transaction. -/
def handleTx (txid : Txid) (tx : Transaction)
    (isLocal : Bool) (result : MempoolTransactionResult) : MempoolManager × List WalletCall :=
  let recentSends := if isLocal then m.recentSends.insert txid env.now else m.recentSends
  let m := { m with
    pendingRequests := m.pendingRequests.erase txid
    seenTxids := m.seenTxids.insert txid env.now }
  if m.transactions.contains txid then ({ m with recentSends }, [])
  else
    let pendingLock := (m.pendingIsLocks.get? txid).map Prod.fst
    let m := { m with pendingIsLocks := m.pendingIsLocks.erase txid }
    let calls := [.processMempoolTransaction txid tx pendingLock]
    if !result.isRelevant then (m, calls)
    else
      let unconfirmed : UnconfirmedTransaction :=
        { transaction := tx
          firstSeen := env.now
          isInstantSend := pendingLock.isSome
          isOutgoing := result.isOutgoing
          addresses := result.addresses
          netAmount := result.netAmount }
      ({ m with transactions := m.transactions.insert txid unconfirmed, recentSends }, calls)

/-- Mark a tracked transaction as locked and tell the wallet, or remember the lock until the
transaction comes. -/
def processInstantSend (lock : InstantLock) : MempoolManager × List WalletCall :=
  match m.transactions.get? lock.txid with
  | some tx =>
    ({ m with
        transactions := m.transactions.insert lock.txid { tx with isInstantSend := true }
        recentSends := m.recentSends.erase lock.txid }, [.processInstantSendLock lock])
  | none =>
    if m.pendingIsLocks.size < maxPendingIsLocks then
      ({ m with pendingIsLocks := m.pendingIsLocks.insert lock.txid (lock, env.now) }, [])
    else (m, [])

/-- Stop tracking transactions that a block confirmed. -/
def removeConfirmed (txids : List Txid) : MempoolManager :=
  { m with
    seenTxids := m.seenTxids.filter fun _ time => env.now - time < seenTxidExpiry
    recentSends := m.recentSends.filter fun txid _ =>
      !(txids.contains txid && m.transactions.contains txid)
    transactions := m.transactions.filter fun txid _ => !txids.contains txid }

/-- A block was processed that confirmed these transactions. -/
def handleBlockProcessed (txids : List Txid) : MempoolManager :=
  if txids.isEmpty then m
  else
    { m with pendingRebroadcast := m.pendingRebroadcast.filter fun txid _ =>
        !txids.contains txid }.removeConfirmed env txids

/-- Drop transactions and remembered locks older than `timeout`. -/
def pruneExpired (timeout : Nat) : MempoolManager :=
  let expired := fun (tx : UnconfirmedTransaction) => decide (timeout < env.now - tx.firstSeen)
  { m with
    transactions := m.transactions.filter fun _ tx => !expired tx
    recentSends := if timeout ≤ env.now then
        m.recentSends.filter fun _ time => env.now - timeout < time
      else m.recentSends
    pendingIsLocks := m.pendingIsLocks.filter fun txid lock =>
      !(m.transactions.get? txid).any expired && env.now - lock.2 < timeout }

/-! ### Broadcasting again -/

/-- Queue one demoted transaction for rebroadcast. It is tracked again, without a lock. -/
def enqueueDemoted (walletId : Nat) (m : MempoolManager) (txid : Txid) : MempoolManager :=
  if m.pendingRebroadcast.contains txid then m
  else
    match env.getTransaction txid with
    | none => m
    | some tx =>
      if m.currentTipHeight < env.chainlockHeight && env.chainlockHeight ≠ 0 then m
      else
        let transactions := if m.transactions.contains txid then m.transactions
          else m.transactions.insert txid
            { transaction := tx
              firstSeen := env.now
              isInstantSend := false
              isOutgoing := true
              addresses := []
              netAmount := 0 }
        { m with
          transactions
          pendingRebroadcast := m.pendingRebroadcast.insert txid (.new walletId tx env.now) }

/-- Give up transactions whose inputs another confirmed transaction spends. -/
def evictConflictingRebroadcasts (records : List (Txid × List OutPoint)) : MempoolManager :=
  let evicted := fun txid => match m.pendingRebroadcast.get? txid with
    | some state => records.any fun record =>
        record.1 ≠ txid && record.2.any fun outpoint => state.inputs.contains outpoint
    | none => false
  { m with
    pendingRebroadcast := m.pendingRebroadcast.filter fun txid _ => !evicted txid
    transactions := m.transactions.filter fun txid _ => !evicted txid }

/-- React to one event of the wallet. -/
def handleWalletEvent (m : MempoolManager) : MempoolWalletEvent → MempoolManager
  | .reorg walletId demotedTxids => demotedTxids.foldl (enqueueDemoted env walletId) m
  | .blockProcessed records => m.evictConflictingRebroadcasts records

/-- What to do about one queued transaction. -/
def rebroadcastDecision (txid : Txid) (state : RebroadcastState) : RebroadcastDecision :=
  if env.now < state.nextAttempt then .keep state
  else if !state.locktimeSatisfied m.currentTipHeight env.wallTime then
    .keep { state with
      nextAttempt := env.now + RebroadcastState.backoffForAttempt state.attempts }
  else if !m.transactions.contains txid then .drop
  else if RebroadcastState.maxAttempts ≤ state.attempts then .orphan
  else
    .broadcast { state with
      attempts := state.attempts + 1
      nextAttempt := env.now + RebroadcastState.backoffForAttempt (state.attempts + 1) }

/-- Broadcast the queued transactions that are due, and give up those tried too often. -/
def driveReorgRebroadcast : MempoolManager :=
  let decision := fun txid => (m.pendingRebroadcast.get? txid).map (m.rebroadcastDecision env txid)
  { m with
    pendingRebroadcast := (m.pendingRebroadcast.filter fun txid _ =>
        decision txid ≠ some .drop && decision txid ≠ some .orphan).mapVal fun txid state =>
      match decision txid with
      | some (.keep state') => state'
      | some (.broadcast state') => state'
      | _ => state
    transactions := m.transactions.filter fun txid _ => decision txid ≠ some .orphan }

/-- Broadcast own transactions again whose last broadcast is long ago. -/
def rebroadcastIfDue : MempoolManager :=
  { m with recentSends := m.recentSends.mapVal fun txid lastBroadcast =>
      if rebroadcastInterval ≤ env.now - lastBroadcast && m.transactions.contains txid then
        env.now
      else lastBroadcast }

/-- Renew the bloom filters after the wallet's monitored set changed. -/
def rebuildFilterIfChanged : MempoolManager :=
  -- without bloom filters there is nothing to send; a failed request leaves the revision
  if m.strategy ≠ .bloomFilter || (activatedPeers m.peers).all env.activates then
    { m with lastMonitorRevision := env.monitorRevision }
  else m

/-- The periodic step. It ends early if requests for transactions fail. -/
def tick : MempoolManager :=
  if m.state ≠ .synced then m
  else
    let m := ((m.pruneExpired env mempoolTxExpiry).prunePendingRequests env).sendQueued env
    if !env.requestsSent then m
    else
      let m := env.walletEvents.foldl (handleWalletEvent env) (m.rebroadcastIfDue env)
      (m.driveReorgRebroadcast env).rebuildFilterIfChanged env

end MempoolManager

/-- What can happen to the manager, apart from the announcement of a lock. -/
inductive MempoolAction
  | inv (peer : SocketAddr) (txids : List Txid)
  | tx (tx : Transaction) (isLocal : Bool) (result : MempoolTransactionResult)
  | filtersSyncComplete
  | blockProcessed (confirmedTxids : List Txid)
  | tick
  | peerConnected (peer : SocketAddr)
  | peerDisconnected (peer : SocketAddr)
  | peersUpdated (connectedCount : Nat) (bestHeight : Option Nat)

/-- The manager's reaction, and its calls to the wallet. -/
def MempoolManager.handle (computeTxid : Transaction → Txid) (m : MempoolManager)
    (env : MempoolEnv) : MempoolAction → MempoolManager × List WalletCall
  | .inv peer txids => (m.handleInv env peer txids, [])
  | .tx tx isLocal result => m.handleTx env (computeTxid tx) tx isLocal result
  | .filtersSyncComplete => (if m.state = .synced then m else m.startSync env, [])
  | .blockProcessed confirmedTxids => (m.handleBlockProcessed env confirmedTxids, [])
  | .tick => (m.tick env, [])
  | .peerConnected peer => (m.handlePeerConnected env peer, [])
  | .peerDisconnected peer => (m.handlePeerDisconnected env peer, [])
  | .peersUpdated connectedCount bestHeight =>
    (m.handlePeersUpdated env connectedCount bestHeight, [])

/-! ### What can become locked -/

namespace MempoolManager

/-- The manager tracks this transaction as InstantSend-locked. -/
def Locked (m : MempoolManager) (txid : Txid) : Prop :=
  ∃ tx, m.transactions.get? txid = some tx ∧ tx.isInstantSend = true

/-- Nothing is locked, and no lock is remembered, that was not before. -/
structure LocksWithin (m m' : MempoolManager) : Prop where
  locked : ∀ txid, m'.Locked txid → m.Locked txid
  remembered : ∀ txid lock, m'.pendingIsLocks.get? txid = some lock →
    m.pendingIsLocks.get? txid = some lock

/-- Nothing is tracked, queued for rebroadcast or remembered that was not before. -/
structure Shrinks (m m' : MempoolManager) : Prop where
  tracked : ∀ txid tx, m'.transactions.get? txid = some tx → m.transactions.get? txid = some tx
  queued : ∀ txid, m.pendingRebroadcast.get? txid = none → m'.pendingRebroadcast.get? txid = none
  remembered : ∀ txid lock, m'.pendingIsLocks.get? txid = some lock →
    m.pendingIsLocks.get? txid = some lock

section

variable {m m' m'' : MempoolManager}

theorem Shrinks.refl (m : MempoolManager) : Shrinks m m :=
  ⟨fun _ _ h => h, fun _ h => h, fun _ _ h => h⟩

theorem Shrinks.trans (h : Shrinks m m') (h' : Shrinks m' m'') : Shrinks m m'' where
  tracked := fun txid tx ht => h.tracked txid tx (h'.tracked txid tx ht)
  queued := fun txid hq => h'.queued txid (h.queued txid hq)
  remembered := fun txid lock hl => h.remembered txid lock (h'.remembered txid lock hl)

/-- Handlers that leave transactions, rebroadcasts and locks alone. -/
theorem Shrinks.of_eq (htx : m'.transactions = m.transactions)
    (hqueue : m'.pendingRebroadcast = m.pendingRebroadcast)
    (hlock : m'.pendingIsLocks = m.pendingIsLocks) : Shrinks m m' :=
  ⟨fun _ _ h => htx ▸ h, fun _ h => hqueue ▸ h, fun _ _ h => hlock ▸ h⟩

theorem Shrinks.locksWithin (h : Shrinks m m') : LocksWithin m m' :=
  ⟨fun txid ⟨tx, htx, hlocked⟩ => ⟨tx, h.tracked txid tx htx, hlocked⟩, h.remembered⟩

theorem LocksWithin.refl (m : MempoolManager) : LocksWithin m m := (Shrinks.refl m).locksWithin

theorem LocksWithin.trans (h : LocksWithin m m') (h' : LocksWithin m' m'') : LocksWithin m m'' :=
  ⟨fun txid ht => h.locked txid (h'.locked txid ht),
    fun txid lock hl => h.remembered txid lock (h'.remembered txid lock hl)⟩

theorem LocksWithin.foldl {α : Type*} {f : MempoolManager → α → MempoolManager}
    (hf : ∀ m a, LocksWithin m (f m a)) (l : List α) (m : MempoolManager) :
    LocksWithin m (l.foldl f m) := by
  induction l generalizing m with
  | nil => exact refl m
  | cons a l ih => exact (hf m a).trans (ih (f m a))

end

variable (m : MempoolManager) (env : MempoolEnv)

theorem shrinks_startSync : Shrinks m (m.startSync env) := by
  rw [startSync]
  split
  · next m' hactivate =>
    have hm' : m' = (m.activateAllPeers env).1 := by rw [hactivate]
    subst hm'
    split_ifs
    · exact .of_eq rfl rfl rfl
    · exact .of_eq rfl rfl rfl
  · next m' hactivate =>
    have hm' : m' = (m.activateAllPeers env).1 := by rw [hactivate]
    subst hm'
    exact .of_eq rfl rfl rfl

theorem shrinks_handleBlockProcessed (txids : List Txid) :
    Shrinks m (m.handleBlockProcessed env txids) := by
  rw [handleBlockProcessed]
  split_ifs
  · exact .refl m
  · refine ⟨fun _ _ h => get?_of_filter h, fun txid h => ?_, fun _ _ h => h⟩
    simp [removeConfirmed, get?_filter, h]

/-- What a tick does before it asks for transactions. -/
theorem shrinks_pruned (timeout : Nat) :
    Shrinks m (((m.pruneExpired env timeout).prunePendingRequests env).sendQueued env) := by
  have hexpired : Shrinks m (m.pruneExpired env timeout) :=
    ⟨fun _ _ h => get?_of_filter h, fun _ h => h, fun _ _ h => get?_of_filter h⟩
  refine hexpired.trans ?_
  simp only [prunePendingRequests]
  split_ifs
  · exact .of_eq rfl rfl rfl
  · exact .of_eq rfl rfl rfl

theorem shrinks_rebroadcastIfDue : Shrinks m (m.rebroadcastIfDue env) := .of_eq rfl rfl rfl

theorem shrinks_evictConflictingRebroadcasts (records : List (Txid × List OutPoint)) :
    Shrinks m (m.evictConflictingRebroadcasts records) :=
  ⟨fun _ _ h => get?_of_filter h,
    fun _ h => by simp [evictConflictingRebroadcasts, get?_filter, h], fun _ _ h => h⟩

/-- What a tick does after the wallet's events. -/
theorem shrinks_driven : Shrinks m ((m.driveReorgRebroadcast env).rebuildFilterIfChanged env) := by
  have hdriven : Shrinks m (m.driveReorgRebroadcast env) := by
    refine ⟨fun _ _ h => get?_of_filter h, fun txid h => ?_, fun _ _ h => h⟩
    simp [driveReorgRebroadcast, get?_mapVal, get?_filter, h]
  refine hdriven.trans ?_
  rw [rebuildFilterIfChanged]
  split_ifs
  · exact .of_eq rfl rfl rfl
  · exact .refl _

/-- Apart from received transactions and ticks, nothing is taken in and the wallet is not
called. -/
theorem handle_cases (computeTxid : Transaction → Txid) (action : MempoolAction) :
    (∃ tx isLocal result, action = .tx tx isLocal result) ∨ action = .tick ∨
      Shrinks m (m.handle computeTxid env action).1 ∧ (m.handle computeTxid env action).2 = [] := by
  cases action with
  | tx tx isLocal result => exact .inl ⟨tx, isLocal, result, rfl⟩
  | tick => exact .inr (.inl rfl)
  | inv peer txids =>
    refine .inr (.inr ⟨?_, rfl⟩)
    simp only [handle, handleInv]
    split_ifs
    · exact .refl m
    · exact .of_eq rfl rfl rfl
    · exact .of_eq rfl rfl rfl
  | filtersSyncComplete =>
    refine .inr (.inr ⟨?_, rfl⟩)
    simp only [handle]
    split
    · exact .refl m
    · exact shrinks_startSync m env
  | blockProcessed txids =>
    exact .inr (.inr ⟨shrinks_handleBlockProcessed m env txids, rfl⟩)
  | peerConnected peer =>
    refine .inr (.inr ⟨?_, rfl⟩)
    simp only [handle, handlePeerConnected]
    split
    · exact .refl m
    · split_ifs
      · exact .of_eq rfl rfl rfl
      · exact .of_eq rfl rfl rfl
  | peerDisconnected peer =>
    refine .inr (.inr ⟨?_, rfl⟩)
    simp only [handle, handlePeerDisconnected]
    split
    · exact .of_eq rfl rfl rfl
    · exact .of_eq rfl rfl rfl
  | peersUpdated connectedCount bestHeight =>
    refine .inr (.inr ⟨?_, rfl⟩)
    simp only [handle, handlePeersUpdated]
    split_ifs
    · exact ⟨fun _ _ h => h, fun _ h => h, fun _ _ h => by cases h⟩
    · have hraised : Shrinks m
          { m with currentTipHeight := max m.currentTipHeight (bestHeight.getD 0) } :=
        .of_eq rfl rfl rfl
      exact hraised.trans (shrinks_startSync _ env)
    · exact .of_eq rfl rfl rfl

/-- A demoted transaction comes back without a lock. -/
theorem locksWithin_enqueueDemoted (walletId : Nat) (txid : Txid) :
    LocksWithin m (enqueueDemoted env walletId m txid) := by
  rw [enqueueDemoted]
  split
  · exact .refl m
  · split
    · exact .refl m
    · split_ifs with _ htracked
      · exact .refl m
      · exact ⟨fun _ h => h, fun _ _ h => h⟩
      · refine ⟨?_, fun _ _ h => h⟩
        rintro txid' ⟨tx', htx', hlocked⟩
        obtain ⟨-, rfl⟩ | ⟨-, htx'⟩ := of_get?_insert htx'
        · cases hlocked
        · exact ⟨tx', htx', hlocked⟩

theorem locksWithin_handleWalletEvent (event : MempoolWalletEvent) :
    LocksWithin m (handleWalletEvent env m event) := by
  cases event with
  | reorg walletId demotedTxids =>
    exact .foldl (fun m txid => locksWithin_enqueueDemoted m env walletId txid) demotedTxids m
  | blockProcessed records => exact (shrinks_evictConflictingRebroadcasts m records).locksWithin

theorem locksWithin_tick : LocksWithin m (m.tick env) := by
  have hpruned := (shrinks_pruned m env mempoolTxExpiry).locksWithin
  simp only [tick]
  split_ifs
  · exact .refl m
  · exact hpruned
  · -- the wallet's events come between the two rebroadcasts
    refine hpruned.trans (.trans (shrinks_rebroadcastIfDue _ env).locksWithin ?_)
    refine .trans ?_ (shrinks_driven _ env).locksWithin
    exact .foldl (fun m event => locksWithin_handleWalletEvent m env event) env.walletEvents _

end MempoolManager

/-- The transaction that a call presents to the wallet as InstantSend-locked. -/
def WalletCall.lockedTxid : WalletCall → Option Txid
  | processMempoolTransaction txid _ lock => lock.map fun _ => txid
  | processInstantSendLock lock => some lock.txid

namespace MempoolManager

/-- Everything locked, and every remembered lock, is for a transaction in `B`. -/
structure LockedIn (B : Txid → Prop) (m : MempoolManager) : Prop where
  locked : ∀ txid, m.Locked txid → B txid
  remembered : ∀ txid lock, m.pendingIsLocks.get? txid = some lock → B txid

/-- Every call presents only transactions in `B` as locked. -/
def CallsIn (B : Txid → Prop) (calls : List WalletCall) : Prop :=
  ∀ call ∈ calls, ∀ txid, call.lockedTxid = some txid → B txid

variable {B : Txid → Prop} {m m' : MempoolManager}

theorem LockedIn.mono {B' : Txid → Prop} (h : LockedIn B m) (hB : ∀ txid, B txid → B' txid) :
    LockedIn B' m :=
  ⟨fun txid ht => hB txid (h.locked txid ht), fun txid lock hl => hB txid (h.remembered txid lock hl)⟩

theorem LockedIn.within (h : LockedIn B m) (hm' : LocksWithin m m') : LockedIn B m' :=
  ⟨fun txid ht => h.locked txid (hm'.locked txid ht),
    fun txid lock hl => h.remembered txid lock (hm'.remembered txid lock hl)⟩

theorem CallsIn.nil : CallsIn B [] := fun _ h => by cases h

theorem CallsIn.append {calls calls' : List WalletCall} (h : CallsIn B calls)
    (h' : CallsIn B calls') : CallsIn B (calls ++ calls') := by
  intro call hcall
  rcases List.mem_append.mp hcall with hcall | hcall
  · exact h call hcall
  · exact h' call hcall

variable (h : LockedIn B m)
include h

/-- A transaction is tracked as locked, or offered with a lock, only if a lock for it was
remembered. -/
theorem LockedIn.handleTx (env : MempoolEnv) (txid : Txid) (tx : Transaction)
    (isLocal : Bool) (result : MempoolTransactionResult) :
    LockedIn B (m.handleTx env txid tx isLocal result).1 ∧
      CallsIn B (m.handleTx env txid tx isLocal result).2 := by
  -- whatever lock is found for the transaction was remembered under its txid
  have hfound : ∀ lock, (m.pendingIsLocks.get? txid).map Prod.fst = some lock → B txid := by
    intro lock hlock
    obtain ⟨entry, hentry, -⟩ := Option.map_eq_some_iff.mp hlock
    exact h.remembered txid entry hentry
  have hrest : ∀ txid' lock, (m.pendingIsLocks.erase txid).get? txid' = some lock → B txid' :=
    fun txid' lock hlock => h.remembered txid' lock (of_get?_erase hlock).2
  have hcall : CallsIn B
      [.processMempoolTransaction txid tx ((m.pendingIsLocks.get? txid).map Prod.fst)] := by
    intro call hcall txid' hlocked
    cases List.mem_singleton.mp hcall
    obtain ⟨lock, hlock, rfl⟩ := Option.map_eq_some_iff.mp hlocked
    exact hfound lock hlock
  simp only [MempoolManager.handleTx]
  split
  · exact ⟨⟨h.locked, h.remembered⟩, .nil⟩
  · split
    · exact ⟨⟨h.locked, hrest⟩, hcall⟩
    · refine ⟨⟨?_, hrest⟩, hcall⟩
      rintro txid' ⟨tx', htx', hlocked⟩
      obtain ⟨rfl, rfl⟩ | ⟨-, htx'⟩ := of_get?_insert htx'
      · obtain ⟨lock, hlock⟩ := Option.isSome_iff_exists.mp hlocked
        exact hfound lock hlock
      · exact h.locked txid' ⟨tx', htx', hlocked⟩

/-- A lock for a transaction in `B` marks, announces and remembers only that one. -/
theorem LockedIn.processInstantSend (env : MempoolEnv) {lock : InstantLock}
    (hlock : B lock.txid) :
    LockedIn B (m.processInstantSend env lock).1 ∧
      CallsIn B (m.processInstantSend env lock).2 := by
  rw [MempoolManager.processInstantSend]
  split
  · next tx htx =>
    refine ⟨⟨?_, h.remembered⟩, ?_⟩
    · rintro txid' ⟨tx', htx', hlocked⟩
      obtain ⟨rfl, -⟩ | ⟨-, htx'⟩ := of_get?_insert htx'
      · exact hlock
      · exact h.locked txid' ⟨tx', htx', hlocked⟩
    · intro call hcall txid' hlocked
      cases List.mem_singleton.mp hcall
      cases hlocked
      exact hlock
  · split
    · exact ⟨⟨h.locked, forall_get?_insert h.remembered hlock⟩, .nil⟩
    · exact ⟨h, .nil⟩

/-- No other handler locks anything: all it can do is apply a remembered lock. -/
theorem LockedIn.handle (computeTxid : Transaction → Txid) (env : MempoolEnv)
    (action : MempoolAction) :
    LockedIn B (m.handle computeTxid env action).1 ∧
      CallsIn B (m.handle computeTxid env action).2 := by
  rcases handle_cases m env computeTxid action with
    ⟨tx, isLocal, result, rfl⟩ | rfl | ⟨hshrinks, hcalls⟩
  · exact h.handleTx env (computeTxid tx) tx isLocal result
  · exact ⟨h.within (locksWithin_tick m env), .nil⟩
  · exact ⟨h.within hshrinks.locksWithin, hcalls ▸ .nil⟩

end MempoolManager

end Dashcore
