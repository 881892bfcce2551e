import Dashcore.Sml.MessageVerification
import Dashcore.Sync.Basic

/-!
# The InstantSend manager

The manager takes InstantSend locks from the network, checks their signature against the
masternode engine and announces them. A lock that does not verify yet is announced as
not validated, queued, and checked again each time the masternode state changes.

The check itself is a parameter, an arbitrary function of the engine's state and the
lock.
-/

namespace Dashcore

/-- Entry in the InstantLock cache. -/
structure InstantLockEntry where
  instantLock : InstantLock
  receivedAt : Nat
  /-- Whether the BLS signature was validated. -/
  validated : Bool
  deriving DecidableEq

/-- A lock that waits for validation, with the number of retries so far. -/
structure PendingInstantLock where
  instantLock : InstantLock
  retryCount : Nat
  deriving DecidableEq

/-- The event that announces a lock to the other managers. -/
structure InstantLockReceived where
  instantLock : InstantLock
  /-- Whether the BLS signature was validated. -/
  validated : Bool
  deriving DecidableEq

/-- State of the InstantSend manager. The masternode engine is shared and not part of it. -/
structure InstantSendManager where
  state : SyncState
  instantlocks : SortedMap Txid InstantLockEntry
  pendingInstantlocks : List PendingInstantLock
  deriving DecidableEq

/-- What can happen to the manager. Clock readings are in milliseconds, and `order` is the
iteration order of the cache. -/
inductive InstantSendInput
  | islock (now : Nat) (order : Txid → Nat) (lock : InstantLock)
  | chainReorg
  | masternodeStateUpdated
  | peersUpdated (connectedCount : Nat)
  | tick (now : Nat)

/-- Whether the lock has an input, a txid and a signature. -/
def InstantLock.validateStructure (lock : InstantLock) : Bool :=
  !lock.inputs.isEmpty && lock.txid ≠ 0 && lock.signature ≠ Vector.replicate 96 0

namespace InstantSendManager

def maxPendingInstantlocks : Nat := 500

def maxCacheSize : Nat := 5000

/-- One hour. -/
def cacheTtl : Nat := 3600000

def maxRetries : Nat := 24

/-- The manager at start. -/
def new : InstantSendManager :=
  { state := .waitForEvents, instantlocks := ∅, pendingInstantlocks := [] }

section

variable (m : InstantSendManager)

/-- Queue a lock for later validation, dropping the oldest at capacity. -/
def queuePending (pending : PendingInstantLock) : InstantSendManager :=
  let queue := if maxPendingInstantlocks ≤ m.pendingInstantlocks.length then
      m.pendingInstantlocks.tail
    else m.pendingInstantlocks
  { m with pendingInstantlocks := queue ++ [pending] }

/-- Cache a lock, removing the oldest entry when the cache grows too large. -/
def storeInstantlock (order : Txid → Nat) (txid : Txid)
    (entry : InstantLockEntry) : InstantSendManager :=
  let locks := m.instantlocks.insert txid entry
  if maxCacheSize < locks.size then
    -- of several oldest entries the first in iteration order goes
    let inOrder := locks.entries.insertionSort fun a b => order a.1 ≤ order b.1
    match inOrder.argmin fun e => e.2.receivedAt with
    | some oldest => { m with instantlocks := locks.erase oldest.1 }
    | none => { m with instantlocks := locks }
  else { m with instantlocks := locks }

/-- Drop cached locks past their time to live. A clock that went back drops nothing. -/
def pruneOldEntries (now : Nat) : InstantSendManager :=
  { m with instantlocks := m.instantlocks.filter fun _ entry =>
      now < entry.receivedAt || now - entry.receivedAt < cacheTtl }

end

section Validation

variable {Engine : Type} (verifyIsLock : Engine → InstantLock → Except MessageVerificationError Unit)
  (engine : Engine)

/-- Whether the engine accepts the signature of a lock. -/
def validateSignature (lock : InstantLock) : Bool := (verifyIsLock engine lock).isOk

variable (m : InstantSendManager)

/-- Process a lock from the network. -/
def processInstantlock (now : Nat) (order : Txid → Nat)
    (lock : InstantLock) : InstantSendManager × List InstantLockReceived :=
  if m.instantlocks.contains lock.txid then (m, [])
  else if !lock.validateStructure then (m, [])
  else
    let validated := validateSignature verifyIsLock engine lock
    let m := if validated then m else m.queuePending { instantLock := lock, retryCount := 0 }
    -- the lock is cached and announced whether or not it was validated
    (m.storeInstantlock order lock.txid { instantLock := lock, receivedAt := now, validated },
      [{ instantLock := lock, validated }])

/-- Check one queued lock again. -/
def retryPending (acc : InstantSendManager × List InstantLockReceived)
    (pending : PendingInstantLock) : InstantSendManager × List InstantLockReceived :=
  let (m, events) := acc
  let pending := { pending with retryCount := pending.retryCount + 1 }
  let lock := pending.instantLock
  if maxRetries < pending.retryCount then (m, events)
  else if validateSignature verifyIsLock engine lock then
    let instantlocks := match m.instantlocks.get? lock.txid with
      | some entry => m.instantlocks.insert lock.txid { entry with validated := true }
      | none => m.instantlocks
    ({ m with instantlocks }, events ++ [{ instantLock := lock, validated := true }])
  else (m.queuePending pending, events)

/-- Check every queued lock again. -/
def validatePending : InstantSendManager × List InstantLockReceived :=
  m.pendingInstantlocks.foldl (retryPending verifyIsLock engine)
    ({ m with pendingInstantlocks := [] }, [])

/-- React to a change of the masternode state. -/
def handleMasternodeStateUpdated : InstantSendManager × List InstantLockReceived :=
  if m.state = .waitingForConnections then (m, [])
  else
    let (m, events) :=
      if m.pendingInstantlocks.isEmpty then (m, []) else validatePending verifyIsLock engine m
    let idle := m.pendingInstantlocks.isEmpty &&
      (m.state = .syncing || m.state = .waitForEvents)
    (if idle then { m with state := .synced } else m, events)

/-- Stop without peers, and start again once there are some. -/
def handlePeersUpdated (connectedCount : Nat) : InstantSendManager :=
  if connectedCount = 0 then
    { m with state := .waitingForConnections, pendingInstantlocks := [] }
  else if m.state = .waitingForConnections then { m with state := .waitForEvents }
  else m

/-- The manager's reaction to an input, and the locks it announces. -/
def handle : InstantSendInput → InstantSendManager × List InstantLockReceived
  | .islock now order lock => processInstantlock verifyIsLock engine m now order lock
  | .chainReorg => ({ m with pendingInstantlocks := [] }, [])
  | .masternodeStateUpdated => handleMasternodeStateUpdated verifyIsLock engine m
  | .peersUpdated connectedCount => (m.handlePeersUpdated connectedCount, [])
  | .tick now => (m.pruneOldEntries now, [])

/-! ### Which locks are checked -/

/-- The locks whose signature the manager checks on an input. -/
def checkedLocks : InstantSendInput → List InstantLock
  | .islock _ _ lock =>
    if m.instantlocks.contains lock.txid || !lock.validateStructure then [] else [lock]
  | .masternodeStateUpdated =>
    if m.state = .waitingForConnections then []
    else
      (m.pendingInstantlocks.filter fun pending => pending.retryCount + 1 ≤ maxRetries).map
        PendingInstantLock.instantLock
  | _ => []

variable {verifyIsLock engine} {event : InstantLockReceived}

/-- A retry announces nothing, or the lock that it checked. -/
theorem retryPending_events (acc : InstantSendManager × List InstantLockReceived)
    (pending : PendingInstantLock) (h : event ∈ (retryPending verifyIsLock engine acc pending).2) :
    event ∈ acc.2 ∨ pending.retryCount + 1 ≤ maxRetries ∧ event.instantLock = pending.instantLock ∧
      validateSignature verifyIsLock engine pending.instantLock = true := by
  simp only [retryPending] at h
  split_ifs at h with hretries hvalid
  · exact .inl h
  · rcases List.mem_append.mp h with h | h
    · exact .inl h
    · cases List.mem_singleton.mp h
      exact .inr ⟨not_lt.mp hretries, rfl, hvalid⟩
  · exact .inl h

/-- The retries announce only locks of the queue that they checked. -/
theorem retryPending_foldl_events (queue : List PendingInstantLock)
    (acc : InstantSendManager × List InstantLockReceived)
    (h : event ∈ (queue.foldl (retryPending verifyIsLock engine) acc).2) :
    event ∈ acc.2 ∨ ∃ pending ∈ queue, pending.retryCount + 1 ≤ maxRetries ∧
      event.instantLock = pending.instantLock ∧
      validateSignature verifyIsLock engine pending.instantLock = true := by
  induction queue generalizing acc with
  | nil => exact .inl h
  | cons pending rest ih =>
    rcases ih _ h with h | ⟨p, hp, hchecked⟩
    · rcases retryPending_events acc pending h with h | hchecked
      · exact .inl h
      · exact .inr ⟨pending, List.mem_cons_self, hchecked⟩
    · exact .inr ⟨p, List.mem_cons_of_mem pending hp, hchecked⟩

theorem processInstantlock_events (m : InstantSendManager) (now : Nat) (order : Txid → Nat)
    (lock : InstantLock) : (processInstantlock verifyIsLock engine m now order lock).2 =
      if m.instantlocks.contains lock.txid || !lock.validateStructure then []
      else [⟨lock, validateSignature verifyIsLock engine lock⟩] := by
  rw [processInstantlock]
  split_ifs <;> simp_all

theorem handleMasternodeStateUpdated_events (m : InstantSendManager) :
    (handleMasternodeStateUpdated verifyIsLock engine m).2 =
      if m.state = .waitingForConnections ∨ m.pendingInstantlocks.isEmpty then []
      else (validatePending verifyIsLock engine m).2 := by
  rw [handleMasternodeStateUpdated]
  split_ifs <;> simp_all

/-- A lock is announced as validated only by an input that checked it, and with success. -/
theorem handle_validated {m : InstantSendManager} {input : InstantSendInput}
    (h : event ∈ (handle verifyIsLock engine m input).2) (hvalidated : event.validated = true) :
    event.instantLock ∈ m.checkedLocks input ∧
      validateSignature verifyIsLock engine event.instantLock = true := by
  cases input with
  | islock now order lock =>
    rw [handle, processInstantlock_events] at h
    rw [checkedLocks]
    split_ifs at h ⊢ with hskip
    · cases h
    · cases List.mem_singleton.mp h
      exact ⟨List.mem_singleton_self lock, hvalidated⟩
  | masternodeStateUpdated =>
    rw [handle, handleMasternodeStateUpdated_events] at h
    split_ifs at h with hidle
    · cases h
    · rcases retryPending_foldl_events _ _ h with h | ⟨pending, hmem, hretries, hlock, hvalid⟩
      · cases h
      · refine ⟨?_, hlock ▸ hvalid⟩
        rw [checkedLocks, if_neg (not_or.mp hidle).1, hlock]
        exact List.mem_map_of_mem (List.mem_filter.mpr ⟨hmem, decide_eq_true hretries⟩)
  | chainReorg | peersUpdated | tick => cases h

end Validation

end InstantSendManager

end Dashcore
