import Dashcore.Lib.Runs
import Dashcore.Sync.InstantSend
import Dashcore.Sync.Mempool

/-!
# InstantSend locks on their way to the wallet

The InstantSend manager announces locks on the event bus and the mempool manager picks
them up there, marks transactions and tells the wallet. Here the two managers run side by
side: announcements wait in a queue, the masternode engine changes at any time, and
everything the environment does comes in any order. The system remembers, for the
statement only, the locks whose signature check succeeded and the calls to the wallet.

The mempool manager does not look at the `validated` flag of an announcement. A
transaction is therefore presented as locked only after a successful check in those runs
in which every announcement it takes carries the flag.
-/

namespace Dashcore

/-- The two managers and what lies between them. -/
structure InstantSendSystem (Engine : Type) where
  engine : Engine
  instantSend : InstantSendManager
  mempool : MempoolManager
  /-- Announcements the mempool manager has not taken yet, oldest first. -/
  announcements : List InstantLockReceived
  /-- The calls to the wallet so far. -/
  walletCalls : List WalletCall
  /-- The locks that `verifyIsLock` accepted so far. -/
  verified : List InstantLock

/-- What can happen next. -/
inductive InstantSendAction (Engine : Type)
  | engineUpdated (engine : Engine)
  | instantSend (input : InstantSendInput)
  /-- The mempool manager takes the oldest announcement. -/
  | takeAnnouncement (env : MempoolEnv)
  /-- The mempool manager lags and loses the oldest announcement. -/
  | loseAnnouncement
  | mempool (env : MempoolEnv) (action : MempoolAction)

namespace InstantSendSystem

variable {Engine : Type} (verifyIsLock : Engine → InstantLock → Except MessageVerificationError Unit)
  (computeTxid : Transaction → Txid)

/-- Both managers at start. -/
def start (engine : Engine) (strategy : MempoolStrategy)
    (maxTransactions initialMonitorRevision : Nat) : InstantSendSystem Engine where
  engine := engine
  instantSend := .new
  mempool := .new strategy maxTransactions initialMonitorRevision
  announcements := []
  walletCalls := []
  verified := []

section

variable (s : InstantSendSystem Engine)

/-- One step of the system. -/
def step : InstantSendAction Engine → InstantSendSystem Engine
  | .engineUpdated engine => { s with engine }
  | .instantSend input =>
    let (instantSend, announced) := s.instantSend.handle verifyIsLock s.engine input
    let accepted := (s.instantSend.checkedLocks input).filter
      (InstantSendManager.validateSignature verifyIsLock s.engine)
    { s with
      instantSend
      announcements := s.announcements ++ announced
      verified := s.verified ++ accepted }
  | .takeAnnouncement env =>
    match s.announcements with
    | [] => s
    | event :: rest =>
      -- the `validated` flag of the event is not looked at
      let (mempool, calls) := s.mempool.processInstantSend env event.instantLock
      { s with mempool, announcements := rest, walletCalls := s.walletCalls ++ calls }
  | .loseAnnouncement => { s with announcements := s.announcements.tail }
  | .mempool env action =>
    let (mempool, calls) := s.mempool.handle computeTxid env action
    { s with mempool, walletCalls := s.walletCalls ++ calls }

/-! ### The guarantee -/

/-- A lock for the transaction was verified. -/
def Verified (txid : Txid) : Prop :=
  ∃ lock ∈ s.verified, lock.txid = txid

/-- A transaction is marked as locked, or was presented to the wallet as locked, only if a
lock for it was verified. -/
def OnlyVerified : Prop :=
  (∀ txid, s.mempool.Locked txid → s.Verified txid) ∧
    ∀ call ∈ s.walletCalls, ∀ txid, call.lockedTxid = some txid → s.Verified txid

/-- If the step takes an announcement, it is one that was validated. -/
def TakesValidated : InstantSendAction Engine → Prop
  | .takeAnnouncement _ => s.announcements.head?.all InstantLockReceived.validated = true
  | _ => True

end

instance (s : InstantSendSystem Engine) : ∀ action, Decidable (s.TakesValidated action)
  | .takeAnnouncement _ => inferInstanceAs (Decidable (_ = true))
  | .engineUpdated _ | .instantSend _ | .loseAnnouncement | .mempool _ _ =>
    inferInstanceAs (Decidable True)

/-- Verified locks are behind all that is marked, remembered, presented or announced as
validated. -/
structure Backed (s : InstantSendSystem Engine) : Prop where
  mempool : MempoolManager.LockedIn s.Verified s.mempool
  calls : MempoolManager.CallsIn s.Verified s.walletCalls
  announced : ∀ event ∈ s.announcements, event.validated = true → s.Verified event.instantLock.txid

variable {verifyIsLock computeTxid} {s : InstantSendSystem Engine}

theorem Backed.onlyVerified (h : s.Backed) : s.OnlyVerified := ⟨h.mempool.locked, h.calls⟩

theorem backed_start (engine : Engine) (strategy : MempoolStrategy)
    (maxTransactions initialMonitorRevision : Nat) :
    (start engine strategy maxTransactions initialMonitorRevision).Backed where
  mempool := ⟨fun _ ⟨_, h, _⟩ => (by cases h), fun _ _ h => (by cases h)⟩
  calls := .nil
  announced := fun _ h => by cases h

/-- What the InstantSend manager announces as validated was verified in the same step. -/
theorem Backed.instantSend (h : s.Backed) (input : InstantSendInput) :
    (s.step verifyIsLock computeTxid (.instantSend input)).Backed := by
  have hmono : ∀ txid, s.Verified txid →
      (s.step verifyIsLock computeTxid (.instantSend input)).Verified txid :=
    fun txid ⟨lock, hmem, htxid⟩ => ⟨lock, List.mem_append_left _ hmem, htxid⟩
  refine ⟨h.mempool.mono hmono, fun call hcall txid hl => hmono txid (h.calls call hcall txid hl), ?_⟩
  intro event hevent hvalid
  rcases List.mem_append.mp hevent with hold | hnew
  · exact hmono _ (h.announced event hold hvalid)
  · have hchecked := InstantSendManager.handle_validated hnew hvalid
    exact ⟨event.instantLock, List.mem_append_right _ (List.mem_filter.mpr hchecked), rfl⟩

/-- Every step that takes only a validated announcement keeps everything backed. -/
theorem Backed.step (h : s.Backed) {action : InstantSendAction Engine}
    (htakes : s.TakesValidated action) : (s.step verifyIsLock computeTxid action).Backed := by
  cases action with
  | engineUpdated engine => exact ⟨h.mempool, h.calls, h.announced⟩
  | instantSend input => exact h.instantSend input
  | loseAnnouncement =>
    exact ⟨h.mempool, h.calls, fun event hevent => h.announced event (List.mem_of_mem_tail hevent)⟩
  | mempool env action =>
    obtain ⟨hmempool, hcalls⟩ := h.mempool.handle computeTxid env action
    exact ⟨hmempool, h.calls.append hcalls, h.announced⟩
  | takeAnnouncement env =>
    simp only [InstantSendSystem.step]
    split
    · exact h
    · next event rest hann =>
      -- the oldest announcement is validated, so the lock it carries was verified
      have hvalid : event.validated = true := by
        simpa [TakesValidated, hann] using htakes
      have hverif := h.announced event (hann ▸ List.mem_cons_self) hvalid
      obtain ⟨hmempool, hcalls⟩ := h.mempool.processInstantSend env hverif
      exact ⟨hmempool, h.calls.append hcalls, fun event' hevent' =>
        h.announced event' (hann ▸ List.mem_cons_of_mem event hevent')⟩

/-- In every run in which the mempool manager takes only announcements of validated locks, a
transaction counts as InstantSend-locked only after a lock for it was verified. -/
theorem run_onlyVerified
    (verifyIsLock : Engine → InstantLock → Except MessageVerificationError Unit)
    (computeTxid : Transaction → Txid) (engine : Engine) (strategy : MempoolStrategy)
    (maxTransactions initialMonitorRevision : Nat) (actions : List (InstantSendAction Engine))
    (htakes : Runs.Along (step verifyIsLock computeTxid) TakesValidated
      (start engine strategy maxTransactions initialMonitorRevision) actions) :
    OnlyVerified (Runs.run (step verifyIsLock computeTxid)
      (start engine strategy maxTransactions initialMonitorRevision) actions) := by
  have hkeep : ∀ s action, Backed s → TakesValidated s action →
      Backed (step verifyIsLock computeTxid s action) :=
    fun _ _ hs htake => hs.step htake
  have hstart := backed_start engine strategy maxTransactions initialMonitorRevision
  exact (Runs.invariant_run hkeep hstart htakes).onlyVerified

end InstantSendSystem

/-! ### A genuine and a forged lock -/

namespace InstantSendSystem.ForgedLock

/-- A signature scheme under which only one signature is valid. -/
def crypto : Crypto where
  sha256d _ := 0
  PublicKey := Unit
  Signature := BLSSignature
  publicKeyTryFrom _ := .ok ()
  signatureFromCompressed := some
  verify signature _ _ :=
    if signature = .replicate 96 1 then .ok () else .error "Invalid signature"

/-- A regtest engine with one quorum in cycle 3. -/
def engine : MasternodeListEngine where
  masternodeLists := ∅
  rotatedQuorumsPerCycle := SortedMap.empty.insert 3 (SortedMap.empty.insert 0
    { quorumEntry :=
        { version := 1, llmqType := .llmqtypeTestDIP0024, quorumHash := 7, quorumIndex := some 0
          signers := [], validMembers := [], quorumPublicKey := .replicate 48 1
          quorumVvecHash := 0, thresholdSig := .replicate 96 0
          allCommitmentAggregatedSignature := .replicate 96 0 }
      verified := .verified
      commitmentHash := 0
      entryHash := 0
      verifyingChainLockSignature := none })
  network := .regtest

def verifyIsLock (engine : MasternodeListEngine) (lock : InstantLock) :
    Except MessageVerificationError Unit :=
  engine.verifyIsLock crypto lock

/-- A transaction that pays nothing to anybody. -/
def payment : Transaction where
  version := 2
  lockTime := 0
  input := [{ previousOutput := ⟨5, 0⟩, scriptSig := ⟨[]⟩, sequence := 0 }]
  output := []
  specialTransactionPayload := none

def computeTxid (_ : Transaction) : Txid := 9

/-- A lock for the payment with the given signature byte. -/
def lock (byte : UInt8) : InstantLock where
  version := 1
  inputs := [⟨5, 0⟩]
  txid := 9
  cyclehash := 3
  signature := .replicate 96 byte

def env : MempoolEnv where
  now := 0
  wallTime := 0
  order := fun _ => 0
  peerOrder := fun _ => 0
  choice := 0
  activates := fun _ => true
  requestsSent := true
  getTransaction := fun _ => none
  chainlockHeight := 0
  walletEvents := []
  monitorRevision := 0

/-- The payment is tracked, then a lock with this signature byte is received and taken. -/
def lockAfterPayment (byte : UInt8) : List (InstantSendAction MasternodeListEngine) :=
  [.mempool env (.tx payment false
      { isRelevant := true, isOutgoing := false, addresses := [], netAmount := 0 }),
    .instantSend (.islock 0 (fun _ => 0) (lock byte)), .takeAnnouncement env]

/-- Where that leads from the start. -/
def afterLock (byte : UInt8) : InstantSendSystem MasternodeListEngine :=
  Runs.run (step verifyIsLock computeTxid) (start engine .fetchAll 10 0) (lockAfterPayment byte)

/-- With a genuine lock the payment ends up locked, and its lock was verified. -/
theorem genuine_onlyVerified :
    (afterLock 1).OnlyVerified ∧ ((afterLock 1).mempool.transactions.get? 9).map
      UnconfirmedTransaction.isInstantSend = some true :=
  ⟨run_onlyVerified verifyIsLock computeTxid engine .fetchAll 10 0 (lockAfterPayment 1)
    (by decide +kernel), by decide +kernel⟩

/-- With a forged lock the payment is marked as locked and the wallet is told so, although no
lock was ever verified. -/
theorem forged_counts_as_locked :
    verifyIsLock engine (lock 2) ≠ .ok () ∧
      (afterLock 2).walletCalls =
        [.processMempoolTransaction 9 payment none, .processInstantSendLock (lock 2)] ∧
      ((afterLock 2).mempool.transactions.get? 9).map
        UnconfirmedTransaction.isInstantSend = some true ∧
      ¬ (afterLock 2).OnlyVerified := by
  refine ⟨by decide +kernel, by decide +kernel, by decide +kernel, fun honly => ?_⟩
  have hnone : (afterLock 2).verified = [] := by decide +kernel
  have hcall : WalletCall.processInstantSendLock (lock 2) ∈ (afterLock 2).walletCalls := by
    decide +kernel
  obtain ⟨lock', hlock', -⟩ := honly.2 _ hcall 9 rfl
  rw [hnone] at hlock'
  cases hlock'

end InstantSendSystem.ForgedLock

end Dashcore
