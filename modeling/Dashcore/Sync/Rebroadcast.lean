import Dashcore.Sync.LockAnnouncements

/-!
# Rebroadcast after a reorg

A reorg demotes transactions of the wallet, and the mempool manager broadcasts them again
until a block confirms them. The demotion comes with the wallet's events, which are read at a
tick; the confirmation comes with the sync events, which are handled one by one. Here the two
channels are queues that lose nothing and are read in any relative order.

A transaction confirmed again is left alone from then on if no demotion of it waits in the
wallet's queue when the manager handles the confirmation. Otherwise the confirmation removes
nothing and the next tick queues the transaction: the wallet's own event for the confirming
block gives up only the transactions that conflict with it.
-/

namespace Dashcore

open Runs List

/-- The event demotes this transaction. -/
def MempoolWalletEvent.Demotes (txid : Txid) : MempoolWalletEvent → Prop
  | reorg _ demotedTxids => txid ∈ demotedTxids
  | blockProcessed _ => False

/-- What the manager tells peers and the wallet about transactions at a tick. -/
inductive MempoolOutput
  | tx (txid : Txid)
  | txRepeatedlyOrphaned (walletId : Nat) (txid : Txid)
  deriving DecidableEq

def MempoolOutput.txid : MempoolOutput → Txid
  | tx txid => txid
  | txRepeatedlyOrphaned _ txid => txid

namespace MempoolManager

section

variable (m : MempoolManager)

section

variable (env : MempoolEnv)

/-- What `rebroadcastIfDue` sends. -/
def dueOutputs : List MempoolOutput :=
  (m.recentSends.filter fun txid lastBroadcast =>
    rebroadcastInterval ≤ env.now - lastBroadcast && m.transactions.contains txid).keys.map .tx

/-- What `driveReorgRebroadcast` sends. -/
def reorgOutputs : List MempoolOutput :=
  m.pendingRebroadcast.entries.filterMap fun entry =>
    match m.rebroadcastDecision env entry.1 entry.2 with
    | .broadcast _ => some (.tx entry.1)
    | .orphan => some (.txRepeatedlyOrphaned entry.2.walletId entry.1)
    | .keep _ | .drop => none

/-- A tick up to the requests for transactions. -/
def tickPruned : MempoolManager :=
  ((m.pruneExpired env mempoolTxExpiry).prunePendingRequests env).sendQueued env

/-- A tick up to the end of the wallet's events. -/
def tickDrained : MempoolManager :=
  env.walletEvents.foldl (handleWalletEvent env) ((m.tickPruned env).rebroadcastIfDue env)

/-- Whether a tick gets as far as the wallet's events. -/
def drains : Bool := m.state = .synced && env.requestsSent

def tickOutputs : List MempoolOutput :=
  if m.drains env then (m.tickPruned env).dueOutputs env ++ (m.tickDrained env).reorgOutputs env
  else []

end

/-- The transaction is neither tracked nor queued for rebroadcast. -/
def Untracked (txid : Txid) : Prop :=
  m.transactions.get? txid = none ∧ m.pendingRebroadcast.get? txid = none

end

variable {m m' : MempoolManager} {txid : Txid}

section

variable (h : m.Untracked txid)
include h

theorem Untracked.of_shrinks (hm' : Shrinks m m') : m'.Untracked txid := by
  refine ⟨?_, hm'.queued txid h.2⟩
  refine Option.eq_none_iff_forall_ne_some.mpr fun tx htx => ?_
  have hold := hm'.tracked txid tx htx
  rw [h.1] at hold
  cases hold

variable (env : MempoolEnv) {other : Txid}

theorem Untracked.handleTx (hother : other ≠ txid) (tx : Transaction) (isLocal : Bool)
    (result : MempoolTransactionResult) :
    (m.handleTx env other tx isLocal result).1.Untracked txid := by
  simp only [MempoolManager.handleTx]
  split
  · exact h
  · split
    · exact h
    · exact ⟨by simpa [hother] using h.1, h.2⟩

theorem Untracked.processInstantSend
    (lock : InstantLock) : (m.processInstantSend env lock).1.Untracked txid := by
  rw [MempoolManager.processInstantSend]
  split
  · next tx htx =>
    have hother : lock.txid ≠ txid := by
      rintro rfl
      rw [h.1] at htx
      cases htx
    exact ⟨by simpa [hother] using h.1, h.2⟩
  · split_ifs
    · exact h
    · exact h

theorem Untracked.enqueueDemoted (walletId : Nat) (hother : other ≠ txid) :
    (enqueueDemoted env walletId m other).Untracked txid := by
  rw [MempoolManager.enqueueDemoted]
  split
  · exact h
  · split
    · exact h
    · split_ifs
      · exact h
      · exact ⟨h.1, by simpa [hother] using h.2⟩
      · exact ⟨by simpa [hother] using h.1, by simpa [hother] using h.2⟩

theorem Untracked.handleWalletEvent {event : MempoolWalletEvent} (hevent : ¬event.Demotes txid) :
    (handleWalletEvent env m event).Untracked txid := by
  cases event with
  | reorg walletId demotedTxids =>
    refine foldlRecOn (motive := fun m : MempoolManager => m.Untracked txid)
      demotedTxids _ h ?_
    intro m hm other hmem
    refine hm.enqueueDemoted env walletId ?_
    rintro rfl
    exact hevent hmem
  | blockProcessed records => exact h.of_shrinks (shrinks_evictConflictingRebroadcasts m records)

end

section Tick

variable {env : MempoolEnv} (h : m.Untracked txid)
  (hevents : ∀ event ∈ env.walletEvents, ¬event.Demotes txid)
include h

theorem Untracked.tickPruned : (m.tickPruned env).Untracked txid :=
  h.of_shrinks (shrinks_pruned m env mempoolTxExpiry)

theorem Untracked.dueOutputs (env : MempoolEnv) :
    ∀ output ∈ m.dueOutputs env, output.txid ≠ txid := by
  intro output houtput htxid
  obtain ⟨other, hother, rfl⟩ := mem_map.mp houtput
  obtain ⟨time, htime⟩ := SortedMap.mem_keys_iff.mp hother
  rw [SortedMap.get?_filter] at htime
  have hdue := (Option.filter_eq_some_iff.mp htime).2
  obtain rfl : other = txid := htxid
  simp [SortedMap.contains, h.1] at hdue

theorem Untracked.reorgOutputs (env : MempoolEnv) :
    ∀ output ∈ m.reorgOutputs env, output.txid ≠ txid := by
  intro output houtput htxid
  obtain ⟨⟨other, state⟩, hentry, hsome⟩ := mem_filterMap.mp houtput
  have hqueued := SortedMap.mem_entries_iff.mp hentry
  have hother : output.txid = other := by
    split at hsome <;> cases hsome <;> rfl
  rw [← hother, htxid, h.2] at hqueued
  cases hqueued

include hevents

theorem Untracked.tickDrained : (m.tickDrained env).Untracked txid := by
  have hsent := h.tickPruned.of_shrinks (shrinks_rebroadcastIfDue (m.tickPruned env) env)
  refine foldlRecOn (motive := fun m : MempoolManager => m.Untracked txid)
    env.walletEvents _ hsent ?_
  exact fun m hm event hmem => hm.handleWalletEvent env (hevents event hmem)

/-- A tick without a demotion of the transaction does not bring it back and says nothing
about it. -/
theorem Untracked.tick : (m.tick env).Untracked txid ∧
    ∀ output ∈ m.tickOutputs env, output.txid ≠ txid := by
  constructor
  · rw [MempoolManager.tick]
    split_ifs
    · exact h
    · exact h.tickPruned
    · exact (h.tickDrained hevents).of_shrinks (shrinks_driven _ env)
  · rw [tickOutputs]
    split_ifs
    · exact forall_mem_append.mpr
        ⟨h.tickPruned.dueOutputs env, (h.tickDrained hevents).reorgOutputs env⟩
    · exact forall_mem_nil _

end Tick

/-- The event of a block that confirms the transaction ends all tracking of it. -/
theorem untracked_handleBlockProcessed (m : MempoolManager) (env : MempoolEnv) {txids : List Txid}
    (hmem : txid ∈ txids) : (m.handleBlockProcessed env txids).Untracked txid := by
  have hne : txids.isEmpty = false := by simpa using ne_nil_of_mem hmem
  rw [handleBlockProcessed, hne]
  simp [Untracked, removeConfirmed, hmem]

end MempoolManager

/-- Ticks and the events of blocks take what waits in a queue. -/
def MempoolAction.takesQueued : MempoolAction → Bool
  | .tick | .blockProcessed _ => true
  | _ => false

/-- The manager behind its two channels. -/
structure MempoolChannels where
  manager : MempoolManager
  /-- Events of the wallet not read yet, oldest first. -/
  walletEvents : List MempoolWalletEvent
  /-- The confirmed txids of block events not handled yet, oldest first. -/
  blockEvents : List (List Txid)

inductive MempoolChannelAction
  | walletEvent (event : MempoolWalletEvent)
  | blockEvent (confirmedTxids : List Txid)
  /-- The manager handles the oldest block event. -/
  | takeBlockEvent (env : MempoolEnv)
  | tick (env : MempoolEnv)
  | instantLock (env : MempoolEnv) (lock : InstantLock)
  | mempool (env : MempoolEnv) (action : MempoolAction) (hqueued : action.takesQueued = false)

/-- The wallet demotes the transaction, or it arrives. -/
def MempoolChannelAction.Renews (computeTxid : Transaction → Txid) (txid : Txid) :
    MempoolChannelAction → Prop
  | walletEvent event => event.Demotes txid
  | mempool _ (.tx tx _ _) _ => computeTxid tx = txid
  | _ => False

namespace MempoolChannels

variable (computeTxid : Transaction → Txid)

/-- One step; a tick reads the wallet's events that are there. -/
def step (s : MempoolChannels) : MempoolChannelAction → MempoolChannels
  | .walletEvent event => { s with walletEvents := s.walletEvents ++ [event] }
  | .blockEvent confirmedTxids => { s with blockEvents := s.blockEvents ++ [confirmedTxids] }
  | .takeBlockEvent env =>
    match s.blockEvents with
    | [] => s
    | confirmedTxids :: rest =>
      { s with manager := s.manager.handleBlockProcessed env confirmedTxids, blockEvents := rest }
  | .tick env =>
    { s with
      manager := s.manager.tick { env with walletEvents := s.walletEvents }
      walletEvents := if s.manager.drains env then [] else s.walletEvents }
  | .instantLock env lock => { s with manager := (s.manager.processInstantSend env lock).1 }
  | .mempool env action _ => { s with manager := (s.manager.handle computeTxid env action).1 }

/-- What a step sends. -/
def outputs (s : MempoolChannels) : MempoolChannelAction → List MempoolOutput
  | .tick env => s.manager.tickOutputs { env with walletEvents := s.walletEvents }
  | _ => []

/-- The transaction is not tracked and no demotion of it waits. -/
structure Settled (txid : Txid) (s : MempoolChannels) : Prop where
  untracked : s.manager.Untracked txid
  waiting : ∀ event ∈ s.walletEvents, ¬event.Demotes txid

variable {computeTxid} {s : MempoolChannels} {txid : Txid}

/-- A step that does not renew the transaction keeps it settled and says nothing about it. -/
theorem Settled.step (h : s.Settled txid) {action : MempoolChannelAction}
    (hrenews : ¬action.Renews computeTxid txid) :
    (s.step computeTxid action).Settled txid ∧
      ∀ output ∈ s.outputs action, output.txid ≠ txid := by
  cases action with
  | walletEvent event =>
    refine ⟨⟨h.untracked, ?_⟩, forall_mem_nil _⟩
    exact forall_mem_append.mpr ⟨h.waiting, forall_mem_singleton.mpr hrenews⟩
  | blockEvent confirmedTxids => exact ⟨⟨h.untracked, h.waiting⟩, forall_mem_nil _⟩
  | takeBlockEvent env =>
    refine ⟨?_, forall_mem_nil _⟩
    rw [MempoolChannels.step]
    split
    · exact h
    · exact ⟨h.untracked.of_shrinks (MempoolManager.shrinks_handleBlockProcessed _ env _),
        h.waiting⟩
  | tick env =>
    have hwaiting : ∀ event ∈ { env with walletEvents := s.walletEvents }.walletEvents,
        ¬event.Demotes txid := h.waiting
    obtain ⟨huntracked, houtputs⟩ := h.untracked.tick hwaiting
    refine ⟨⟨huntracked, ?_⟩, houtputs⟩
    simp only [MempoolChannels.step]
    split_ifs
    · exact forall_mem_nil _
    · exact h.waiting
  | instantLock env lock =>
    exact ⟨⟨h.untracked.processInstantSend env lock, h.waiting⟩, forall_mem_nil _⟩
  | mempool env action hqueued =>
    refine ⟨⟨?_, h.waiting⟩, forall_mem_nil _⟩
    rcases MempoolManager.handle_cases s.manager env computeTxid action with
      ⟨tx, isLocal, result, rfl⟩ | rfl | ⟨hshrinks, -⟩
    · exact h.untracked.handleTx env hrenews tx isLocal result
    · cases hqueued
    · exact h.untracked.of_shrinks hshrinks

/-- Suppose the oldest block event confirms a transaction, and the manager handles it when no
demotion of the transaction waits in the wallet's queue. Until the transaction is demoted
again or arrives again, it is then neither tracked nor queued, and nothing is sent for it. -/
theorem reconfirmed_left_alone (s : MempoolChannels) (env : MempoolEnv)
    {confirmedTxids : List Txid} {rest : List (List Txid)}
    (hblock : s.blockEvents = confirmedTxids :: rest) (hconfirmed : txid ∈ confirmedTxids)
    (hwaiting : ∀ event ∈ s.walletEvents, ¬event.Demotes txid)
    {later : List MempoolChannelAction}
    (hlater : ∀ action ∈ later, ¬action.Renews computeTxid txid) :
    let s' := s.step computeTxid (.takeBlockEvent env)
    (run (step computeTxid) s' later).manager.Untracked txid ∧
      Along (step computeTxid) (fun s action => ∀ output ∈ s.outputs action, output.txid ≠ txid)
        s' later := by
  intro s'
  have hstart : s'.Settled txid := by
    simp only [s', MempoolChannels.step, hblock]
    exact ⟨MempoolManager.untracked_handleBlockProcessed s.manager env hconfirmed, hwaiting⟩
  have halong : Along (step computeTxid) (fun _ action => ¬action.Renews computeTxid txid) s'
      later := along_of_forall_mem hlater
  exact ⟨(invariant_run (fun _ _ hs hrenews => (hs.step hrenews).1) hstart halong).untracked,
    along_of_invariant (fun _ _ hs hrenews => (hs.step hrenews).1)
      (fun _ _ hs hrenews => (hs.step hrenews).2) hstart halong⟩

end MempoolChannels

/-! ### A payment demoted and confirmed again -/

namespace MempoolChannels.Reconfirmed

open InstantSendSystem.ForgedLock (payment computeTxid)

/-- A minute apart, with a wallet that returns the payment. -/
def env (minutes : Nat) : MempoolEnv :=
  { InstantSendSystem.ForgedLock.env with
    now := minutes * 60000
    getTransaction := fun _ => some payment }

/-- The manager syncs; then a reorg demotes the payment and a block confirms it again. -/
def confirmedAgain : MempoolChannels :=
  run (step computeTxid) ⟨.new .fetchAll 10 0, [], []⟩
    [.mempool (env 0) (.peerConnected 0) rfl, .mempool (env 0) .filtersSyncComplete rfl,
      .walletEvent (.reorg 0 [9]), .walletEvent (.blockProcessed [(9, [⟨5, 0⟩])]),
      .blockEvent [9]]

/-- The demotion is read first. -/
def demotedFirst : MempoolChannels := confirmedAgain.step computeTxid (.tick (env 0))

/-- The block event is handled first. -/
def confirmedFirst : MempoolChannels :=
  run (step computeTxid) confirmedAgain [.takeBlockEvent (env 0), .tick (env 0)]

theorem demotedFirst_left_alone :
    demotedFirst.manager.pendingRebroadcast.contains 9 ∧
      Along (step computeTxid) (fun s action => ∀ output ∈ s.outputs action, output.txid ≠ 9)
        (demotedFirst.step computeTxid (.takeBlockEvent (env 0))) [.tick (env 1)] :=
  ⟨by decide +kernel, (reconfirmed_left_alone demotedFirst (env 0)
    (show demotedFirst.blockEvents = [[9]] from rfl) (mem_singleton_self 9)
    (forall_mem_nil _) (forall_mem_singleton.mpr id)).2⟩

/-- Handled first, the block event removes nothing: with both queues empty the payment is
tracked and queued, and it is sent. -/
theorem confirmedFirst_rebroadcast :
    confirmedFirst.walletEvents = [] ∧ confirmedFirst.blockEvents = [] ∧
      confirmedFirst.manager.transactions.contains 9 ∧
      confirmedFirst.manager.pendingRebroadcast.contains 9 ∧
      confirmedFirst.outputs (.tick (env 1)) = [.tx 9] := by
  refine ⟨rfl, rfl, by decide +kernel, by decide +kernel, by decide +kernel⟩

end MempoolChannels.Reconfirmed

end Dashcore
