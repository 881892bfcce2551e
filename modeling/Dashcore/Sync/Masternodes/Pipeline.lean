import Dashcore.Lib.Runs
import Dashcore.Sync.Basic
import Dashcore.Sync.DownloadCoordinator

/-!
# Downloads of masternode list diffs

The pipeline requests diffs between masternode lists. A diff goes from a base block to a target
block; the coordinator knows a request by its target, and a map has the base of each.

A request should never be lost: until its diff is received it waits or is in flight, and it has a
base. Sending takes a batch of targets off the queue and requests them one by one, so a request
that the channel refuses leaves its target, and those after it, nowhere.
-/

namespace Dashcore

open SortedMap

namespace DownloadCoordinator

variable {K : Type} [LinearOrder K] {c : DownloadCoordinator K} {k key : K}

/-- The item waits or is in flight. -/
def Tracks (c : DownloadCoordinator K) (k : K) : Prop := k ∈ c.pending ∨ c.isInFlight k = true

theorem Tracks.enqueue (h : c.Tracks k) (items : List K) : (c.enqueue items).Tracks k :=
  h.imp_left fun h => List.mem_append_left items h

theorem tracks_enqueue (c : DownloadCoordinator K) (key : K) : (c.enqueue [key]).Tracks key :=
  .inl (List.mem_append_right c.pending (List.mem_singleton_self key))

theorem Tracks.enqueueRetry (h : c.Tracks k) (key : K) : (c.enqueueRetry key).Tracks k :=
  h.imp_left fun h => List.mem_cons_of_mem key h

theorem tracks_enqueueRetry (c : DownloadCoordinator K) (key : K) :
    (c.enqueueRetry key).Tracks key :=
  .inl List.mem_cons_self

theorem isInFlight_markSent (c : DownloadCoordinator K) (now : Nat) :
    (c.markSent now [key]).isInFlight k = true ↔ k = key ∨ c.isInFlight k = true :=
  contains_insert

theorem Tracks.markSent (h : c.Tracks k) (now : Nat) (key : K) : (c.markSent now [key]).Tracks k :=
  h.imp_right fun h => (isInFlight_markSent c now).mpr (.inr h)

theorem tracks_markSent (c : DownloadCoordinator K) (now : Nat) (key : K) :
    (c.markSent now [key]).Tracks key :=
  .inr ((isInFlight_markSent c now).mpr (.inl rfl))

section

variable (h : c.Tracks k)
include h

/-- An item that was waiting is still there, or it was taken. -/
theorem Tracks.takePending (count : Nat) :
    (c.takePending count).1.Tracks k ∨ k ∈ (c.takePending count).2 := by
  rcases h with h | h
  · rw [← List.take_append_drop count c.pending] at h
    rcases List.mem_append.mp h with h | h
    · exact .inr h
    · exact .inl (.inl h)
  · exact .inl (.inr h)

/-- Receiving one item leaves the others. -/
theorem Tracks.receive (hne : k ≠ key) : (c.receive key).1.Tracks k := by
  unfold DownloadCoordinator.receive
  split_ifs with hflight
  · refine h.imp_right fun h => ?_
    show (c.inFlight.erase key).contains k = true
    rw [contains, get?_erase, if_neg hne.symm]
    exact h
  · exact h

/-- An item is still there, or its request timed out. -/
theorem Tracks.checkTimeouts (now : Nat) :
    (c.checkTimeouts now).1.Tracks k ∨ k ∈ (c.checkTimeouts now).2 := by
  by_cases htimedOut : k ∈ (c.checkTimeouts now).2
  · exact .inr htimedOut
  · refine .inl (h.imp_right fun h => ?_)
    exact (contains_filter_key c.inFlight
      (fun key => decide (key ∉ (c.checkTimeouts now).2)) k).mpr ⟨h, decide_eq_true htimedOut⟩

theorem Tracks.foldl_enqueueRetry (keys : List K) :
    (keys.foldl DownloadCoordinator.enqueueRetry c).Tracks k := by
  induction keys generalizing c with
  | nil => exact h
  | cons key rest ih => exact ih (h.enqueueRetry key)

end

theorem tracks_foldl_enqueueRetry {keys : List K} (hk : k ∈ keys) (c : DownloadCoordinator K) :
    (keys.foldl DownloadCoordinator.enqueueRetry c).Tracks k := by
  induction keys generalizing c with
  | nil => cases hk
  | cons key rest ih =>
    rcases List.mem_cons.mp hk with rfl | hk
    · exact (tracks_enqueueRetry c k).foldl_enqueueRetry rest
    · exact ih hk _

end DownloadCoordinator

def maxConcurrentMnlistdiff : Nat := 20

/-- In milliseconds. -/
def mnlistdiffTimeout : Nat := 15000

structure MnListDiffPipeline where
  coordinator : DownloadCoordinator BlockHash
  /-- The base of each request, by its target. -/
  baseHashes : SortedMap BlockHash BlockHash
  deriving DecidableEq

namespace MnListDiffPipeline

def new : MnListDiffPipeline where
  coordinator := .new ⟨maxConcurrentMnlistdiff, mnlistdiffTimeout⟩
  baseHashes := ∅

variable (p : MnListDiffPipeline)

def clear : MnListDiffPipeline where
  coordinator := p.coordinator.clear
  baseHashes := ∅

def queueRequest (request : BlockHash × BlockHash) : MnListDiffPipeline where
  coordinator := p.coordinator.enqueue [request.2]
  baseHashes := p.baseHashes.insert request.2 request.1

/-- Queue requests, each a base and a target. -/
def queueRequests (requests : List (BlockHash × BlockHash)) : MnListDiffPipeline :=
  requests.foldl queueRequest p

/-- Request the targets of a batch; `accepts n` says whether the channel takes the `n`-th. A
target without a base is skipped. A failure ends the loop, and the targets that are left are
neither queued nor in flight. -/
def sendLoop (now : Nat) (accepts : Nat → Bool) :
    Nat → List BlockHash → MnListDiffPipeline → MnListDiffPipeline × Except SyncError Unit
  | _, [], p => (p, .ok ())
  | n, targetHash :: rest, p =>
    match p.baseHashes.get? targetHash with
    | none => sendLoop now accepts (n + 1) rest p
    | some _ =>
      if accepts n then
        sendLoop now accepts (n + 1) rest
          { p with coordinator := p.coordinator.markSent now [targetHash] }
      else (p, .error .requestFailed)

/-- Send what may be sent. -/
def sendPending (now : Nat) (accepts : Nat → Bool) : MnListDiffPipeline × Except SyncError Unit :=
  let count := p.coordinator.availableToSend
  if count = 0 then (p, .ok ())
  else
    let (coordinator, targetHashes) := p.coordinator.takePending count
    sendLoop now accepts 0 targetHashes { p with coordinator }

/-- Take a diff in, known by its target; the result says whether it was in flight. -/
def receive (targetHash : BlockHash) : MnListDiffPipeline × Bool :=
  match p.coordinator.receive targetHash with
  | (_, false) => (p, false)
  | (coordinator, true) => ({ coordinator, baseHashes := p.baseHashes.erase targetHash }, true)

/-- Queue a diff again that came in and could not be used. -/
def requeue (targetHash : BlockHash) : MnListDiffPipeline :=
  { p with coordinator := (p.coordinator.receive targetHash).1.enqueueRetry targetHash }

/-- Queue timed-out requests again. -/
def handleTimeouts (now : Nat) : MnListDiffPipeline :=
  { p with coordinator := p.coordinator.checkAndRetryTimeouts now }

def isComplete : Bool := p.coordinator.isEmpty

/-- The request waits or is in flight, and its base is known. -/
structure Tracks (p : MnListDiffPipeline) (targetHash : BlockHash) : Prop where
  coordinator : p.coordinator.Tracks targetHash
  base : p.baseHashes.contains targetHash = true

section Proofs

variable {p : MnListDiffPipeline} {k : BlockHash}

theorem Tracks.queueRequest (h : p.Tracks k) (request : BlockHash × BlockHash) :
    (p.queueRequest request).Tracks k :=
  ⟨h.coordinator.enqueue _, contains_insert.mpr (.inr h.base)⟩

theorem tracks_queueRequest (p : MnListDiffPipeline) (request : BlockHash × BlockHash) :
    (p.queueRequest request).Tracks request.2 :=
  ⟨DownloadCoordinator.tracks_enqueue _ _, contains_insert.mpr (.inl rfl)⟩

theorem Tracks.queueRequests (h : p.Tracks k) (requests : List (BlockHash × BlockHash)) :
    (p.queueRequests requests).Tracks k := by
  induction requests generalizing p with
  | nil => exact h
  | cons request rest ih => exact ih (h.queueRequest request)

theorem tracks_queueRequests {requests : List (BlockHash × BlockHash)}
    (hk : k ∈ requests.map Prod.snd) (p : MnListDiffPipeline) :
    (p.queueRequests requests).Tracks k := by
  induction requests generalizing p with
  | nil => cases hk
  | cons request rest ih =>
    rcases List.mem_cons.mp hk with rfl | hk
    · exact (tracks_queueRequest p request).queueRequests rest
    · exact ih hk _

theorem Tracks.markSent (h : p.Tracks k) (now : Nat) (key : BlockHash) :
    Tracks { p with coordinator := p.coordinator.markSent now [key] } k :=
  ⟨h.coordinator.markSent now key, h.base⟩

/-- What the loop does not touch stays. -/
theorem Tracks.sendLoop (h : p.Tracks k) (now : Nat) (accepts : Nat → Bool) (n : Nat)
    (targets : List BlockHash) : (sendLoop now accepts n targets p).1.Tracks k := by
  induction targets generalizing n p with
  | nil => exact h
  | cons target rest ih =>
    unfold MnListDiffPipeline.sendLoop
    split
    · exact ih h (n + 1)
    · split_ifs
      · exact ih (h.markSent now target) (n + 1)
      · exact h

variable {accepts : Nat → Bool}

/-- If the channel takes every request, the targets of the batch end up in flight. -/
theorem tracks_sendLoop {n : Nat} {targets : List BlockHash}
    (haccepts : ∀ i < targets.length, accepts (n + i) = true) (hk : k ∈ targets)
    (hbase : p.baseHashes.contains k = true) (now : Nat) :
    (sendLoop now accepts n targets p).1.Tracks k := by
  induction targets generalizing n p with
  | nil => cases hk
  | cons target rest ih =>
    have hrest : ∀ i < rest.length, accepts (n + 1 + i) = true := by
      intro i hi
      have hnext := haccepts (i + 1) (Nat.succ_lt_succ hi)
      rwa [Nat.add_comm i 1, ← Nat.add_assoc] at hnext
    have hfirst : accepts n = true := haccepts 0 (Nat.zero_lt_succ _)
    unfold sendLoop
    split
    · next hnone =>
      rcases List.mem_cons.mp hk with rfl | hk
      · rw [contains, hnone] at hbase
        cases hbase
      · exact ih hrest hk hbase
    · rw [if_pos hfirst]
      rcases List.mem_cons.mp hk with rfl | hk
      · have hsent : Tracks { p with coordinator := p.coordinator.markSent now [k] } k :=
          ⟨DownloadCoordinator.tracks_markSent _ now k, hbase⟩
        exact hsent.sendLoop ..
      · exact ih hrest hk hbase

theorem Tracks.sendPending (h : p.Tracks k) (now : Nat)
    (haccepts : ∀ i < p.coordinator.availableToSend, accepts i = true) :
    (p.sendPending now accepts).1.Tracks k := by
  unfold MnListDiffPipeline.sendPending
  dsimp only
  split_ifs
  · exact h
  have hlength : (p.coordinator.takePending p.coordinator.availableToSend).2.length ≤
      p.coordinator.availableToSend := by
    rw [DownloadCoordinator.takePending, List.length_take]
    exact Nat.min_le_left _ _
  rcases h.coordinator.takePending p.coordinator.availableToSend with hkept | htaken
  · have hstill : Tracks
        ⟨(p.coordinator.takePending p.coordinator.availableToSend).1, p.baseHashes⟩ k :=
      ⟨hkept, h.base⟩
    exact hstill.sendLoop ..
  · have hall : ∀ i < (p.coordinator.takePending p.coordinator.availableToSend).2.length,
        accepts (0 + i) = true := by
      intro i hi
      rw [Nat.zero_add]
      exact haccepts i (hi.trans_le hlength)
    exact @tracks_sendLoop
      ⟨(p.coordinator.takePending p.coordinator.availableToSend).1, p.baseHashes⟩ k accepts 0 _ hall
      htaken h.base now

variable {targetHash : BlockHash}

theorem Tracks.receive (h : p.Tracks k) (hne : k ≠ targetHash) :
    (p.receive targetHash).1.Tracks k := by
  have hcoordinator := h.coordinator.receive hne
  unfold MnListDiffPipeline.receive
  generalize p.coordinator.receive targetHash = received at hcoordinator ⊢
  obtain ⟨coordinator, expected⟩ := received
  cases expected with
  | false => exact h
  | true =>
    refine ⟨hcoordinator, ?_⟩
    rw [contains, get?_erase, if_neg hne.symm]
    exact h.base

theorem receive_of_unexpected (h : (p.receive targetHash).2 = false) :
    (p.receive targetHash).1 = p := by
  unfold receive at h ⊢
  generalize p.coordinator.receive targetHash = received at h ⊢
  obtain ⟨coordinator, expected⟩ := received
  cases expected with
  | false => rfl
  | true => cases h

theorem Tracks.requeue (h : p.Tracks k) (targetHash : BlockHash) :
    (p.requeue targetHash).Tracks k := by
  refine ⟨?_, h.base⟩
  by_cases hk : k = targetHash
  · exact hk ▸ DownloadCoordinator.tracks_enqueueRetry _ _
  · exact (h.coordinator.receive hk).enqueueRetry targetHash

theorem Tracks.handleTimeouts (h : p.Tracks k) (now : Nat) : (p.handleTimeouts now).Tracks k := by
  refine ⟨?_, h.base⟩
  rcases h.coordinator.checkTimeouts now with hkept | htimedOut
  · exact hkept.foldl_enqueueRetry _
  · exact DownloadCoordinator.tracks_foldl_enqueueRetry htimedOut _

end Proofs

end MnListDiffPipeline

/-! ### Runs -/

/-- The pipeline, and the targets that were queued and have not been received or cleared. -/
structure MnListDiffDownloads where
  pipeline : MnListDiffPipeline
  outstanding : Finset BlockHash

namespace MnListDiffDownloads

/-- The operations of the pipeline. -/
inductive Action
  | queueRequests (requests : List (BlockHash × BlockHash))
  | sendPending (now : Nat) (accepts : Nat → Bool)
  | receive (targetHash : BlockHash)
  | requeue (targetHash : BlockHash)
  | handleTimeouts (now : Nat)
  | clear

def new : MnListDiffDownloads where
  pipeline := .new
  outstanding := ∅

section

variable (s : MnListDiffDownloads)

def step : Action → MnListDiffDownloads
  | .queueRequests requests =>
    { pipeline := s.pipeline.queueRequests requests
      outstanding := s.outstanding ∪ (requests.map Prod.snd).toFinset }
  | .sendPending now accepts => { s with pipeline := (s.pipeline.sendPending now accepts).1 }
  | .receive targetHash =>
    let (pipeline, expected) := s.pipeline.receive targetHash
    { pipeline, outstanding := if expected then s.outstanding.erase targetHash else s.outstanding }
  | .requeue targetHash => { s with pipeline := s.pipeline.requeue targetHash }
  | .handleTimeouts now => { s with pipeline := s.pipeline.handleTimeouts now }
  | .clear => { pipeline := s.pipeline.clear, outstanding := ∅ }

/-- No request is lost: an outstanding target waits or is in flight, and has a base. -/
def Tracked : Prop := ∀ target ∈ s.outstanding, s.pipeline.Tracks target

/-- The channel takes the requests that are sent. -/
def Accepted : Action → Prop
  | .sendPending _ accepts => ∀ i < s.pipeline.coordinator.availableToSend, accepts i = true
  | _ => True

end

theorem Tracked.step {s : MnListDiffDownloads} (h : s.Tracked) (action : Action)
    (haccepted : s.Accepted action) : (s.step action).Tracked := by
  intro target htarget
  cases action with
  | queueRequests requests =>
    rcases Finset.mem_union.mp htarget with hold | hnew
    · exact (h target hold).queueRequests requests
    · exact MnListDiffPipeline.tracks_queueRequests (List.mem_toFinset.mp hnew) s.pipeline
  | sendPending now accepts => exact (h target htarget).sendPending now haccepted
  | receive targetHash =>
    show (s.pipeline.receive targetHash).1.Tracks target
    have hmem : target ∈ if (s.pipeline.receive targetHash).2 then s.outstanding.erase targetHash
      else s.outstanding := htarget
    cases hexp : (s.pipeline.receive targetHash).2 with
    | true =>
      rw [hexp, if_pos rfl] at hmem
      obtain ⟨hne, hold⟩ := Finset.mem_erase.mp hmem
      exact (h target hold).receive hne
    | false =>
      rw [hexp] at hmem
      rw [MnListDiffPipeline.receive_of_unexpected hexp]
      exact h target hmem
  | requeue targetHash => exact (h target htarget).requeue targetHash
  | handleTimeouts now => exact (h target htarget).handleTimeouts now
  | clear => exact absurd htarget (Finset.notMem_empty target)

namespace Refused

end Refused

end MnListDiffDownloads

end Dashcore
