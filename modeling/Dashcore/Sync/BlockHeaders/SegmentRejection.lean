import Dashcore.Lib.Runs
import Dashcore.Sync.BlockHeaders.SegmentState
import Dashcore.Sync.Reorg

/-!
# Rejected batches of a segment

A segment pushes the headers of a batch one by one and meets its checkpoint only when the loop
comes to that height. If another block stands there the batch is rejected, but what was pushed
before it stays in the buffer, while the segment asks again from its old tip.
-/

namespace Dashcore

open SortedMap DownloadCoordinator List

namespace SegmentState

variable {blockHash : Header → BlockHash} {s s' : SegmentState} {headers : List Header}

/-- The headers and the position of a segment are as before. -/
structure Untouched (s s' : SegmentState) : Prop where
  bufferedHeaders : s'.bufferedHeaders = s.bufferedHeaders
  currentTipHash : s'.currentTipHash = s.currentTipHash
  currentHeight : s'.currentHeight = s.currentHeight
  complete : s'.complete = s.complete

/-- The checkpoint is missed behind other headers of a batch that was asked for. -/
def RejectsInside (blockHash : Header → BlockHash) (s : SegmentState) (headers : List Header) :
    Prop :=
  s.Requested headers ∧ ∃ i, 0 < i ∧ MismatchAt blockHash s.target s.currentHeight headers i

theorem MismatchAt.unique {target : Option (Nat × BlockHash)} {height i j : Nat}
    (hi : MismatchAt blockHash target height headers i)
    (hj : MismatchAt blockHash target height headers j) : i = j := by
  obtain ⟨-, -, hash, htarget, -⟩ := hi
  obtain ⟨-, -, hash', htarget', -⟩ := hj
  have heq := Option.mem_unique htarget htarget'
  simp only [Prod.mk.injEq] at heq
  omega

variable (blockHash : Header → BlockHash)

/-- A batch that is rejected leaves the segment untouched exactly if it does not miss the
checkpoint behind other headers. -/
theorem untouched_iff (s : SegmentState) (headers : List Header) :
    (∀ e, (s.receiveHeaders blockHash headers).2 = .error e →
      Untouched s (s.receiveHeaders blockHash headers).1) ↔
    ¬ s.RejectsInside blockHash headers := by
  obtain ⟨rfl, hresult⟩ | ⟨hnot, e, hresult⟩ |
      ⟨first, rest, k, rfl, hreq, hk, s', rfl, hcases⟩ :=
    s.receiveHeaders_cases blockHash headers
  · refine ⟨?_, nofun⟩
    rintro - ⟨⟨-, first, hfirst, -⟩, -⟩
    cases hfirst
  · rw [hresult]
    exact ⟨fun _ h => hnot h.1, fun _ _ _ => ⟨rfl, rfl, rfl, rfl⟩⟩
  obtain ⟨last, complete, -, -, hnone, hresult⟩ | ⟨e, hmism, hresult⟩ := hcases
  · rw [hresult]
    refine ⟨?_, nofun⟩
    rintro - ⟨-, i, -, hi⟩
    exact hnone i hi
  · rw [hresult]
    constructor
    · rintro huntouched ⟨-, i, hpos, hi⟩
      obtain rfl := hmism.unique hi
      -- what stands before the mismatch is in the buffer now
      have hlength := congrArg length (huntouched e rfl).bufferedHeaders
      simp only [length_append, length_map, length_take] at hlength
      omega
    · intro hinside _ _
      obtain rfl : k = 0 := by
        by_contra hne
        exact hinside ⟨hreq, k, Nat.pos_of_ne_zero hne, hmism⟩
      exact ⟨by simp, rfl, rfl, rfl⟩

/-- A batch in which every header follows the one before it. -/
def LinkedBatch (headers : List Header) : Prop :=
  (headers.map (HashedBlockHeader.ofHeader blockHash)).IsChain Follows

end SegmentState

/-- A segment with the headers that were taken from it. -/
structure SegmentDownload where
  segment : SegmentState
  taken : List HashedBlockHeader

namespace SegmentDownload

/-- What happens to a segment. -/
inductive Action
  | send (now : Nat)
  | receive (headers : List Header)
  | take
  | timeouts (now : Nat)
  | clear

variable {blockHash : Header → BlockHash} {startHash : BlockHash} {d : SegmentDownload}

/-- One action. A rejected batch leaves what the segment keeps of it. -/
def step (blockHash : Header → BlockHash) (d : SegmentDownload) : Action → SegmentDownload
  | .send now => if d.segment.canSend then { d with segment := d.segment.sendRequest now } else d
  | .receive headers => { d with segment := (d.segment.receiveHeaders blockHash headers).1 }
  | .take => { segment := d.segment.takeBuffered.1, taken := d.taken ++ d.segment.takeBuffered.2 }
  | .timeouts now => { d with segment := d.segment.handleTimeouts now }
  | .clear => { d with segment := d.segment.clearInFlight }

/-- A new segment, from which nothing was taken. -/
def new (segmentId startHeight : Nat) (startHash : BlockHash) (targetHeight : Option Nat)
    (targetHash : Option BlockHash) : SegmentDownload where
  segment := .new segmentId startHeight startHash targetHeight targetHash
  taken := []

/-- All headers received, taken or still buffered. -/
def received (d : SegmentDownload) : List HashedBlockHeader :=
  d.taken ++ d.segment.bufferedHeaders

/-- As many headers were received as the segment has advanced, and the last of them is its
tip. -/
structure Counted (startHash : BlockHash) (d : SegmentDownload) : Prop where
  count : d.segment.startHeight + d.received.length = d.segment.currentHeight
  tip : (d.received.getLast?.map HashedBlockHeader.hash).getD startHash = d.segment.currentTipHash

/-- The received headers follow each other from the start of the segment on. -/
def Linked (startHash : BlockHash) (d : SegmentDownload) : Prop :=
  d.received.IsChain Follows ∧ ∀ first ∈ d.received.head?, first.header.prevBlockhash = startHash

/-- A counted segment asks for nothing but what continues its tip. -/
structure Placed (startHash : BlockHash) (d : SegmentDownload) : Prop
    extends d.Counted startHash where
  asked : ∀ hash, d.segment.coordinator.isInFlight hash = true → hash = d.segment.currentTipHash

/-- Actions on the bookkeeping keep the place of a segment if nothing else is asked for. -/
theorem Placed.of_coordinator (h : d.Placed startHash)
    {coordinator : DownloadCoordinator BlockHash}
    (hasked : ∀ hash, coordinator.isInFlight hash = true → hash = d.segment.currentTipHash) :
    Placed startHash { d with segment := { d.segment with coordinator } } :=
  ⟨⟨h.count, h.tip⟩, hasked⟩

theorem isInFlight_of_receive {c : DownloadCoordinator BlockHash} {key hash : BlockHash}
    (h : (c.receive key).1.isInFlight hash = true) : key ≠ hash ∧ c.isInFlight hash = true := by
  unfold DownloadCoordinator.receive at h
  split_ifs at h with hkey
  · obtain ⟨v, hv⟩ := contains_iff.mp h
    obtain ⟨hne, hv⟩ := of_get?_erase hv
    exact ⟨hne, contains_iff.mpr ⟨v, hv⟩⟩
  · refine ⟨?_, h⟩
    rintro rfl
    exact hkey h

theorem inFlight_foldl_enqueueRetry (keys : List BlockHash) (c : DownloadCoordinator BlockHash) :
    (keys.foldl enqueueRetry c).inFlight = c.inFlight := by
  induction keys generalizing c with
  | nil => rfl
  | cons key keys ih => exact ih (c.enqueueRetry key)

/-- A response that misses the checkpoint with its first header at most, or not at all, keeps
the place of a segment. If its headers are linked, so are all received ones. -/
theorem Placed.receive (h : d.Placed startHash) {headers : List Header}
    (hinside : ¬ d.segment.RejectsInside blockHash headers) :
    (d.step blockHash (.receive headers)).Placed startHash ∧
      (SegmentState.LinkedBatch blockHash headers → d.Linked startHash →
        (d.step blockHash (.receive headers)).Linked startHash) := by
  obtain ⟨rfl, hresult⟩ | ⟨-, e, hresult⟩ |
      ⟨first, rest, k, rfl, hreq, hk, s', rfl, hcases⟩ :=
    d.segment.receiveHeaders_cases blockHash headers
  · exact ⟨⟨⟨h.count, h.tip⟩, fun hash hflight => h.asked hash (isInFlight_of_receive hflight).2⟩,
      fun _ hlinked => hlinked⟩
  · rw [step, hresult]
    exact ⟨h, fun _ hlinked => hlinked⟩
  obtain ⟨-, first', hfirst, hflight⟩ := id hreq
  obtain rfl := Option.some.inj hfirst
  have hprev := h.asked _ hflight
  obtain ⟨last, complete, hpos, hlast, -, hresult⟩ | ⟨e, hmism, hresult⟩ := hcases
  · have hrecv : (d.step blockHash (.receive (first :: rest))).received =
        d.received ++ ((first :: rest).take k).map (.ofHeader blockHash) := by
      rw [step, hresult]
      exact (append_assoc _ _ _).symm
    have hlastTaken : (((first :: rest).take k).map
        (HashedBlockHeader.ofHeader blockHash)).getLast? = some (.ofHeader blockHash last) := by
      rw [getLast?_map, getLast?_take, if_neg (by omega), hlast]
      rfl
    constructor
    · refine ⟨⟨?_, ?_⟩, ?_⟩
      · rw [hrecv, length_append, length_map, length_take]
        have hcount := h.count
        rw [step, hresult]
        dsimp only
        omega
      · rw [hrecv, getLast?_append, hlastTaken, step, hresult]
        rfl
      · -- the request that was answered was the only one
        intro hash hstill
        rw [step, hresult] at hstill
        obtain ⟨hne, hold⟩ := isInFlight_of_receive hstill
        exact absurd (hprev.trans (h.asked hash hold).symm) hne
    · intro hbatch hlinked
      rw [Linked, hrecv]
      have htaken : (((first :: rest).take k).map
          (HashedBlockHeader.ofHeader blockHash)).IsChain Follows := by
        rw [map_take]
        exact hbatch.take k
      have hhead : (((first :: rest).take k).map
          (HashedBlockHeader.ofHeader blockHash)).head? = some (.ofHeader blockHash first) := by
        rw [head?_map, head?_take, if_neg (by omega)]
        rfl
      refine ⟨isChain_append.mpr ⟨hlinked.1, htaken, ?_⟩, ?_⟩
      · intro x hx y hy
        obtain rfl := Option.mem_unique hhead hy
        have htip := h.tip
        rw [Option.mem_def.mp hx] at htip
        exact hprev.trans htip.symm
      · intro x hx
        rw [head?_append, Option.mem_def] at hx
        cases hhead' : d.received.head? with
        | some y =>
          rw [hhead', Option.some_or] at hx
          exact hlinked.2 x (hhead'.trans hx)
        | none =>
          rw [hhead', hhead, Option.none_or] at hx
          obtain rfl := Option.some.inj hx
          have htip := h.tip
          rw [head?_eq_none_iff.mp hhead'] at htip
          exact hprev.trans htip.symm
  · obtain rfl : k = 0 := by
      by_contra hne
      exact hinside ⟨hreq, k, Nat.pos_of_ne_zero hne, hmism⟩
    rw [step, hresult, take_zero, map_nil, append_nil]
    exact ⟨⟨⟨h.count, h.tip⟩, fun hash hflight => h.asked hash (isInFlight_of_receive hflight).2⟩,
      fun _ hlinked => hlinked⟩

/-- A step is regular if it does not reject a batch inside. -/
def Regular (blockHash : Header → BlockHash) (d : SegmentDownload) : Action → Prop
  | .receive headers => ¬ d.segment.RejectsInside blockHash headers
  | _ => True

/-- The batch of a step is linked. -/
def LinkedStep (blockHash : Header → BlockHash) : Action → Prop
  | .receive headers => SegmentState.LinkedBatch blockHash headers
  | _ => True

theorem Placed.step (h : d.Placed startHash) {a : Action} (hregular : d.Regular blockHash a) :
    (d.step blockHash a).Placed startHash ∧
      (LinkedStep blockHash a → d.Linked startHash → (d.step blockHash a).Linked startHash) := by
  cases a with
  | receive headers => exact h.receive hregular
  | send now =>
    unfold SegmentDownload.step
    split_ifs
    · refine ⟨h.of_coordinator fun hash hflight => ?_, fun _ hlinked => hlinked⟩
      obtain ⟨v, hv⟩ := contains_iff.mp hflight
      simp only [markSent, foldl_cons, foldl_nil, get?_insert] at hv
      split_ifs at hv with htip
      · exact htip.symm
      · exact h.asked hash (contains_iff.mpr ⟨v, hv⟩)
    · exact ⟨h, fun _ hlinked => hlinked⟩
  | take =>
    have hrecv : (d.step blockHash .take).received = d.received := append_nil _
    refine ⟨⟨⟨?_, ?_⟩, h.asked⟩, ?_⟩
    · rw [hrecv]
      exact h.count
    · rw [hrecv]
      exact h.tip
    · intro _ hlinked
      rwa [Linked, hrecv]
  | timeouts now =>
    refine ⟨h.of_coordinator fun hash hflight => ?_, fun _ hlinked => hlinked⟩
    rw [isInFlight, inFlight_foldl_enqueueRetry] at hflight
    have hkept := (contains_filter_key d.segment.coordinator.inFlight
      (fun key => decide (key ∉ (d.segment.coordinator.checkTimeouts now).2)) hash).mp hflight
    exact h.asked hash hkept.1
  | clear => exact ⟨h.of_coordinator fun _ hflight => (by cases hflight), fun _ hlinked => hlinked⟩

/-- A rejected batch leaves the segment untouched exactly if it does not miss the checkpoint
behind other headers. In a run without such batches the received headers are as many as the
segment has advanced and end in its tip, and they are one linked run if the batches are. -/
theorem rejected_untouched_iff (blockHash : Header → BlockHash) :
    (∀ (s : SegmentState) (headers : List Header),
      (∀ e, (s.receiveHeaders blockHash headers).2 = .error e →
        s.Untouched (s.receiveHeaders blockHash headers).1) ↔
      ¬ s.RejectsInside blockHash headers) ∧
    ∀ (segmentId startHeight : Nat) (startHash : BlockHash) (targetHeight : Option Nat)
      (targetHash : Option BlockHash) (actions : List Action),
      Runs.Along (step blockHash) (Regular blockHash)
        (new segmentId startHeight startHash targetHeight targetHash) actions →
      (Runs.run (step blockHash) (new segmentId startHeight startHash targetHeight targetHash)
        actions).Counted startHash ∧
      ((∀ a ∈ actions, LinkedStep blockHash a) →
        (Runs.run (step blockHash) (new segmentId startHeight startHash targetHeight targetHash)
          actions).Linked startHash) := by
  refine ⟨SegmentState.untouched_iff blockHash, ?_⟩
  intro segmentId startHeight startHash targetHeight targetHash actions halong
  have hplaced : (new segmentId startHeight startHash targetHeight targetHash).Placed startHash :=
    ⟨⟨rfl, rfl⟩, nofun⟩
  have hrun := @Runs.invariant_run _ _ (step blockHash) (Placed startHash) _
    (fun _ _ hd hregular => (Placed.step hd hregular).1) _ actions hplaced halong
  refine ⟨hrun.toCounted, fun hlinked => ?_⟩
  -- linkage is carried along with the place of the segment
  have hboth := @Runs.invariant_run _ _ (step blockHash)
    (fun d => d.Placed startHash ∧ d.Linked startHash) _
    (fun _ _ hd hstep => ⟨(hd.1.step hstep.1).1, (hd.1.step hstep.1).2 hstep.2 hd.2⟩) _ actions
    ⟨hplaced, isChain_nil, nofun⟩ (halong.and_of_forall_mem hlinked)
  exact hboth.2

namespace LateCheckpoint

open SparseBlocks

/-- A segment from height 0 to a checkpoint at height 2, which has asked for headers. -/
def asked : SegmentState := (SegmentState.new 0 0 0 (some 2) (some 9)).sendRequest 0

/-- The second header of the batch is not the checkpoint. The first one stays in the buffer,
although the segment is still at height 0. -/
theorem mismatch_keeps_first :
    (asked.receiveHeaders nonceHash [(headerAfter 0 1).header, (headerAfter 1 2).header]).2 =
      .error (.checkpointMismatch 2 9 2) ∧
    (asked.receiveHeaders nonceHash [(headerAfter 0 1).header, (headerAfter 1 2).header]).1.bufferedHeaders =
      [headerAfter 0 1] ∧
    (asked.receiveHeaders nonceHash [(headerAfter 0 1).header, (headerAfter 1 2).header]).1.currentHeight = 0 ∧
    asked.bufferedHeaders = [] := by
  decide +kernel

end LateCheckpoint

end SegmentDownload

end Dashcore
