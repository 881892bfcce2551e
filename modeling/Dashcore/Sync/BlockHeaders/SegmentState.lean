import Dashcore.Chain.Header
import Dashcore.Sync.Basic
import Dashcore.Sync.DownloadCoordinator

/-!
# One download segment

A segment downloads the headers between two checkpoints, or from the last checkpoint to
the tip. It accepts the headers that continue its current tip, buffers them, and is
complete once it reaches its target checkpoint, or for the tip segment once a peer
has nothing more to send.
-/

namespace Dashcore

open DownloadCoordinator

/-- State of a single download segment between two checkpoints. -/
structure SegmentState where
  segmentId : Nat
  startHeight : Nat
  /-- Height of the next checkpoint, `none` for the tip segment. -/
  targetHeight : Option Nat
  targetHash : Option BlockHash
  currentTipHash : BlockHash
  currentHeight : Nat
  coordinator : DownloadCoordinator BlockHash
  bufferedHeaders : List HashedBlockHeader
  complete : Bool
  deriving DecidableEq

namespace SegmentState

/-- A segment that has downloaded nothing. One request is in flight at a time, with a
timeout of 30 seconds. -/
def new (segmentId startHeight : Nat) (startHash : BlockHash) (targetHeight : Option Nat)
    (targetHash : Option BlockHash) : SegmentState where
  segmentId := segmentId
  startHeight := startHeight
  targetHeight := targetHeight
  targetHash := targetHash
  currentTipHash := startHash
  currentHeight := startHeight
  coordinator := .new { maxConcurrent := 1, timeout := 30000 }
  bufferedHeaders := []
  complete := false

variable (s : SegmentState)

/-- Whether the segment may ask for headers after its current tip. -/
def canSend : Bool :=
  !s.complete && !s.coordinator.isInFlight s.currentTipHash

/-- Record the request for headers after the current tip. -/
def sendRequest (now : Nat) : SegmentState :=
  { s with coordinator := s.coordinator.markSent now [s.currentTipHash] }

/-- Whether headers with this predecessor continue the segment. -/
def matchesPrev (prevBlockhash : BlockHash) : Bool :=
  s.currentTipHash = prevBlockhash

/-- What the loop over a batch has done so far. -/
structure Processed where
  buffered : List HashedBlockHeader
  count : Nat
  complete : Bool
  error : Option SyncError

/-- The loop of `receiveHeaders`: buffer headers until the target checkpoint is met, and
stop with an error if another block stands at its height. -/
def processHeaders (blockHash : Header → BlockHash) (target : Option (Nat × BlockHash))
    (currentHeight : Nat) : List Header → Processed → Processed
  | [], acc => acc
  | header :: rest, acc =>
    let hashed := HashedBlockHeader.ofHeader blockHash header
    let pushed := { acc with buffered := acc.buffered ++ [hashed], count := acc.count + 1 }
    let height := currentHeight + acc.count + 1
    match target with
    | some (targetHeight, targetHash) =>
      if height = targetHeight then
        if hashed.hash = targetHash then { pushed with complete := true }
        else
          { acc with error := some (.checkpointMismatch targetHeight targetHash hashed.hash) }
      else processHeaders blockHash target currentHeight rest pushed
    | none => processHeaders blockHash target currentHeight rest pushed

/-- The target checkpoint, if the segment has one. -/
def target : Option (Nat × BlockHash) :=
  s.targetHeight.bind fun height => s.targetHash.map fun hash => (height, hash)

/-- Process a response. The result is the number of headers taken; a failed batch still
leaves its first headers in the buffer. -/
def receiveHeaders (blockHash : Header → BlockHash) (s : SegmentState) (headers : List Header) :
    SegmentState × Except SyncError Nat :=
  match headers with
  | [] =>
    ({ s with complete := true, coordinator := (s.coordinator.receive s.currentTipHash).1 },
      .ok 0)
  | first :: _ =>
    if s.complete then
      (s, .error (.headersOnCompletedSegment s.segmentId headers.length s.currentHeight))
    else
      match s.coordinator.receive first.prevBlockhash with
      | (_, false) => (s, .error (.unrequestedHeaders s.segmentId first.prevBlockhash))
      | (coordinator, true) =>
        let result := processHeaders blockHash s.target s.currentHeight headers
          { buffered := s.bufferedHeaders, count := 0, complete := s.complete, error := none }
        let s := { s with
          coordinator, bufferedHeaders := result.buffered, complete := result.complete }
        match result.error with
        | some e => (s, .error e)
        | none =>
          let s := match headers[result.count - 1]? with
            | some last =>
              if 0 < result.count then
                { s with
                  currentTipHash := blockHash last
                  currentHeight := s.currentHeight + result.count }
              else s
            | none => s
          (s, .ok result.count)

/-- Hand over the buffered headers. -/
def takeBuffered : SegmentState × List HashedBlockHeader :=
  ({ s with bufferedHeaders := [] }, s.bufferedHeaders)

/-- Queue timed-out requests again. -/
def handleTimeouts (now : Nat) : SegmentState :=
  let (coordinator, timedOut) := s.coordinator.checkTimeouts now
  { s with coordinator := timedOut.foldl enqueueRetry coordinator }

/-- Drop the request bookkeeping, keeping headers and position. -/
def clearInFlight : SegmentState :=
  { s with coordinator := s.coordinator.clear }

/-! ### What each operation keeps -/

/-- The fields that place a segment in the pipeline and never change. -/
structure SamePlace (s s' : SegmentState) : Prop where
  startHeight : s'.startHeight = s.startHeight
  targetHeight : s'.targetHeight = s.targetHeight
  targetHash : s'.targetHash = s.targetHash
  segmentId : s'.segmentId = s.segmentId

theorem SamePlace.refl : SamePlace s s := ⟨rfl, rfl, rfl, rfl⟩

/-- Above a height, the batch has at its index `i` another block than the checkpoint. -/
def MismatchAt (blockHash : Header → BlockHash) (target : Option (Nat × BlockHash)) (height : Nat)
    (headers : List Header) (i : Nat) : Prop :=
  ∃ header ∈ headers[i]?, ∃ targetHash,
    target = some (height + i + 1, targetHash) ∧ blockHash header ≠ targetHash

theorem mismatchAt_cons {blockHash : Header → BlockHash} {target : Option (Nat × BlockHash)}
    {height : Nat} {header : Header} {rest : List Header} {i : Nat} :
    MismatchAt blockHash target height (header :: rest) (i + 1) ↔
      MismatchAt blockHash target (height + 1) rest i := by
  rw [MismatchAt, MismatchAt, List.getElem?_cons_succ, Nat.add_right_comm height 1 i]
  rfl

/-- The loop takes the first headers of a batch: some of them, if there is no mismatch, and those
before it otherwise. -/
theorem processHeaders_cases (blockHash : Header → BlockHash) (target : Option (Nat × BlockHash))
    (currentHeight : Nat) (headers : List Header) (acc : Processed) :
    ∃ k ≤ headers.length, ∃ r, processHeaders blockHash target currentHeight headers acc = r ∧
      r.buffered = acc.buffered ++ (headers.take k).map (.ofHeader blockHash) ∧
      r.count = acc.count + k ∧
      (r.error = acc.error ∧ (headers ≠ [] → 0 < k) ∧
          (∀ i, ¬ MismatchAt blockHash target (currentHeight + acc.count) headers i) ∨
        r.complete = acc.complete ∧ r.error.isSome ∧
          MismatchAt blockHash target (currentHeight + acc.count) headers k) := by
  induction headers generalizing acc with
  | nil => exact ⟨0, le_rfl, acc, rfl, by simp, rfl, .inl ⟨rfl, by simp, by simp [MismatchAt]⟩⟩
  | cons header rest ih =>
    -- the branches that go on push this header, and look at the next height
    obtain ⟨k, hk, r, hr, hbuf, hcount, hcases⟩ := ih { acc with
      buffered := acc.buffered ++ [HashedBlockHeader.ofHeader blockHash header]
      count := acc.count + 1 }
    have hgo : (∀ t ∈ target, t.1 ≠ currentHeight + acc.count + 1) →
        processHeaders blockHash target currentHeight (header :: rest) acc = r := by
      intro hne
      rw [← hr]
      cases target with
      | none => rfl
      | some t =>
        exact if_neg (fun h => hne t rfl h.symm)
    by_cases hne : ∀ t ∈ target, t.1 ≠ currentHeight + acc.count + 1
    · dsimp only at hcount
      refine ⟨k + 1, Nat.succ_le_succ hk, r, hgo hne, by simp [hbuf], by omega, ?_⟩
      refine hcases.imp (fun h => ⟨h.1, fun _ => Nat.succ_pos k, ?_⟩)
        fun h => ⟨h.1, h.2.1, mismatchAt_cons.mpr h.2.2⟩
      rintro (_ | i) hmism
      · obtain ⟨-, -, targetHash, htarget, -⟩ := hmism
        exact hne _ htarget rfl
      · exact h.2.2 i (mismatchAt_cons.mp hmism)
    · push Not at hne
      obtain ⟨⟨height, targetHash⟩, htarget, rfl⟩ := hne
      obtain rfl := Option.mem_def.mp htarget
      rw [processHeaders, if_pos rfl]
      by_cases hhash : blockHash header = targetHash
      · refine ⟨1, by simp, _, if_pos hhash, rfl, rfl, .inl ⟨rfl, fun _ => Nat.one_pos, ?_⟩⟩
        rintro i ⟨other, hother, hash, heq, hdiffers⟩
        simp only [Option.some.injEq, Prod.mk.injEq] at heq
        obtain ⟨hi, rfl⟩ := heq
        obtain rfl : i = 0 := by omega
        obtain rfl := Option.some.inj hother
        exact hdiffers hhash
      · exact ⟨0, Nat.zero_le _, _, if_neg hhash, by simp, rfl,
          .inr ⟨rfl, rfl, header, rfl, targetHash, rfl, hhash⟩⟩

/-- The segment is open and has asked for the batch. -/
def Requested (headers : List Header) : Prop :=
  s.complete = false ∧ ∃ first ∈ headers.head?, s.coordinator.isInFlight first.prevBlockhash = true

/-- What a response does: it ends the segment, is refused, or its first headers are buffered;
then the segment advances, unless the next header misses the checkpoint. -/
theorem receiveHeaders_cases (blockHash : Header → BlockHash) (s : SegmentState)
    (headers : List Header) : (headers = [] ∧ s.receiveHeaders blockHash headers =
      ({ s with complete := true, coordinator := (s.coordinator.receive s.currentTipHash).1 },
        .ok 0)) ∨
    (¬ s.Requested headers ∧ ∃ e, s.receiveHeaders blockHash headers = (s, .error e)) ∨
    ∃ first rest k, headers = first :: rest ∧ s.Requested headers ∧ k ≤ headers.length ∧
      ∃ s', s' = { s with
          coordinator := (s.coordinator.receive first.prevBlockhash).1
          bufferedHeaders := s.bufferedHeaders ++ (headers.take k).map (.ofHeader blockHash) } ∧
        ((∃ last complete, 0 < k ∧ headers[k - 1]? = some last ∧
            (∀ i, ¬ MismatchAt blockHash s.target s.currentHeight headers i) ∧
            s.receiveHeaders blockHash headers = ({ s' with
              complete, currentTipHash := blockHash last
              currentHeight := s.currentHeight + k }, .ok k)) ∨
          ∃ e, MismatchAt blockHash s.target s.currentHeight headers k ∧
            s.receiveHeaders blockHash headers = (s', .error e)) := by
  cases headers with
  | nil => exact .inl ⟨rfl, rfl⟩
  | cons first rest =>
    refine .inr ?_
    by_cases hcomp : s.complete = true
    · refine .inl ⟨fun h => by simp [hcomp, Requested] at h,
        .headersOnCompletedSegment s.segmentId (first :: rest).length s.currentHeight, ?_⟩
      rw [receiveHeaders, if_pos hcomp]
    by_cases hflight : s.coordinator.inFlight.contains first.prevBlockhash = true
    · have hrecv : s.coordinator.receive first.prevBlockhash =
          ((s.coordinator.receive first.prevBlockhash).1, true) := by
        rw [receive, if_pos hflight]
      obtain ⟨k, hk, ⟨buffered, count, complete, error⟩, hloop, rfl, hcount, hcases⟩ :=
        processHeaders_cases blockHash s.target s.currentHeight (first :: rest)
          { buffered := s.bufferedHeaders, count := 0, complete := s.complete, error := none }
      obtain rfl : count = k := hcount.trans (Nat.zero_add k)
      refine .inr ⟨first, rest, count, rfl, ⟨by simpa using hcomp, first, rfl, hflight⟩, hk, _,
        rfl, ?_⟩
      rw [receiveHeaders, if_neg hcomp, hrecv]
      simp only [hloop]
      obtain ⟨rfl, hpos, hnone⟩ | ⟨rfl, herror, hmism⟩ := hcases
      · have hpos := hpos (List.cons_ne_nil _ _)
        have hlast := List.getElem?_eq_getElem (show count - 1 < (first :: rest).length by omega)
        exact .inl ⟨_, complete, hpos, hlast, hnone, by simp only [hlast, hpos, if_true]⟩
      · obtain ⟨e, rfl⟩ := Option.isSome_iff_exists.mp herror
        exact .inr ⟨e, hmism, rfl⟩
    · refine .inl ⟨?_, .unrequestedHeaders s.segmentId first.prevBlockhash, ?_⟩
      · rintro ⟨-, first', hfirst, hreq⟩
        obtain rfl := Option.some.inj hfirst
        exact hflight hreq
      · rw [receiveHeaders, if_neg hcomp, receive, if_neg hflight]

/-- A response buffers its first headers, and leaves the segment where it is. -/
theorem receiveHeaders_spec (blockHash : Header → BlockHash) (s : SegmentState)
    (headers : List Header) :
    SamePlace s (s.receiveHeaders blockHash headers).1 ∧
      ∃ k, (s.receiveHeaders blockHash headers).1.bufferedHeaders =
        s.bufferedHeaders ++ (headers.take k).map (.ofHeader blockHash) := by
  obtain ⟨-, hresult⟩ | ⟨-, e, hresult⟩ | ⟨first, rest, k, -, -, -, s', rfl, hcases⟩ :=
    s.receiveHeaders_cases blockHash headers
  · rw [hresult]
    exact ⟨⟨rfl, rfl, rfl, rfl⟩, 0, by simp⟩
  · rw [hresult]
    exact ⟨.refl s, 0, by simp⟩
  obtain ⟨last, complete, -, -, -, hresult⟩ | ⟨e, -, hresult⟩ := hcases
  · rw [hresult]
    exact ⟨⟨rfl, rfl, rfl, rfl⟩, k, rfl⟩
  · rw [hresult]
    exact ⟨⟨rfl, rfl, rfl, rfl⟩, k, rfl⟩

end SegmentState

end Dashcore
