import Dashcore.Sync.BlockHeaders.Manager
import Dashcore.Sync.BlockHeaders.PipelineHashed

/-!
# A pipeline that only follows the tip

After the initial sync every segment below the tip segment is complete and handed out. What
comes then concerns the tip segment alone: headers after its current tip are buffered there and
handed out at once, and everything else leaves its position alone.
-/

namespace Dashcore

open List

/-- Without a target all headers are buffered. -/
theorem SegmentState.processHeaders_none (blockHash : Header → BlockHash) (currentHeight : Nat)
    (headers : List Header) (acc : Processed) :
    processHeaders blockHash none currentHeight headers acc =
      { acc with
        buffered := acc.buffered ++ headers.map (.ofHeader blockHash)
        count := acc.count + headers.length } := by
  induction headers generalizing acc with
  | nil => simp [processHeaders]
  | cons header rest ih =>
    rw [processHeaders, ih]
    simp only [List.map_cons, List.append_assoc, List.singleton_append, List.length_cons,
      Processed.mk.injEq, and_self, and_true, true_and]
    omega

/-- The tip segment after it accepted a batch. -/
def SegmentState.loaded (blockHash : Header → BlockHash) (tip : SegmentState)
    (coordinator : DownloadCoordinator BlockHash) (first : Header) (rest : List Header) :
    SegmentState :=
  { tip with
    complete := false
    coordinator
    bufferedHeaders := (first :: rest).map (.ofHeader blockHash)
    currentTipHash := blockHash ((first :: rest).getLast (cons_ne_nil first rest))
    currentHeight := tip.currentHeight + (first :: rest).length }

namespace SegmentState

variable {blockHash : Header → BlockHash} {tip : SegmentState} {first : Header}
  {rest : List Header} {coordinator : DownloadCoordinator BlockHash}

/-- An open tip segment takes a batch that was asked for. -/
theorem receiveHeaders_of_requested (hopen : tip.complete = false)
    (htarget : tip.targetHeight = none) (hdrained : tip.bufferedHeaders = [])
    (hrequested : tip.coordinator.receive first.prevBlockhash = (coordinator, true)) :
    tip.receiveHeaders blockHash (first :: rest) =
      (tip.loaded blockHash coordinator first rest, .ok (first :: rest).length) := by
  have htarget' : tip.target = none := by simp [target, htarget]
  have hlast : (first :: rest)[(first :: rest).length - 1]? =
      some ((first :: rest).getLast (cons_ne_nil first rest)) := by
    rw [← getLast?_eq_getElem?, List.getLast?_eq_some_getLast]
  have hpos : 0 < (first :: rest).length := length_pos_of_ne_nil (cons_ne_nil first rest)
  simp only [receiveHeaders, hopen, Bool.false_eq_true, if_false, hrequested, htarget',
    processHeaders_none, Nat.zero_add, hlast, hpos, if_true, hdrained, nil_append, loaded]

/-- An open tip segment refuses a batch that nobody asked for. -/
theorem receiveHeaders_of_not_requested (hopen : tip.complete = false)
    (hrequested : tip.coordinator.receive first.prevBlockhash = (coordinator, false)) :
    ∃ e, tip.receiveHeaders blockHash (first :: rest) = (tip, .error e) := by
  simp only [receiveHeaders, hopen, Bool.false_eq_true, if_false, hrequested]
  exact ⟨_, rfl⟩

end SegmentState

namespace HeadersPipeline

/-- The pipeline with these segments, the last of which goes to the tip. -/
def ending (cm : CheckpointManager) (earlier : List SegmentState) (tip : SegmentState)
    (next : Nat) : HeadersPipeline :=
  { segments := earlier ++ [tip], nextToStore := next, checkpointManager := cm,
    initialized := true }

/-- Segments with a target that are complete and handed out. -/
def Stored (segments : List SegmentState) : Prop :=
  ∀ s ∈ segments, s.complete = true ∧ s.bufferedHeaders = [] ∧ s.targetHeight.isSome = true

/-- The segment that goes to the tip. -/
def tipSegment (p : HeadersPipeline) : Option SegmentState :=
  p.segments.find? fun s => s.targetHeight.isNone

variable {rest : List Header} {first : Header}

section Ending

variable {blockHash : Header → BlockHash} {cm : CheckpointManager}
  {earlier : List SegmentState} {tip tip' : SegmentState} {next : Nat}

theorem ending_getElem? :
    (ending cm earlier tip next).segments[earlier.length]? = some tip := by
  simp [ending]

theorem ending_setSegment :
    (ending cm earlier tip next).setSegment earlier.length tip' = ending cm earlier tip' next := by
  simp [ending, setSegment]

theorem ending_setSegment_next (next' : Nat) :
    { (ending cm earlier tip next).setSegment earlier.length tip' with nextToStore := next' } =
      ending cm earlier tip' next' := by
  simp [ending, setSegment]

/-- A search that passes over the stored segments finds the tip segment or nothing. -/
theorem ending_findIdx? {f : SegmentState → Bool} (hf : ∀ s ∈ earlier, f s = false) :
    (ending cm earlier tip next).segments.findIdx? f =
      if f tip then some earlier.length else none := by
  have hnone : earlier.findIdx? f = none := List.findIdx?_eq_none_iff.mpr hf
  simp only [ending, List.findIdx?_append, hnone, Option.none_or]
  cases hf : f tip <;> simp [List.findIdx?_cons, hf]

variable (hearlier : Stored earlier) (htarget : tip.targetHeight = none)

include hearlier htarget in
theorem tipSegment_ending : (ending cm earlier tip next).tipSegment = some tip := by
  have hnone : earlier.find? (fun s => s.targetHeight.isNone) = none := by
    rw [List.find?_eq_none]
    intro s hs
    simp [Option.isSome_iff_ne_none.mp (hearlier s hs).2.2]
  simp [tipSegment, ending, hnone, htarget]

include hearlier htarget in
theorem isTipComplete_ending : (ending cm earlier tip next).isTipComplete = tip.complete := by
  have hnone : earlier.any (fun s => s.targetHeight.isNone && s.complete) = false := by
    rw [List.any_eq_false]
    intro s hs
    simp [Option.isSome_iff_ne_none.mp (hearlier s hs).2.2]
  simp [isTipComplete, ending, hnone, htarget]

/-! ### Batches -/

include hearlier htarget in
/-- Only the tip segment waits for more headers. -/
theorem route_ending (prevHash : BlockHash) :
    (ending cm earlier tip next).route prevHash =
      if tip.currentTipHash = prevHash then some earlier.length else none := by
  have hskip : ∀ s ∈ earlier,
      (s.matchesPrev prevHash && !(s.complete && s.targetHeight.isSome)) = false := by
    intro s hs
    obtain ⟨hcomp, -, hsome⟩ := hearlier s hs
    simp [hcomp, hsome]
  rw [route, ending_findIdx? hskip]
  simp [SegmentState.matchesPrev, htarget]

include hearlier in
/-- An empty batch at most completes the tip segment. -/
theorem receiveHeaders_nil_ending (now : Nat) :
    ∃ complete coordinator id,
      (ending cm earlier tip next).receiveHeaders blockHash now [] =
        (ending cm earlier { tip with complete, coordinator } next, .ok id) ∧
      (complete = false → tip.complete = false) := by
  have hskip : ∀ s ∈ earlier,
      (!s.complete && s.targetHeight.isNone && decide (0 < s.coordinator.activeCount)) = false := by
    intro s hs
    simp [(hearlier s hs).1]
  rw [receiveHeaders, emptyRoute, ending_findIdx? hskip]
  split_ifs
  · simp only [deliver, ending_getElem?, SegmentState.receiveHeaders, ending_setSegment, Except.map]
    exact ⟨true, _, _, rfl, fun h => absurd h (by decide)⟩
  · exact ⟨tip.complete, tip.coordinator, none, rfl, id⟩

include hearlier htarget in
/-- A batch that does not continue the tip segment goes nowhere. -/
theorem receiveHeaders_ending_of_ne (now : Nat)
    (hne : tip.currentTipHash ≠ first.prevBlockhash) :
    (ending cm earlier tip next).receiveHeaders blockHash now (first :: rest) =
      (ending cm earlier tip next, .ok none) := by
  simp only [receiveHeaders, route_ending hearlier htarget, if_neg hne]

theorem deliver_ending (headers : List Header) :
    (ending cm earlier tip next).deliver blockHash earlier.length headers =
      (ending cm earlier (tip.receiveHeaders blockHash headers).1 next,
        (tip.receiveHeaders blockHash headers).2.map fun _ => some tip.segmentId) := by
  rw [deliver, ending_getElem?]
  simp only [ending_setSegment]

include htarget in
theorem reopenTip_ending_of_complete (hcomplete : tip.complete = true) (now : Nat)
    (prevHash : BlockHash) :
    (ending cm earlier tip next).reopenTip now earlier.length prevHash =
      ending cm earlier
        { tip with
          complete := false
          coordinator := tip.coordinator.markSent now [prevHash] } earlier.length := by
  rw [reopenTip, ending_getElem?]
  simp only [hcomplete, htarget, Option.isNone_none, Bool.and_self, if_true]
  rw [ending_setSegment_next, ← htarget]

theorem reopenTip_ending_of_open (hopen : tip.complete = false) (now : Nat)
    (prevHash : BlockHash) :
    (ending cm earlier tip next).reopenTip now earlier.length prevHash =
      ending cm earlier tip next := by
  rw [reopenTip, ending_getElem?]
  simp [hopen]

include hearlier htarget in
/-- A batch that continues the tip segment is accepted, unless the segment is open and did not
ask for it. -/
theorem receiveHeaders_ending (hdrained : tip.bufferedHeaders = [])
    (hdue : tip.complete = false → next = earlier.length) (now : Nat) (hprev : tip.currentTipHash = first.prevBlockhash) :
    (tip.complete = false ∧ ∃ e,
      (ending cm earlier tip next).receiveHeaders blockHash now (first :: rest) =
        (ending cm earlier tip next, .error e)) ∨
    ∃ coordinator id,
      (ending cm earlier tip next).receiveHeaders blockHash now (first :: rest) =
        (ending cm earlier (tip.loaded blockHash coordinator first rest) earlier.length, .ok id) := by
  simp only [receiveHeaders, route_ending hearlier htarget, if_pos hprev]
  cases hcomp : tip.complete with
  | true =>
    -- reopening marks the batch as asked for
    obtain ⟨coordinator, hreq⟩ :=
      tip.coordinator.receive_markSent now first.prevBlockhash
    have hloaded : SegmentState.receiveHeaders blockHash
        { tip with
          complete := false
          coordinator := tip.coordinator.markSent now [first.prevBlockhash] } (first :: rest) =
        (tip.loaded blockHash coordinator first rest, .ok (first :: rest).length) :=
      SegmentState.receiveHeaders_of_requested (by rfl) (by exact htarget) (by exact hdrained)
        (by exact hreq)
    right
    rw [reopenTip_ending_of_complete htarget hcomp, deliver_ending, hloaded]
    exact ⟨coordinator, _, rfl⟩
  | false =>
    obtain rfl := hdue hcomp
    rw [reopenTip_ending_of_open hcomp, deliver_ending]
    cases hrecv : tip.coordinator.receive first.prevBlockhash with
    | mk coordinator requested =>
      cases requested with
      | false =>
        obtain ⟨e, heq⟩ : ∃ e, tip.receiveHeaders blockHash (first :: rest) = (tip, .error e) :=
          SegmentState.receiveHeaders_of_not_requested hcomp hrecv
        rw [heq]
        exact .inl ⟨rfl, e, rfl⟩
      | true =>
        rw [SegmentState.receiveHeaders_of_requested hcomp htarget hdrained hrecv]
        exact .inr ⟨coordinator, _, rfl⟩

/-! ### Requests -/

include hearlier in
/-- Stored segments ask for nothing. -/
theorem sendPendingLoop_ending (now : Nat) (accepts : Nat → Bool) (tipLocator : List BlockHash)
    (segments : List SegmentState) (sent : List (List BlockHash)) :
    sendPendingLoop now accepts tipLocator (earlier ++ segments) sent =
      (earlier ++ (sendPendingLoop now accepts tipLocator segments sent).1,
        (sendPendingLoop now accepts tipLocator segments sent).2) := by
  induction earlier with
  | nil => rfl
  | cons s rest ih =>
    have hrest : Stored rest := fun t ht => hearlier t (List.mem_cons_of_mem s ht)
    have hs : s.canSend = false := by
      simp [SegmentState.canSend, (hearlier s List.mem_cons_self).1]
    rw [List.cons_append, sendPendingLoop, if_neg (by simp [hs]), ih hrest]
    rfl

include hearlier in
/-- Sending changes the requests of the tip segment at most, and fails only if the first request
is not taken. -/
theorem sendPending_ending (now : Nat) (accepts : Nat → Bool) (tipLocator : List BlockHash) :
    ∃ coordinator result,
      (ending cm earlier tip next).sendPending now accepts tipLocator =
        (ending cm earlier { tip with coordinator } next, result) ∧
      (accepts 0 = true → ∃ sent, result = .ok sent) := by
  simp only [sendPending, ending, sendPendingLoop_ending hearlier, sendPendingLoop,
    List.length_nil, nil_append]
  split_ifs with hcan haccepts
  · exact ⟨_, _, rfl, fun _ => ⟨_, rfl⟩⟩
  · exact ⟨tip.coordinator, _, rfl, fun h => absurd h haccepts⟩
  · exact ⟨tip.coordinator, _, rfl, fun _ => ⟨_, rfl⟩⟩

/-! ### Handing out -/

include hearlier in
theorem takeReadyToStore_ending_of_drained (hdrained : tip.bufferedHeaders = []) :
    (ending cm earlier tip next).takeReadyToStore = (ending cm earlier tip next, []) := by
  have hempty : ∀ s ∈ earlier ++ [tip], s.bufferedHeaders = [] := by
    intro s hs
    rcases List.mem_append.mp hs with hs | hs
    · exact (hearlier s hs).2.1
    · rw [List.mem_singleton.mp hs]
      exact hdrained
  unfold takeReadyToStore
  cases (ending cm earlier tip next).segments.length - (ending cm earlier tip next).nextToStore with
  | zero => rfl
  | succ fuel =>
    rw [takeReadyLoop]
    cases hs : (ending cm earlier tip next).segments[(ending cm earlier tip next).nextToStore]? with
    | none => rfl
    | some s => simp [hempty s (List.mem_of_getElem? hs)]

include hearlier in
theorem previousDrained_ending : (ending cm earlier tip earlier.length).previousDrained = true := by
  unfold previousDrained
  cases hlast : earlier.getLast? with
  | none => simp [ending, List.getLast?_eq_none_iff.mp hlast]
  | some s =>
    have hne : earlier ≠ [] := by
      rintro rfl
      cases hlast
    have hlt : earlier.length - 1 < earlier.length :=
      Nat.sub_lt (length_pos_of_ne_nil hne) Nat.one_pos
    have hget : (ending cm earlier tip earlier.length).segments[earlier.length - 1]? = some s := by
      rw [ending, List.getElem?_append_left hlt, ← getLast?_eq_getElem?, hlast]
    obtain ⟨hcomp, hbuf, -⟩ := hearlier s (List.mem_of_getLast? hlast)
    have hnext : (ending cm earlier tip earlier.length).nextToStore = earlier.length := rfl
    simp [hnext, hget, hcomp, hbuf]

include hearlier in
/-- The buffer of an open tip segment is handed out as one batch. -/
theorem takeReadyToStore_ending (hopen : tip.complete = false) (hne : tip.bufferedHeaders ≠ []) :
    (ending cm earlier tip earlier.length).takeReadyToStore =
      (ending cm earlier { tip with bufferedHeaders := [] } earlier.length,
        [(tip.startHeight + 1, tip.bufferedHeaders)]) := by
  have hfuel : (ending cm earlier tip earlier.length).segments.length -
      (ending cm earlier tip earlier.length).nextToStore = 1 := by
    simp [ending]
  have hnext : (ending cm earlier tip earlier.length).nextToStore = earlier.length := rfl
  rw [takeReadyToStore, hfuel, takeReadyLoop, hnext, ending_getElem?]
  simp only [List.isEmpty_iff, hne, previousDrained_ending hearlier, Bool.not_true, hopen,
    SegmentState.takeBuffered, ending_setSegment, nil_append, Bool.or_false,
    Bool.false_eq_true, if_false]

/-! ### Closing and reopening -/

include hearlier htarget in
theorem markTipComplete_ending :
    (ending cm earlier tip next).markTipComplete =
      ending cm earlier { tip with complete := true } next := by
  have hskip : ∀ s ∈ earlier, (s.targetHeight.isNone && !s.complete) = false := by
    intro s hs
    simp [(hearlier s hs).1]
  rw [markTipComplete, ending_findIdx? hskip]
  cases hcomp : tip.complete with
  | true =>
    have hsame : { tip with complete := true } = tip := by rw [← hcomp]
    simp [hsame]
  | false => simp [htarget, ending_getElem?, ending_setSegment]

include hearlier htarget in
theorem resetTipSegment_ending (hdue : tip.complete = false → next = earlier.length) :
    (ending cm earlier tip next).resetTipSegment.1 =
      ending cm earlier { tip with complete := false } earlier.length := by
  have hskip : ∀ s ∈ earlier, (s.targetHeight.isNone && s.complete) = false := by
    intro s hs
    simp [Option.isSome_iff_ne_none.mp (hearlier s hs).2.2]
  rw [resetTipSegment, completeTip, ending_findIdx? hskip]
  cases hcomp : tip.complete with
  | true => simp [htarget, ending_getElem?, ending_setSegment_next]
  | false =>
    have hsame : { tip with complete := false } = tip := by rw [← hcomp]
    simp [hsame, hdue hcomp]

end Ending

/-! ### Standing at a block -/

/-- All earlier segments are handed out, and the tip segment stands at a block with nothing
buffered. While it is open, it is the one to be stored next. -/
def AtTip (p : HeadersPipeline) (hash : BlockHash) (height : Nat) : Prop :=
  ∃ cm earlier tip next, p = ending cm earlier tip next ∧ Stored earlier ∧
    tip.targetHeight = none ∧ tip.bufferedHeaders = [] ∧ tip.currentTipHash = hash ∧
    tip.currentHeight = height ∧ (tip.complete = false → next = earlier.length)

variable {p p' : HeadersPipeline} {hash : BlockHash} {height : Nat} (h : p.AtTip hash height)
include h

/-- New request bookkeeping of the segments. -/
theorem AtTip.requests {segments : List SegmentState}
    (same : List.Forall₂ (fun s s' => ∃ coordinator, s' = { s with coordinator }) p.segments
      segments) : AtTip { p with segments } hash height := by
  obtain ⟨cm, earlier, tip, next, rfl, hearlier, htarget, hdrained, hhash, hheight, hdue⟩ := h
  -- the new segments split at the same place as the old ones
  have hfirst := forall₂_take_append segments earlier [tip] same.flip
  have hlast := forall₂_drop_append segments earlier [tip] same.flip
  obtain ⟨tip', others, ⟨coordinator, rfl⟩, hothers, hdrop⟩ := forall₂_cons_right_iff.mp hlast
  rw [forall₂_nil_right_iff.mp hothers] at hdrop
  refine ⟨cm, segments.take earlier.length, { tip with coordinator }, next, ?_, ?_, htarget,
    hdrained, hhash, hheight, ?_⟩
  · have hsegments : segments = segments.take earlier.length ++ [{ tip with coordinator }] := by
      rw [← hdrop, List.take_append_drop]
    exact congrArg (fun segments => HeadersPipeline.mk segments next cm true) hsegments
  · intro s hs
    obtain ⟨i, hi, rfl⟩ := List.getElem_of_mem hs
    have hlt : i < earlier.length := hfirst.length_eq ▸ hi
    obtain ⟨coordinator', heq⟩ := hfirst.get hi hlt
    simp only [List.get_eq_getElem] at heq
    rw [heq]
    exact hearlier earlier[i] (List.getElem_mem hlt)
  · rw [hfirst.length_eq]
    exact hdue

theorem AtTip.markTipComplete : p.markTipComplete.AtTip hash height := by
  obtain ⟨cm, earlier, tip, next, rfl, hearlier, htarget, hdrained, hhash, hheight, -⟩ := h
  rw [markTipComplete_ending hearlier htarget]
  exact ⟨cm, earlier, _, next, rfl, hearlier, htarget, hdrained, hhash, hheight,
    fun hopen => by cases hopen⟩

/-- Everything but a batch leaves the position alone. -/
theorem AtTip.idle (hidle : p.Idle p') : p'.AtTip hash height := by
  induction hidle with
  | refl => exact h
  | requests same => exact h.requests same
  | reopened =>
    obtain ⟨cm, earlier, tip, next, rfl, hearlier, htarget, hdrained, hhash, hheight, hdue⟩ := h
    rw [resetTipSegment_ending hearlier htarget hdue]
    exact ⟨cm, earlier, _, _, rfl, hearlier, htarget, hdrained, hhash, hheight, fun _ => rfl⟩
  | cut hfresh =>
    obtain ⟨cm, earlier, tip, next, rfl, -⟩ := h
    cases hfresh
  | trans _ _ ih ih' => exact ih' (ih h)

end HeadersPipeline

end Dashcore
