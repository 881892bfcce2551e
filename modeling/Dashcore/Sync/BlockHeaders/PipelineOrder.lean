import Dashcore.Lib.Runs
import Dashcore.Sync.BlockHeaders.Pipeline

/-!
# Segments are stored in order

The headers pipeline hands out its segments one after the other. As long as the tip
segment is reopened only when every earlier segment is complete and drained, all segments
below `nextToStore` stay complete and drained; one other reopening breaks the order.
-/

namespace Dashcore

open List

/-- The operations on an initialized pipeline. Clock readings and the answers of the
request channel are part of the operation. -/
inductive PipelineOp
  | receiveHeaders (now : Nat) (headers : List Header)
  | takeReadyToStore
  | sendPending (now : Nat) (accepts : Nat → Bool) (tipLocator : List BlockHash)
  | handleTimeouts (now : Nat)
  | clearInFlight
  | markTipComplete
  | resetTipSegment

namespace HeadersPipeline

variable (blockHash : Header → BlockHash)

section

variable (p : HeadersPipeline)

/-- One operation; the second component is what `takeReadyToStore` returned. -/
def step : PipelineOp → HeadersPipeline × List (Nat × List HashedBlockHeader)
  | .receiveHeaders now headers => ((p.receiveHeaders blockHash now headers).1, [])
  | .takeReadyToStore => p.takeReadyToStore
  | .sendPending now accepts tipLocator => ((p.sendPending now accepts tipLocator).1, [])
  | .handleTimeouts now => (p.handleTimeouts now, [])
  | .clearInFlight => (p.clearInFlight, [])
  | .markTipComplete => (p.markTipComplete, [])
  | .resetTipSegment => (p.resetTipSegment.1, [])

/-- The segment at an index, if there is one, is complete and has nothing buffered. -/
def Drained (i : Nat) : Prop :=
  ∀ segment, p.segments[i]? = some segment →
    segment.complete = true ∧ segment.bufferedHeaders = []

/-- Every segment below `nextToStore` is complete and has nothing buffered. -/
def InOrder : Prop := ∀ i < p.nextToStore, p.Drained i

/-- The headers buffered at an index. -/
def bufferedAt (i : Nat) : List HashedBlockHeader :=
  (p.segments[i]?.map SegmentState.bufferedHeaders).getD []

/-- Only the last segment goes to the tip. -/
def TipLast : Prop :=
  ∀ i segment, p.segments[i]? = some segment → segment.targetHeight = none →
    i + 1 = p.segments.length

/-- The completed tip segment that an operation reopens: the one a non-empty batch
continues, or the one that is reset. -/
def reopened : PipelineOp → Option Nat
  | .receiveHeaders _ (first :: _) =>
    (p.route first.prevBlockhash).filter fun idx => p.segments[idx]?.any SegmentState.complete
  | .resetTipSegment => p.completeTip
  | _ => none

/-- The tip segment is reopened only when all earlier segments are drained. -/
def ReopensDrained (op : PipelineOp) : Prop :=
  ∀ idx, p.reopened op = some idx → ∀ i < idx, p.Drained i

end

/-! ### What one operation changes -/

/-- A segment that stays in place: it may buffer more headers and may become complete, and
does neither once it is complete. -/
structure Grows (s s' : SegmentState) : Prop where
  targetHeight : s'.targetHeight = s.targetHeight
  buffered : ∃ added, s'.bufferedHeaders = s.bufferedHeaders ++ added ∧
    (s.complete = true → s'.complete = true ∧ added = [])

theorem Grows.refl (s : SegmentState) : Grows s s :=
  ⟨rfl, [], by simp, fun h => ⟨h, rfl⟩⟩

/-- Every segment grows in place. -/
structure Growth (p p' : HeadersPipeline) : Prop where
  next : p'.nextToStore = p.nextToStore
  length : p'.segments.length = p.segments.length
  each : ∀ (i : Nat) (s s' : SegmentState), p.segments[i]? = some s →
    p'.segments[i]? = some s' → Grows s s'

/-- The completed tip segment at `idx` is opened again, possibly with new headers, and
becomes the next to store. -/
structure Reopening (idx : Nat) (p p' : HeadersPipeline) : Prop where
  next : p'.nextToStore = idx
  length : p'.segments.length = p.segments.length
  others : ∀ i, i ≠ idx → p'.segments[i]? = p.segments[i]?
  tip : ∃ tip tip' : SegmentState, p.segments[idx]? = some tip ∧ p'.segments[idx]? = some tip' ∧
    tip.targetHeight = none ∧ tip'.targetHeight = none ∧
      ∃ added, tip'.bufferedHeaders = tip.bufferedHeaders ++ added

variable {p p' : HeadersPipeline}

theorem Growth.refl (p : HeadersPipeline) : Growth p p where
  next := rfl
  length := rfl
  each := fun _ s s' hs hs' => by
    rw [hs] at hs'
    cases hs'
    exact .refl s

/-- Mapping a bookkeeping update over the segments. -/
theorem growth_map {f : SegmentState → SegmentState}
    (hf : ∀ s, Grows s (f s)) : Growth p { p with segments := p.segments.map f } where
  next := rfl
  length := by simp
  each := fun i s s' hs hs' => by
    simp only [List.getElem?_map, hs, Option.map_some, Option.some.injEq] at hs'
    exact hs' ▸ hf s

variable {idx : Nat}

/-- Growing one segment. -/
theorem growth_setSegment {s s' : SegmentState} (hs : p.segments[idx]? = some s)
    (hgrows : Grows s s') : Growth p (p.setSegment idx s') where
  next := rfl
  length := by simp [setSegment]
  each := fun i t t' ht ht' => by
    by_cases hi : idx = i
    · subst hi
      have hlt : idx < p.segments.length := (List.getElem?_eq_some_iff.mp hs).1
      rw [hs] at ht
      cases ht
      rw [setSegment, getElem?_set_self hlt] at ht'
      cases ht'
      exact hgrows
    · rw [setSegment, getElem?_set_ne hi, ht] at ht'
      cases ht'
      exact .refl t

/-- Replacing the tip segment and moving `nextToStore` to it. -/
theorem reopening_setSegment {tip tip' : SegmentState}
    {added : List HashedBlockHeader} (htip : p.segments[idx]? = some tip)
    (htarget : tip.targetHeight = none) (htarget' : tip'.targetHeight = none)
    (hadded : tip'.bufferedHeaders = tip.bufferedHeaders ++ added) :
    Reopening idx p { p.setSegment idx tip' with nextToStore := idx } where
  next := rfl
  length := by simp [setSegment]
  others := fun i hi => getElem?_set_ne (Ne.symm hi)
  tip := by
    have hlt : idx < p.segments.length := (List.getElem?_eq_some_iff.mp htip).1
    exact ⟨tip, tip', htip, getElem?_set_self hlt, htarget, htarget', added, hadded⟩

theorem sendPendingLoop_spec (now : Nat) (accepts : Nat → Bool) (tipLocator : List BlockHash)
    (segments : List SegmentState) (sent : List (List BlockHash)) :
    List.Forall₂ Grows segments
      (sendPendingLoop now accepts tipLocator segments sent).1 := by
  induction segments generalizing sent with
  | nil => exact .nil
  | cons s rest ih =>
    rw [sendPendingLoop]
    split_ifs
    · exact .cons ⟨rfl, [], by simp [SegmentState.sendRequest], fun h => ⟨h, rfl⟩⟩ (ih _)
    · exact .cons (.refl s) (List.forall₂_same.mpr fun t _ => .refl t)
    · exact .cons (.refl s) (ih _)

theorem growth_sendPending (now : Nat) (accepts : Nat → Bool) (tipLocator : List BlockHash) :
    Growth p (p.sendPending now accepts tipLocator).1 := by
  have hspec := sendPendingLoop_spec now accepts tipLocator p.segments []
  refine ⟨rfl, hspec.length_eq.symm, fun i s s' hs hs' => ?_⟩
  obtain ⟨hi, rfl⟩ := List.getElem?_eq_some_iff.mp hs
  obtain ⟨hi', rfl⟩ := List.getElem?_eq_some_iff.mp hs'
  exact hspec.get hi hi'

theorem getElem?_of_findIdx? {f : SegmentState → Bool} (h : p.segments.findIdx? f = some idx) :
    ∃ s, p.segments[idx]? = some s ∧ f s = true := by
  obtain ⟨hlt, hf, -⟩ := List.findIdx?_eq_some_iff_getElem.mp h
  exact ⟨p.segments[idx], getElem?_eq_getElem hlt, hf⟩

variable {s : SegmentState}

/-- Delivery to an incomplete segment. -/
theorem growth_deliver
    (headers : List Header) (hs : p.segments[idx]? = some s) (hopen : s.complete = false) :
    Growth p (p.deliver blockHash idx headers).1 := by
  obtain ⟨hplace, k, hadded⟩ := s.receiveHeaders_spec blockHash headers
  have hgrows : Grows s (s.receiveHeaders blockHash headers).1 :=
    ⟨hplace.targetHeight, _, hadded, fun h => by simp [hopen] at h⟩
  have hdeliver : (p.deliver blockHash idx headers).1 =
      p.setSegment idx (s.receiveHeaders blockHash headers).1 := by
    simp [deliver, hs]
  rw [hdeliver]
  exact growth_setSegment hs hgrows

/-- A batch that continues a completed tip segment reopens it. -/
theorem reopening_receiveHeaders (now : Nat) {first : Header} {rest : List Header}
    (h : p.reopened (.receiveHeaders now (first :: rest)) = some idx) :
    Reopening idx p (p.receiveHeaders blockHash now (first :: rest)).1 := by
  obtain ⟨hroute, hany⟩ := Option.filter_eq_some_iff.mp h
  obtain ⟨s, hs, hf⟩ := getElem?_of_findIdx? hroute
  have hlt : idx < p.segments.length := (List.getElem?_eq_some_iff.mp hs).1
  have hcomp : s.complete = true := by simpa [hs] using hany
  have htarget : s.targetHeight = none := by
    simpa [hcomp] using (Bool.and_eq_true_iff.mp hf).2
  let s₁ : SegmentState := { s with
    complete := false
    coordinator := s.coordinator.markSent now [first.prevBlockhash] }
  let s₂ := (s₁.receiveHeaders blockHash (first :: rest)).1
  obtain ⟨hplace, k, hadded⟩ := s₁.receiveHeaders_spec blockHash (first :: rest)
  have hreopen : p.reopenTip now idx first.prevBlockhash =
      { p.setSegment idx s₁ with nextToStore := idx } := by
    have hreopens : (s.complete && s.targetHeight.isNone) = true := by
      simp [hcomp, htarget]
    simp only [reopenTip, hs, hreopens, if_true]
    rfl
  have hresult : (p.receiveHeaders blockHash now (first :: rest)).1 =
      { p.setSegment idx s₂ with nextToStore := idx } := by
    simp only [receiveHeaders, hroute]
    rw [hreopen]
    simp only [deliver, setSegment, getElem?_set_self hlt, List.set_set, s₂]
  rw [hresult]
  exact reopening_setSegment hs htarget (hplace.targetHeight.trans htarget) hadded

/-- Every other batch goes to an incomplete segment or nowhere. -/
theorem growth_receiveHeaders (now : Nat)
    (headers : List Header) (h : p.reopened (.receiveHeaders now headers) = none) :
    Growth p (p.receiveHeaders blockHash now headers).1 := by
  cases headers with
  | nil =>
    simp only [receiveHeaders]
    cases hroute : p.emptyRoute with
    | none => exact .refl p
    | some idx =>
      obtain ⟨s, hs, hf⟩ := getElem?_of_findIdx? hroute
      simp only [Bool.and_eq_true, Bool.not_eq_true'] at hf
      exact growth_deliver blockHash [] hs hf.1.1
  | cons first rest =>
    simp only [receiveHeaders]
    cases hroute : p.route first.prevBlockhash with
    | none => exact .refl p
    | some idx =>
      obtain ⟨s, hs, -⟩ := getElem?_of_findIdx? hroute
      have hopen : s.complete = false := by
        simpa [reopened, hroute, hs] using h
      have hsame : p.reopenTip now idx first.prevBlockhash = p := by
        simp [reopenTip, hs, hopen]
      simp only [hsame]
      exact growth_deliver blockHash _ hs hopen

theorem growth_markTipComplete : Growth p p.markTipComplete := by
  simp only [markTipComplete]
  cases hidx : p.segments.findIdx? fun s => s.targetHeight.isNone && !s.complete with
  | none => exact .refl p
  | some idx =>
    obtain ⟨s, hs, hf⟩ := getElem?_of_findIdx? hidx
    simp only [hs]
    exact growth_setSegment hs ⟨rfl, [], by simp, fun _ => ⟨rfl, rfl⟩⟩

theorem reopening_resetTipSegment (h : p.completeTip = some idx) :
    Reopening idx p p.resetTipSegment.1 := by
  obtain ⟨s, hs, hf⟩ := getElem?_of_findIdx? h
  have htarget : s.targetHeight = none := by
    simpa using (Bool.and_eq_true_iff.mp hf).1
  simp only [resetTipSegment, h, hs]
  exact reopening_setSegment hs htarget htarget (append_nil _).symm

/-- An operation that reopens the tip segment. -/
theorem step_reopening {op : PipelineOp}
    (h : p.reopened op = some idx) : Reopening idx p (p.step blockHash op).1 := by
  cases op with
  | receiveHeaders now headers =>
    cases headers with
    | nil => cases h
    | cons first rest => exact reopening_receiveHeaders blockHash now h
  | resetTipSegment => exact reopening_resetTipSegment h
  | _ => cases h

/-- Every other operation but `takeReadyToStore` lets segments grow in place. -/
theorem step_growth {op : PipelineOp} (hop : op ≠ .takeReadyToStore) (h : p.reopened op = none) :
    Growth p (p.step blockHash op).1 := by
  cases op with
  | receiveHeaders now headers => exact growth_receiveHeaders blockHash now headers h
  | takeReadyToStore => exact absurd rfl hop
  | sendPending now accepts tipLocator => exact growth_sendPending now accepts tipLocator
  | handleTimeouts now =>
    exact growth_map fun s =>
      ⟨rfl, [], by simp [SegmentState.handleTimeouts], fun h => ⟨h, rfl⟩⟩
  | clearInFlight =>
    exact growth_map fun s =>
      ⟨rfl, [], by simp [SegmentState.clearInFlight], fun h => ⟨h, rfl⟩⟩
  | markTipComplete => exact growth_markTipComplete
  | resetTipSegment =>
    have hnone : p.completeTip = none := h
    simp only [step, resetTipSegment, hnone]
    exact .refl p

/-! ### Order -/

theorem Growth.drained {i : Nat} (h : Growth p p') (hdrained : p.Drained i) : p'.Drained i := by
  intro s' hs'
  have hlt : i < p.segments.length := h.length ▸ (List.getElem?_eq_some_iff.mp hs').1
  have hs := getElem?_eq_getElem hlt
  obtain ⟨hcomp, hempty⟩ := hdrained _ hs
  obtain ⟨added, hbuf, hkeep⟩ := (h.each i _ s' hs hs').buffered
  obtain ⟨hcomp', rfl⟩ := hkeep hcomp
  exact ⟨hcomp', by rw [hbuf, hempty, append_nil]⟩

theorem Growth.inOrder (h : Growth p p') (horder : p.InOrder) : p'.InOrder := by
  intro i hi
  rw [h.next] at hi
  exact h.drained (horder i hi)

/-- A reopened tip is in order exactly if every segment before it is drained. -/
theorem Reopening.inOrder_iff (h : Reopening idx p p') : p'.InOrder ↔ ∀ i < idx, p.Drained i := by
  have hdrained (i : Nat) (hi : i < idx) : p'.Drained i ↔ p.Drained i := by
    unfold Drained
    rw [h.others i hi.ne]
  unfold InOrder
  rw [h.next]
  exact ⟨fun horder i hi => (hdrained i hi).mp (horder i hi),
    fun horder i hi => (hdrained i hi).mpr (horder i hi)⟩

theorem drained_setSegment_ne {idx i : Nat} (hi : i ≠ idx) :
    (p.setSegment idx s).Drained i ↔ p.Drained i := by
  unfold Drained
  rw [setSegment, getElem?_set_ne (Ne.symm hi)]

/-- One round of the loop of `takeReadyToStore`: stop, or drain the next segment and go on
if it is complete. -/
theorem takeReadyLoop_succ (fuel : Nat) (p : HeadersPipeline)
    (ready : List (Nat × List HashedBlockHeader)) :
    takeReadyLoop (fuel + 1) p ready = (p, ready) ∨
    ∃ s, p.segments[p.nextToStore]? = some s ∧
      let p₁ := p.setSegment p.nextToStore { s with bufferedHeaders := [] }
      let ready₁ := ready ++ [(s.startHeight + 1, s.bufferedHeaders)]
      (s.complete = false ∧ takeReadyLoop (fuel + 1) p ready = (p₁, ready₁)) ∨
      (s.complete = true ∧ takeReadyLoop (fuel + 1) p ready =
        takeReadyLoop fuel { p₁ with nextToStore := p.nextToStore + 1 } ready₁) := by
  rw [takeReadyLoop]
  cases hs : p.segments[p.nextToStore]? with
  | none => exact .inl rfl
  | some s =>
    simp only
    split_ifs with hstop hcomp
    · exact .inl rfl
    · exact .inr ⟨s, rfl, .inr ⟨hcomp, rfl⟩⟩
    · exact .inr ⟨s, rfl, .inl ⟨by simpa using hcomp, rfl⟩⟩

/-- Draining the next segment keeps the segments before it in order. -/
theorem InOrder.setSegment_next (h : p.InOrder) : (p.setSegment p.nextToStore s).InOrder := by
  intro i hi
  exact (drained_setSegment_ne (ne_of_lt hi)).mpr (h i hi)

/-- After draining a complete segment the next one is due. -/
theorem InOrder.advance (h : p.InOrder)
    (hs : p.segments[p.nextToStore]? = some s) (hcomplete : s.complete = true) :
    InOrder { p.setSegment p.nextToStore { s with bufferedHeaders := [] } with
      nextToStore := p.nextToStore + 1 } := by
  have hlt : p.nextToStore < p.segments.length := (List.getElem?_eq_some_iff.mp hs).1
  intro i hi
  rcases Nat.lt_succ_iff_lt_or_eq.mp hi with hi | rfl
  · exact h.setSegment_next i hi
  · intro t ht
    have hset : (p.segments.set p.nextToStore { s with bufferedHeaders := [] })[p.nextToStore]? =
        some t := ht
    rw [getElem?_set_self hlt] at hset
    cases hset
    exact ⟨hcomplete, rfl⟩

theorem takeReadyLoop_inOrder (fuel : Nat) (ready : List (Nat × List HashedBlockHeader))
    (h : p.InOrder) : (takeReadyLoop fuel p ready).1.InOrder := by
  induction fuel generalizing p ready with
  | zero => exact h
  | succ fuel ih =>
    rcases takeReadyLoop_succ fuel p ready with
      hstop | ⟨s, hs, ⟨-, hlast⟩ | ⟨hcomp, hgoes⟩⟩
    · rw [hstop]
      exact h
    · rw [hlast]
      exact h.setSegment_next
    · rw [hgoes]
      exact ih _ (h.advance hs hcomp)

/-- The steps that keep the segments in order are those that reopen the tip only behind
drained segments. -/
theorem step_inOrder_iff (op : PipelineOp) (h : p.InOrder) :
    (p.step blockHash op).1.InOrder ↔ p.ReopensDrained op := by
  unfold ReopensDrained
  cases hreopened : p.reopened op with
  | some idx =>
    rw [(step_reopening blockHash hreopened).inOrder_iff]
    simp
  | none =>
    simp only [reduceCtorEq, false_implies, implies_true, iff_true]
    by_cases hop : op = .takeReadyToStore
    · subst hop
      exact takeReadyLoop_inOrder _ _ h
    · exact (step_growth blockHash hop hreopened).inOrder h

end HeadersPipeline

end Dashcore
