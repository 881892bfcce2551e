import Dashcore.Sync.BlockHeaders.PipelineOrder

/-!
# No header is lost on the way to storage

A pipeline is observed together with every header its segments ever buffered and every
header `takeReadyToStore` ever returned. In a run that reopens the tip segment only
behind drained segments, the returned headers followed by the buffered ones are all
headers ever buffered, in segment order.
-/

namespace Dashcore

open HeadersPipeline Function List

/-- A pipeline with the headers each segment ever buffered and the headers ever returned
by `takeReadyToStore`. -/
structure Observed where
  pipeline : HeadersPipeline
  everBuffered : Nat → List HashedBlockHeader
  returned : List HashedBlockHeader

namespace Observed

/-- Observation starts at an initialized pipeline. -/
def start (p : HeadersPipeline) : Observed :=
  { pipeline := p, everBuffered := fun _ => [], returned := [] }

/-- Perform an operation and record what it returned and what it added to the buffers. -/
def step (blockHash : Header → BlockHash) (o : Observed) (op : PipelineOp) : Observed :=
  let result := o.pipeline.step blockHash op
  { pipeline := result.1
    everBuffered := match op with
      | .takeReadyToStore => o.everBuffered
      | _ => fun i =>
        o.everBuffered i ++ (result.1.bufferedAt i).drop (o.pipeline.bufferedAt i).length
    returned := o.returned ++ result.2.flatMap Prod.snd }

/-- What was returned, followed by what is still buffered, is everything that was ever
buffered, in segment order. -/
def Lossless (o : Observed) : Prop :=
  let indices := range o.pipeline.segments.length
  o.returned ++ indices.flatMap o.pipeline.bufferedAt = indices.flatMap o.everBuffered

end Observed

/-! ### Accounting for buffered headers -/

namespace HeadersPipeline

/-- `taken i` is what was returned of segment `i`: all it ever buffered except what is
buffered still, and nothing for segments after the next one to store. -/
structure Accounted (p : HeadersPipeline) (everBuffered taken : Nat → List HashedBlockHeader)
    (returned : List HashedBlockHeader) : Prop where
  split : ∀ i, everBuffered i = taken i ++ p.bufferedAt i
  later : ∀ i, p.nextToStore < i → taken i = []
  outside : ∀ i, p.segments.length ≤ i → taken i = []
  returned_eq : returned = (range p.segments.length).flatMap taken

variable {p p' : HeadersPipeline} {everBuffered taken : Nat → List HashedBlockHeader}
  {returned : List HashedBlockHeader} {s : SegmentState}

theorem bufferedAt_of_getElem? {i : Nat} (hs : p.segments[i]? = some s) :
    p.bufferedAt i = s.bufferedHeaders := by
  simp [bufferedAt, hs]

/-- Interleaving two families of lists of which one is exhausted where the other begins. -/
theorem flatMap_append_flatMap {α : Type} {T B : Nat → List α} (n k : Nat)
    (hB : ∀ i < k, B i = []) (hT : ∀ i, k < i → T i = []) :
    (range n).flatMap T ++ (range n).flatMap B =
      (range n).flatMap fun i => T i ++ B i := by
  induction n with
  | zero => rfl
  | succ n ih =>
    have hsum : (range (n + 1)).flatMap (fun i => T i ++ B i) =
        ((range n).flatMap T ++ (range n).flatMap B) ++ (T n ++ B n) := by
      rw [ih, range_succ, flatMap_append]
      simp
    rw [hsum, range_succ, flatMap_append, flatMap_append]
    simp only [flatMap_cons, flatMap_nil, append_nil, append_assoc]
    -- either nothing is left below `n`, or nothing was taken at `n`
    rcases Nat.lt_or_ge k n with hkn | hnk
    · rw [hT n hkn]
      simp
    · have hnil : (range n).flatMap B = [] :=
        List.flatMap_eq_nil_iff.mpr fun i hi => hB i ((mem_range.mp hi).trans_le hnk)
      rw [hnil]
      simp

/-- Appending to the last nonempty member of a family of lists. -/
theorem flatMap_update {α : Type} {T : Nat → List α} {items : List α} (n k : Nat)
    (hk : k < n) (hT : ∀ i, k < i → T i = []) :
    (range n).flatMap (update T k (T k ++ items)) =
      (range n).flatMap T ++ items := by
  induction n with
  | zero => omega
  | succ n ih =>
    rw [range_succ, flatMap_append, flatMap_append]
    simp only [flatMap_cons, flatMap_nil, append_nil, append_assoc]
    rcases Nat.lt_or_ge k n with hkn | hnk
    · rw [ih hkn, update_of_ne hkn.ne', hT n hkn]
      simp
    · obtain rfl : k = n := by omega
      have hsame : (range k).flatMap (update T k (T k ++ items)) =
          (range k).flatMap T :=
        flatMap_congr fun i hi =>
          update_of_ne (mem_range.mp hi).ne _ _
      rw [hsame, update_self]

section

variable (h : Accounted p everBuffered taken returned)
include h

theorem Accounted.lossless (horder : p.InOrder) :
    Observed.Lossless { pipeline := p, everBuffered, returned } := by
  have hempty (i : Nat) (hi : i < p.nextToStore) : p.bufferedAt i = [] := by
    cases hs : p.segments[i]? with
    | none => simp [bufferedAt, hs]
    | some s => rw [bufferedAt_of_getElem? hs, (horder i hi s hs).2]
  unfold Observed.Lossless
  simp only [h.returned_eq]
  rw [flatMap_append_flatMap _ p.nextToStore hempty h.later]
  exact flatMap_congr fun i _ => (h.split i).symm

/-- The accounts stay right when every buffer only grows and no taken segment falls behind
the next one to store. -/
theorem Accounted.extend (hlength : p'.segments.length = p.segments.length)
    (hgrow : ∀ i, ∃ added, p'.bufferedAt i = p.bufferedAt i ++ added)
    (hlater : ∀ i, p'.nextToStore < i → taken i = []) :
    Accounted p'
      (fun i => everBuffered i ++ (p'.bufferedAt i).drop (p.bufferedAt i).length) taken
      returned where
  split := fun i => by
    obtain ⟨added, hadded⟩ := hgrow i
    rw [hadded, h.split i, List.drop_left, append_assoc]
  later := hlater
  outside := fun i hi => h.outside i (hlength ▸ hi)
  returned_eq := by rw [h.returned_eq, hlength]

end

theorem Growth.accounted (hgrowth : Growth p p') (h : Accounted p everBuffered taken returned) :
    Accounted p'
      (fun i => everBuffered i ++ (p'.bufferedAt i).drop (p.bufferedAt i).length) taken
      returned := by
  refine h.extend hgrowth.length (fun i => ?_) fun i hi => h.later i (hgrowth.next ▸ hi)
  cases hs : p.segments[i]? with
  | none =>
    have hs' : p'.segments[i]? = none := by
      rw [getElem?_eq_none_iff] at hs ⊢
      exact hgrowth.length ▸ hs
    exact ⟨[], by simp [bufferedAt, hs, hs']⟩
  | some s =>
    have hlt : i < p'.segments.length :=
      hgrowth.length ▸ (List.getElem?_eq_some_iff.mp hs).1
    have hs' := getElem?_eq_getElem hlt
    obtain ⟨added, hadded, -⟩ := (hgrowth.each i s _ hs hs').buffered
    exact ⟨added, by rw [bufferedAt_of_getElem? hs, bufferedAt_of_getElem? hs', hadded]⟩

theorem Reopening.accounted {idx : Nat} (hreopening : Reopening idx p p') (htip : p.TipLast)
    (h : Accounted p everBuffered taken returned) :
    Accounted p'
      (fun i => everBuffered i ++ (p'.bufferedAt i).drop (p.bufferedAt i).length) taken
      returned := by
  obtain ⟨tip, tip', htip₀, htip₁, htarget, -, added, hadded⟩ := hreopening.tip
  refine h.extend hreopening.length (fun i => ?_) fun i hi => ?_
  · by_cases hi : i = idx
    · subst hi
      exact ⟨added, by rw [bufferedAt_of_getElem? htip₀, bufferedAt_of_getElem? htip₁, hadded]⟩
    · exact ⟨[], by simp [bufferedAt, hreopening.others i hi]⟩
  · -- the tip is the last segment, so nothing lies beyond it
    have hlast := htip idx tip htip₀ htarget
    rw [hreopening.next] at hi
    exact h.outside i (by omega)

theorem bufferedAt_setSegment {i idx : Nat} (hlt : idx < p.segments.length) :
    (p.setSegment idx s).bufferedAt i = if i = idx then s.bufferedHeaders else p.bufferedAt i := by
  split_ifs with hi
  · subst hi
    exact bufferedAt_of_getElem? (getElem?_set_self hlt)
  · simp [bufferedAt, setSegment, getElem?_set_ne (Ne.symm hi)]

section

variable (h : Accounted p everBuffered taken returned)
include h

/-- Draining the next segment moves its buffer to what was returned. -/
theorem Accounted.drain (hs : p.segments[p.nextToStore]? = some s) :
    Accounted (p.setSegment p.nextToStore { s with bufferedHeaders := [] }) everBuffered
      (update taken p.nextToStore (taken p.nextToStore ++ s.bufferedHeaders))
      (returned ++ s.bufferedHeaders) := by
  have hlt : p.nextToStore < p.segments.length := (List.getElem?_eq_some_iff.mp hs).1
  refine ⟨fun i => ?_, fun i hi => ?_, fun i hi => ?_, ?_⟩
  · rw [bufferedAt_setSegment hlt, h.split i]
    by_cases hi : i = p.nextToStore
    · subst hi
      rw [if_pos rfl, update_self, bufferedAt_of_getElem? hs, append_nil]
    · rw [if_neg hi, update_of_ne hi]
  · have hi : p.nextToStore < i := hi
    rw [update_of_ne hi.ne']
    exact h.later i hi
  · have hi : p.segments.length ≤ i := by simpa [setSegment] using hi
    rw [update_of_ne (by omega)]
    exact h.outside i hi
  · rw [h.returned_eq, ← flatMap_update _ p.nextToStore hlt h.later]
    simp [setSegment]

theorem Accounted.advance :
    Accounted { p with nextToStore := p.nextToStore + 1 } everBuffered taken returned where
  split := h.split
  later := fun i hi => h.later i ((Nat.lt_succ_self _).trans hi)
  outside := h.outside
  returned_eq := h.returned_eq

end

theorem takeReadyLoop_accounted (fuel : Nat) (ready : List (Nat × List HashedBlockHeader))
    (h : Accounted p everBuffered taken (returned ++ ready.flatMap Prod.snd)) :
    ∃ taken', Accounted (takeReadyLoop fuel p ready).1 everBuffered taken'
      (returned ++ (takeReadyLoop fuel p ready).2.flatMap Prod.snd) := by
  induction fuel generalizing p taken ready with
  | zero => exact ⟨taken, h⟩
  | succ fuel ih =>
    rcases takeReadyLoop_succ fuel p ready with
      hstop | ⟨s, hs, ⟨-, hlast⟩ | ⟨-, hgoes⟩⟩
    · rw [hstop]
      exact ⟨taken, h⟩
    · rw [hlast]
      exact ⟨_, by simpa using h.drain hs⟩
    · have hready : Accounted
          { p.setSegment p.nextToStore { s with bufferedHeaders := [] } with
            nextToStore := p.nextToStore + 1 } everBuffered
          (update taken p.nextToStore (taken p.nextToStore ++ s.bufferedHeaders))
          (returned ++ (ready ++ [(s.startHeight + 1, s.bufferedHeaders)]).flatMap Prod.snd) := by
        simpa using (h.drain hs).advance
      rw [hgoes]
      exact ih _ hready

/-! ### Runs -/

theorem Growth.tipLast (h : Growth p p') (htip : p.TipLast) : p'.TipLast := by
  intro i s' hs' htarget
  have hlt : i < p.segments.length := h.length ▸ (List.getElem?_eq_some_iff.mp hs').1
  have hs := getElem?_eq_getElem hlt
  rw [h.length]
  exact htip i _ hs ((h.each i _ s' hs hs').targetHeight ▸ htarget)

theorem Reopening.tipLast {idx : Nat} (h : Reopening idx p p') (htip : p.TipLast) :
    p'.TipLast := by
  intro i s' hs' htarget
  rw [h.length]
  by_cases hi : i = idx
  · obtain ⟨tip, -, hs, -, htarget₀, -⟩ := h.tip
    exact hi ▸ htip idx tip hs htarget₀
  · rw [h.others i hi] at hs'
    exact htip i s' hs' htarget

theorem takeReadyLoop_tipLast (fuel : Nat) (ready : List (Nat × List HashedBlockHeader))
    (htip : p.TipLast) : (takeReadyLoop fuel p ready).1.TipLast := by
  have hdrain {p : HeadersPipeline} {s : SegmentState} (htip : p.TipLast)
      (hs : p.segments[p.nextToStore]? = some s) :
      (p.setSegment p.nextToStore { s with bufferedHeaders := [] }).TipLast := by
    intro i t ht htarget
    rw [setSegment, List.length_set]
    by_cases hi : i = p.nextToStore
    · subst hi
      have hlt := (List.getElem?_eq_some_iff.mp hs).1
      rw [setSegment, getElem?_set_self hlt] at ht
      cases ht
      exact htip _ s hs htarget
    · rw [setSegment, getElem?_set_ne (Ne.symm hi)] at ht
      exact htip i t ht htarget
  induction fuel generalizing p ready with
  | zero => exact htip
  | succ fuel ih =>
    rcases takeReadyLoop_succ fuel p ready with
      hstop | ⟨s, hs, ⟨-, hlast⟩ | ⟨-, hgoes⟩⟩
    · rw [hstop]
      exact htip
    · rw [hlast]
      exact hdrain htip hs
    · rw [hgoes]
      exact ih _ (hdrain htip hs)

end HeadersPipeline

namespace Observed

/-- The invariant of runs: segments in order, only the last one goes to the tip, and all
buffered headers are accounted for. -/
structure Good (o : Observed) : Prop where
  inOrder : o.pipeline.InOrder
  tipLast : o.pipeline.TipLast
  accounted : ∃ taken, Accounted o.pipeline o.everBuffered taken o.returned

theorem step_good {blockHash : Header → BlockHash} {o : Observed} {op : PipelineOp}
    (h : o.Good) (hop : o.pipeline.ReopensDrained op) : (o.step blockHash op).Good := by
  obtain ⟨taken, hacc⟩ := h.accounted
  have horder := (step_inOrder_iff blockHash op h.inOrder).mpr hop
  by_cases htake : op = .takeReadyToStore
  · subst htake
    have htaken : ∃ taken', Accounted o.pipeline.takeReadyToStore.1 o.everBuffered taken'
        (o.returned ++ o.pipeline.takeReadyToStore.2.flatMap Prod.snd) :=
      takeReadyLoop_accounted _ _ (by simpa using hacc)
    exact ⟨horder, takeReadyLoop_tipLast _ _ h.tipLast, htaken⟩
  · have hever : (o.step blockHash op).everBuffered = fun i => o.everBuffered i ++
        ((o.step blockHash op).pipeline.bufferedAt i).drop (o.pipeline.bufferedAt i).length := by
      cases op <;> first | rfl | exact absurd rfl htake
    have hreturned : (o.step blockHash op).returned = o.returned := by
      cases op <;> first | exact append_nil _ | exact absurd rfl htake
    cases hreopened : o.pipeline.reopened op with
    | none =>
      have hgrowth := step_growth blockHash htake hreopened
      refine ⟨horder, hgrowth.tipLast h.tipLast, taken, ?_⟩
      rw [hever, hreturned]
      exact hgrowth.accounted hacc
    | some idx =>
      have hreopening := step_reopening blockHash hreopened
      refine ⟨horder, hreopening.tipLast h.tipLast, taken, ?_⟩
      rw [hever, hreturned]
      exact hreopening.accounted h.tipLast hacc

/-- An initialized pipeline has stored and buffered nothing. -/
theorem start_good (cm : CheckpointManager) (currentHeight : Nat) (currentHash : BlockHash)
    (targetHeight : Nat) :
    (start ((HeadersPipeline.new cm).init currentHeight currentHash targetHeight)).Good where
  inOrder := fun i hi => absurd hi (Nat.not_lt_zero i)
  tipLast := by
    intro i s hs htarget
    simp only [start, init, getElem?_mapIdx, Option.map_eq_some_iff] at hs
    obtain ⟨bound, hbound, rfl⟩ := hs
    have hlt := (List.getElem?_eq_some_iff.mp hbound).1
    have hnone := getElem?_eq_none_iff.mp (Option.map_eq_none_iff.mp htarget)
    simp only [start, init, List.length_mapIdx]
    omega
  accounted := by
    refine ⟨fun _ => [], fun i => ?_, fun _ _ => rfl, fun _ _ => rfl, by simp [start]⟩
    have hempty (s : SegmentState) (hs : ((HeadersPipeline.new cm).init currentHeight
        currentHash targetHeight).segments[i]? = some s) : s.bufferedHeaders = [] := by
      simp only [init, getElem?_mapIdx, Option.map_eq_some_iff] at hs
      obtain ⟨bound, -, rfl⟩ := hs
      rfl
    simp only [start, List.nil_append]
    cases hs : ((HeadersPipeline.new cm).init currentHeight currentHash
        targetHeight).segments[i]? with
    | none => simp [bufferedAt, hs]
    | some s => rw [bufferedAt_of_getElem? hs, hempty s hs]

/-- A run of the pipeline keeps all segments below `nextToStore` complete and drained, and
loses no header, exactly if it reopens the tip segment only behind drained segments. -/
theorem storedInOrder_iff (blockHash : Header → BlockHash) (cm : CheckpointManager)
    (currentHeight : Nat) (currentHash : BlockHash) (targetHeight : Nat)
    (ops : List PipelineOp) :
    let initial := start ((HeadersPipeline.new cm).init currentHeight currentHash targetHeight)
    (∀ k, (Runs.run (step blockHash) initial (ops.take k)).pipeline.InOrder ∧
      (Runs.run (step blockHash) initial (ops.take k)).Lossless) ↔
    Runs.Along (step blockHash) (fun o op => o.pipeline.ReopensDrained op) initial ops := by
  intro initial
  have holds (o : Observed) (h : o.Good) : o.pipeline.InOrder ∧ o.Lossless := by
    obtain ⟨taken, hacc⟩ := h.accounted
    exact ⟨h.inOrder, hacc.lossless h.inOrder⟩
  have keep (o : Observed) (op : PipelineOp) (h : o.Good) (hop : o.pipeline.ReopensDrained op) :
      (o.step blockHash op).Good := step_good h hop
  have need (o : Observed) (op : PipelineOp) (h : o.Good)
      (hnext : (o.step blockHash op).pipeline.InOrder ∧ (o.step blockHash op).Lossless) :
      o.pipeline.ReopensDrained op :=
    (step_inOrder_iff blockHash op h.inOrder).mp hnext.1
  exact Runs.forall_take_iff_along holds keep need
    (start_good cm currentHeight currentHash targetHeight)

/-! ### A tip segment that overtakes the others -/

/-- A header with a given predecessor; its nonce stands for its hash. -/
def tipHeader (prevBlockhash : BlockHash) (nonce : Nat) : Header :=
  { version := 1, prevBlockhash, merkleRoot := 0, time := 0, bits := 0, nonce }

/-- One checkpoint at height 2 gives two segments. The tip segment completes on an empty
response while the first segment is still waiting, then a new block arrives. -/
def overtakingOps : List PipelineOp :=
  [.sendPending 0 (fun _ => true) [], .receiveHeaders 1 [], .receiveHeaders 2 [tipHeader 20 21]]

/-- The new block moves `nextToStore` past the first segment, which is not complete. -/
theorem overtaken_not_inOrder :
    ¬ (Runs.run (step fun header => Fin.ofNat (2 ^ 256) header.nonce)
      (start ((HeadersPipeline.new (.new [{ height := 2, blockHash := 20 }])).init 0 1 5))
      overtakingOps).pipeline.InOrder := by
  intro h
  obtain ⟨hcomp, -⟩ := h 0 (by decide) _ rfl
  revert hcomp
  decide

end Observed

end Dashcore
