import Dashcore.Sync.BlockHeaders.PipelineOrder

/-!
# Buffered headers carry their hash

The pipeline caches the hash of every header it buffers. What it hands out therefore
carries the hash of its header, whatever operations came before.
-/

namespace Dashcore

open List

/-- Every header of a list carries its hash. -/
def AllHashed (blockHash : Header → BlockHash) (headers : List HashedBlockHeader) : Prop :=
  ∀ header ∈ headers, header.hash = blockHash header.header

section Pipeline

variable {blockHash : Header → BlockHash} {s : SegmentState}

theorem SegmentState.receiveHeaders_hashed
    (h : AllHashed blockHash s.bufferedHeaders) (headers : List Header) :
    AllHashed blockHash (s.receiveHeaders blockHash headers).1.bufferedHeaders := by
  obtain ⟨-, k, hbuf⟩ := s.receiveHeaders_spec blockHash headers
  rw [hbuf]
  intro x hx
  rcases mem_append.mp hx with hx | hx
  · exact h x hx
  · obtain ⟨header, -, rfl⟩ := mem_map.mp hx
    rfl

namespace HeadersPipeline

/-- Every buffered header carries its hash. -/
def Hashed (blockHash : Header → BlockHash) (p : HeadersPipeline) : Prop :=
  ∀ segment ∈ p.segments, AllHashed blockHash segment.bufferedHeaders

variable {p : HeadersPipeline}

theorem Hashed.setSegment (hp : p.Hashed blockHash)
    (hs : AllHashed blockHash s.bufferedHeaders) (idx : Nat) :
    (p.setSegment idx s).Hashed blockHash := by
  intro segment hmem
  rcases mem_or_eq_of_mem_set hmem with hmem | rfl
  · exact hp segment hmem
  · exact hs

theorem Hashed.getElem? (hp : p.Hashed blockHash) {idx : Nat}
    (hs : p.segments[idx]? = some s) : AllHashed blockHash s.bufferedHeaders :=
  hp s (mem_of_getElem? hs)

theorem hashed_init (currentHeight : Nat) (currentHash : BlockHash) (targetHeight : Nat) :
    (p.init currentHeight currentHash targetHeight).Hashed blockHash := by
  intro segment hmem
  obtain ⟨i, hi, rfl⟩ := mem_mapIdx.mp hmem
  intro header hheader
  simp [SegmentState.new] at hheader

section

variable (hp : p.Hashed blockHash)
include hp

theorem Hashed.deliver (idx : Nat) (headers : List Header) :
    (p.deliver blockHash idx headers).1.Hashed blockHash := by
  unfold HeadersPipeline.deliver
  cases hs : p.segments[idx]? with
  | none => exact hp
  | some s => exact hp.setSegment (SegmentState.receiveHeaders_hashed (hp.getElem? hs) headers) idx

theorem Hashed.reopenTip (now idx : Nat) (prevHash : BlockHash) :
    (p.reopenTip now idx prevHash).Hashed blockHash := by
  unfold HeadersPipeline.reopenTip
  cases hs : p.segments[idx]? with
  | none => exact hp
  | some s =>
    simp only
    split_ifs
    · have hopen := hp.getElem? hs
      exact hp.setSegment (s := { s with
        complete := false
        coordinator := s.coordinator.markSent now [prevHash] }) hopen idx
    · exact hp

theorem Hashed.receiveHeaders (now : Nat) (headers : List Header) :
    (p.receiveHeaders blockHash now headers).1.Hashed blockHash := by
  cases headers with
  | nil =>
    simp only [HeadersPipeline.receiveHeaders]
    split
    · exact hp.deliver _ _
    · exact hp
  | cons first rest =>
    simp only [HeadersPipeline.receiveHeaders]
    split
    · exact (hp.reopenTip _ _ _).deliver _ _
    · exact hp

/-- What is handed out carries its hash as well. -/
theorem Hashed.takeReadyLoop (fuel : Nat) {ready : List (Nat × List HashedBlockHeader)}
    (hready : ∀ batch ∈ ready, AllHashed blockHash batch.2) :
    (takeReadyLoop fuel p ready).1.Hashed blockHash ∧
      ∀ batch ∈ (takeReadyLoop fuel p ready).2, AllHashed blockHash batch.2 := by
  induction fuel generalizing p ready with
  | zero => exact ⟨hp, hready⟩
  | succ fuel ih =>
    rcases takeReadyLoop_succ fuel p ready with hstop | ⟨s, hs, hgoes⟩
    · rw [hstop]
      exact ⟨hp, hready⟩
    · have hempty : AllHashed blockHash
          ({ s with bufferedHeaders := [] } : SegmentState).bufferedHeaders := by
        intro header hheader
        cases hheader
      have hp₁ := hp.setSegment hempty p.nextToStore
      have hready₁ : ∀ batch ∈ ready ++ [(s.startHeight + 1, s.bufferedHeaders)],
          AllHashed blockHash batch.2 := by
        intro batch hbatch
        rcases mem_append.mp hbatch with hbatch | hbatch
        · exact hready batch hbatch
        · rw [mem_singleton.mp hbatch]
          exact hp.getElem? hs
      rcases hgoes with ⟨-, hlast⟩ | ⟨-, hmore⟩
      · rw [hlast]
        exact ⟨hp₁, hready₁⟩
      · rw [hmore]
        exact ih (p := { p.setSegment p.nextToStore { s with bufferedHeaders := [] } with
          nextToStore := p.nextToStore + 1 }) hp₁ hready₁

theorem Hashed.takeReadyToStore :
    p.takeReadyToStore.1.Hashed blockHash ∧
      ∀ batch ∈ p.takeReadyToStore.2, AllHashed blockHash batch.2 :=
  hp.takeReadyLoop _ (by simp)

theorem Hashed.markTipComplete : p.markTipComplete.Hashed blockHash := by
  unfold HeadersPipeline.markTipComplete
  split
  · exact hp
  · split
    · exact hp
    · next s hs =>
      have hkept := hp.getElem? hs
      exact hp.setSegment (s := { s with complete := true }) hkept _

theorem Hashed.resetTipSegment : p.resetTipSegment.1.Hashed blockHash := by
  unfold HeadersPipeline.resetTipSegment
  split
  · exact hp
  · split
    · exact hp
    · next s hs =>
      have hkept := hp.getElem? hs
      exact hp.setSegment (s := { s with complete := false }) hkept _

end

/-! ### Idle changes -/

/-- Changes of a pipeline between batches: requests are sent, repeated or dropped, the
completed tip segment is opened again, and a new pipeline is cut into segments. -/
inductive Idle : HeadersPipeline → HeadersPipeline → Prop
  | refl (p : HeadersPipeline) : Idle p p
  | requests {p : HeadersPipeline} {segments : List SegmentState}
      (same : List.Forall₂ (fun s s' => ∃ coordinator, s' = { s with coordinator }) p.segments
        segments) : Idle p { p with segments }
  | reopened (p : HeadersPipeline) : Idle p p.resetTipSegment.1
  | cut {p : HeadersPipeline} (fresh : p.initialized = false) (height : Nat) (hash : BlockHash)
      (targetHeight : Nat) : Idle p (p.init height hash targetHeight)
  | trans {p q r : HeadersPipeline} (first : Idle p q) (second : Idle q r) : Idle p r

theorem idle_map {f : SegmentState → SegmentState}
    (hf : ∀ s, ∃ coordinator, f s = { s with coordinator }) :
    Idle p { p with segments := p.segments.map f } := by
  apply Idle.requests
  rw [forall₂_map_right_iff]
  exact forall₂_same.mpr fun s _ => hf s

theorem idle_sendPending (p : HeadersPipeline) (now : Nat) (accepts : Nat → Bool)
    (tipLocator : List BlockHash) : Idle p (p.sendPending now accepts tipLocator).1 := by
  have hloop : ∀ (segments : List SegmentState) (sent : List (List BlockHash)),
      List.Forall₂ (fun s s' => ∃ coordinator, s' = { s with coordinator }) segments
        (sendPendingLoop now accepts tipLocator segments sent).1 := by
    intro segments
    induction segments with
    | nil => exact fun _ => .nil
    | cons s rest ih =>
      intro sent
      rw [sendPendingLoop]
      split_ifs
      · exact .cons ⟨_, rfl⟩ (ih _)
      · exact .cons ⟨_, rfl⟩ (forall₂_same.mpr fun t _ => ⟨_, rfl⟩)
      · exact .cons ⟨_, rfl⟩ (ih _)
  exact .requests (hloop p.segments [])

theorem Hashed.idle {p' : HeadersPipeline} (hp : p.Hashed blockHash) (h : Idle p p') :
    p'.Hashed blockHash := by
  induction h with
  | refl => exact hp
  | @requests p segments same =>
    intro s' hs'
    obtain ⟨i, hi, rfl⟩ := getElem_of_mem hs'
    have hlt : i < p.segments.length := same.length_eq ▸ hi
    obtain ⟨coordinator, heq⟩ := same.get hlt hi
    simp only [get_eq_getElem] at heq
    rw [heq]
    exact hp p.segments[i] (getElem_mem hlt)
  | reopened => exact hp.resetTipSegment
  | cut => exact hashed_init _ _ _
  | trans _ _ ih ih' => exact ih' (ih hp)

theorem Hashed.sendPending (hp : p.Hashed blockHash) (now : Nat) (accepts : Nat → Bool)
    (tipLocator : List BlockHash) :
    (p.sendPending now accepts tipLocator).1.Hashed blockHash :=
  hp.idle (p.idle_sendPending now accepts tipLocator)

end HeadersPipeline

end Pipeline

end Dashcore
