import Dashcore.Lib.SortedMap

/-!
# Download coordination

Bookkeeping of requested items: a pending queue, the requests in flight with the time
they were sent, generation tags and retry counts. Clock readings are arguments, in
milliseconds.
-/

namespace Dashcore

open SortedMap

/-- Limits of a download coordinator. -/
structure DownloadConfig where
  maxConcurrent : Nat
  timeout : Nat
  deriving DecidableEq

/-- Requests of one kind of item, identified by keys `K`. -/
structure DownloadCoordinator (K : Type) [LinearOrder K] where
  pending : List K
  inFlight : SortedMap K Nat
  generations : SortedMap K Nat
  retryCounts : SortedMap K Nat
  config : DownloadConfig
  deriving DecidableEq

namespace DownloadCoordinator

variable {K : Type} [LinearOrder K]

/-- A coordinator without requests. -/
def new (config : DownloadConfig) : DownloadCoordinator K :=
  { pending := [], inFlight := ∅, generations := ∅, retryCounts := ∅, config }

variable (c : DownloadCoordinator K) (now : Nat)

/-- Forget every request. -/
def clear : DownloadCoordinator K :=
  { c with pending := [], inFlight := ∅, generations := ∅, retryCounts := ∅ }

/-- Queue items behind those that wait already. -/
def enqueue (items : List K) : DownloadCoordinator K :=
  { c with pending := c.pending ++ items }

/-- Put an item at the front of the queue and count the attempt. -/
def enqueueRetry (item : K) : DownloadCoordinator K :=
  { c with
    retryCounts := c.retryCounts.insert item ((c.retryCounts.get? item).getD 0 + 1)
    pending := item :: c.pending }

/-- How many waiting items may be requested now. -/
def availableToSend : Nat :=
  min (c.config.maxConcurrent - c.inFlight.size) c.pending.length

/-- Take items off the queue. They are neither waiting nor in flight until they are marked. -/
def takePending (count : Nat) : DownloadCoordinator K × List K :=
  ({ c with pending := c.pending.drop count }, c.pending.take count)

/-- Record items as sent. -/
def markSent (items : List K) : DownloadCoordinator K :=
  { c with inFlight := items.foldl (fun m item => m.insert item now) c.inFlight }

/-- Record items as sent in a reorg generation. -/
def markSentWithGeneration (items : List K) (generation : Nat) : DownloadCoordinator K :=
  { c.markSent now items with
    generations := items.foldl (fun m item => m.insert item generation) c.generations }

/-- The generation an item in flight was requested in. -/
def generationFor (key : K) : Option Nat := c.generations.get? key

/-- Take a received item out of flight; the result says whether it was in flight. -/
def receive (key : K) : DownloadCoordinator K × Bool :=
  if c.inFlight.contains key then
    ({ c with
        inFlight := c.inFlight.erase key
        generations := c.generations.erase key
        retryCounts := c.retryCounts.erase key }, true)
  else (c, false)

/-- Move everything in flight back to the front of the queue. -/
def requeueInFlight : DownloadCoordinator K :=
  { c with
    pending := c.inFlight.keys ++ c.pending
    inFlight := ∅
    generations := c.generations.filter fun key _ => !c.inFlight.contains key }

/-- Drop an item from the queue. -/
def cancelPending (key : K) : DownloadCoordinator K :=
  { c with
    pending := c.pending.filter (· ≠ key)
    retryCounts := c.retryCounts.erase key
    generations := c.generations.erase key }

/-- Whether an item is in flight. -/
def isInFlight (key : K) : Bool := c.inFlight.contains key

/-- Nothing waits and nothing is in flight. -/
def isEmpty : Bool := c.pending.isEmpty && c.inFlight.size = 0

/-- Number of items waiting. -/
def pendingCount : Nat := c.pending.length

/-- Number of items in flight. -/
def activeCount : Nat := c.inFlight.size

/-- Take the items whose request timed out out of flight. -/
def checkTimeouts : DownloadCoordinator K × List K :=
  let timedOut := (c.inFlight.filter fun _ sentTime => c.config.timeout < now - sentTime).keys
  ({ c with
      inFlight := c.inFlight.filter fun key _ => key ∉ timedOut
      generations := c.generations.filter fun key _ => key ∉ timedOut }, timedOut)

/-- Queue timed-out requests again. -/
def checkAndRetryTimeouts : DownloadCoordinator K :=
  (c.checkTimeouts now).2.foldl enqueueRetry (c.checkTimeouts now).1

/-- What was marked as sent is received as asked for. -/
theorem receive_markSent (key : K) : ∃ c', (c.markSent now [key]).receive key = (c', true) := by
  have hsent : (c.markSent now [key]).inFlight.contains key = true := by
    simp [markSent, contains_iff]
  rw [receive, if_pos hsent]
  exact ⟨_, rfl⟩

/-! ### The items held -/

/-- The coordinator holds the items that satisfy `P`, each of them once: waiting or in
flight. -/
structure Holds (c : DownloadCoordinator K) (P : K → Prop) : Prop where
  nodup : c.pending.Nodup
  disjoint : ∀ {k}, k ∈ c.pending → c.inFlight.get? k = none
  exact : ∀ k, P k ↔ k ∈ c.pending ∨ c.isInFlight k = true

namespace Holds

variable {c : DownloadCoordinator K} {P : K → Prop}

theorem congr (h : c.Holds P) {Q : K → Prop} (hQ : ∀ k, Q k ↔ P k) : c.Holds Q :=
  ⟨h.nodup, h.disjoint, fun k => (hQ k).trans (h.exact k)⟩

theorem of_isEmpty {c : DownloadCoordinator K}
    (hpending : c.pending = []) (hflight : c.inFlight = ∅) (hP : ∀ k, ¬ P k) : c.Holds P := by
  refine ⟨?_, ?_, ?_⟩
  · rw [hpending]
    exact List.nodup_nil
  · intro k hk
    rw [hflight, get?_empty]
  · intro k
    simp [hP k, hpending, isInFlight, hflight, contains]

variable {key : K}

section

variable (h : c.Holds P)
include h

/-- A new item is queued. -/
theorem enqueue (hnew : ¬ P key) :
    (c.enqueue [key]).Holds fun k => P k ∨ k = key := by
  have hout : key ∉ c.pending ∧ c.isInFlight key ≠ true := by
    rw [h.exact key, not_or] at hnew
    exact hnew
  refine ⟨?_, ?_, ?_⟩
  · refine List.nodup_append.mpr ⟨h.nodup, List.nodup_singleton key, ?_⟩
    intro a ha b hb hab
    obtain rfl := List.mem_singleton.mp hb
    exact hout.1 (hab ▸ ha)
  · intro k hk
    rcases List.mem_append.mp hk with hk | hk
    · exact h.disjoint hk
    · obtain rfl := List.mem_singleton.mp hk
      show c.inFlight.get? k = none
      simpa [isInFlight, contains] using hout.2
  · intro k
    rw [h.exact k]
    simp [DownloadCoordinator.enqueue, isInFlight]
    tauto

/-- The items taken off the queue are no longer held. -/
theorem takePending (count : Nat) :
    (c.takePending count).1.Holds (fun k => P k ∧ k ∉ (c.takePending count).2) ∧
      (c.takePending count).2.Nodup ∧ ∀ k ∈ (c.takePending count).2, P k := by
  have hsplit := List.take_append_drop count c.pending
  have hnodup := h.nodup
  rw [← hsplit, List.nodup_append] at hnodup
  obtain ⟨htake, hdrop, hapart⟩ := hnodup
  refine ⟨⟨hdrop, fun hk => h.disjoint (List.mem_of_mem_drop hk), fun k => ?_⟩, htake,
    fun k hk => (h.exact k).mpr (.inl (List.mem_of_mem_take hk))⟩
  have hmem : k ∈ c.pending ↔ k ∈ c.pending.take count ∨ k ∈ c.pending.drop count := by
    rw [← List.mem_append, hsplit]
  show P k ∧ k ∉ c.pending.take count ↔ k ∈ c.pending.drop count ∨ c.isInFlight k = true
  rw [h.exact k, hmem]
  constructor
  · rintro ⟨(hk | hk) | hk, hnot⟩
    · exact absurd hk hnot
    · exact .inl hk
    · exact .inr hk
  · rintro (hk | hk)
    · exact ⟨.inl (.inr hk), fun ht => hapart k ht k hk rfl⟩
    · refine ⟨.inr hk, fun ht => ?_⟩
      have hnone := h.disjoint (List.mem_of_mem_take ht)
      rw [isInFlight, contains, hnone] at hk
      exact absurd hk (by simp)

/-- An item taken off the queue is marked as sent. -/
theorem markSentWithGeneration (hnew : ¬ P key) (now generation : Nat) :
    (c.markSentWithGeneration now [key] generation).Holds fun k => P k ∨ k = key := by
  have hout : key ∉ c.pending := fun hk => hnew ((h.exact key).mpr (.inl hk))
  refine ⟨h.nodup, ?_, ?_⟩
  · intro k hk
    have hne : key ≠ k := fun heq => hout (heq ▸ hk)
    show ((c.inFlight.insert key now).get? k) = none
    rw [get?_insert, if_neg hne]
    exact h.disjoint hk
  · intro k
    show P k ∨ k = key ↔ k ∈ c.pending ∨ (c.inFlight.insert key now).contains k = true
    rw [h.exact k, isInFlight, contains_insert, or_assoc, or_comm (a := k = key)]

/-- An item in flight is received. -/
theorem receive (hflight : c.isInFlight key = true) :
    (c.receive key).1.Holds fun k => P k ∧ k ≠ key := by
  rw [DownloadCoordinator.receive, if_pos (show c.inFlight.contains key = true from hflight)]
  have hout : key ∉ c.pending := by
    intro hk
    rw [isInFlight, contains, h.disjoint hk] at hflight
    exact absurd hflight (by simp)
  refine ⟨h.nodup, ?_, ?_⟩
  · intro k hk
    simp only [get?_erase, h.disjoint hk, ite_self]
  · intro k
    show P k ∧ k ≠ key ↔ k ∈ c.pending ∨ (c.inFlight.erase key).contains k = true
    rw [h.exact k, isInFlight, contains, contains, get?_erase]
    by_cases hk : key = k
    · subst hk
      simp [hout]
    · simp [hk, Ne.symm hk]

/-- A waiting item is dropped. -/
theorem cancelPending (hflight : c.isInFlight key ≠ true) :
    (c.cancelPending key).Holds fun k => P k ∧ k ≠ key := by
  refine ⟨h.nodup.filter _, fun hk => h.disjoint (List.mem_filter.mp hk).1, fun k => ?_⟩
  show P k ∧ k ≠ key ↔ k ∈ c.pending.filter (· ≠ key) ∨ c.isInFlight k = true
  rw [h.exact k, List.mem_filter, decide_eq_true_eq]
  constructor
  · rintro ⟨hk | hk, hne⟩
    · exact .inl ⟨hk, hne⟩
    · exact .inr hk
  · rintro (⟨hk, hne⟩ | hk)
    · exact ⟨.inl hk, hne⟩
    · exact ⟨.inr hk, fun heq => hflight (heq ▸ hk)⟩

/-- An item that is not held goes to the front of the queue. -/
theorem enqueueRetry (hnew : ¬ P key) :
    (c.enqueueRetry key).Holds fun k => P k ∨ k = key := by
  have hout : key ∉ c.pending ∧ c.isInFlight key ≠ true := by
    rw [h.exact key, not_or] at hnew
    exact hnew
  refine ⟨List.nodup_cons.mpr ⟨hout.1, h.nodup⟩, ?_, ?_⟩
  · intro k hk
    rcases List.mem_cons.mp hk with rfl | hk
    · show c.inFlight.get? k = none
      simpa [isInFlight, contains] using hout.2
    · exact h.disjoint hk
  · intro k
    rw [h.exact k]
    simp [DownloadCoordinator.enqueueRetry, isInFlight]
    tauto

end

/-- Items that are not held go to the front of the queue, one after the other. -/
theorem foldl_enqueueRetry {keys : List K} (hkeys : keys.Nodup) (h : c.Holds P)
    (hnew : ∀ k ∈ keys, ¬ P k) :
    (keys.foldl DownloadCoordinator.enqueueRetry c).Holds fun k => P k ∨ k ∈ keys := by
  induction keys generalizing c P with
  | nil => exact h.congr (by simp)
  | cons key rest ih =>
    obtain ⟨hkey, hrest⟩ := List.nodup_cons.mp hkeys
    have hhead := h.enqueueRetry (hnew key List.mem_cons_self)
    refine (ih hrest hhead ?_).congr fun k => ?_
    · rintro k hk (hP | rfl)
      · exact hnew k (List.mem_cons_of_mem key hk) hP
      · exact hkey hk
    · rw [List.mem_cons, or_assoc]

/-- Timed-out requests are neither lost nor doubled. -/
theorem checkAndRetryTimeouts (h : c.Holds P) (now : Nat) :
    (c.checkAndRetryTimeouts now).Holds P := by
  have hkeys : (c.checkTimeouts now).2.Nodup := nodup_keys _
  have hflight : ∀ k ∈ (c.checkTimeouts now).2, c.isInFlight k = true := by
    intro k hk
    obtain ⟨sentTime, hsent⟩ := mem_keys_iff.mp hk
    exact contains_iff.mpr ⟨sentTime, get?_of_filter hsent⟩
  have hrest : (c.checkTimeouts now).1.Holds fun k => P k ∧ k ∉ (c.checkTimeouts now).2 := by
    refine ⟨h.nodup, fun hk => ?_, fun k => ?_⟩
    · show (c.inFlight.filter _).get? _ = none
      rw [get?_filter, h.disjoint hk, Option.filter_none]
    · show P k ∧ k ∉ (c.checkTimeouts now).2 ↔ k ∈ c.pending ∨
        (c.inFlight.filter fun key _ => decide (key ∉ (c.checkTimeouts now).2)).contains k = true
      rw [h.exact k, contains_filter_key, isInFlight, decide_eq_true_eq]
      constructor
      · rintro ⟨hk | hk, hnot⟩
        · exact .inl hk
        · exact .inr ⟨hk, hnot⟩
      · rintro (hk | ⟨hk, hnot⟩)
        · refine ⟨.inl hk, fun ht => ?_⟩
          have hhas := hflight k ht
          rw [isInFlight, contains, h.disjoint hk] at hhas
          exact absurd hhas (by simp)
        · exact ⟨.inr hk, hnot⟩
  refine (hrest.foldl_enqueueRetry hkeys fun k hk hP => hP.2 hk).congr fun k => ?_
  constructor
  · intro hP
    by_cases hk : k ∈ (c.checkTimeouts now).2
    · exact .inr hk
    · exact .inl ⟨hP, hk⟩
  · rintro (hP | hk)
    · exact hP.1
    · exact (h.exact k).mpr (.inr (hflight k hk))

/-- A disconnect neither loses nor doubles an item. -/
theorem requeueInFlight (h : c.Holds P) : c.requeueInFlight.Holds P := by
  refine ⟨?_, fun _ => rfl, fun k => ?_⟩
  · refine List.nodup_append.mpr ⟨nodup_keys _, h.nodup, ?_⟩
    rintro a ha b hb rfl
    obtain ⟨sentTime, hsent⟩ := mem_keys_iff.mp ha
    rw [h.disjoint hb] at hsent
    cases hsent
  · show P k ↔ k ∈ c.inFlight.keys ++ c.pending ∨ (∅ : SortedMap K Nat).contains k = true
    rw [h.exact k, List.mem_append, mem_keys_iff, isInFlight, contains_iff]
    simp only [contains, get?_empty, Option.isSome_none, Bool.false_eq_true, or_false]
    exact or_comm

end Holds

end DownloadCoordinator

end Dashcore
