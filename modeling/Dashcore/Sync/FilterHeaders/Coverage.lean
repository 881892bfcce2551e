import Dashcore.Lib.Runs
import Dashcore.Lib.Tiling
import Dashcore.Sync.FilterHeaders.Manager

/-!
# No range of filter headers is lost

The batches of the pipeline that wait, are in flight or are buffered tile the heights from
the next expected one up to the target. A response moves the next expected height by the
number of filter hashes the peer chose to send, so the tiling lives on the responses being as
long as the batches they answer: a shorter one leaves heights that no batch covers.
-/

namespace Dashcore

open SortedMap DownloadCoordinator FilterHeadersPipeline

namespace FilterHeadersPipeline

/-! ### Operations -/

/-- Move on over a processed response, and over the buffered ones whose turn comes. -/
def drain : Nat → Option (Nat × CFHeaders) → FilterHeadersPipeline → FilterHeadersPipeline
  | _, none, p => p
  | 0, some _, p => p
  | fuel + 1, some (_, data), p =>
    drain fuel (p.advance data.filterHashes.length).2 (p.advance data.filterHashes.length).1

/-- Take in a response that answers a request. -/
def takeIn (p : FilterHeadersPipeline) (startHeight : Nat) (cfheaders : CFHeaders) :
    FilterHeadersPipeline :=
  if (p.receive startHeight cfheaders).2 then
    drain ((p.receive startHeight cfheaders).1.buffered.size + 1) (some (startHeight, cfheaders))
      (p.receive startHeight cfheaders).1
  else (p.receive startHeight cfheaders).1

/-- Handle a response: one that answers no request is ignored. -/
def respond (p : FilterHeadersPipeline) (cfheaders : CFHeaders) : FilterHeadersPipeline :=
  match p.matchResponse cfheaders with
  | none => p
  | some startHeight => p.takeIn startHeight cfheaders

/-- Operations on the pipeline. -/
inductive Op (blockHash : Header → BlockHash)
  | init (headers : PersistentBlockHeaderStorage blockHash) (startHeight targetHeight : Nat)
  | extendTarget (headers : PersistentBlockHeaderStorage blockHash) (newTarget : Nat)
  | send (now generation : Nat) (accepts : Nat → Bool)
  | respond (cfheaders : CFHeaders)
  | handleTimeouts (now : Nat)

/-- The pipeline after an operation. An error leaves the changes made before it. -/
def step {blockHash : Header → BlockHash} (p : FilterHeadersPipeline) :
    Op blockHash → FilterHeadersPipeline
  | .init headers startHeight targetHeight => (p.init headers startHeight targetHeight).1
  | .extendTarget headers newTarget => (p.extendTarget headers newTarget).1
  | .send now generation accepts => (p.sendPendingWithGeneration now generation accepts).1
  | .respond cfheaders => p.respond cfheaders
  | .handleTimeouts now => p.handleTimeouts now

/-! ### The manager's handling of a response -/

section Manager

variable {filterHeader : FilterHash → FilterHeader → FilterHeader}

/-- The buffered responses have hashes. -/
def BufferedNonempty (p : FilterHeadersPipeline) : Prop :=
  ∀ {start data}, p.buffered.get? start = some data → data.filterHashes ≠ []

end Manager

/-! ### Batches -/

/-- The batches of a pipeline: those requested or waiting are named by their stop hash, the
buffered ones by their first height. `heightOf` gives the height of a block. -/
def Batch (heightOf : BlockHash → Nat) (p : FilterHeadersPipeline) :
    BlockHash ⊕ Nat → Nat → Nat → Prop
  | .inl stopHash, s, e => p.batchStarts.get? stopHash = some s ∧ e = heightOf stopHash + 1
  | .inr start, s, e =>
    s = start ∧ ∃ data, p.buffered.get? start = some data ∧ e = start + data.filterHashes.length

/-- The batches tile the heights from the next expected one up to `hi`, and those not buffered
are held by the coordinator. -/
structure Accounted (heightOf : BlockHash → Nat) (p : FilterHeadersPipeline) (lo hi : Nat) :
    Prop where
  holds : p.coordinator.Holds fun stopHash => p.batchStarts.contains stopHash = true
  tiles : Tiles (p.Batch heightOf) lo hi

/-- Nothing is lost: the batches tile what is still expected, no buffered response is kept
past its turn, and requests can be sent. -/
structure Covering (heightOf : BlockHash → Nat) (p : FilterHeadersPipeline) : Prop
    extends Accounted heightOf p p.nextExpected (p.targetHeight + 1) where
  waits : p.buffered.get? p.nextExpected = none
  slots : 0 < p.coordinator.config.maxConcurrent

/-- A height lies in a batch that waits, is in flight, or is buffered at its first height. -/
def Covers (heightOf : BlockHash → Nat) (p : FilterHeadersPipeline) (height : Nat) : Prop :=
  (∃ stopHash start, p.batchStarts.get? stopHash = some start ∧
    (stopHash ∈ p.coordinator.pending ∨ p.coordinator.isInFlight stopHash = true) ∧
    start ≤ height ∧ height ≤ heightOf stopHash) ∨
  ∃ start data, p.buffered.get? start = some data ∧
    start ≤ height ∧ height < start + data.filterHashes.length

theorem Covering.covers {heightOf : BlockHash → Nat} {p : FilterHeadersPipeline}
    (h : p.Covering heightOf) {height : Nat} (hlo : p.nextExpected ≤ height)
    (hhi : height ≤ p.targetHeight) : p.Covers heightOf height := by
  obtain ⟨name, s, e, hbatch, hs, he⟩ := h.tiles.cover hlo (Nat.lt_succ_of_le hhi)
  cases name with
  | inl stopHash =>
    obtain ⟨hstart, rfl⟩ := hbatch
    have hheld := (h.holds.exact stopHash).mp (contains_iff.mpr ⟨s, hstart⟩)
    exact .inl ⟨stopHash, s, hstart, hheld, hs, Nat.le_of_lt_succ he⟩
  | inr start =>
    obtain ⟨rfl, data, hdata, rfl⟩ := hbatch
    exact .inr ⟨s, data, hdata, hs, he⟩

/-! ### Queueing -/

variable {stopHash : BlockHash}

section Queue

variable {blockHash : Header → BlockHash} {heightOf : BlockHash → Nat}

/-- The headers of a range of heights are stored, and their blocks stand at these heights
only. -/
def StopsStored (heightOf : BlockHash → Nat) (headers : PersistentBlockHeaderStorage blockHash)
    (lo hi : Nat) : Prop :=
  ∀ height, lo ≤ height → height ≤ hi →
    ∃ header, headers.getHeader height = .ok (some header) ∧ heightOf (blockHash header) = height

variable {p : FilterHeadersPipeline}

/-- One batch more. -/
theorem Accounted.queueBatch {lo current batchEnd : Nat}
    (h : p.Accounted heightOf lo current)
    (hstop : heightOf stopHash = batchEnd) (hle : current ≤ batchEnd) :
    Accounted heightOf
      { p with
        coordinator := p.coordinator.enqueue [stopHash]
        batchStarts := p.batchStarts.insert stopHash current } lo (batchEnd + 1) := by
  -- a batch with this stop hash would reach beyond what is tiled so far
  have hnew : ∀ s e, ¬ p.Batch heightOf (.inl stopHash) s e := by
    rintro s e hbatch
    have hbound := (h.tiles.bounds hbatch).2.2
    rw [hbatch.2, hstop] at hbound
    omega
  have hstarts : p.batchStarts.get? stopHash = none := by
    rcases hget : p.batchStarts.get? stopHash with _ | s
    · rfl
    · exact absurd ⟨hget, rfl⟩ (hnew s _)
  have hfresh : ¬ p.batchStarts.contains stopHash = true := by
    rw [contains, hstarts]
    simp
  constructor
  · refine (h.holds.enqueue hfresh).congr fun k => ?_
    exact contains_insert.trans or_comm
  · refine (h.tiles.snoc hnew (show current < batchEnd + 1 by omega)).congr fun name s e => ?_
    cases name with
    | inl other =>
      simp only [Batch, get?_insert, Sum.inl.injEq]
      by_cases hother : stopHash = other
      · subst hother
        simp only [if_true, Option.some.injEq, hstarts, hstop, true_and]
        constructor
        · rintro ⟨rfl, rfl⟩
          exact .inr ⟨rfl, rfl⟩
        · rintro (⟨hnone, -⟩ | ⟨rfl, rfl⟩)
          · cases hnone
          · exact ⟨rfl, rfl⟩
      · simp [hother, Ne.symm hother]
    | inr start => simp [Batch]

/-- What the queueing loop leaves alone. -/
structure SameQueue (p p' : FilterHeadersPipeline) : Prop where
  nextExpected : p'.nextExpected = p.nextExpected
  targetHeight : p'.targetHeight = p.targetHeight
  buffered : p'.buffered = p.buffered
  config : p'.coordinator.config = p.coordinator.config

variable {headers : PersistentBlockHeaderStorage blockHash}

/-- The loop queues batches up to the target. -/
theorem Accounted.queueBatches {target lo : Nat}
    {fuel current : Nat} (h : p.Accounted heightOf lo current)
    (hle : current ≤ target + 1) (hfuel : target + 1 - current ≤ fuel)
    (hstored : StopsStored heightOf headers current target) :
    (queueBatches headers target fuel current p).1.Accounted heightOf lo
        (target + 1) ∧
      SameQueue p (queueBatches headers target fuel current p).1 := by
  induction fuel generalizing current p with
  | zero =>
    obtain rfl : current = target + 1 := by omega
    exact ⟨h, rfl, rfl, rfl, rfl⟩
  | succ fuel ih =>
    rw [queueBatches]
    by_cases hmore : current ≤ target
    · rw [if_pos hmore]
      have hend : current ≤ min (current + filterHeadersBatchSize - 1) target := by
        have hsize : 0 < filterHeadersBatchSize := by decide
        omega
      have hendle : min (current + filterHeadersBatchSize - 1) target ≤ target := min_le_right _ _
      obtain ⟨header, hget, hheight⟩ := hstored _ hend hendle
      simp only [hget]
      have hnext := h.queueBatch hheight hend
      obtain ⟨hacc, hsame⟩ := ih hnext (by omega) (by omega)
        fun height hlo hhi => hstored height (by omega) hhi
      exact ⟨hacc, hsame.1, hsame.2, hsame.3, hsame.4⟩
    · rw [if_neg hmore]
      obtain rfl : current = target + 1 := by omega
      exact ⟨h, rfl, rfl, rfl, rfl⟩

theorem Covering.init {start target : Nat} (hslots : 0 < p.coordinator.config.maxConcurrent)
    (hle : start ≤ target + 1) (hstored : StopsStored heightOf headers start target) :
    (p.init headers start target).1.Covering heightOf := by
  have hempty : Accounted heightOf
      { coordinator := p.coordinator.clear
        batchStarts := ∅
        buffered := ∅
        nextExpected := start
        targetHeight := target } start start := by
    refine ⟨.of_isEmpty rfl rfl fun k => by simp [contains], .of_isEmpty ?_ start⟩
    rintro (stopHash | s') s e hbatch
    · exact absurd hbatch.1 (by simp)
    · obtain ⟨-, data, hdata, -⟩ := hbatch
      exact absurd hdata (by simp)
  obtain ⟨hacc, hsame⟩ := hempty.queueBatches hle le_rfl hstored
  have hnext : (p.init headers start target).1.nextExpected = start := hsame.nextExpected
  have htarget : (p.init headers start target).1.targetHeight = target := hsame.targetHeight
  refine ⟨?_, ?_, ?_⟩
  · rw [hnext, htarget]
    exact hacc
  · have hbuf : (p.init headers start target).1.buffered = ∅ := hsame.buffered
    rw [hbuf, get?_empty]
  · have hconfig : (p.init headers start target).1.coordinator.config = p.coordinator.config :=
      hsame.config
    rw [hconfig]
    exact hslots

theorem Covering.extendTarget {newTarget : Nat}
    (h : p.Covering heightOf)
    (hstored : StopsStored heightOf headers (p.targetHeight + 1) newTarget) :
    (p.extendTarget headers newTarget).1.Covering heightOf := by
  unfold FilterHeadersPipeline.extendTarget
  by_cases hlow : newTarget ≤ p.targetHeight
  · rw [if_pos hlow]
    exact h
  · rw [if_neg hlow]
    have hstart : Accounted heightOf { p with targetHeight := newTarget } p.nextExpected
        (p.targetHeight + 1) := ⟨h.holds, h.tiles⟩
    have hle : p.targetHeight + 1 ≤ newTarget + 1 := by omega
    have hfuel : newTarget + 1 - (p.targetHeight + 1) ≤ newTarget - p.targetHeight := by omega
    obtain ⟨hacc, hsame⟩ := hstart.queueBatches hle hfuel hstored
    refine ⟨?_, ?_, ?_⟩
    · rw [hsame.nextExpected, hsame.targetHeight]
      exact hacc
    · rw [hsame.buffered, hsame.nextExpected]
      exact h.waits
    · rw [hsame.config]
      exact h.slots

end Queue

variable {heightOf : BlockHash → Nat} {p : FilterHeadersPipeline}

/-! ### Sending -/

/-- The request loop marks what was taken off the queue, and touches nothing else. -/
theorem sendLoop_holds {now generation : Nat} {accepts : Nat → Bool}
    (haccepts : ∀ n, accepts n = true)
    {stopHashes : List BlockHash} {sent : Nat} {p : FilterHeadersPipeline}
    (hnodup : stopHashes.Nodup) (hlive : ∀ k ∈ stopHashes, p.batchStarts.contains k = true)
    (hholds : p.coordinator.Holds fun k => p.batchStarts.contains k = true ∧ k ∉ stopHashes) :
    ∃ coordinator, (sendLoop now generation accepts stopHashes sent p).1 = { p with coordinator } ∧
      coordinator.pending = p.coordinator.pending ∧
      coordinator.config = p.coordinator.config ∧
      coordinator.Holds fun k => p.batchStarts.contains k = true := by
  induction stopHashes generalizing sent p with
  | nil =>
    refine ⟨p.coordinator, rfl, rfl, rfl, hholds.congr fun k => ?_⟩
    simp
  | cons stopHash rest ih =>
    obtain ⟨hnotin, hrest⟩ := List.nodup_cons.mp hnodup
    obtain ⟨start, hstart⟩ := contains_iff.mp (hlive stopHash List.mem_cons_self)
    rw [sendLoop, hstart]
    rw [if_pos (haccepts sent)]
    have hmark : (p.coordinator.markSentWithGeneration now [stopHash] generation).Holds
        fun k => p.batchStarts.contains k = true ∧ k ∉ rest := by
      have hout : ¬ (p.batchStarts.contains stopHash = true ∧ stopHash ∉ stopHash :: rest) :=
        fun h => h.2 List.mem_cons_self
      refine (hholds.markSentWithGeneration hout now generation).congr fun k => ?_
      by_cases hk : k = stopHash
      · subst hk
        simp [hnotin, contains_iff.mpr ⟨start, hstart⟩]
      · simp [hk]
    obtain ⟨coordinator, heq, hpend, hconfig, hall⟩ := @ih (sent + 1)
      { p with coordinator := p.coordinator.markSentWithGeneration now [stopHash] generation }
      hrest (fun k hk => hlive k (List.mem_cons_of_mem stopHash hk)) hmark
    exact ⟨coordinator, heq, hpend, hconfig, hall⟩

/-- Sending moves batches from the queue into flight. -/
theorem Covering.send_spec (h : p.Covering heightOf) {accepts : Nat → Bool}
    (haccepts : ∀ n, accepts n = true) (now generation : Nat) :
    ∃ coordinator,
      (p.sendPendingWithGeneration now generation accepts).1 = { p with coordinator } ∧
      coordinator.pending = p.coordinator.pending.drop p.coordinator.availableToSend ∧
      coordinator.config = p.coordinator.config ∧
      coordinator.Holds fun k => p.batchStarts.contains k = true := by
  unfold sendPendingWithGeneration
  by_cases hnone : p.coordinator.availableToSend = 0
  · refine ⟨p.coordinator, by simp only [hnone, if_true], ?_, rfl, h.holds⟩
    rw [hnone, List.drop_zero]
  · simp only [hnone, if_false]
    obtain ⟨hholds, hnodup, hlive⟩ := h.holds.takePending p.coordinator.availableToSend
    obtain ⟨coordinator, heq, hpend, hconfig, hall⟩ := @sendLoop_holds now generation accepts
      haccepts _ 0
      { p with coordinator := (p.coordinator.takePending p.coordinator.availableToSend).1 }
      hnodup hlive hholds
    exact ⟨coordinator, heq, hpend, hconfig, hall⟩

theorem Covering.send (h : p.Covering heightOf) {accepts : Nat → Bool}
    (haccepts : ∀ n, accepts n = true) (now generation : Nat) :
    (p.sendPendingWithGeneration now generation accepts).1.Covering heightOf := by
  obtain ⟨coordinator, heq, -, hconfig, hholds⟩ := h.send_spec haccepts now generation
  rw [heq]
  exact ⟨⟨hholds, h.tiles⟩, h.waits, by rw [hconfig]; exact h.slots⟩

/-! ### Timeouts -/

theorem foldl_enqueueRetry_config (keys : List BlockHash) (c : DownloadCoordinator BlockHash) :
    (keys.foldl enqueueRetry c).config = c.config := by
  induction keys generalizing c with
  | nil => rfl
  | cons key rest ih => exact ih (c.enqueueRetry key)

theorem Covering.handleTimeouts (h : p.Covering heightOf) (now : Nat) :
    (p.handleTimeouts now).Covering heightOf := by
  refine ⟨⟨h.holds.checkAndRetryTimeouts now, h.tiles⟩, h.waits, ?_⟩
  have hconfig : (p.handleTimeouts now).coordinator.config = p.coordinator.config :=
    foldl_enqueueRetry_config _ _
  rw [hconfig]
  exact h.slots

/-! ### Responses -/

/-- The batch in hand is taken out of the pipeline: the rest tiles what comes after it. -/
structure InHand (heightOf : BlockHash → Nat) (p : FilterHeadersPipeline) (count : Nat) : Prop
    extends Accounted heightOf p (p.nextExpected + count) (p.targetHeight + 1) where
  slots : 0 < p.coordinator.config.maxConcurrent

/-- Moving on over the batch in hand takes the next one, if it is buffered. -/
theorem InHand.advance {count : Nat} (h : p.InHand heightOf count) :
    match (p.advance count).2 with
    | none => (p.advance count).1.Covering heightOf
    | some (_, data) =>
      (p.advance count).1.InHand heightOf data.filterHashes.length ∧
        (p.advance count).1.buffered.size < p.buffered.size := by
  unfold FilterHeadersPipeline.advance
  rcases hget : p.buffered.get? (p.nextExpected + count) with _ | data
  · simp only [hget]
    exact ⟨⟨h.holds, h.tiles⟩, hget, h.slots⟩
  · simp only [hget]
    have hfirst : p.Batch heightOf (.inr (p.nextExpected + count)) (p.nextExpected + count)
        (p.nextExpected + count + data.filterHashes.length) := ⟨rfl, data, hget, rfl⟩
    refine ⟨⟨⟨h.holds, (h.tiles.tail hfirst).congr fun name s e => ?_⟩, h.slots⟩,
      size_erase_lt hget⟩
    cases name with
    | inl stopHash => simp [Batch]
    | inr start =>
      simp only [Batch, get?_erase, ne_eq, Sum.inr.injEq]
      by_cases hstart : p.nextExpected + count = start
      · simp [hstart]
      · simp [hstart, Ne.symm hstart]

/-- After the loop no buffered response has its turn. -/
theorem InHand.drain {fuel start : Nat} {data : CFHeaders}
    (h : p.InHand heightOf data.filterHashes.length) (hfuel : p.buffered.size < fuel) :
    (FilterHeadersPipeline.drain fuel (some (start, data)) p).Covering heightOf := by
  induction fuel generalizing p start data with
  | zero => exact absurd hfuel (Nat.not_lt_zero _)
  | succ fuel ih =>
    rw [FilterHeadersPipeline.drain]
    have hadvance := h.advance
    generalize (p.advance data.filterHashes.length).2 = ready at hadvance ⊢
    cases ready with
    | none =>
      cases fuel with
      | zero => exact hadvance
      | succ fuel => exact hadvance
    | some next =>
      exact ih hadvance.1 (by omega)

/-- Taking the request of a batch off the books leaves the other requests. -/
theorem holds_receive (h : p.coordinator.Holds fun k => p.batchStarts.contains k = true) (hflight : p.coordinator.isInFlight stopHash = true) :
    (p.coordinator.receive stopHash).1.Holds
      fun k => (p.batchStarts.erase stopHash).contains k = true := by
  refine (h.receive hflight).congr fun k => ?_
  simp only [contains, get?_erase]
  by_cases hk : stopHash = k
  · simp [hk]
  · simp [hk, Ne.symm hk]

theorem receive_config (c : DownloadCoordinator BlockHash) (stopHash : BlockHash) :
    (c.receive stopHash).1.config = c.config := by
  unfold DownloadCoordinator.receive
  split_ifs <;> rfl

variable {cfheaders : CFHeaders} {start : Nat}

/-- A response as long as its batch keeps the tiling, whether it is its turn or not. -/
theorem Covering.takeIn (h : p.Covering heightOf)
    (hflight : p.coordinator.isInFlight cfheaders.stopHash = true)
    (hstart : p.batchStarts.get? cfheaders.stopHash = some start)
    (hlength : start + cfheaders.filterHashes.length = heightOf cfheaders.stopHash + 1) :
    (p.takeIn start cfheaders).Covering heightOf := by
  have hbatch : p.Batch heightOf (.inl cfheaders.stopHash) start
      (start + cfheaders.filterHashes.length) := ⟨hstart, hlength⟩
  have hlow : p.nextExpected ≤ start := (h.tiles.bounds hbatch).1
  have hholds := holds_receive h.holds hflight
  have hslots : 0 < (p.coordinator.receive cfheaders.stopHash).1.config.maxConcurrent := by
    rw [receive_config]
    exact h.slots
  unfold FilterHeadersPipeline.takeIn FilterHeadersPipeline.receive
  by_cases hturn : start = p.nextExpected
  · -- the lowest batch: take it out and move on
    subst hturn
    simp only [if_true]
    refine InHand.drain ⟨⟨hholds, (h.tiles.tail hbatch).congr fun name s e => ?_⟩, hslots⟩
      (Nat.lt_succ_self _)
    cases name with
    | inl stopHash =>
      simp only [Batch, get?_erase, ne_eq, Sum.inl.injEq]
      by_cases hk : cfheaders.stopHash = stopHash
      · simp [hk]
      · simp [hk, Ne.symm hk]
    | inr other => simp [Batch]
  · -- a later batch: it is buffered under its first height
    have hlater : p.nextExpected < start := by omega
    simp only [hturn, hlater, if_true, if_false, Bool.false_eq_true]
    have hnew : ∀ s e, ¬ p.Batch heightOf (.inr start) s e := by
      intro s e hbuf
      obtain ⟨rfl, -⟩ := id hbuf
      exact absurd (h.tiles.eq_of_start hbatch hbuf) (by simp)
    refine ⟨⟨hholds, (h.tiles.rename (.inl cfheaders.stopHash) hnew).congr fun name s e => ?_⟩, ?_, hslots⟩
    · cases name with
      | inl stopHash =>
        simp only [Batch, get?_erase, ne_eq, Sum.inl.injEq, reduceCtorEq, false_and, or_false]
        by_cases hk : cfheaders.stopHash = stopHash
        · simp [hk]
        · simp [hk, Ne.symm hk]
      | inr other =>
        simp only [Batch, get?_insert, ne_eq, reduceCtorEq, not_false_eq_true, and_true,
          Sum.inr.injEq]
        by_cases hother : start = other
        · subst hother
          have hnone : p.buffered.get? start = none := by
            rcases hget : p.buffered.get? start with _ | data
            · rfl
            · exact absurd ⟨rfl, data, hget, rfl⟩ (hnew start _)
          simp only [if_true, Option.some.injEq, exists_eq_left', hnone, hstart]
          constructor
          · rintro ⟨rfl, rfl⟩
            exact .inr ⟨trivial, rfl, hlength⟩
          · rintro (⟨-, data, hdata, -⟩ | ⟨-, rfl, rfl⟩)
            · cases hdata
            · exact ⟨rfl, hlength.symm⟩
        · simp [hother, Ne.symm hother]
    · simp only [get?_insert, hturn, if_false]
      exact h.waits

/-! ### Runs -/

/-- The operations that keep every range: the headers asked for are stored, the request
channel is open, and a response that is accepted has one hash for each height of its batch. -/
def Answered {blockHash : Header → BlockHash} (heightOf : BlockHash → Nat)
    (p : FilterHeadersPipeline) : Op blockHash → Prop
  | .init headers startHeight targetHeight =>
    startHeight ≤ targetHeight + 1 ∧ StopsStored heightOf headers startHeight targetHeight
  | .extendTarget headers newTarget => StopsStored heightOf headers (p.targetHeight + 1) newTarget
  | .send _ _ accepts => ∀ n, accepts n = true
  | .respond cfheaders => ∀ start, p.matchResponse cfheaders = some start →
    start + cfheaders.filterHashes.length = heightOf cfheaders.stopHash + 1
  | .handleTimeouts _ => True

theorem matchResponse_eq_some (h : p.matchResponse cfheaders = some start) :
    cfheaders.filterHashes ≠ [] ∧ p.coordinator.isInFlight cfheaders.stopHash = true ∧
      p.batchStarts.get? cfheaders.stopHash = some start := by
  unfold matchResponse at h
  split_ifs at h with hempty hflight
  exact ⟨by simpa using hempty, hflight, h⟩

/-- One operation keeps the tiling. -/
theorem Covering.step {blockHash : Header → BlockHash} (h : p.Covering heightOf)
    (op : Op blockHash) (hop : p.Answered heightOf op) : (p.step op).Covering heightOf := by
  cases op with
  | init headers start target => exact .init h.slots hop.1 hop.2
  | extendTarget headers newTarget => exact h.extendTarget hop
  | send now generation accepts => exact h.send hop now generation
  | handleTimeouts now => exact h.handleTimeouts now
  | respond cfheaders =>
    show (p.respond cfheaders).Covering heightOf
    unfold respond
    rcases hmatch : p.matchResponse cfheaders with _ | start
    · exact h
    · obtain ⟨-, hflight, hstart⟩ := matchResponse_eq_some hmatch
      exact h.takeIn hflight hstart (hop start hmatch)

/-! ### Completion -/

theorem drain_batchStarts (fuel : Nat) (ready : Option (Nat × CFHeaders))
    (p : FilterHeadersPipeline) : (drain fuel ready p).batchStarts = p.batchStarts := by
  induction fuel generalizing ready p with
  | zero => cases ready <;> rfl
  | succ fuel ih =>
    cases ready with
    | none => rfl
    | some next =>
      obtain ⟨start, data⟩ := next
      rw [drain, ih]
      unfold advance
      rcases hget : p.buffered.get? (p.nextExpected + data.filterHashes.length) with _ | data'
      · simp only [hget]
      · simp only [hget]

theorem takeIn_batchStarts (p : FilterHeadersPipeline) (start : Nat) (cfheaders : CFHeaders) :
    (p.takeIn start cfheaders).batchStarts = p.batchStarts.erase cfheaders.stopHash := by
  have hrecv : (p.receive start cfheaders).1.batchStarts =
      p.batchStarts.erase cfheaders.stopHash := by
    unfold receive
    dsimp only
    split_ifs <;> rfl
  unfold takeIn
  split_ifs
  · rw [drain_batchStarts, hrecv]
  · exact hrecv

/-- A response with one hash for each height of its batch. -/
def fullResponse (heightOf : BlockHash → Nat) (stopHash : BlockHash) (start : Nat) : CFHeaders where
  stopHash
  previousFilterHeader := 0
  filterHashes := List.replicate (heightOf stopHash + 1 - start) 0

section Completion

variable (blockHash : Header → BlockHash) {stopHash : BlockHash} (h : p.Covering heightOf)
include h

/-- A batch in flight can be answered. -/
theorem Covering.answer (hflight : p.coordinator.isInFlight stopHash = true) :
    ∃ op : Op blockHash, p.Answered heightOf op ∧
      (p.step op).batchStarts.size < p.batchStarts.size := by
  obtain ⟨start, hstart⟩ := contains_iff.mp ((h.holds.exact stopHash).mpr (.inr hflight))
  have hbatch : p.Batch heightOf (.inl stopHash) start (heightOf stopHash + 1) := ⟨hstart, rfl⟩
  have hlt := (h.tiles.bounds hbatch).2.1
  have hne : (fullResponse heightOf stopHash start).filterHashes.isEmpty = false := by
    simp [fullResponse]
    omega
  have hmatch : p.matchResponse (fullResponse heightOf stopHash start) = some start := by
    unfold matchResponse
    rw [hne]
    rw [if_pos (show p.coordinator.isInFlight (fullResponse heightOf stopHash start).stopHash = true
      from hflight)]
    exact hstart
  refine ⟨.respond (fullResponse heightOf stopHash start), fun start' hstart' => ?_, ?_⟩
  · obtain rfl := Option.mem_unique hmatch hstart'
    simp [fullResponse]
    omega
  · show (p.respond (fullResponse heightOf stopHash start)).batchStarts.size < _
    rw [respond, hmatch]
    rw [takeIn_batchStarts]
    exact size_erase_lt hstart

/-- With nothing in flight, sending brings a waiting batch into flight. -/
theorem Covering.exists_inFlight_send (hidle : ∀ k, ¬ p.coordinator.isInFlight k = true)
    (hlive : p.batchStarts.contains stopHash = true) :
    ∃ k, (p.sendPendingWithGeneration 0 0 fun _ => true).1.coordinator.isInFlight k = true := by
  have hwaiting : p.coordinator.pending ≠ [] := by
    intro hnil
    rcases (h.holds.exact stopHash).mp hlive with hmem | hflight
    · rw [hnil] at hmem
      exact absurd hmem (by simp)
    · exact hidle stopHash hflight
  obtain ⟨first, rest, hpend⟩ := List.exists_cons_of_ne_nil hwaiting
  have hsize : p.coordinator.inFlight.size = 0 := by
    refine size_eq_zero_iff.mpr fun k => ?_
    have hnot := hidle k
    simpa [isInFlight, contains] using hnot
  have havailable : p.coordinator.availableToSend ≠ 0 := by
    have hslots := h.slots
    simp only [availableToSend, hsize, hpend, List.length_cons]
    omega
  obtain ⟨coordinator, heq, hdrop, -, hholds⟩ := h.send_spec (fun _ => rfl) 0 0
  refine ⟨first, ?_⟩
  have hheld : first ∈ coordinator.pending ∨ coordinator.isInFlight first = true := by
    refine (hholds.exact first).mp ((h.holds.exact first).mpr (.inl ?_))
    rw [hpend]
    exact List.mem_cons_self
  -- the first of the queue is taken off it, so it is in flight
  have hout : first ∉ coordinator.pending := by
    have hnodup := h.holds.nodup
    obtain ⟨count, hcount⟩ := Nat.exists_eq_succ_of_ne_zero havailable
    rw [hdrop, hcount, hpend, List.drop_succ_cons]
    rw [hpend] at hnodup
    exact fun hmem => (List.nodup_cons.mp hnodup).1 (List.mem_of_mem_drop hmem)
  rw [heq]
  exact hheld.resolve_left hout

/-- Without batches on request, nothing is left to do. -/
theorem Covering.isComplete (hnone : ∀ k, ¬ p.batchStarts.contains k = true) :
    p.isComplete = true := by
  have hpend : p.coordinator.pending = [] := by
    refine List.eq_nil_iff_forall_not_mem.mpr fun k hk => ?_
    exact hnone k ((h.holds.exact k).mpr (.inl hk))
  have hflight : p.coordinator.inFlight.size = 0 := by
    refine size_eq_zero_iff.mpr fun k => ?_
    have hnot : ¬ p.coordinator.isInFlight k = true := fun hk =>
      hnone k ((h.holds.exact k).mpr (.inr hk))
    simpa [isInFlight, contains] using hnot
  -- a batch that covers the next expected height would have had its turn
  have hdone : p.targetHeight < p.nextExpected := by
    by_contra hle
    obtain ⟨name, s, e, hbatch, hs, -⟩ := h.tiles.cover le_rfl (Nat.lt_succ_of_le (not_lt.mp hle))
    have hlow := (h.tiles.bounds hbatch).1
    cases name with
    | inl stopHash => exact hnone stopHash (contains_iff.mpr ⟨s, hbatch.1⟩)
    | inr start =>
      obtain ⟨rfl, data, hdata, -⟩ := hbatch
      obtain rfl : s = p.nextExpected := le_antisymm hs hlow
      rw [h.waits] at hdata
      cases hdata
  have hbuf : p.buffered.size = 0 := by
    refine size_eq_zero_iff.mpr fun k => ?_
    rcases hget : p.buffered.get? k with _ | data
    · rfl
    · have hbatch : p.Batch heightOf (.inr k) k (k + data.filterHashes.length) :=
        ⟨rfl, data, hget, rfl⟩
      obtain ⟨hlo, hlt, hhi⟩ := h.tiles.bounds hbatch
      omega
  simp [FilterHeadersPipeline.isComplete, isEmpty, hpend, hflight, hbuf, hdone]

/-- As long as a batch is on request, further operations bring one home. -/
theorem Covering.exists_fewer (hlive : p.batchStarts.contains stopHash = true) :
    ∃ ops : List (Op blockHash), Runs.Along FilterHeadersPipeline.step (Answered heightOf) p ops ∧
      (Runs.run FilterHeadersPipeline.step p ops).batchStarts.size < p.batchStarts.size := by
  by_cases hbusy : ∃ k, p.coordinator.isInFlight k = true
  · obtain ⟨k, hflight⟩ := hbusy
    obtain ⟨op, hop, hfewer⟩ := h.answer blockHash hflight
    exact ⟨[op], ⟨hop, trivial⟩, hfewer⟩
  · obtain ⟨k, hflight⟩ := h.exists_inFlight_send (not_exists.mp hbusy) hlive
    have hsend : (p.sendPendingWithGeneration 0 0 fun _ => true).1.Covering heightOf :=
      h.send (fun _ => rfl) 0 0
    obtain ⟨op, hop, hfewer⟩ := hsend.answer blockHash hflight
    obtain ⟨coordinator, heq, -⟩ := h.send_spec (fun _ => rfl) 0 0
    have hstarts : (p.sendPendingWithGeneration 0 0 fun _ => true).1.batchStarts = p.batchStarts := by
      rw [heq]
    rw [hstarts] at hfewer
    exact ⟨[.send 0 0 fun _ => true, op], ⟨fun _ => rfl, hop, trivial⟩, hfewer⟩

/-- With the tiling, the pipeline can be completed. -/
theorem Covering.exists_isComplete :
    ∃ ops : List (Op blockHash), Runs.Along FilterHeadersPipeline.step (Answered heightOf) p ops ∧
      (Runs.run FilterHeadersPipeline.step p ops).isComplete = true := by
  -- on the number of batches on request
  induction hsize : p.batchStarts.size using Nat.strong_induction_on generalizing p with
  | _ size ih =>
    by_cases hlive : ∃ k, p.batchStarts.contains k = true
    · obtain ⟨k, hk⟩ := hlive
      obtain ⟨ops, halong, hfewer⟩ := h.exists_fewer blockHash hk
      have hnext := @Runs.invariant_run _ _ FilterHeadersPipeline.step (Covering heightOf) _
        (fun q op hq hop => hq.step op hop) p ops h halong
      rw [hsize] at hfewer
      obtain ⟨rest, hrest, hcomp⟩ := ih _ hfewer hnext rfl
      exact ⟨ops ++ rest, Runs.along_append.mpr ⟨halong, hrest⟩, by rwa [Runs.run_append]⟩
    · exact ⟨[], trivial, h.isComplete (not_exists.mp hlive)⟩

end Completion

/-- In every run that starts with `init` and whose operations keep every range, each height
still expected is covered by a batch, and the pipeline can be completed. -/
theorem run_covered {blockHash : Header → BlockHash} (heightOf : BlockHash → Nat)
    (headers : PersistentBlockHeaderStorage blockHash) (startHeight targetHeight : Nat)
    (ops : List (Op blockHash))
    (hops : Runs.Along step (Answered heightOf) new (.init headers startHeight targetHeight :: ops)) :
    (∀ height,
      (Runs.run step new (.init headers startHeight targetHeight :: ops)).nextExpected ≤ height →
      height ≤ (Runs.run step new (.init headers startHeight targetHeight :: ops)).targetHeight →
      (Runs.run step new (.init headers startHeight targetHeight :: ops)).Covers heightOf height) ∧
    ∃ rest : List (Op blockHash),
      Runs.Along step (Answered heightOf)
        (Runs.run step new (.init headers startHeight targetHeight :: ops)) rest ∧
      (Runs.run step (Runs.run step new (.init headers startHeight targetHeight :: ops))
        rest).isComplete = true := by
  obtain ⟨hinit, hrest⟩ := hops
  have hstart : (new.step (.init headers startHeight targetHeight)).Covering heightOf :=
    .init (by decide) hinit.1 hinit.2
  have hcovering := @Runs.invariant_run _ _ step (Covering heightOf) _
    (fun q op hq hop => hq.step op hop) _ ops hstart hrest
  exact ⟨fun height hlo hhi => hcovering.covers hlo hhi, hcovering.exists_isComplete blockHash⟩

/-! ### A response that is too short -/

namespace ShortResponse

open SparseBlocks

/-- Block headers up to height 2. The block at a height has the next number as its hash. -/
def headers : PersistentBlockHeaderStorage nonceHash :=
  PersistentBlockHeaderStorage.storeHashedHeaders ⟨.empty, ∅⟩
    [headerAfter 0 1, headerAfter 1 2, headerAfter 2 3]

def hashHeight (hash : BlockHash) : Nat := hash.val - 1

def send : Op nonceHash := .send 0 0 fun _ => true

theorem stored_one : StopsStored hashHeight headers 1 1 := by
  intro height hlo hhi
  obtain rfl : height = 1 := by omega
  exact ⟨(headerAfter 1 2).header, by decide +kernel, by decide⟩

theorem stored_two : StopsStored hashHeight headers 2 2 := by
  intro height hlo hhi
  obtain rfl : height = 2 := by omega
  exact ⟨(headerAfter 2 3).header, by decide +kernel, by decide⟩

/-- Height 1 is reported in full, and the target moves to height 2. -/
def fullOps : List (Op nonceHash) := [send, .respond ⟨2, 0, [5]⟩, .extendTarget headers 2]

/-- The run is at height 2 and has a batch for it. -/
theorem run_covered_extended :
    (Runs.run step new (.init headers 1 1 :: fullOps)).nextExpected = 2 ∧
    (Runs.run step new (.init headers 1 1 :: fullOps)).Covers hashHeight 2 := by
  have hnext : (Runs.run step new (.init headers 1 1 :: fullOps)).nextExpected = 2 := by
    decide +kernel
  have htarget : (Runs.run step new (.init headers 1 1 :: fullOps)).targetHeight = 2 := by
    decide +kernel
  have hmatch : (Runs.run step new [.init headers 1 1, send]).matchResponse ⟨2, 0, [5]⟩ = some 1 := by
    decide +kernel
  have hextend : (Runs.run step new [.init headers 1 1, send,
      .respond ⟨2, 0, [5]⟩]).targetHeight = 1 := by decide +kernel
  refine ⟨hnext, (run_covered hashHeight headers 1 1 fullOps
    ⟨⟨by decide, stored_one⟩, fun _ => rfl, fun start hstart => ?_, ?_, trivial⟩).1 2 hnext.le
      htarget.ge⟩
  · obtain rfl := Option.mem_unique hmatch hstart
    decide
  · show StopsStored hashHeight headers (Runs.run step new [.init headers 1 1, send,
      .respond ⟨2, 0, [5]⟩]).targetHeight.succ 2
    rw [hextend]
    exact stored_two

/-- One hash answers the batch of heights 1 and 2. -/
def shortOps : List (Op nonceHash) := [.init headers 1 2, send, .respond ⟨3, 0, [5]⟩]

/-- The response is accepted, height 2 is expected next, and no batch covers it. -/
theorem short_response_not_covered :
    (Runs.run step new [.init headers 1 2, send]).matchResponse ⟨3, 0, [5]⟩ = some 1 ∧
    ¬ ∀ height, (Runs.run step new shortOps).nextExpected ≤ height →
      height ≤ (Runs.run step new shortOps).targetHeight →
      (Runs.run step new shortOps).Covers hashHeight height := by
  refine ⟨by decide +kernel, fun hall => ?_⟩
  have hstarts : (Runs.run step new shortOps).batchStarts = ∅ := by decide +kernel
  have hbuf : (Runs.run step new shortOps).buffered = ∅ := by decide +kernel
  obtain ⟨stopHash, start, hstart, -⟩ | ⟨start, data, hdata, -⟩ :=
    hall 2 (by decide +kernel) (by decide +kernel)
  · rw [hstarts] at hstart
    cases hstart
  · rw [hbuf] at hdata
    cases hdata

end ShortResponse

end FilterHeadersPipeline

end Dashcore
