import Dashcore.Lib.Runs
import Dashcore.Sync.FilterHeaders.Manager

/-!
# The stored filter headers are chained

Each stored filter header should be the hash of the filter hash reported for its height and
of the filter header stored below. Within one response this is so by computation. Between two
responses it depends on the peers, since the previous filter header of a response is never
compared with the store. If all responses are pieces of one chain of filter headers, then the
store holds a piece of this chain, in whatever order the responses arrive.
-/

namespace Dashcore

open DownloadCoordinator SortedMap Option

variable {filterHeader : FilterHash → FilterHeader → FilterHeader}

/-! ### Chaining filter hashes -/

theorem chainFilterHashes_length (prevHeader : FilterHeader) (filterHashes : List FilterHash) :
    (chainFilterHashes filterHeader prevHeader filterHashes).length = filterHashes.length := by
  induction filterHashes generalizing prevHeader with
  | nil => rfl
  | cons filterHash rest ih => simp [chainFilterHashes, ih]

/-- Every computed header comes from its filter hash and the header before. -/
theorem chainFilterHashes_getElem? {prevHeader : FilterHeader} {filterHashes : List FilterHash}
    {i : Nat} {header : FilterHeader}
    (h : (chainFilterHashes filterHeader prevHeader filterHashes)[i]? = some header) :
    ∃ filterHash before, filterHashes[i]? = some filterHash ∧
      (prevHeader :: chainFilterHashes filterHeader prevHeader filterHashes)[i]? = some before ∧
      header = filterHeader filterHash before := by
  induction filterHashes generalizing prevHeader i with
  | nil => simp [chainFilterHashes] at h
  | cons filterHash rest ih =>
    cases i with
    | zero =>
      have hfirst : filterHeader filterHash prevHeader = header := by
        simpa [chainFilterHashes] using h
      exact ⟨filterHash, prevHeader, rfl, rfl, hfirst.symm⟩
    | succ i => exact ih (by simpa [chainFilterHashes] using h)

/-! ### Pieces of a chain -/

section Chain

variable {chain : Nat → FilterHeader} {startHeight : Nat} {cfheaders : CFHeaders}

variable (filterHeader) in
/-- A response reports a piece of a chain of filter headers, from a height on. -/
structure PieceOf (chain : Nat → FilterHeader) (startHeight : Nat) (cfheaders : CFHeaders) :
    Prop where
  previous : 0 < startHeight → cfheaders.previousFilterHeader = chain (startHeight - 1)
  headers : ∀ i header, (computeFilterHeaders filterHeader cfheaders)[i]? = some header →
    header = chain (startHeight + i)

/-- The reported filter hashes link the chain. -/
theorem PieceOf.linked (hpiece : PieceOf filterHeader chain startHeight cfheaders) {i : Nat}
    (hi : i < cfheaders.filterHashes.length) (hpos : 0 < startHeight + i) :
    ∃ filterHash, cfheaders.filterHashes[i]? = some filterHash ∧
      chain (startHeight + i) = filterHeader filterHash (chain (startHeight + i - 1)) := by
  have hlen : i < (computeFilterHeaders filterHeader cfheaders).length := by
    rwa [computeFilterHeaders, chainFilterHashes_length]
  have hget := List.getElem?_eq_getElem hlen
  obtain ⟨filterHash, before, hhash, hbefore, heq⟩ := chainFilterHashes_getElem? hget
  refine ⟨filterHash, hhash, ?_⟩
  rw [← hpiece.headers i _ hget, heq]
  congr 1
  cases i with
  | zero =>
    rw [← Option.some.inj hbefore]
    exact hpiece.previous hpos
  | succ i => exact hpiece.headers i before hbefore

/-! ### Stored pieces -/

section Stored

variable (filterHeader) in
/-- The heights in range hold a piece of the chain, and what was reported links it. -/
structure OnChain (chain : Nat → FilterHeader) (content : HeightMap FilterHeader)
    (reported : Nat → Option FilterHash) : Prop where
  stored : ∀ start tip, content.start = some start → content.tip = some tip →
    ∀ h, start ≤ h → h ≤ tip → content.slot h = chain h
  linked : ∀ start tip, content.start = some start → content.tip = some tip →
    ∀ h, start < h → h ≤ tip →
      ∃ filterHash, reported h = some filterHash ∧ chain h = filterHeader filterHash (chain (h - 1))

variable {content : HeightMap FilterHeader} {reported : Nat → Option FilterHash} {height : Nat}
  {items : List FilterHeader}

/-- The next height to store continues a map, or the map is empty or holds height 0 only. -/
def Aligned (content : HeightMap FilterHeader) (height : Nat) : Prop :=
  content.tip = none ∨ (∃ tip, content.tip = some tip ∧ height = tip + 1) ∨
    (height = 0 ∧ content.tip = some 0)

/-- Below the items stored the range begins where it did. -/
theorem start_of_storeAt {start : Nat} (hne : items ≠ [])
    (hs : (content.storeAt items height).start = some start) (hlt : start < height) :
    content.start = some start := by
  have hempty : items.isEmpty = false := by simpa using hne
  simp only [HeightMap.storeAt, hempty, Bool.false_eq_true, if_false, Option.some.injEq] at hs
  cases hstart : content.start with
  | none =>
    rw [hstart, elim_none] at hs
    omega
  | some start' =>
    rw [hstart, elim_some] at hs
    exact congrArg some (by omega)

/-- Storing a piece of the chain that meets the last height and does not end below it. -/
theorem OnChain.storeAt {reported' : Nat → Option FilterHash}
    (hon : OnChain filterHeader chain content reported)
    (hempty : content.tip = none → content.start = none) (hne : items ≠ [])
    (hmeets : ∀ tip, content.tip = some tip → height ≤ tip + 1 ∧ tip < height + items.length)
    (hitems : ∀ i item, items[i]? = some item → item = chain (height + i))
    (hold : ∀ h < height, reported' h = reported h)
    (hnew : ∀ i < items.length, ∀ start, (content.storeAt items height).start = some start →
      start < height + i → ∃ filterHash, reported' (height + i) = some filterHash ∧
        chain (height + i) = filterHeader filterHash (chain (height + i - 1))) :
    OnChain filterHeader chain (content.storeAt items height) reported' ∧
      (content.storeAt items height).tip = some (height + items.length - 1) := by
  have hlen := List.length_pos_of_ne_nil hne
  have hempty' : items.isEmpty = false := by simpa using hne
  have htip : (content.storeAt items height).tip = some (height + items.length - 1) := by
    simp only [HeightMap.storeAt, hempty', Bool.false_eq_true, if_false, Option.some.injEq]
    cases hlast : content.tip with
    | none => rfl
    | some tip =>
      obtain ⟨-, hle⟩ := hmeets tip hlast
      exact max_eq_right (by omega)
  -- below the new items the range is the old one
  have hbelow : ∀ start h, (content.storeAt items height).start = some start → start ≤ h →
      h < height → content.start = some start ∧ ∃ tip, content.tip = some tip ∧ h ≤ tip := by
    intro start h hs hle hlt
    have hstart := start_of_storeAt hne hs (hle.trans_lt hlt)
    obtain ⟨tip, hlast⟩ : ∃ tip, content.tip = some tip :=
      ne_none_iff_exists'.mp fun hnone => by simp [hempty hnone] at hstart
    obtain ⟨hle', -⟩ := hmeets tip hlast
    exact ⟨hstart, tip, hlast, by omega⟩
  refine ⟨⟨fun start tip hs ht h hle hht => ?_, fun start tip hs ht h hlt hht => ?_⟩, htip⟩
  · rw [htip, Option.some.injEq] at ht
    simp only [HeightMap.storeAt, hempty', Bool.false_eq_true, if_false]
    by_cases hh : height ≤ h
    · have hi : h - height < items.length := by omega
      rw [if_pos hh, List.getElem?_eq_getElem hi, getD_some,
        hitems _ _ (List.getElem?_eq_getElem hi), Nat.add_sub_cancel' hh]
    · rw [if_neg hh]
      obtain ⟨hs', tip', ht', hle'⟩ := hbelow start h hs hle (not_le.mp hh)
      exact hon.stored start tip' hs' ht' h hle hle'
  · rw [htip, Option.some.injEq] at ht
    by_cases hh : height ≤ h
    · have hlink := hnew (h - height) (by omega) start hs (by omega)
      rwa [Nat.add_sub_cancel' hh] at hlink
    · obtain ⟨hs', tip', ht', hle'⟩ := hbelow start h hs hlt.le (not_le.mp hh)
      rw [hold h (not_le.mp hh)]
      exact hon.linked start tip' hs' ht' h hlt hle'

/-- Storing the header of the last height again, or the first header at all. -/
theorem OnChain.storeLast {item : FilterHeader} (hon : OnChain filterHeader chain content reported)
    (hempty : content.tip = none → content.start = none)
    (hlast : content.tip = none ∨ content.tip = some height) (hitem : item = chain height) :
    OnChain filterHeader chain (content.storeAt [item] height) reported ∧
      (content.storeAt [item] height).tip = some height := by
  refine hon.storeAt hempty (List.cons_ne_nil _ _) ?_ ?_ (fun _ _ => rfl) ?_
  · intro tip htip
    rw [htip] at hlast
    obtain rfl : tip = height := by simpa using hlast
    exact ⟨Nat.le_succ tip, Nat.lt_succ_self tip⟩
  · intro i other hget
    obtain ⟨rfl, rfl⟩ : i = 0 ∧ item = other := by simpa [List.getElem?_singleton] using hget
    exact hitem
  · intro i hi start hs hlt
    obtain rfl : i = 0 := by simpa using hi
    have hstart := start_of_storeAt (List.cons_ne_nil _ _) hs hlt
    have hsome : content.tip ≠ none := fun hnone => by simp [hempty hnone] at hstart
    exact hon.linked start height hstart (hlast.resolve_left hsome) height hlt le_rfl

end Stored

/-! ### What the pipeline operations leave alone -/

namespace FilterHeadersPipeline

/-- The buffer and the next height are the same, and no work was found in a finished
pipeline. -/
structure Kept (p p' : FilterHeadersPipeline) : Prop where
  buffered : p'.buffered = p.buffered
  nextExpected : p'.nextExpected = p.nextExpected
  incomplete : p'.isComplete = false → p.isComplete = false

variable {p : FilterHeadersPipeline}

theorem isComplete_of_pending (h : p.coordinator.pending ≠ []) :
    p.isComplete = false := by
  simp [isComplete, isEmpty, h]

/-- A response can only be matched while a request is in flight. -/
theorem isComplete_of_matchResponse {cfheaders : CFHeaders}
    {startHeight : Nat} (h : p.matchResponse cfheaders = some startHeight) :
    p.isComplete = false ∧ cfheaders.filterHashes ≠ [] := by
  unfold matchResponse at h
  split_ifs at h with hempty hflight
  refine ⟨?_, by simpa using hempty⟩
  obtain ⟨sent, hsent⟩ := contains_iff.mp hflight
  have hmem := mem_entries_iff.mpr hsent
  have hsize : p.coordinator.inFlight.size ≠ 0 := by
    intro hzero
    rw [List.length_eq_zero_iff.mp hzero] at hmem
    simp at hmem
  simp [isComplete, isEmpty, hsize]

variable (p : FilterHeadersPipeline)

/-- Only the response under the new next height leaves the buffer. -/
theorem advance_spec (count : Nat) :
    (p.advance count).1.nextExpected = p.nextExpected + count ∧
    (∀ height data, (p.advance count).1.buffered.get? height = some data →
      p.buffered.get? height = some data) ∧
    ∀ height data, (p.advance count).2 = some (height, data) →
      height = p.nextExpected + count ∧ p.buffered.get? height = some data := by
  unfold advance
  dsimp only
  split
  · next next hnext =>
    refine ⟨rfl, fun height data hget => (of_get?_erase hget).2,
      fun height data hready => ?_⟩
    obtain ⟨rfl, rfl⟩ := Prod.mk.inj (Option.some.inj hready)
    exact ⟨rfl, hnext⟩
  · refine ⟨rfl, fun height data hget => hget, fun height data hready => ?_⟩
    cases hready

theorem sendLoop_kept (now generation : Nat) (accepts : Nat → Bool) (stopHashes : List BlockHash)
    (sent : Nat) (p : FilterHeadersPipeline) :
    (sendLoop now generation accepts stopHashes sent p).1.buffered = p.buffered ∧
    (sendLoop now generation accepts stopHashes sent p).1.nextExpected = p.nextExpected := by
  induction stopHashes generalizing sent p with
  | nil => exact ⟨rfl, rfl⟩
  | cons stopHash rest ih =>
    rw [sendLoop]
    split
    · exact ⟨rfl, rfl⟩
    · split_ifs
      · exact ih _ _
      · exact ⟨rfl, rfl⟩

theorem sendPendingWithGeneration_kept (now generation : Nat)
    (accepts : Nat → Bool) : Kept p (p.sendPendingWithGeneration now generation accepts).1 := by
  unfold sendPendingWithGeneration
  dsimp only
  split_ifs with hcount
  · exact ⟨rfl, rfl, id⟩
  · obtain ⟨hbuf, hnext⟩ := sendLoop_kept now generation accepts
      (p.coordinator.takePending p.coordinator.availableToSend).2 0
      { p with coordinator := (p.coordinator.takePending p.coordinator.availableToSend).1 }
    refine ⟨hbuf, hnext, fun _ => isComplete_of_pending fun hnil => hcount ?_⟩
    simp [availableToSend, hnil]

theorem handleTimeouts_kept (now : Nat) :
    Kept p (p.handleTimeouts now) := by
  refine ⟨rfl, rfl, fun hafter => ?_⟩
  by_contra hbefore
  -- nothing in flight can time out
  have hcomp : p.isComplete = true := by simpa using hbefore
  have hnone : p.coordinator.pending = [] ∧ p.coordinator.inFlight.entries = [] := by
    simp only [isComplete, isEmpty, Bool.and_eq_true, decide_eq_true_eq,
      List.isEmpty_iff] at hcomp
    exact ⟨hcomp.1.1.1, List.length_eq_zero_iff.mp hcomp.1.1.2⟩
  have hsame : (p.handleTimeouts now).isComplete = p.isComplete := by
    simp [isComplete, handleTimeouts, checkTimeouts, isEmpty,
      SortedMap.filter, keys, size, hnone.1, hnone.2]
  rw [hsame, hcomp] at hafter
  cases hafter

variable {blockHash : Header → BlockHash} (headers : PersistentBlockHeaderStorage blockHash)
include headers

theorem queueBatches_kept (targetHeight fuel current : Nat)
    (p : FilterHeadersPipeline) :
    (queueBatches headers targetHeight fuel current p).1.buffered = p.buffered ∧
    (queueBatches headers targetHeight fuel current p).1.nextExpected = p.nextExpected := by
  induction fuel generalizing current p with
  | zero => exact ⟨rfl, rfl⟩
  | succ fuel ih =>
    rw [queueBatches]
    split_ifs
    · dsimp only
      split
      · exact ⟨rfl, rfl⟩
      · exact ⟨rfl, rfl⟩
      · exact ih _ _
    · exact ⟨rfl, rfl⟩

theorem init_kept (startHeight targetHeight : Nat) :
    (p.init headers startHeight targetHeight).1.buffered = ∅ ∧
    (p.init headers startHeight targetHeight).1.nextExpected = startHeight :=
  queueBatches_kept headers targetHeight _ startHeight _

theorem extendTarget_kept (newTarget : Nat) :
    (p.extendTarget headers newTarget).1.buffered = p.buffered ∧
    (p.extendTarget headers newTarget).1.nextExpected = p.nextExpected := by
  unfold extendTarget
  split_ifs
  · exact ⟨rfl, rfl⟩
  · exact queueBatches_kept headers newTarget _ _ _

end FilterHeadersPipeline

/-! ### The manager -/

namespace FilterHeadersManager

/-- The stored filter headers by height. -/
def content (m : FilterHeadersManager) : HeightMap FilterHeader := m.filterHeaderStorage.content

section

variable (filterHeader)

/-- Every stored header above the first one is the hash of the filter hash reported for its
height and of the header stored below. -/
def Chained (m : FilterHeadersManager) : Prop :=
  ∀ start tip, m.content.start = some start → m.content.tip = some tip →
    ∀ h, start < h → h ≤ tip → ∃ filterHash, m.reported h = some filterHash ∧
      m.content.slot h = filterHeader filterHash (m.content.slot (h - 1))

/-- What is stored and what waits in the buffer are pieces of one chain. -/
structure Sound (chain : Nat → FilterHeader) (generation : Nat) (m : FilterHeadersManager) :
    Prop where
  onChain : OnChain filterHeader chain m.content m.reported
  empty : m.content.tip = none → m.content.start = none
  buffered : ∀ startHeight data, m.pipeline.buffered.get? startHeight = some data →
    PieceOf filterHeader chain startHeight data ∧ data.filterHashes ≠ []
  current : m.content.tip = none ∨ m.content.tip = some m.progress.currentHeight
  generation : m.reorgGeneration = generation

/-- As long as the pipeline has work, the next height continues what is stored. -/
structure Invariant (chain : Nat → FilterHeader) (generation : Nat) (m : FilterHeadersManager) :
    Prop where
  sound : Sound filterHeader chain generation m
  aligned : m.pipeline.isComplete = false → Aligned m.content m.pipeline.nextExpected

end

variable {generation : Nat} {m m' : FilterHeadersManager} {now : Nat} {accepts : Nat → Bool}

theorem Sound.chained (hm : Sound filterHeader chain generation m) : Chained filterHeader m := by
  intro start tip hs ht h hlt hle
  obtain ⟨filterHash, hrep, heq⟩ := hm.onChain.linked start tip hs ht h hlt hle
  refine ⟨filterHash, hrep, ?_⟩
  rw [hm.onChain.stored start tip hs ht h hlt.le hle,
    hm.onChain.stored start tip hs ht (h - 1) (by omega) (by omega), heq]

section Process

variable {data : CFHeaders}

/-- Storing the header before a checkpoint batch. -/
theorem Sound.storeCheckpointHeader (hm : Sound filterHeader chain generation m)
    (halign : Aligned m.content startHeight)
    (hpiece : PieceOf filterHeader chain startHeight data) :
    OnChain filterHeader chain (m.storeCheckpointHeader data startHeight).content m.reported ∧
    ((m.storeCheckpointHeader data startHeight).content.tip = none →
      (m.storeCheckpointHeader data startHeight).content.start = none) ∧
    Aligned (m.storeCheckpointHeader data startHeight).content startHeight := by
  unfold FilterHeadersManager.storeCheckpointHeader
  split_ifs with hcheck
  · obtain ⟨-, hpos⟩ := hcheck
    have hlast : m.content.tip = none ∨ m.content.tip = some (startHeight - 1) := by
      rcases halign with hnone | ⟨tip, htip, rfl⟩ | ⟨rfl, -⟩
      · exact .inl hnone
      · exact .inr htip
      · omega
    obtain ⟨hon, htip⟩ := hm.onChain.storeLast hm.empty hlast (hpiece.previous hpos)
    have hcont : (m.filterHeaderStorage.storeItemsAtHeight [data.previousFilterHeader]
        (startHeight - 1)).content =
          m.content.storeAt [data.previousFilterHeader] (startHeight - 1) :=
      m.filterHeaderStorage.wf.consistent.storeItemsAtHeight_content _ _
    rw [← hcont] at hon htip
    refine ⟨hon, fun hnone => ?_, .inr (.inl ⟨startHeight - 1, htip, by omega⟩)⟩
    rw [content, htip] at hnone
    cases hnone
  · exact ⟨hm.onChain, hm.empty, halign⟩

theorem storeCheckpointHeader_kept (m : FilterHeadersManager) (data : CFHeaders)
    (startHeight : Nat) :
    (m.storeCheckpointHeader data startHeight).pipeline = m.pipeline ∧
    (m.storeCheckpointHeader data startHeight).progress = m.progress ∧
    (m.storeCheckpointHeader data startHeight).reported = m.reported ∧
    (m.storeCheckpointHeader data startHeight).reorgGeneration = m.reorgGeneration := by
  unfold FilterHeadersManager.storeCheckpointHeader
  split_ifs <;> exact ⟨rfl, rfl, rfl, rfl⟩

/-- A response whose turn it is continues the stored chain. -/
theorem Sound.processCfheaders (hm : Sound filterHeader chain generation m)
    (halign : Aligned m.content startHeight)
    (hpiece : PieceOf filterHeader chain startHeight data) (hne : data.filterHashes ≠ []) :
    OnChain filterHeader chain (m.processCfheaders filterHeader data startHeight).1.content
      (m.processCfheaders filterHeader data startHeight).1.reported ∧
    (m.processCfheaders filterHeader data startHeight).1.content.tip =
      some (startHeight + data.filterHashes.length - 1) := by
  obtain ⟨hon, hempty, halign'⟩ := hm.storeCheckpointHeader halign hpiece
  obtain ⟨-, -, hrep, -⟩ := storeCheckpointHeader_kept m data startHeight
  set m₁ := m.storeCheckpointHeader data startHeight with hm₁
  have hlen : (computeFilterHeaders filterHeader data).length = data.filterHashes.length :=
    chainFilterHashes_length _ _
  have hne' : computeFilterHeaders filterHeader data ≠ [] := by
    rw [← List.length_pos_iff, hlen]
    exact List.length_pos_of_ne_nil hne
  have hcont : (m₁.filterHeaderStorage.storeItemsAtHeight
      (computeFilterHeaders filterHeader data) startHeight).content =
        m₁.content.storeAt (computeFilterHeaders filterHeader data) startHeight :=
    m₁.filterHeaderStorage.wf.consistent.storeItemsAtHeight_content _ _
  have hstore := @OnChain.storeAt filterHeader chain m₁.content m.reported startHeight
    (computeFilterHeaders filterHeader data)
    (fun h => if startHeight ≤ h then (data.filterHashes[h - startHeight]?).or (m₁.reported h)
      else m₁.reported h) hon hempty hne' ?_ hpiece.headers ?_ ?_
  · obtain ⟨hon', htip⟩ := hstore
    rw [hlen] at htip
    rw [← hcont] at hon' htip
    exact ⟨hon', htip⟩
  · intro tip htip
    have hlen' := List.length_pos_of_ne_nil hne'
    rcases halign' with hnone | ⟨tip', htip', rfl⟩ | ⟨rfl, htip'⟩
    · simp [hnone] at htip
    · obtain rfl := mem_unique htip htip'
      omega
    · obtain rfl := mem_unique htip htip'
      omega
  · intro h hlt
    rw [if_neg (not_le.mpr hlt), hrep]
  · intro i hi start _ hlt
    rw [hlen] at hi
    obtain ⟨filterHash, hhash, hlink⟩ := hpiece.linked hi (Nat.zero_lt_of_lt hlt)
    exact ⟨filterHash, by simp [hhash], hlink⟩

/-- After a batch the next height continues what is stored, and so does the response that
becomes ready. -/
theorem Sound.processBatch (hm : Sound filterHeader chain generation m)
    (halign : Aligned m.content m.pipeline.nextExpected)
    (hpiece : PieceOf filterHeader chain m.pipeline.nextExpected data)
    (hne : data.filterHashes ≠ []) :
    ∃ m' event ready,
      m.processBatch filterHeader m.pipeline.nextExpected data = (m', .ok (event, ready)) ∧
      Sound filterHeader chain generation m' ∧ Aligned m'.content m'.pipeline.nextExpected ∧
      ∀ height next, ready = some (height, next) → height = m'.pipeline.nextExpected ∧
        PieceOf filterHeader chain height next ∧ next.filterHashes ≠ [] := by
  obtain ⟨hon, htip⟩ := hm.processCfheaders halign hpiece hne
  have hlen := List.length_pos_of_ne_nil hne
  have hcount : (m.processCfheaders filterHeader data m.pipeline.nextExpected).2 =
      data.filterHashes.length := chainFilterHashes_length _ _
  obtain ⟨hpipe, -, -, hgen⟩ := storeCheckpointHeader_kept m data m.pipeline.nextExpected
  have hpipe' : (m.processCfheaders filterHeader data m.pipeline.nextExpected).1.pipeline =
      m.pipeline := hpipe
  have hgen' : (m.processCfheaders filterHeader data
      m.pipeline.nextExpected).1.reorgGeneration = generation := hgen.trans hm.generation
  unfold FilterHeadersManager.processBatch
  generalize m.processCfheaders filterHeader data m.pipeline.nextExpected = processed at *
  obtain ⟨m₁, count⟩ := processed
  dsimp only at hon htip hcount hpipe' hgen' ⊢
  obtain ⟨hnext, hbuf, hready⟩ := m.pipeline.advance_spec count
  rw [if_neg (by omega), hpipe']
  refine ⟨_, _, _, rfl, ⟨hon, fun hnone => ?_, fun height next hget =>
    hm.buffered height next (hbuf height next hget), .inr ?_, hgen'⟩, .inr (.inl ?_), ?_⟩
  · have hsome : m₁.content.tip = none := hnone
    rw [htip] at hsome
    cases hsome
  · change m₁.content.tip = some ((m.pipeline.advance count).1.nextExpected - 1)
    rw [htip, hnext, hcount]
  · exact ⟨_, htip, by rw [hnext, hcount]; omega⟩
  · intro height next heq
    obtain ⟨rfl, hget⟩ := hready height next heq
    exact ⟨hnext.symm, hm.buffered _ next hget⟩

/-- The buffered responses that become ready continue the chain one after the other. -/
theorem Sound.processReady (fuel : Nat) {ready : Option (Nat × CFHeaders)}
    (hready : ∀ height next, ready = some (height, next) → height = m.pipeline.nextExpected ∧
      PieceOf filterHeader chain height next ∧ next.filterHashes ≠ [])
    (events : List SyncEvent) (hm : Sound filterHeader chain generation m)
    (halign : Aligned m.content m.pipeline.nextExpected) :
    Sound filterHeader chain generation (processReady filterHeader fuel ready events m).1 ∧
    Aligned (FilterHeadersManager.processReady filterHeader fuel ready events m).1.content
      (FilterHeadersManager.processReady filterHeader fuel ready events m).1.pipeline.nextExpected := by
  induction fuel generalizing m ready events with
  | zero =>
    cases ready <;> exact ⟨hm, halign⟩
  | succ fuel ih =>
    cases ready with
    | none => exact ⟨hm, halign⟩
    | some batch =>
      obtain ⟨height, next⟩ := batch
      obtain ⟨rfl, hpiece, hne⟩ := hready height next rfl
      obtain ⟨m', event, ready', heq, hm', halign', hready'⟩ := hm.processBatch halign hpiece hne
      rw [FilterHeadersManager.processReady, heq]
      exact ih hready' _ hm' halign'

/-- A response that is a piece of the chain is stored in its turn, or waits for it. -/
theorem Sound.receiveCfheaders (hm : Sound filterHeader chain generation m)
    (halign : Aligned m.content m.pipeline.nextExpected)
    (hpiece : PieceOf filterHeader chain startHeight data) (hne : data.filterHashes ≠ []) :
    Sound filterHeader chain generation (m.receiveCfheaders filterHeader startHeight data).1 ∧
    Aligned (m.receiveCfheaders filterHeader startHeight data).1.content
      (m.receiveCfheaders filterHeader startHeight data).1.pipeline.nextExpected := by
  unfold FilterHeadersManager.receiveCfheaders FilterHeadersPipeline.receive
  by_cases hturn : startHeight = m.pipeline.nextExpected
  · simp only [if_pos hturn, if_true]
    refine Sound.processReady _ ?_ _ ⟨hm.onChain, hm.empty, hm.buffered, hm.current,
      hm.generation⟩ halign
    intro height next heq
    obtain ⟨rfl, rfl⟩ := Prod.mk.inj (Option.some.inj heq)
    exact ⟨hturn, hpiece, hne⟩
  by_cases hearly : m.pipeline.nextExpected < startHeight
  · simp only [if_neg hturn, if_pos hearly, Bool.false_eq_true, if_false]
    exact ⟨⟨hm.onChain, hm.empty, forall_get?_insert hm.buffered ⟨hpiece, hne⟩,
      hm.current, hm.generation⟩, halign⟩
  · simp only [if_neg hturn, if_neg hearly, Bool.false_eq_true, if_false]
    exact ⟨⟨hm.onChain, hm.empty, hm.buffered, hm.current, hm.generation⟩, halign⟩

end Process

/-! ### The entry points -/

/-- The store and the current height are the same. -/
structure SameStore (m m' : FilterHeadersManager) : Prop where
  filterHeaderStorage : m'.filterHeaderStorage = m.filterHeaderStorage
  reported : m'.reported = m.reported
  reorgGeneration : m'.reorgGeneration = m.reorgGeneration
  currentHeight : m'.progress.currentHeight = m.progress.currentHeight

/-- Soundness is a matter of the store and the buffer. -/
theorem Sound.of_sameStore (hm : Sound filterHeader chain generation m) (hsame : SameStore m m')
    (hbuffered : ∀ startHeight data, m'.pipeline.buffered.get? startHeight = some data →
      m.pipeline.buffered.get? startHeight = some data) : Sound filterHeader chain generation m' := by
  obtain ⟨hstore, hrep, hgen, hcurrent⟩ := hsame
  refine ⟨?_, ?_, fun startHeight data hget => hm.buffered startHeight data
    (hbuffered startHeight data hget), ?_, hgen.trans hm.generation⟩
  · rw [content, hstore, hrep]
    exact hm.onChain
  · rw [content, hstore]
    exact hm.empty
  · rw [content, hstore, hcurrent]
    exact hm.current

theorem Invariant.of_kept (hm : Invariant filterHeader chain generation m) (hsame : SameStore m m')
    (hkept : FilterHeadersPipeline.Kept m.pipeline m'.pipeline) :
    Invariant filterHeader chain generation m' := by
  refine ⟨hm.sound.of_sameStore hsame fun startHeight data hget => ?_, fun hopen => ?_⟩
  · rwa [hkept.buffered] at hget
  · rw [content, hsame.filterHeaderStorage, hkept.nextExpected]
    exact hm.aligned (hkept.incomplete hopen)

/-- A pipeline that starts over at a height that continues what is stored. -/
theorem Invariant.of_init (hm : Sound filterHeader chain generation m) (hsame : SameStore m m')
    (hbuffered : m'.pipeline.buffered = ∅)
    (halign : Aligned m.content m'.pipeline.nextExpected) :
    Invariant filterHeader chain generation m' := by
  refine ⟨hm.of_sameStore hsame fun startHeight data hget => ?_, fun _ => ?_⟩
  · rw [hbuffered] at hget
    simp at hget
  · rw [content, hsame.filterHeaderStorage]
    exact halign

/-- A pipeline without work has nothing to continue. -/
theorem Invariant.of_idle (hm : Sound filterHeader chain generation m)
    (hidle : m.pipeline.isComplete = true) : Invariant filterHeader chain generation m :=
  ⟨hm, fun hincomplete => by simp [hidle] at hincomplete⟩

theorem tryCompleteSync_kept (m : FilterHeadersManager) :
    SameStore m m.tryCompleteSync.1 ∧ m.tryCompleteSync.1.pipeline = m.pipeline := by
  unfold tryCompleteSync
  split_ifs <;> exact ⟨⟨rfl, rfl, rfl, rfl⟩, rfl⟩

section

variable (hm : Invariant filterHeader chain generation m)
include hm

theorem Invariant.tryCompleteSync :
    Invariant filterHeader chain generation m.tryCompleteSync.1 := by
  obtain ⟨hsame, hpipe⟩ := tryCompleteSync_kept m
  exact hm.of_kept hsame ⟨by rw [hpipe], by rw [hpipe], by rw [hpipe]; exact id⟩

theorem Invariant.sendPending (now : Nat)
    (accepts : Nat → Bool) : Invariant filterHeader chain generation (m.sendPending now accepts).1 :=
  hm.of_kept ⟨rfl, rfl, rfl, rfl⟩
    (m.pipeline.sendPendingWithGeneration_kept now m.reorgGeneration accepts)

theorem Invariant.handleMessage
    (hpiece : ∀ startHeight, m.pipeline.matchResponse cfheaders = some startHeight →
      PieceOf filterHeader chain startHeight cfheaders) :
    Invariant filterHeader chain generation (m.handleMessage filterHeader cfheaders now accepts).1 := by
  unfold FilterHeadersManager.handleMessage
  cases hmatch : m.pipeline.matchResponse cfheaders with
  | none =>
    dsimp only
    split_ifs
    · exact hm.tryCompleteSync
    · exact hm
  | some startHeight =>
    obtain ⟨hopen, hne⟩ := FilterHeadersPipeline.isComplete_of_matchResponse hmatch
    obtain ⟨hsound, halign⟩ := hm.sound.receiveCfheaders (hm.aligned hopen)
      (hpiece startHeight hmatch) hne
    have hrecv : Invariant filterHeader chain generation
        (m.receiveCfheaders filterHeader startHeight cfheaders).1 := ⟨hsound, fun _ => halign⟩
    dsimp only
    split_ifs
    · exact hm
    generalize m.receiveCfheaders filterHeader startHeight cfheaders = received at hrecv ⊢
    obtain ⟨m₁, e | events⟩ := received
    · exact hrecv
    have hsent := hrecv.sendPending now accepts
    dsimp only at hsent ⊢
    generalize m₁.sendPending now accepts = sent at hsent ⊢
    obtain ⟨m₂, e | count⟩ := sent
    · exact hsent
    dsimp only at hsent ⊢
    split_ifs
    · exact hsent.tryCompleteSync
    · exact hsent

end

variable {blockHash : Header → BlockHash} {headers : PersistentBlockHeaderStorage blockHash}

theorem Invariant.beginDownload (hm : Sound filterHeader chain generation m)
    (halign : Aligned m.content startHeight) :
    Invariant filterHeader chain generation
      (m.beginDownload headers startHeight now accepts).1 := by
  obtain ⟨hbuf, hnext⟩ :=
    m.pipeline.init_kept headers startHeight m.progress.blockHeaderTipHeight
  unfold FilterHeadersManager.beginDownload
  generalize m.pipeline.init headers startHeight m.progress.blockHeaderTipHeight = queued at *
  obtain ⟨pipeline, e | u⟩ := queued
  · exact .of_init hm ⟨rfl, rfl, rfl, rfl⟩ hbuf (hnext ▸ halign)
  have hqueued : Invariant filterHeader chain generation { m with pipeline } :=
    .of_init hm ⟨rfl, rfl, rfl, rfl⟩ hbuf (hnext ▸ halign)
  have hsent := hqueued.sendPending now accepts
  dsimp only at hsent ⊢
  generalize FilterHeadersManager.sendPending _ now accepts = sent at hsent ⊢
  obtain ⟨m₂, e | count⟩ := sent
  · exact hsent
  · exact hsent.of_kept ⟨rfl, rfl, rfl, rfl⟩ ⟨rfl, rfl, id⟩

/-- The download starts right above what is stored. -/
theorem aligned_downloadStart
    (hstart : ∀ tip, m.content.tip = some tip → headers.getStartHeight.getD 0 ≤ tip + 1) :
    Aligned m.content (m.downloadStart headers) := by
  have htip : m.filterHeaderStorage.cache.tipHeight = m.content.tip := rfl
  unfold downloadStart
  rw [htip]
  cases hlast : m.content.tip with
  | none => exact .inl hlast
  | some tip =>
    have hle := hstart tip hlast
    rw [getD_some]
    by_cases hzero : tip = 0
    · subst hzero
      rw [if_pos rfl]
      rcases Nat.eq_zero_or_pos (headers.getStartHeight.getD 0) with h | h
      · exact .inr (.inr ⟨h, hlast⟩)
      · exact .inr (.inl ⟨0, hlast, by omega⟩)
    · rw [if_neg hzero]
      exact .inr (.inl ⟨tip, hlast, by omega⟩)

section

variable (hm : Invariant filterHeader chain generation m)
include hm

theorem Invariant.startDownload
    (hstart : ∀ tip, m.content.tip = some tip → headers.getStartHeight.getD 0 ≤ tip + 1) :
    Invariant filterHeader chain generation (m.startDownload headers now accepts).1 := by
  have halign := aligned_downloadStart hstart
  -- the current height is set to the last stored one, which it already is
  have hsound : Sound filterHeader chain generation
      { m with progress := m.progress.updateCurrentHeight (m.content.tip.getD 0) } := by
    refine ⟨hm.sound.onChain, hm.sound.empty, hm.sound.buffered, ?_, hm.sound.generation⟩
    change m.content.tip = none ∨ m.content.tip = some (m.content.tip.getD 0)
    cases m.content.tip with
    | none => exact .inl rfl
    | some tip => exact .inr rfl
  unfold FilterHeadersManager.startDownload
  dsimp only
  split_ifs
  · exact Invariant.tryCompleteSync ⟨hsound, hm.aligned⟩
  · apply Invariant.beginDownload
    · refine hsound.of_sameStore ?_ ?_
      · unfold markCheckpoint
        split_ifs <;> exact ⟨rfl, rfl, rfl, rfl⟩
      · unfold markCheckpoint
        intro startHeight data
        split_ifs <;> exact id
    · unfold markCheckpoint
      split_ifs <;> exact halign

theorem Invariant.extendPipeline :
    Invariant filterHeader chain generation (m.extendPipeline headers now accepts).1 := by
  have hextended : ∀ pipeline : FilterHeadersPipeline,
      pipeline = (if m.pipeline.isComplete then
        m.pipeline.init headers (m.progress.currentHeight + 1) m.progress.blockHeaderTipHeight
      else m.pipeline.extendTarget headers m.progress.blockHeaderTipHeight).1 →
      Invariant filterHeader chain generation { m with pipeline } := by
    rintro pipeline rfl
    split_ifs with hcomp
    · obtain ⟨hbuf, hnext⟩ := m.pipeline.init_kept headers (m.progress.currentHeight + 1)
        m.progress.blockHeaderTipHeight
      refine .of_init hm.sound ⟨rfl, rfl, rfl, rfl⟩ hbuf ?_
      rw [hnext]
      -- the finished pipeline ended at the last stored height
      rcases hm.sound.current with hnone | hlast
      · exact .inl hnone
      · exact .inr (.inl ⟨_, hlast, rfl⟩)
    · obtain ⟨hbuf, hnext⟩ := m.pipeline.extendTarget_kept headers
        m.progress.blockHeaderTipHeight
      exact hm.of_kept ⟨rfl, rfl, rfl, rfl⟩
        ⟨hbuf, hnext, fun _ => Bool.eq_false_iff.mpr hcomp⟩
  unfold FilterHeadersManager.extendPipeline
  generalize (if m.pipeline.isComplete then
    m.pipeline.init headers (m.progress.currentHeight + 1) m.progress.blockHeaderTipHeight
    else m.pipeline.extendTarget headers m.progress.blockHeaderTipHeight) = extended at *
  obtain ⟨pipeline, e | u⟩ := extended
  · exact hextended pipeline rfl
  have hsent := (hextended pipeline rfl).sendPending now accepts
  dsimp only at hsent ⊢
  generalize FilterHeadersManager.sendPending _ now accepts = sent at hsent ⊢
  obtain ⟨m₂, e | count⟩ := sent
  · exact hsent
  · exact hsent

theorem Invariant.handleNewHeaders
    (hstart : ∀ tip, m.content.tip = some tip → headers.getStartHeight.getD 0 ≤ tip + 1)
    (tipHeight : Nat) :
    Invariant filterHeader chain generation
      (m.handleNewHeaders headers tipHeight now accepts).1 := by
  unfold FilterHeadersManager.handleNewHeaders
  dsimp only
  have hm₁ : Invariant filterHeader chain generation { m with progress :=
      ({ m.progress with blockHeaderTipHeight := tipHeight }).updateTargetHeight tipHeight } := by
    refine hm.of_kept ⟨rfl, rfl, rfl, ?_⟩ ⟨rfl, rfl, id⟩
    unfold FilterHeadersProgress.updateTargetHeight
    split_ifs <;> rfl
  split_ifs
  · exact hm₁.tryCompleteSync
  · split
    · exact hm₁.extendPipeline
    · exact hm₁.extendPipeline
    · exact hm₁.startDownload hstart
    · exact hm₁.startDownload hstart
    · exact hm₁

theorem Invariant.tick :
    Invariant filterHeader chain generation (m.tick now accepts).1 := by
  have hretried : Invariant filterHeader chain generation
      { m with pipeline := m.pipeline.handleTimeouts now } :=
    hm.of_kept ⟨rfl, rfl, rfl, rfl⟩ (m.pipeline.handleTimeouts_kept now)
  have hsent := hretried.sendPending now accepts
  unfold FilterHeadersManager.tick
  generalize FilterHeadersManager.sendPending _ now accepts = sent at hsent ⊢
  obtain ⟨m₂, e | count⟩ := sent
  · exact hsent
  · exact hsent

theorem Invariant.handleNetworkEvent (connectedCount : Nat) (bestHeight : Option Nat) :
    Invariant filterHeader chain generation
      (m.handleNetworkEvent connectedCount bestHeight).1 := by
  have hm₁ : Invariant filterHeader chain generation (m.updateBestHeight bestHeight) := by
    cases bestHeight with
    | none => exact hm
    | some height =>
      refine hm.of_kept ⟨rfl, rfl, rfl, ?_⟩ ⟨rfl, rfl, id⟩
      dsimp only [updateBestHeight, FilterHeadersProgress.updateTargetHeight]
      split_ifs <;> rfl
  unfold FilterHeadersManager.handleNetworkEvent
  dsimp only
  split_ifs
  · exact .of_idle (hm₁.sound.of_sameStore ⟨rfl, rfl, rfl, rfl⟩ (by simp [onDisconnect,
      FilterHeadersPipeline.new])) rfl
  · exact hm₁.of_kept ⟨rfl, rfl, rfl, rfl⟩ ⟨rfl, rfl, id⟩
  · exact hm₁

/-- A reorg cuts the store at a height up to which the new chain agrees with the old one. -/
theorem Invariant.cascade {chain' : Nat → FilterHeader}
    (headers : PersistentBlockHeaderStorage blockHash) {forkHeight : Nat}
    (hreach : ∀ tip, m.content.tip = some tip → forkHeight ≤ tip)
    (hagree : ∀ h ≤ forkHeight, chain' h = chain h) (haccepts : ¬ m.content.RefusesCut forkHeight)
    (oldTip newTip : BlockHash) :
    Invariant filterHeader chain' (generation + 1) (m.cascade headers forkHeight oldTip newTip) := by
  obtain ⟨store, heq, hcont⟩ := SegmentStore.truncateAbove_of_accepts haccepts
  unfold FilterHeadersManager.cascade
  rw [heq]
  dsimp only [handleSyncEvent]
  have hcont' : store.content = m.content.cut 0 forkHeight := hcont
  have htip : ∀ tip, (m.content.cut 0 forkHeight).tip = some tip →
      ∃ tip', m.content.tip = some tip' ∧ tip = forkHeight := by
    intro tip ht
    obtain ⟨tip', ht', rfl⟩ := map_eq_some_iff.mp ht
    exact ⟨tip', ht', min_eq_left (hreach tip' ht')⟩
  refine .of_idle ⟨⟨?_, ?_⟩, ?_, by simp [setState, FilterHeadersPipeline.new], ?_, ?_⟩ rfl
  · intro start tip hs ht h hle hht
    dsimp only [content, setState] at hs ht ⊢
    rw [hcont'] at hs ht ⊢
    obtain ⟨tip', ht', rfl⟩ := htip tip ht
    have hreach' := hreach tip' ht'
    rw [hagree h hht]
    exact (if_pos hht).trans (hm.sound.onChain.stored start tip' hs ht' h hle (by omega))
  · intro start tip hs ht h hlt hht
    dsimp only [content, setState] at hs ht ⊢
    rw [hcont'] at hs ht
    obtain ⟨tip', ht', rfl⟩ := htip tip ht
    have hreach' := hreach tip' ht'
    rw [hagree h hht, hagree (h - 1) (by omega)]
    exact hm.sound.onChain.linked start tip' hs ht' h hlt (by omega)
  · intro hnone
    dsimp only [content, setState] at hnone ⊢
    rw [hcont'] at hnone ⊢
    exact hm.sound.empty (map_eq_none_iff.mp hnone)
  · dsimp only [content, setState]
    rw [hcont']
    cases ht : (m.content.cut 0 forkHeight).tip with
    | none => exact .inl rfl
    | some tip =>
      obtain ⟨tip', -, rfl⟩ := htip tip ht
      exact .inr rfl
  · exact congrArg (· + 1) hm.sound.generation

end

/-! ### Runs -/

variable (filterHeader) in
/-- Responses are pieces of the filter-header chain of the current reorg generation. Block
headers do not begin above the filter headers, and a reorg does not fork above them; the chain
after a reorg agrees with the one before up to the fork. -/
def Consistent (chains : Nat → Nat → FilterHeader) (m : FilterHeadersManager) :
    Action blockHash → Prop
  | .message cfheaders _ _ => ∀ startHeight, m.pipeline.matchResponse cfheaders = some startHeight →
      PieceOf filterHeader (chains m.reorgGeneration) startHeight cfheaders
  | .headersStored headers _ _ _ _ =>
    ∀ tip, m.content.tip = some tip → headers.getStartHeight.getD 0 ≤ tip + 1
  | .tick _ _ => True
  | .networkEvent _ _ => True
  | .reorg _ forkHeight _ _ => (∀ tip, m.content.tip = some tip → forkHeight ≤ tip) ∧
      ∀ h ≤ forkHeight, chains (m.reorgGeneration + 1) h = chains m.reorgGeneration h

theorem Invariant.step {chains : Nat → Nat → FilterHeader}
    (hm : Invariant filterHeader (chains m.reorgGeneration) m.reorgGeneration m)
    {action : Action blockHash} (hconsistent : Consistent filterHeader chains m action) :
    Invariant filterHeader (chains (m.step filterHeader action).reorgGeneration)
      (m.step filterHeader action).reorgGeneration (m.step filterHeader action) := by
  -- only a reorg moves to the next generation
  have hsame : ∀ {m' : FilterHeadersManager},
      Invariant filterHeader (chains m.reorgGeneration) m.reorgGeneration m' →
      Invariant filterHeader (chains m'.reorgGeneration) m'.reorgGeneration m' := by
    intro m' hm'
    rwa [hm'.sound.generation]
  cases action with
  | message cfheaders now accepts => exact hsame (hm.handleMessage hconsistent)
  | headersStored headers tipHeight syncComplete now accepts =>
    apply hsame
    cases syncComplete with
    | false => exact hm.handleNewHeaders hconsistent tipHeight
    | true =>
      have hsynced : Invariant filterHeader (chains m.reorgGeneration) m.reorgGeneration
          { m with blockHeadersSynced := true } := hm.of_kept ⟨rfl, rfl, rfl, rfl⟩ ⟨rfl, rfl, id⟩
      exact hsynced.handleNewHeaders hconsistent tipHeight
  | tick now accepts => exact hsame hm.tick
  | networkEvent connectedCount bestHeight =>
    exact hsame (hm.handleNetworkEvent connectedCount bestHeight)
  | reorg headers forkHeight oldTip newTip =>
    obtain ⟨hreach, hagree⟩ := hconsistent
    by_cases hrefuses : m.content.RefusesCut forkHeight
    · obtain ⟨e, heq⟩ := SegmentStore.truncateAbove_of_refuses hrefuses
      have hstep : m.step filterHeader (.reorg headers forkHeight oldTip newTip) = m := by
        change m.cascade headers forkHeight oldTip newTip = m
        rw [FilterHeadersManager.cascade, heq]
      rw [hstep]
      exact hm
    · have hm' := hm.cascade headers hreach hagree hrefuses oldTip newTip
      have hgen : (m.step filterHeader (.reorg headers forkHeight oldTip
          newTip)).reorgGeneration = m.reorgGeneration + 1 := hm'.sound.generation
      rw [hgen]
      exact hm'

/-- A manager over a chained store that holds a piece of the current filter-header chain: in
every consistent run the store stays chained. -/
theorem run_chained {chains : Nat → Nat → FilterHeader} {storage : SegmentStore (0 : FilterHeader)}
    {headerTip generation : Nat} {reported : Nat → Option FilterHash}
    (hempty : storage.content.tip = none → storage.content.start = none)
    (hchained : Chained filterHeader (new storage headerTip generation reported))
    (hstored : ∀ start tip, storage.content.start = some start → storage.content.tip = some tip →
      ∀ h, start ≤ h → h ≤ tip → storage.content.slot h = chains generation h)
    {actions : List (Action blockHash)}
    (hconsistent : Runs.Along (step filterHeader) (Consistent filterHeader chains)
      (new storage headerTip generation reported) actions) :
    Chained filterHeader
      (Runs.run (step filterHeader) (new storage headerTip generation reported) actions) := by
  have hstart : Invariant filterHeader (chains generation) generation
      (new storage headerTip generation reported) := by
    refine .of_idle ⟨⟨hstored, fun start tip hs ht h hlt hle => ?_⟩, hempty,
      by simp [new, FilterHeadersPipeline.new], ?_, rfl⟩ rfl
    · obtain ⟨filterHash, hrep, heq⟩ := hchained start tip hs ht h hlt hle
      refine ⟨filterHash, hrep, ?_⟩
      rw [← hstored start tip hs ht h hlt.le hle, ← hstored start tip hs ht (h - 1) (by omega)
        (by omega)]
      exact heq
    · change storage.content.tip = none ∨ storage.content.tip = some (storage.content.tip.getD 0)
      cases storage.content.tip with
      | none => exact .inl rfl
      | some tip => exact .inr rfl
  have hend := @Runs.invariant_run _ _ (step filterHeader)
    (fun m => Invariant filterHeader (chains m.reorgGeneration) m.reorgGeneration m)
    (Consistent filterHeader chains) (fun m action hm hc => hm.step hc) _ actions hstart hconsistent
  exact hend.sound.chained

end FilterHeadersManager

end Chain

/-! ### A response with another past -/

namespace FilterHeadersManager.ForeignPast

open SparseBlocks

/-- A filter header that tells its parts apart. -/
def mix (filterHash : FilterHash) (previous : FilterHeader) : FilterHeader :=
  filterHash + 10 * previous

/-- A manager without filter headers. -/
def fresh : FilterHeadersManager := new .empty 0 0 fun _ => none

/-- Block headers up to height 1 are stored, and then up to height 2. -/
def twoHeaders : PersistentBlockHeaderStorage nonceHash :=
  PersistentBlockHeaderStorage.storeHashedHeaders ⟨.empty, ∅⟩ [headerAfter 0 1, headerAfter 1 2]

def threeHeaders : PersistentBlockHeaderStorage nonceHash :=
  twoHeaders.storeHashedHeaders [headerAfter 2 3]

/-- The filter hashes of heights 0 and 1 are requested and reported. -/
def firstRequest : Action nonceHash := .headersStored twoHeaders 1 false 0 fun _ => true

def firstResponse : Action nonceHash := .message ⟨2, 0, [3, 4]⟩ 1 fun _ => true

/-- The filter hash of height 2 is requested, and reported with a previous filter header. -/
def secondRequest : Action nonceHash := .headersStored threeHeaders 2 false 2 fun _ => true

def secondResponse (previous : FilterHeader) : Action nonceHash :=
  .message ⟨3, previous, [5]⟩ 3 fun _ => true

def twoResponses (previous : FilterHeader) : List (Action nonceHash) :=
  [firstRequest, firstResponse, secondRequest, secondResponse previous]

/-- The chain of the honest responses. -/
def chain : Nat → FilterHeader
  | 0 => 3
  | 1 => 34
  | _ => 345

theorem fresh_chained : Chained mix fresh := by
  intro start tip hs
  cases hs

/-- A response that names the header stored below it keeps the store chained. -/
theorem run_chained_continued :
    (Runs.run (step mix) fresh (twoResponses 34)).content.tip = some 2 ∧
    Chained mix (Runs.run (step mix) fresh (twoResponses 34)) := by
  have hfirst : (fresh.step mix firstRequest).pipeline.matchResponse ⟨2, 0, [3, 4]⟩ = some 0 := by
    decide +kernel
  have hsecond : (((fresh.step mix firstRequest).step mix firstResponse).step mix
      secondRequest).pipeline.matchResponse ⟨3, 34, [5]⟩ = some 2 := by decide +kernel
  have htwo : twoHeaders.getStartHeight.getD 0 = 0 := by decide +kernel
  have hthree : threeHeaders.getStartHeight.getD 0 = 0 := by decide +kernel
  refine ⟨by decide +kernel, @run_chained mix nonceHash (fun _ => chain) .empty 0 0 (fun _ => none)
    (fun _ => rfl) fresh_chained (fun start tip hs => ?_) (twoResponses 34)
    ⟨fun tip _ => ?_, fun startHeight hmatch => ?_, fun tip _ => ?_, fun startHeight hmatch => ?_,
      trivial⟩⟩
  · cases hs
  · rw [htwo]
    exact Nat.zero_le _
  · obtain rfl := mem_unique hfirst hmatch
    refine ⟨fun h => absurd h (lt_irrefl 0), fun i header hget => ?_⟩
    match i with
    | 0 | 1 => exact (Option.some.inj hget).symm
    | _ + 2 => cases hget
  · rw [hthree]
    exact Nat.zero_le _
  · obtain rfl := mem_unique hsecond hmatch
    refine ⟨fun _ => rfl, fun i header hget => ?_⟩
    match i with
    | 0 => exact (Option.some.inj hget).symm
    | _ + 1 => cases hget

/-- One that names another header is stored all the same: the header at height 2 is not
computed from the one at height 1. -/
theorem foreign_past_not_chained :
    Chained mix fresh ∧
    (Runs.run (step mix) fresh (twoResponses 99)).content.start = some 0 ∧
    (Runs.run (step mix) fresh (twoResponses 99)).content.tip = some 2 ∧
    (Runs.run (step mix) fresh (twoResponses 99)).content.slot 1 = 34 ∧
    (Runs.run (step mix) fresh (twoResponses 99)).content.slot 2 = mix 5 99 ∧
    ¬ Chained mix (Runs.run (step mix) fresh (twoResponses 99)) := by
  have hstart : (Runs.run (step mix) fresh (twoResponses 99)).content.start = some 0 := by
    decide +kernel
  have htip : (Runs.run (step mix) fresh (twoResponses 99)).content.tip = some 2 := by
    decide +kernel
  have hone : (Runs.run (step mix) fresh (twoResponses 99)).content.slot 1 = 34 := by
    decide +kernel
  have htwo : (Runs.run (step mix) fresh (twoResponses 99)).content.slot 2 = mix 5 99 := by
    decide +kernel
  have hrep : (Runs.run (step mix) fresh (twoResponses 99)).reported 2 = some 5 := by
    decide +kernel
  refine ⟨fresh_chained, hstart, htip, hone, htwo, fun hchained => ?_⟩
  obtain ⟨filterHash, hhash, heq⟩ := hchained 0 2 hstart htip 2 (by decide) le_rfl
  obtain rfl := mem_unique hrep hhash
  rw [htwo, show 2 - 1 = 1 from rfl, hone] at heq
  exact absurd heq (by decide)

end FilterHeadersManager.ForeignPast

end Dashcore
