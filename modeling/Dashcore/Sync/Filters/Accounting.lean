import Dashcore.Lib.Runs
import Dashcore.Sync.Filters.Moves

/-!
# Pending blocks are counted exactly

A batch counts the matched blocks that it waits for, and the tracker knows the blocks in
flight with the batch each belongs to. The two are updated in different places: by scans and
rescans, by reports of processed blocks, and by resets. They agree in every state that a
manager can reach.
-/

namespace Dashcore

open BlockMatchTracker SortedMap Option

namespace FiltersManager

variable {blockHash : Header → BlockHash} {scheme : FilterScheme}

/-- Every batch in processing counts its blocks in flight, every block in flight belongs to a
batch in processing, and every committed batch had none. -/
structure Accounted (m : FiltersManager blockHash) : Prop where
  pending : ∀ {start batch}, m.activeBatches.get? start = some batch →
    batch.pendingBlocks = m.tracker.remainingFor start
  tracked : ∀ {hash entry}, m.tracker.blocksRemaining.get? hash = some entry →
    ∃ batch, m.activeBatches.get? entry.2 = some batch
  ranged : ∀ {start batch}, m.activeBatches.get? start = some batch →
    batch.startHeight = start ∧ start ≤ batch.endHeight
  commits : ∀ c ∈ m.history.commits, ∀ hash height,
    c.blocksRemaining.get? hash ≠ some (height, c.batch.startHeight)

variable {m : FiltersManager blockHash}

namespace Accounted

/-- With nothing in processing and nothing in flight, only the past commits matter. -/
theorem of_empty (hactive : ∀ k, m.activeBatches.get? k = none)
    (htracker : ∀ hash, m.tracker.blocksRemaining.get? hash = none)
    (hcommits : ∀ c ∈ m.history.commits, ∀ hash height,
      c.blocksRemaining.get? hash ≠ some (height, c.batch.startHeight)) : m.Accounted where
  pending {start batch} hget := by simp [hactive start] at hget
  tracked {hash entry} hget := by simp [htracker hash] at hget
  ranged {start batch} hget := by simp [hactive start] at hget
  commits := hcommits

variable {m : FiltersManager blockHash} {m' : FiltersManager blockHash}

/-- Only ranges and counts of batches, the blocks in flight and the commits matter. -/
theorem congr (h : m.Accounted)
    (hbatches : ∀ k, (m'.activeBatches.get? k).map
        (fun b => (b.startHeight, b.endHeight, b.pendingBlocks)) =
      (m.activeBatches.get? k).map fun b => (b.startHeight, b.endHeight, b.pendingBlocks))
    (htracker : m'.tracker.blocksRemaining = m.tracker.blocksRemaining)
    (hcommits : m'.history.commits = m.history.commits) : m'.Accounted := by
  have hback : ∀ {k batch'}, m'.activeBatches.get? k = some batch' →
      ∃ batch, m.activeBatches.get? k = some batch ∧ batch.startHeight = batch'.startHeight ∧
        batch.endHeight = batch'.endHeight ∧ batch.pendingBlocks = batch'.pendingBlocks := by
    intro k batch' hget
    have hk := hbatches k
    rw [hget, map_some] at hk
    obtain ⟨batch, hbatch, heq⟩ := map_eq_some_iff.mp hk.symm
    simp only [Prod.mk.injEq] at heq
    exact ⟨batch, hbatch, heq⟩
  have hremaining : ∀ k, m'.tracker.remainingFor k = m.tracker.remainingFor k := by
    intro k
    unfold remainingFor
    rw [htracker]
  refine ⟨?_, ?_, ?_, ?_⟩
  · intro start batch' hget
    obtain ⟨batch, hbatch, -, -, hpend⟩ := hback hget
    rw [hremaining, ← hpend, h.pending hbatch]
  · intro hash entry hget
    rw [htracker] at hget
    obtain ⟨batch, hbatch⟩ := h.tracked hget
    have hk := hbatches entry.2
    rw [hbatch, map_some] at hk
    obtain ⟨batch', hbatch', -⟩ := map_eq_some_iff.mp hk
    exact ⟨batch', hbatch'⟩
  · intro start batch' hget
    obtain ⟨batch, hbatch, hstart, hend, -⟩ := hback hget
    rw [← hstart, ← hend]
    exact h.ranged hbatch
  · rw [hcommits]
    exact h.commits

variable {start : Nat}

/-- Replacing a batch by one with the same range and count. -/
theorem setBatch (h : m.Accounted) {batch batch' : FiltersBatch}
    (hget : m.activeBatches.get? start = some batch)
    (hsame : (batch'.startHeight, batch'.endHeight, batch'.pendingBlocks) =
      (batch.startHeight, batch.endHeight, batch.pendingBlocks)) :
    (m.setBatch start batch').Accounted := by
  refine h.congr (fun k => ?_) rfl rfl
  rw [FiltersManager.setBatch, get?_insert]
  split_ifs with hk
  · rw [← hk, hget, map_some, map_some, hsame]
  · rfl

theorem recordTests (h : m.Accounted) (tests : List WalletTest) (filters : FilterMap) :
    (m.recordTests tests filters).Accounted :=
  h.congr (fun _ => rfl) rfl rfl

variable {batch : FiltersBatch}

/-- A batch counts the blocks that are tracked for it. -/
theorem requestMatches (h : m.Accounted)
    (hget : m.activeBatches.get? start = some batch)
    (blockToWallets : SortedMap FilterMatchKey (Finset WalletId)) :
    (m.requestMatches start blockToWallets).1.Accounted := by
  have htracked := trackedFor_trackMatches m.tracker start blockToWallets
  unfold FiltersManager.requestMatches
  simp only [hget]
  refine ⟨?_, ?_, ?_, h.commits⟩
  · intro k batch' hk
    obtain ⟨rfl, rfl⟩ | ⟨hne, hk⟩ := of_get?_insert hk
    · simp only [FiltersBatch.setPendingBlocks]
      rw [htracked.batch, h.pending hget]
    · rw [htracked.others k (Ne.symm hne), h.pending hk]
  · intro hash entry hentry
    simp only [get?_insert]
    split_ifs with hsame
    · exact ⟨_, rfl⟩
    · -- an entry of another batch was in flight before
      rcases htracked.entries hentry with hold | hnew
      · exact h.tracked hold
      · exact absurd hnew.symm hsame
  · have hrange := h.ranged hget
    intro k batch' hk
    obtain ⟨rfl, rfl⟩ | ⟨-, hk⟩ := of_get?_insert hk
    · exact hrange
    · exact h.ranged hk

theorem rescanBatch (h : m.Accounted) (start : Nat)
    (newAddresses : SortedMap WalletId (Finset Address)) :
    (m.rescanBatch scheme start newAddresses).1.Accounted := by
  unfold FiltersManager.rescanBatch
  cases hget : m.activeBatches.get? start with
  | none => exact h
  | some batch =>
    dsimp only
    split_ifs
    · exact h
    · exact (h.recordTests _ batch.filters).requestMatches hget _

theorem rescanBatches (newAddresses : SortedMap WalletId (Finset Address)) (starts : List Nat) (h : m.Accounted) :
    (FiltersManager.rescanBatches scheme newAddresses starts m).1.Accounted := by
  induction starts generalizing m with
  | nil => exact h
  | cons start rest ih => exact ih (h.rescanBatch start newAddresses)

section

variable (h : m.Accounted)
include h

theorem rescanForCommit {start : Nat} {batch : FiltersBatch}
    (hget : m.activeBatches.get? start = some batch) (hopen : batch.rescanComplete = false) :
    (m.rescanForCommit scheme start batch).1.Accounted := by
  have hrescanned : (m.rescanCollected scheme start batch).1.Accounted := by
    have htaken : (m.setBatch start batch.takeCollectedAddresses.1).Accounted :=
      h.setBatch hget rfl
    unfold FiltersManager.rescanCollected
    dsimp only
    split_ifs
    · exact htaken
    · exact rescanBatches _ _ htaken
  obtain ⟨batch', hget', -, ⟨-, -, heq⟩ | ⟨-, -, heq⟩⟩ :=
    @rescanForCommit_cases _ scheme m start batch hget hopen
  · rw [heq]
    exact hrescanned
  · rw [heq]
    exact hrescanned.setBatch hget' rfl

theorem scanBatch (start : Nat) : (m.scanBatch scheme start).1.Accounted := by
  unfold FiltersManager.scanBatch
  cases hget : m.activeBatches.get? start with
  | none => exact h
  | some batch =>
    have hmarked : (m.setBatch start (batch.markScanned.setScannedWallets
        (m.wallet.walletsBehind batch.endHeight).toFinset)).Accounted := h.setBatch hget rfl
    have hbegun : (m.beginScan start batch).Accounted := hmarked.congr (fun _ => rfl) rfl rfl
    have hthere : (m.beginScan start batch).activeBatches.get? start =
        some (batch.markScanned.setScannedWallets
          (m.wallet.walletsBehind batch.endHeight).toFinset) := by
      rw [beginScan, FiltersManager.recordTests, FiltersManager.setBatch, get?_insert_self]
    dsimp only
    split_ifs
    · exact hbegun
    · exact hbegun.requestMatches hthere _

/-- A batch that waits for no block has none in flight when it is committed. -/
theorem commitBatch (hget : m.activeBatches.get? start = some batch)
    (hpending : batch.pendingBlocks = 0) : (m.commitBatch start batch).Accounted := by
  have hnone : m.tracker.remainingFor start = 0 := (h.pending hget).symm.trans hpending
  refine ⟨?_, ?_, ?_, ?_⟩
  · exact fun hk => h.pending (of_get?_commitBatch hk).2
  · rintro hash ⟨height, k⟩ hentry
    have hne : k ≠ start := by
      rintro rfl
      exact not_mem_of_remainingFor_eq_zero hnone hentry
    obtain ⟨batch', hbatch'⟩ := h.tracked hentry
    refine ⟨batch', ?_⟩
    simp only [FiltersManager.commitBatch, get?_erase]
    rw [if_neg (Ne.symm hne)]
    exact hbatch'
  · exact fun hk => h.ranged (of_get?_commitBatch hk).2
  · intro c hc hash height
    simp only [FiltersManager.commitBatch, List.mem_append, List.mem_singleton] at hc
    rcases hc with hc | rfl
    · exact h.commits c hc hash height
    · rw [(h.ranged hget).1]
      exact not_mem_of_remainingFor_eq_zero hnone

/-- A batch can be opened where none is. -/
theorem openBatch {startHeight endHeight : Nat} (hrange : startHeight ≤ endHeight)
    (hfree : m.activeBatches.get? startHeight = none) (filters : FilterMap) (verified : Bool) :
    (m.openBatch startHeight endHeight filters verified).Accounted := by
  obtain ⟨opened, hopened, -, hend, hstart, hpend, -⟩ :=
    m.openBatch_activeBatches startHeight endHeight filters verified
  -- no block in flight belongs to a batch that is not there
  have hnone : m.tracker.remainingFor startHeight = 0 := by
    by_contra hpos
    obtain ⟨hash, height, hentry⟩ :=
      exists_of_remainingFor_pos (Nat.pos_of_ne_zero hpos)
    obtain ⟨batch, hbatch⟩ := h.tracked hentry
    exact absurd (hfree.symm.trans hbatch) (by simp)
  refine ⟨?_, ?_, ?_, h.commits⟩
  · intro k batch hk
    obtain ⟨rfl, rfl⟩ | ⟨-, hold⟩ := of_get?_insert (hopened ▸ hk)
    · exact hpend.trans hnone.symm
    · exact h.pending hold
  · intro hash entry hentry
    rw [hopened, get?_insert]
    split_ifs
    · exact ⟨opened, rfl⟩
    · exact h.tracked hentry
  · intro k batch hk
    obtain ⟨rfl, rfl⟩ | ⟨-, hold⟩ := of_get?_insert (hopened ▸ hk)
    · exact ⟨hstart, by omega⟩
    · exact h.ranged hold

/-- Every batch in processing starts below the next one. -/
theorem lt_nextBatchStart (hget : m.activeBatches.get? start = some batch) :
    start < m.nextBatchStart := by
  obtain ⟨hnone, -⟩ | ⟨last, lastBatch, hlast, hmax, hnext⟩ := m.nextBatchStart_cases
  · simp [hnone start] at hget
  · have hle := hmax start batch hget
    have hrange := (h.ranged hlast).2
    omega

theorem get?_nextBatchStart : m.activeBatches.get? m.nextBatchStart = none := by
  by_contra hsome
  obtain ⟨batch, hget⟩ := ne_none_iff_exists'.mp hsome
  exact lt_irrefl _ (h.lt_nextBatchStart hget)

/-- A processed block in flight is taken off the count of its batch. -/
theorem finishBlock (hash : BlockHash) (height : Nat) (wallets : Finset WalletId)
    (newAddresses : SortedMap WalletId (List Address)) :
    (m.finishBlock hash height wallets newAddresses).1.Accounted := by
  unfold FiltersManager.finishBlock finishInFlight
  have hsame := recordProcessed_blocksRemaining m.tracker height hash wallets
  generalize m.tracker.recordProcessed height hash wallets = t at hsame
  have hremaining : ∀ k, t.remainingFor k = m.tracker.remainingFor k := fun k => by
    rw [remainingFor, hsame, remainingFor]
  have hgone : t.blocksRemaining.get? hash = none →
      t.blocksRemaining.erase hash = m.tracker.blocksRemaining := by
    intro hnone
    rw [← hsame]
    refine ext_get? fun k => ?_
    rw [get?_erase]
    split_ifs with hk
    · rw [← hk, hnone]
    · rfl
  cases hentry : t.blocksRemaining.get? hash with
  | none => exact h.congr (fun _ => rfl) (hgone hentry) rfl
  | some entry =>
    obtain ⟨batch, hbatch⟩ := h.tracked (hsame ▸ hentry)
    obtain ⟨collected, hcoll⟩ := addAddresses_eq batch.decrementPendingBlocks newAddresses
    have herase := remainingFor_erase hentry
    simp only [collectAddresses, hbatch, hcoll]
    refine ⟨?_, ?_, ?_, h.commits⟩
    · intro k batch' hk
      simp only [FiltersManager.setBatch, get?_insert] at hk
      have hcount := herase k
      rw [hremaining] at hcount
      split_ifs at hk hcount with hsameBatch
      · obtain rfl := Option.some.inj hk
        subst hsameBatch
        have hpend := h.pending hbatch
        simp only [FiltersBatch.decrementPendingBlocks, FiltersManager.setBatch]
        omega
      · rw [h.pending hk, hcount]
        rfl
    · intro other entry hother
      obtain ⟨batch', hbatch'⟩ := h.tracked (hsame ▸ (of_get?_erase hother).2)
      simp only [FiltersManager.setBatch, get?_insert]
      split_ifs
      · exact ⟨_, rfl⟩
      · exact ⟨batch', hbatch'⟩
    · have hrange := h.ranged hbatch
      intro k batch' hk
      obtain ⟨rfl, rfl⟩ | ⟨-, hk⟩ := of_get?_insert hk
      · exact hrange
      · exact h.ranged hk

end

/-- Every move keeps the accounts. -/
theorem move {arrives : Filter → Prop} {starts : Prop}
    (hmove : Move scheme arrives starts m m') (h : m.Accounted) :
    m'.Accounted := by
  cases hmove with
  | scan hget hnew hready => exact h.scanBatch _
  | rescan hfirst hget hscanned hpend hopen => exact h.rescanForCommit hget hopen
  | commit hfirst hget hscanned hpend hcomp => exact h.commitBatch hget hpend
  | lookahead htip hload =>
    refine h.openBatch ?_ h.get?_nextBatchStart _ _
    unfold nextBatchEnd batchProcessingSize
    omega
  | collect | discard | receive | send | timeouts | disconnect | extend | setState | init
  | storedTip | begin => exact h.congr (fun _ => rfl) rfl rfl
  | store hget hnext hverify =>
    rw [verifyAndStore_eq hverify]
    refine h.congr (fun k => ?_) rfl rfl
    rw [acceptBatch_get?, map_map]
    rfl
  | processed hash height wallets newAddresses =>
    exact h.finishBlock hash height wallets newAddresses
  | reset hstarts height => exact .of_empty (fun _ => rfl) (fun _ => rfl) h.commits
  | noteStored hstarts scanStart hidle =>
    unfold FiltersManager.noteStored
    split_ifs
    · exact h.congr (fun _ => rfl) rfl rfl
    · exact h
  | @first scanStart filters hstarts hidle htip hload =>
    have hopen : (m.openBatch scanStart (m.firstBatchEnd scanStart) filters
        (m.firstBatchEnd scanStart ≤ m.filterTipHeight)).Accounted := by
      refine h.openBatch ?_ (size_eq_zero_iff.mp hidle scanStart) _ _
      unfold firstBatchEnd batchProcessingSize
      omega
    exact hopen.congr (fun _ => rfl) rfl rfl
  | reorg hstarts forkHeight =>
    obtain ⟨wallet, floor, -, heq⟩ := m.handleChainReorg_eq forkHeight
    rw [heq]
    exact .of_empty (fun _ => rfl) (fun _ => rfl) h.commits

end Accounted

theorem accounted_new (headerStorage : PersistentBlockHeaderStorage blockHash)
    (filterHeaderStorage : SegmentStore (0 : FilterHeader))
    (filterStorage : SegmentStore ([] : Filter)) (wallet : WalletSet) (reorgGeneration : Nat) :
    (new headerStorage filterHeaderStorage filterStorage wallet reorgGeneration).Accounted :=
  .of_empty (fun _ => rfl) (fun _ => rfl) (by simp [new])

theorem Accounted.step (h : m.Accounted) (a : Action blockHash) :
    (m.step scheme a).Accounted := by
  refine (step_moves m a).keep (fun _ _ hmove => Accounted.move hmove) ?_
  -- what arrives touches neither batches nor blocks in flight
  unfold arrive
  split
  case h_3 bestHeight _ _ =>
    obtain ⟨targetHeight, heq⟩ := m.updateBestHeight_eq bestHeight
    rw [heq]
    exact h.congr (fun _ => rfl) rfl rfl
  all_goals exact h.congr (fun _ => rfl) rfl rfl

end FiltersManager

end Dashcore
