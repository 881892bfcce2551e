import Dashcore.Sync.Filters.Manager

/-!
# The moves of the filters manager

Every action of the filters manager goes in small moves: a batch is scanned, rescanned,
committed or opened, a downloaded batch is stored, the pipeline sends or receives. What an
action brings from outside comes before its moves. An invariant has to be looked at once per
move, under the guards that the code checks before it.
-/

namespace Dashcore

open SortedMap FiltersBatch FiltersProgress Option

namespace FiltersManager

variable {blockHash : Header → BlockHash} {scheme : FilterScheme}
  {m m' : FiltersManager blockHash} {start : Nat} {batch batch' : FiltersBatch}

/-! ### What matching changes -/

/-- Matching changes the counts and collected addresses of batches, the blocks in flight and
the tests made; nothing else. -/
structure Matched (m m' : FiltersManager blockHash) : Prop where
  batches : ∀ k, (m'.activeBatches.get? k).map fixed =
    (m.activeBatches.get? k).map fixed
  rest : m' = { m with
    activeBatches := m'.activeBatches
    tracker := m'.tracker
    progress := { m.progress with matched := m'.progress.matched }
    history := { m.history with tested := m'.history.tested } }

variable {k : Nat}

namespace Matched

theorem refl (m : FiltersManager blockHash) : Matched m m := ⟨fun _ => rfl, rfl⟩

theorem trans {m₁ m₂ m₃ : FiltersManager blockHash} (h : Matched m₁ m₂) (h' : Matched m₂ m₃) :
    Matched m₁ m₃ := by
  refine ⟨fun k => (h'.batches k).trans (h.batches k), ?_⟩
  have hrest := h'.rest
  rw [h.rest] at hrest
  exact hrest

variable (h : Matched m m')

include h

theorem keys : m'.activeBatches.keys = m.activeBatches.keys := by
  apply keys_eq_of_contains
  intro k
  have hk := congrArg isSome (h.batches k)
  simpa only [isSome_map, contains] using hk

/-- A batch has a counterpart before the match. -/
theorem of_get? (hget : m'.activeBatches.get? k = some batch') :
    ∃ batch, m.activeBatches.get? k = some batch ∧ batch.fixed = batch'.fixed := by
  have hk := h.batches k
  rw [hget, map_some] at hk
  obtain ⟨batch, hbatch, heq⟩ := map_eq_some_iff.mp hk.symm
  exact ⟨batch, hbatch, heq⟩

theorem get? (hget : m.activeBatches.get? k = some batch) :
    ∃ batch', m'.activeBatches.get? k = some batch' ∧ batch'.fixed = batch.fixed := by
  have hk := h.batches k
  rw [hget, map_some] at hk
  exact map_eq_some_iff.mp hk

end Matched

/-- Changing no more than counts and collected addresses of one batch is a match. -/
theorem matched_setBatch (hget : m.activeBatches.get? start = some batch)
    (hfixed : batch'.fixed = batch.fixed) : Matched m (m.setBatch start batch') := by
  refine ⟨fun k => ?_, rfl⟩
  rw [setBatch, get?_insert]
  split_ifs with hk
  · rw [← hk, hget, map_some, map_some, hfixed]
  · rfl

section

variable (m : FiltersManager blockHash)

theorem matched_recordTests (tests : List WalletTest)
    (filters : FilterMap) : Matched m (m.recordTests tests filters) :=
  ⟨fun _ => rfl, rfl⟩

theorem matched_requestMatches (start : Nat)
    (blockToWallets : SortedMap FilterMatchKey (Finset WalletId)) :
    Matched m (m.requestMatches start blockToWallets).1 := by
  unfold requestMatches
  cases hget : m.activeBatches.get? start with
  | none => exact ⟨fun _ => rfl, rfl⟩
  | some batch =>
    have hcounted := @matched_setBatch _ m start batch (batch.setPendingBlocks
      (batch.pendingBlocks + (m.tracker.trackMatches start blockToWallets).newBlocksCount)) hget rfl
    exact ⟨hcounted.batches, rfl⟩

theorem matched_rescanBatch (start : Nat)
    (newAddresses : SortedMap WalletId (Finset Address)) :
    Matched m (m.rescanBatch scheme start newAddresses).1 := by
  unfold rescanBatch
  cases m.activeBatches.get? start with
  | none => exact .refl m
  | some batch =>
    dsimp only
    split_ifs
    · exact .refl m
    · exact (matched_recordTests m _ _).trans (matched_requestMatches _ _ _)

end

theorem matched_rescanBatches (newAddresses : SortedMap WalletId (Finset Address))
    (starts : List Nat) (m : FiltersManager blockHash) :
    Matched m (rescanBatches scheme newAddresses starts m).1 := by
  induction starts generalizing m with
  | nil => exact .refl m
  | cons start rest ih => exact (matched_rescanBatch m start newAddresses).trans (ih _)

section

variable (hget : m.activeBatches.get? start = some batch)
include hget

theorem matched_rescanCollected :
    Matched m (m.rescanCollected scheme start batch).1 := by
  have htaken : Matched m (m.setBatch start batch.takeCollectedAddresses.1) :=
    matched_setBatch hget rfl
  unfold rescanCollected
  dsimp only
  split_ifs
  · exact htaken
  · exact htaken.trans (matched_rescanBatches _ _ _)

/-- A batch that was not rescanned waits for further blocks, or is marked as rescanned. -/
theorem rescanForCommit_cases (hopen : batch.rescanComplete = false) :
    ∃ batch', (m.rescanCollected scheme start batch).1.activeBatches.get? start = some batch' ∧
      batch'.fixed = batch.fixed ∧
      ((0 < batch'.pendingBlocks ∧ (m.rescanForCommit scheme start batch).2.2 = true ∧
        (m.rescanForCommit scheme start batch).1 = (m.rescanCollected scheme start batch).1) ∨
      (batch'.pendingBlocks = 0 ∧ (m.rescanForCommit scheme start batch).2.2 = false ∧
        (m.rescanForCommit scheme start batch).1 =
          (m.rescanCollected scheme start batch).1.setBatch start
            batch'.markRescanComplete)) := by
  obtain ⟨batch', hget', hfixed⟩ := (@matched_rescanCollected _ scheme _ _ _ hget).get? hget
  refine ⟨batch', hget', hfixed, ?_⟩
  unfold rescanForCommit
  simp only [hopen, Bool.false_eq_true, if_false, hget']
  by_cases hpend : 0 < batch'.pendingBlocks
  · rw [if_pos hpend]
    exact .inl ⟨hpend, rfl, rfl⟩
  · rw [if_neg hpend]
    exact .inr ⟨Nat.eq_zero_of_not_pos hpend, rfl, rfl⟩

end

/-- Collecting addresses changes no other part of a batch. -/
theorem addAddresses_eq (batch : FiltersBatch)
    (newAddresses : SortedMap WalletId (List Address)) :
    ∃ collected, addAddresses batch newAddresses =
      { batch with collectedAddresses := collected } := by
  unfold addAddresses
  generalize newAddresses.entries = entries
  induction entries generalizing batch with
  | nil => exact ⟨batch.collectedAddresses, rfl⟩
  | cons e rest ih =>
    rw [List.foldl_cons]
    split_ifs
    · exact ih batch
    · exact ih (batch.addAddressesForWallet e.1 e.2)

/-- Recording wallets leaves the blocks in flight as they are. -/
theorem recordProcessed_blocksRemaining (t : BlockMatchTracker) (height : Nat) (hash : BlockHash)
    (wallets : Finset WalletId) :
    (t.recordProcessed height hash wallets).blocksRemaining = t.blocksRemaining := by
  unfold BlockMatchTracker.recordProcessed
  split_ifs <;> rfl

theorem matched_rescanForCommit (hget : m.activeBatches.get? start = some batch)
    (hopen : batch.rescanComplete = false) :
    Matched m (m.rescanForCommit scheme start batch).1 := by
  have hmatched := @matched_rescanCollected _ scheme m start batch hget
  obtain ⟨batch', hget', -, ⟨-, -, heq⟩ | ⟨-, -, heq⟩⟩ :=
    @rescanForCommit_cases _ scheme m start batch hget hopen
  · rw [heq]
    exact hmatched
  · rw [heq]
    exact hmatched.trans (matched_setBatch hget' rfl)

theorem matched_finishBlock (m : FiltersManager blockHash) (hash : BlockHash) (height : Nat)
    (wallets : Finset WalletId) (newAddresses : SortedMap WalletId (List Address)) :
    Matched m (m.finishBlock hash height wallets newAddresses).1 := by
  unfold finishBlock BlockMatchTracker.finishInFlight
  cases (m.tracker.recordProcessed height hash wallets).blocksRemaining.get? hash with
  | none => exact ⟨fun _ => rfl, rfl⟩
  | some entry =>
    dsimp only
    unfold collectAddresses
    cases hget : m.activeBatches.get? entry.2 with
    | none => exact ⟨fun _ => rfl, rfl⟩
    | some batch =>
      obtain ⟨collected, heq⟩ := addAddresses_eq batch.decrementPendingBlocks newAddresses
      have hset := @matched_setBatch _ m entry.2 batch
        { batch.decrementPendingBlocks with collectedAddresses := collected } hget rfl
      dsimp only
      rw [heq]
      exact ⟨hset.batches, rfl⟩

variable {events : List SyncEvent}

section

variable (h : m.verifyAndStore scheme batch = .ok (m', events))
include h

/-- A batch was loaded from the store, or it verifies and is stored. -/
theorem verifyAndStore_cases : (batch.verified = true ∧ m' = m) ∨
    (m.verifyBatch scheme batch = .ok () ∧
      m' = { m with filterStorage := storeFilters m.filterStorage batch.filters }) := by
  unfold verifyAndStore at h
  split_ifs at h with hverif
  · exact .inl ⟨hverif, (congrArg Prod.fst (Except.ok.inj h)).symm⟩
  · cases hverify : m.verifyBatch scheme batch with
    | error e => simp [hverify] at h
    | ok _ =>
      simp only [hverify] at h
      exact .inr ⟨rfl, (congrArg Prod.fst (Except.ok.inj h)).symm⟩

/-- Storing a batch changes nothing but the filter store. -/
theorem verifyAndStore_eq :
    m' = { m with filterStorage := m'.filterStorage } := by
  obtain ⟨-, rfl⟩ | ⟨-, heq⟩ := verifyAndStore_cases h
  · rfl
  · rw [heq]

end

section

variable (m : FiltersManager blockHash)

/-- A downloaded batch changes the batches in processing only in their filters. -/
theorem acceptBatch_get? (batch : FiltersBatch) (k : Nat) :
    (m.acceptBatch batch).activeBatches.get? k = (m.activeBatches.get? k).map fun active =>
      { active with
        filters :=
          if batch.startHeight ≤ active.endHeight ∧ active.startHeight ≤ batch.endHeight then
            active.filters.union (overlap batch active)
          else active.filters } := by
  simp only [acceptBatch, loadIntoActive, get?_mapVal]
  refine congrArg (fun f => Option.map f _) (funext fun active => ?_)
  split_ifs <;> rfl

/-- A commit moves the committed height of the progress, and nothing else of it. -/
theorem commitBatch_progress (start : Nat) (batch : FiltersBatch) :
    ∃ committedHeight, (m.commitBatch start batch).progress =
      { m.progress with committedHeight } := by
  unfold commitBatch
  dsimp only
  split_ifs
  · exact ⟨batch.endHeight, rfl⟩
  · exact ⟨m.progress.committedHeight, rfl⟩

/-- A reorg leaves nothing in processing and all heights at or below the fork. -/
theorem handleChainReorg_eq (forkHeight : Nat) :
    ∃ wallet floor, floor ≤ forkHeight ∧ m.handleChainReorg forkHeight =
      { m with
        wallet
        activeBatches := ∅
        tracker := .new
        pendingBatches := ∅
        filterPipeline := .new
        nextBatchToStore := floor
        processingHeight := floor
        progress := { m.progress with
          state := .waitForEvents
          committedHeight := floor
          storedHeight := floor }
        history := { m.history with reorgPending := false } } := by
  unfold handleChainReorg rewindWalletForReorg
  dsimp only
  cases m.wallet.rewindToHeight forkHeight with
  | some wallet => exact ⟨wallet, min wallet.syncedHeight forkHeight, Nat.min_le_right _ _, rfl⟩
  | none => exact ⟨m.wallet, forkHeight, le_rfl, rfl⟩

end

/-! ### Moves -/

/-- One move of the manager. The filters in `arrives` may arrive, and if `starts` then the
download may start over. -/
inductive Move (scheme : FilterScheme) (arrives : Filter → Prop) (starts : Prop) :
    FiltersManager blockHash → FiltersManager blockHash → Prop
  /-- Scan a batch whose filters are all stored. -/
  | scan {m : FiltersManager blockHash} {start : Nat} {batch : FiltersBatch}
      (hget : m.activeBatches.get? start = some batch) (hnew : batch.scanned = false)
      (hready : batch.endHeight ≤ m.progress.storedHeight) :
      Move scheme arrives starts m (m.scanBatch scheme start).1
  /-- Rescan the lowest batch before its commit. -/
  | rescan {m : FiltersManager blockHash} {start : Nat} {batch : FiltersBatch}
      (hfirst : m.activeBatches.keys.head? = some start)
      (hget : m.activeBatches.get? start = some batch) (hscanned : batch.scanned = true)
      (hpending : batch.pendingBlocks = 0) (hopen : batch.rescanComplete = false) :
      Move scheme arrives starts m (m.rescanForCommit scheme start batch).1
  /-- Commit the lowest batch. -/
  | commit {m : FiltersManager blockHash} {start : Nat} {batch : FiltersBatch}
      (hfirst : m.activeBatches.keys.head? = some start)
      (hget : m.activeBatches.get? start = some batch) (hscanned : batch.scanned = true)
      (hpending : batch.pendingBlocks = 0) (hcomplete : batch.rescanComplete = true) :
      Move scheme arrives starts m (m.commitBatch start batch)
  /-- Open the batch above the last one. -/
  | lookahead {m : FiltersManager blockHash} {filters : FilterMap}
      (htip : m.nextBatchStart ≤ m.progress.filterHeaderTipHeight)
      (hload : m.loadAvailable m.nextBatchStart m.nextBatchEnd = .ok filters) :
      Move scheme arrives starts m (m.openBatch m.nextBatchStart m.nextBatchEnd filters
        (m.nextBatchEnd ≤ m.progress.storedHeight))
  /-- Collect downloaded batches. -/
  | collect {m : FiltersManager blockHash} : Move scheme arrives starts m m.collectCompleted
  /-- Drop a downloaded batch that does not verify. -/
  | discard {m : FiltersManager blockHash} (start : Nat) :
      Move scheme arrives starts m { m with pendingBatches := m.pendingBatches.erase start }
  /-- Store a downloaded batch whose turn it is. -/
  | store {m m' : FiltersManager blockHash} {start : Nat} {batch : FiltersBatch}
      {events : List SyncEvent} (hget : m.pendingBatches.get? start = some batch)
      (hnext : batch.startHeight = m.nextBatchToStore)
      (hverify : verifyAndStore scheme
        { m with pendingBatches := m.pendingBatches.erase start } batch = .ok (m', events)) :
      Move scheme arrives starts m (m'.acceptBatch batch)
  /-- A filter arrives. -/
  | receive {m : FiltersManager blockHash} {hash : BlockHash} {height : Nat} {filter : Filter}
      (hfilter : arrives filter)
      (hheight : m.headerStorage.getHeaderHeightByHash hash = some height) :
      Move scheme arrives starts m
        { m with filterPipeline := (m.filterPipeline.receiveWithData height hash filter).1 }
  | send {m : FiltersManager blockHash} (now : Nat) (accepts : Nat → Bool) :
      Move scheme arrives starts m (m.sendPending now accepts).1
  | timeouts {m : FiltersManager blockHash} (now : Nat) :
      Move scheme arrives starts m { m with filterPipeline := m.filterPipeline.handleTimeouts now }
  | disconnect {m : FiltersManager blockHash} : Move scheme arrives starts m m.onDisconnect
  | extend {m : FiltersManager blockHash} {target : Nat}
      (htarget : target ≤ m.progress.filterHeaderTipHeight) :
      Move scheme arrives starts m { m with filterPipeline := m.filterPipeline.extendTarget target }
  /-- A block was processed. -/
  | processed {m : FiltersManager blockHash} (hash : BlockHash) (height : Nat)
      (wallets : Finset WalletId) (newAddresses : SortedMap WalletId (List Address)) :
      Move scheme arrives starts m (m.finishBlock hash height wallets newAddresses).1
  | setState {m : FiltersManager blockHash} (state : SyncState) : Move scheme arrives starts m (m.setState state)
  /-- Start over for a wallet that fell behind. -/
  | reset {m : FiltersManager blockHash} (hstarts : starts) (height : Nat) :
      Move scheme arrives starts m { m.resetForRescan with progress := m.progress.updateCommittedHeight height }
  /-- Set the pipeline up for a range of heights. -/
  | init {m : FiltersManager blockHash} {lo hi : Nat} (hstarts : starts)
      (hidle : m.activeBatches.size = 0)
      (hrange : hi < lo ∨ hi ≤ m.progress.filterHeaderTipHeight) :
      Move scheme arrives starts m { m with filterPipeline := m.filterPipeline.init lo hi }
  /-- Take the height of the stored filters for the tip of the filter headers. -/
  | storedTip {m : FiltersManager blockHash} (hstarts : starts) : Move scheme arrives starts m m.takeStoredTip
  | begin {m : FiltersManager blockHash} (hstarts : starts) (hidle : m.activeBatches.size = 0) :
      Move scheme arrives starts m m.beginDownload
  | noteStored {m : FiltersManager blockHash} (hstarts : starts) (scanStart : Nat)
      (hidle : m.activeBatches.size = 0) : Move scheme arrives starts m (m.noteStored scanStart)
  /-- Open the first batch of a scan. -/
  | first {m : FiltersManager blockHash} {scanStart : Nat} {filters : FilterMap}
      (hstarts : starts) (hidle : m.activeBatches.size = 0)
      (htip : scanStart ≤ m.progress.filterHeaderTipHeight)
      (hload : m.loadFirst scanStart = .ok filters) :
      Move scheme arrives starts m (m.openFirst scanStart filters)
  | reorg {m : FiltersManager blockHash} (hstarts : starts) (forkHeight : Nat) :
      Move scheme arrives starts m (m.handleChainReorg forkHeight)

/-- A number of moves. -/
abbrev Moves (scheme : FilterScheme) (arrives : Filter → Prop) (starts : Prop) :
    FiltersManager blockHash → FiltersManager blockHash → Prop :=
  Relation.ReflTransGen (Move scheme arrives starts)

/-- An invariant that every move keeps is kept by any number of them. -/
theorem Moves.keep {arrives : Filter → Prop} {starts : Prop}
    {Inv : FiltersManager blockHash → Prop}
    (keep : ∀ m m', Move scheme arrives starts m m' → Inv m → Inv m')
    (h : Moves scheme arrives starts m m') (hm : Inv m) : Inv m' := by
  induction h with
  | refl => exact hm
  | tail _ hmove ih => exact keep _ _ hmove ih

/-! ### Moves that keep the content of batches -/

/-- The batches in processing have the same heights and filters. -/
def SameContent (m m' : FiltersManager blockHash) : Prop :=
  ∀ k, (m'.activeBatches.get? k).map content =
    (m.activeBatches.get? k).map content

theorem SameContent.of_get? (h : SameContent m m')
    (hget : m'.activeBatches.get? k = some batch') :
    ∃ batch, m.activeBatches.get? k = some batch ∧ batch.content = batch'.content := by
  have hk := h k
  rw [hget, map_some] at hk
  exact map_eq_some_iff.mp hk.symm

/-- The batches in processing have the same heights and filters, and the same of them are
scanned. -/
def SameScans (m m' : FiltersManager blockHash) : Prop :=
  ∀ k, (m'.activeBatches.get? k).map (fun b => (b.content, b.scanned)) =
    (m.activeBatches.get? k).map fun b => (b.content, b.scanned)

theorem SameScans.sameContent (h : SameScans m m') : SameContent m m' := by
  intro k
  have hk := congrArg (Option.map Prod.fst) (h k)
  rw [map_map, map_map] at hk
  exact hk

theorem SameScans.of_get? (h : SameScans m m')
    (hget : m'.activeBatches.get? k = some batch') :
    ∃ batch, m.activeBatches.get? k = some batch ∧ batch.content = batch'.content ∧
      batch.scanned = batch'.scanned := by
  have hk := h k
  rw [hget, map_some] at hk
  obtain ⟨batch, hbatch, heq⟩ := map_eq_some_iff.mp hk.symm
  exact ⟨batch, hbatch, congrArg Prod.fst heq, congrArg Prod.snd heq⟩

theorem Matched.sameScans (h : Matched m m') : SameScans m m' := by
  intro k
  have hk := congrArg (Option.map fun b => (b.content, b.scanned)) (h.batches k)
  rw [map_map, map_map] at hk
  exact hk

/-- Replacing a batch by one with the same heights and filters. -/
theorem sameContent_setBatch (hget : m.activeBatches.get? start = some batch)
    (hsame : batch'.content = batch.content) : SameContent m (m.setBatch start batch') := by
  intro k
  rw [setBatch, get?_insert]
  split_ifs with hk
  · rw [← hk, hget, map_some, map_some, hsame]
  · rfl

theorem sameContent_scanBatch (m : FiltersManager blockHash) (start : Nat) :
    SameContent m (m.scanBatch scheme start).1 := by
  unfold scanBatch
  cases hget : m.activeBatches.get? start with
  | none => exact fun _ => rfl
  | some batch =>
    have hmarked : SameContent m (m.beginScan start batch) :=
      @sameContent_setBatch _ m start batch (batch.markScanned.setScannedWallets
        (m.wallet.walletsBehind batch.endHeight).toFinset) hget rfl
    dsimp only
    split_ifs
    · exact hmarked
    · exact fun k =>
        ((matched_requestMatches _ start _).sameScans.sameContent k).trans (hmarked k)

/-- Nothing changed but batches in processing, blocks in flight and what the history says of
scans and tests. -/
def SameRest (m m' : FiltersManager blockHash) : Prop :=
  m' = { m with
    activeBatches := m'.activeBatches
    tracker := m'.tracker
    progress := { m.progress with matched := m'.progress.matched }
    history := { m.history with scans := m'.history.scans, tested := m'.history.tested } }

theorem Matched.sameRest (h : Matched m m') : SameRest m m' := by
  have hrest := h.rest
  rw [SameRest]
  rw [hrest]

theorem sameRest_scanBatch (m : FiltersManager blockHash) (start : Nat) :
    SameRest m (m.scanBatch scheme start).1 := by
  unfold scanBatch
  cases m.activeBatches.get? start with
  | none => rfl
  | some batch =>
    dsimp only
    split_ifs <;> rfl

/-! ### Committing -/

variable (arrives : Filter → Prop) (starts : Prop) {now : Nat} {accepts : Nat → Bool}

theorem tryCommitLoop_moves (fuel : Nat) (m : FiltersManager blockHash) :
    Moves scheme arrives starts m (m.tryCommitLoop scheme fuel).1 := by
  induction fuel generalizing m with
  | zero => exact .refl
  | succ fuel ih =>
    unfold tryCommitLoop
    cases hentries : m.activeBatches.entries with
    | nil => exact .refl
    | cons first rest =>
      obtain ⟨start, batch⟩ := first
      have hfirst : m.activeBatches.keys.head? = some start := by
        rw [SortedMap.keys, hentries, List.map_cons, List.head?_cons]
      have hget : m.activeBatches.get? start = some batch := by
        rw [← mem_entries_iff, hentries]
        exact List.mem_cons_self
      dsimp only
      split_ifs with hwaits
      · exact .refl
      simp only [Bool.or_eq_true, Bool.not_eq_true', decide_eq_true_eq, not_or,
        Bool.not_eq_false, Nat.not_lt, Nat.le_zero] at hwaits
      obtain ⟨hscanned, hpend⟩ := hwaits
      by_cases hcomp : batch.rescanComplete = true
      · -- the batch was rescanned before and is committed as it is
        have heq : m.rescanForCommit scheme start batch = (m, [], false) := by
          rw [rescanForCommit, if_pos hcomp]
        simp only [heq, hget]
        exact .head (.commit hfirst hget hscanned hpend hcomp) (ih _)
      rw [Bool.not_eq_true] at hcomp
      have hmove : Move scheme arrives starts m (m.rescanForCommit scheme start batch).1 :=
        .rescan hfirst hget hscanned hpend hcomp
      obtain ⟨batch', hget', hfixed, ⟨-, hblocked, -⟩ | ⟨hnone, hfree, heq⟩⟩ :=
        @rescanForCommit_cases _ scheme m start batch hget hcomp
      · generalize m.rescanForCommit scheme start batch = r at hmove hblocked ⊢
        obtain ⟨m', events, blocked⟩ := r
        subst hblocked
        exact .single hmove
      · have hkeys := (@matched_rescanCollected _ scheme m start batch hget).keys
        have hscanned' : batch'.scanned = true :=
          (congrArg scanned hfixed).trans hscanned
        generalize m.rescanForCommit scheme start batch = r at hmove hfree heq ⊢
        obtain ⟨m', events, blocked⟩ := r
        dsimp only at hfree heq hmove ⊢
        subst hfree
        have hget'' : m'.activeBatches.get? start = some batch'.markRescanComplete := by
          rw [heq, setBatch, get?_insert_self]
        have hfirst' : m'.activeBatches.keys.head? = some start := by
          have hmatched : Matched (m.rescanCollected scheme start batch).1 m' :=
            heq ▸ matched_setBatch hget' rfl
          rw [hmatched.keys, hkeys, hfirst]
        simp only [hget'']
        exact .head hmove (.head (.commit hfirst' hget'' hscanned' hnone rfl) (ih _))

theorem tryCommitBatches_moves (m : FiltersManager blockHash) :
    Moves scheme arrives starts m (m.tryCommitBatches scheme).1 :=
  tryCommitLoop_moves _ _ _ m

/-! ### Scanning and lookahead -/

/-- Scanning a batch leaves the other batches and the stored height as they are. -/
theorem scanBatch_frame (m : FiltersManager blockHash) (start : Nat) :
    (∀ k, k ≠ start →
      (m.scanBatch scheme start).1.activeBatches.get? k = m.activeBatches.get? k) ∧
    (m.scanBatch scheme start).1.progress.storedHeight = m.progress.storedHeight := by
  unfold scanBatch
  cases hget : m.activeBatches.get? start with
  | none => exact ⟨fun _ _ => rfl, rfl⟩
  | some batch =>
    have hother : ∀ k, k ≠ start →
        (m.beginScan start batch).activeBatches.get? k = m.activeBatches.get? k := by
      intro k hk
      rw [beginScan, recordTests, setBatch, get?_insert, if_neg (Ne.symm hk)]
    have hself : ∃ batch', (m.beginScan start batch).activeBatches.get? start = some batch' :=
      ⟨_, by rw [beginScan, recordTests, setBatch, get?_insert_self]⟩
    dsimp only
    split_ifs
    · exact ⟨hother, rfl⟩
    · refine ⟨fun k hk => ?_, rfl⟩
      obtain ⟨batch', hbatch'⟩ := hself
      rw [← hother k hk]
      simp only [requestMatches, hbatch', get?_insert, if_neg (Ne.symm hk)]

theorem scanBatches_moves {batchStarts : List Nat} (hnodup : batchStarts.Nodup)
    (hready : ∀ start ∈ batchStarts, ∃ batch,
      m.activeBatches.get? start = some batch ∧ batch.scanned = false ∧
        batch.endHeight ≤ m.progress.storedHeight) :
    Moves scheme arrives starts m (m.scanBatches scheme batchStarts).1 := by
  induction batchStarts generalizing m with
  | nil => exact .refl
  | cons start rest ih =>
    obtain ⟨hfresh, hrest⟩ := List.nodup_cons.mp hnodup
    obtain ⟨batch, hget, hnew, hstored⟩ := hready start List.mem_cons_self
    obtain ⟨hothers, hheight⟩ := scanBatch_frame m start
    refine .head (.scan hget hnew hstored) (ih hrest ?_)
    intro other hother
    have hne : other ≠ start := fun h => hfresh (h ▸ hother)
    rw [hothers other hne, hheight]
    exact hready other (List.mem_cons_of_mem start hother)

theorem scanReadyBatches_moves (m : FiltersManager blockHash) :
    Moves scheme arrives starts m (m.scanReadyBatches scheme).1 := by
  apply scanBatches_moves _ _ (nodup_keys _)
  intro start hstart
  obtain ⟨batch, hget⟩ := mem_keys_iff.mp hstart
  rw [get?_filter, filter_eq_some_iff] at hget
  simp only [Bool.and_eq_true, Bool.not_eq_true', decide_eq_true_eq] at hget
  exact ⟨batch, hget.1, hget.2.1, hget.2.2⟩

/-- The next batch starts above the last one, or where processing stands. -/
theorem nextBatchStart_cases (m : FiltersManager blockHash) :
    ((∀ k, m.activeBatches.get? k = none) ∧ m.nextBatchStart = m.processingHeight) ∨
    ∃ start batch, m.activeBatches.get? start = some batch ∧
      (∀ k b, m.activeBatches.get? k = some b → k ≤ start) ∧
      m.nextBatchStart = batch.endHeight + 1 := by
  unfold nextBatchStart
  cases hlast : m.activeBatches.values.getLast? with
  | none =>
    refine .inl ⟨?_, rfl⟩
    rw [← size_eq_zero_iff, size, List.length_eq_zero_iff]
    exact List.map_eq_nil_iff.mp (List.getLast?_eq_none_iff.mp hlast)
  | some batch =>
    obtain ⟨start, hget, hmax⟩ := values_getLast?_eq_some hlast
    exact .inr ⟨start, batch, hget, hmax, rfl⟩

theorem nextBatchStart_of_none (hnone : ∀ k, m.activeBatches.get? k = none) :
    m.nextBatchStart = m.processingHeight := by
  obtain ⟨-, hnext⟩ | ⟨start, batch, hget, -⟩ := m.nextBatchStart_cases
  · exact hnext
  · simp [hnone start] at hget

theorem nextBatchStart_of_last {last : Nat} {batch : FiltersBatch}
    (hget : m.activeBatches.get? last = some batch)
    (hmax : ∀ k b, m.activeBatches.get? k = some b → k ≤ last) :
    m.nextBatchStart = batch.endHeight + 1 := by
  obtain ⟨hnone, -⟩ | ⟨start, other, hother, hle, hnext⟩ := m.nextBatchStart_cases
  · simp [hnone last] at hget
  · obtain rfl : start = last := le_antisymm (hmax start other hother) (hle last batch hget)
    obtain rfl := mem_unique hget hother
    exact hnext

/-- Opening a batch adds one that was not scanned. -/
theorem openBatch_activeBatches (m : FiltersManager blockHash) (startHeight endHeight : Nat)
    (filters : FilterMap) (verified : Bool) :
    ∃ opened, (m.openBatch startHeight endHeight filters verified).activeBatches =
        m.activeBatches.insert startHeight opened ∧
      opened.scanned = false ∧ opened.endHeight = endHeight ∧ opened.startHeight = startHeight ∧
      opened.pendingBlocks = 0 ∧ opened.filters = filters ∧ opened.rescanComplete = false := by
  refine ⟨_, rfl, ?_⟩
  cases verified <;> exact ⟨rfl, rfl, rfl, rfl, rfl, rfl⟩

/-- The batches that a commit leaves. -/
theorem of_get?_commitBatch {start k : Nat} {batch other : FiltersBatch}
    (hget : (m.commitBatch start batch).activeBatches.get? k = some other) :
    k ≠ start ∧ m.activeBatches.get? k = some other :=
  (of_get?_erase hget).imp_left Ne.symm

theorem lookaheadLoop_moves (fuel : Nat) (m : FiltersManager blockHash) :
    Moves scheme arrives starts m (m.lookaheadLoop scheme fuel).1 := by
  induction fuel generalizing m with
  | zero => exact .refl
  | succ fuel ih =>
    unfold lookaheadLoop
    split_ifs with hfull htip
    · exact .refl
    · exact .refl
    dsimp only
    cases hload : m.loadAvailable m.nextBatchStart m.nextBatchEnd with
    | error e => exact .refl
    | ok filters =>
      have hopen : Move scheme arrives starts m (m.openBatch m.nextBatchStart m.nextBatchEnd filters
          (m.nextBatchEnd ≤ m.progress.storedHeight)) := .lookahead (Nat.not_lt.mp htip) hload
      obtain ⟨batch, hopened, hnew, hend, -⟩ := m.openBatch_activeBatches m.nextBatchStart
        m.nextBatchEnd filters (m.nextBatchEnd ≤ m.progress.storedHeight)
      have hget := hopened ▸ get?_insert_self
      dsimp only
      split_ifs with hready
      · have hscan : Move scheme arrives starts _ (scanBatch scheme (m.openBatch m.nextBatchStart m.nextBatchEnd
            filters (m.nextBatchEnd ≤ m.progress.storedHeight)) m.nextBatchStart).1 :=
          .scan hget hnew (hend ▸ hready)
        have hrest := ih (scanBatch scheme (m.openBatch m.nextBatchStart m.nextBatchEnd
          filters (m.nextBatchEnd ≤ m.progress.storedHeight)) m.nextBatchStart).1
        refine .head hopen (.head hscan ?_)
        generalize lookaheadLoop scheme fuel _ = r at hrest ⊢
        obtain ⟨m', e | more⟩ := r <;> exact hrest
      · have hrest := ih (m.openBatch m.nextBatchStart m.nextBatchEnd filters
          (m.nextBatchEnd ≤ m.progress.storedHeight))
        refine .head hopen ?_
        generalize lookaheadLoop scheme fuel _ = r at hrest ⊢
        obtain ⟨m', e | more⟩ := r <;> exact hrest

section

variable (m : FiltersManager blockHash)

theorem tryCreateLookaheadBatches_moves :
    Moves scheme arrives starts m (m.tryCreateLookaheadBatches scheme).1 :=
  lookaheadLoop_moves _ _ _ m

theorem reportComplete_moves :
    Moves scheme arrives starts m m.reportComplete.1 := by
  unfold reportComplete
  split_ifs
  · exact .single (.setState .synced)
  · exact .refl

theorem tryProcessBatch_moves :
    Moves scheme arrives starts m (m.tryProcessBatch scheme).1 := by
  have hcommit := @tryCommitBatches_moves _ scheme arrives starts m
  have hscan := @scanReadyBatches_moves _ scheme arrives starts (m.tryCommitBatches scheme).1
  have hagain := @tryCommitBatches_moves _ scheme arrives starts
    ((m.tryCommitBatches scheme).1.scanReadyBatches scheme).1
  have hopen := @tryCreateLookaheadBatches_moves _ scheme arrives starts
    (((m.tryCommitBatches scheme).1.scanReadyBatches scheme).1.tryCommitBatches scheme).1
  have hmoves := hcommit.trans (hscan.trans (hagain.trans hopen))
  unfold tryProcessBatch
  dsimp only
  generalize tryCreateLookaheadBatches scheme _ = r at hmoves ⊢
  obtain ⟨m', e | opened⟩ := r
  · exact hmoves
  · exact hmoves.trans (reportComplete_moves _ _ m')

/-! ### Storing -/

theorem storeLoop_moves (fuel : Nat) (m : FiltersManager blockHash) :
    Moves scheme arrives starts m (m.storeLoop scheme fuel).1 := by
  induction fuel generalizing m with
  | zero => exact .refl
  | succ fuel ih =>
    unfold storeLoop
    cases hentries : m.pendingBatches.entries with
    | nil => exact .refl
    | cons first rest =>
      obtain ⟨start, batch⟩ := first
      have hget : m.pendingBatches.get? start = some batch := by
        rw [← mem_entries_iff, hentries]
        exact List.mem_cons_self
      dsimp only
      split_ifs with hnext
      · exact .refl
      cases hverify : verifyAndStore scheme
          { m with pendingBatches := m.pendingBatches.erase start } batch with
      | error e => exact .single (.discard start)
      | ok r =>
        obtain ⟨m', stored⟩ := r
        have hrest := ih (m'.acceptBatch batch)
        refine .head (.store hget (not_not.mp hnext) hverify) ?_
        dsimp only
        generalize storeLoop scheme fuel _ = r at hrest ⊢
        obtain ⟨m'', e | more⟩ := r <;> exact hrest

theorem storeAndMatchBatches_moves :
    Moves scheme arrives starts m (m.storeAndMatchBatches scheme).1 := by
  have hstore := @storeLoop_moves _ scheme arrives starts m.collectCompleted.pendingBatches.size
    m.collectCompleted
  refine .head .collect ?_
  unfold storeAndMatchBatches
  dsimp only
  generalize storeLoop scheme _ _ = r at hstore ⊢
  obtain ⟨m', e | events⟩ := r
  · exact hstore
  dsimp only
  split_ifs
  · exact hstore
  have hprocess := @tryProcessBatch_moves _ scheme arrives starts m'
  generalize m'.tryProcessBatch scheme = r at hprocess ⊢
  obtain ⟨m'', e | more⟩ := r <;> exact hstore.trans hprocess

end

/-- Sending comes before what follows it. -/
theorem sendThen_moves
    {next : FiltersManager blockHash → FiltersManager blockHash × Except SyncError (List SyncEvent)}
    (hnext : Moves scheme arrives starts (m.sendPending now accepts).1 (next (m.sendPending now accepts).1).1) :
    Moves scheme arrives starts m (m.sendThen now accepts next).1 := by
  refine .head (.send now accepts) ?_
  unfold sendThen
  generalize m.sendPending now accepts = r at hnext ⊢
  obtain ⟨m', e | sent⟩ := r
  · exact .refl
  · exact hnext

/-! ### Starting -/

theorem initPipeline_moves (hstarts : starts) (hidle : m.activeBatches.size = 0) :
    Moves scheme arrives starts m (m.initPipeline now accepts).1 := by
  unfold initPipeline
  split_ifs with htip
  · exact .head (.init hstarts hidle (.inr le_rfl)) (.single (.send now accepts))
  · refine .single (.init hstarts hidle (.inl ?_))
    omega

/-- The pipeline is all that its set-up changes. -/
theorem initPipeline_eq (m : FiltersManager blockHash) (now : Nat) (accepts : Nat → Bool) :
    (m.initPipeline now accepts).1 =
      { m with filterPipeline := (m.initPipeline now accepts).1.filterPipeline } := by
  unfold initPipeline
  split_ifs <;> rfl

theorem openFirst_get? (m : FiltersManager blockHash) (scanStart : Nat) (filters : FilterMap) :
    ∃ batch, (m.openFirst scanStart filters).activeBatches.get? scanStart = some batch ∧
      batch.scanned = false ∧ batch.endHeight = m.firstBatchEnd scanStart := by
  obtain ⟨batch, hopened, hnew, hend, -⟩ := m.openBatch_activeBatches scanStart
    (m.firstBatchEnd scanStart) filters (m.firstBatchEnd scanStart ≤ m.filterTipHeight)
  exact ⟨batch, hopened ▸ get?_insert_self, hnew, hend⟩

theorem openFirstBatch_moves (hstarts : starts) (hidle : m.activeBatches.size = 0)
    {scanStart : Nat} (htip : scanStart ≤ m.progress.filterHeaderTipHeight) :
    Moves scheme arrives starts m (m.openFirstBatch scheme scanStart).1 := by
  refine .head (.noteStored hstarts scanStart hidle) ?_
  have hframe : (m.noteStored scanStart).activeBatches = m.activeBatches ∧
      (m.noteStored scanStart).progress.filterHeaderTipHeight =
        m.progress.filterHeaderTipHeight := by
    unfold noteStored
    split_ifs <;> exact ⟨rfl, rfl⟩
  obtain ⟨hactive, hheight⟩ := hframe
  unfold openFirstBatch
  dsimp only
  generalize m.noteStored scanStart = m at hactive hheight ⊢
  cases hload : m.loadFirst scanStart with
  | error e => exact .refl
  | ok filters =>
    have hopen : Move scheme arrives starts m (m.openFirst scanStart filters) :=
      .first hstarts (hactive ▸ hidle) (hheight ▸ htip) hload
    obtain ⟨batch, hget, hnew, hend⟩ := m.openFirst_get? scanStart filters
    split_ifs with hready
    · exact .head hopen (.single (.scan hget hnew (hend ▸ hready)))
    · exact .single hopen

theorem startDownload_moves (hstarts : starts) (hidle : m.activeBatches.size = 0) :
    Moves scheme arrives starts m (m.startDownload scheme now accepts).1 := by
  unfold startDownload
  split_ifs with htip
  · exact .single (.setState .synced)
  · exact .single (.setState .waitForEvents)
  have hinit : Moves scheme arrives starts m (m.beginDownload.initPipeline now accepts).1 :=
    .head (.begin hstarts hidle)
      (initPipeline_moves _ _ (m := m.beginDownload) hstarts hidle)
  have heq := m.beginDownload.initPipeline_eq now accepts
  generalize m.beginDownload.initPipeline now accepts = r at hinit heq ⊢
  obtain ⟨m', e | sent⟩ := r
  · exact hinit
  refine hinit.trans (openFirstBatch_moves _ _ hstarts ?_ ?_)
  · rw [heq]
    exact hidle
  · rw [heq]
    exact Nat.not_lt.mp htip

/-! ### Actions -/

section

variable (m : FiltersManager blockHash)

theorem updateBestHeight_eq (bestHeight : Option Nat) :
    ∃ targetHeight, m.updateBestHeight bestHeight =
      { m with progress := { m.progress with targetHeight } } := by
  unfold updateBestHeight updateTargetHeight
  cases bestHeight with
  | none => exact ⟨_, rfl⟩
  | some height =>
    dsimp only
    split_ifs
    · exact ⟨_, rfl⟩
    · exact ⟨_, rfl⟩

/-- What an action brings from outside: changes of the stores and wallets, and tips. -/
def arrive : Action blockHash → FiltersManager blockHash
  | .syncEvent (.filterHeadersSyncComplete tipHeight) _ _
  | .syncEvent (.filterHeadersStored _ _ tipHeight) _ _ => m.updateTips tipHeight
  | .networkEvent _ bestHeight _ _ => m.updateBestHeight bestHeight
  | .stores headerStorage filterHeaderStorage => { m with headerStorage, filterHeaderStorage }
  | .cascade candidate => m.cascade candidate
  | .wallets wallet => { m with wallet }
  | _ => m

theorem lookaheadIfIdle_moves :
    Moves scheme arrives starts m (m.lookaheadIfIdle scheme).1 := by
  unfold lookaheadIfIdle
  split_ifs
  · exact tryCreateLookaheadBatches_moves _ _ m
  · exact .refl

end

theorem extendDownload_moves {tipHeight : Nat}
    (htip : tipHeight ≤ m.progress.filterHeaderTipHeight) :
    Moves scheme arrives starts m (m.extendDownload scheme tipHeight now accepts).1 := by
  have htip' : tipHeight ≤ (m.setState .syncing).progress.filterHeaderTipHeight := htip
  refine .head (.setState .syncing) (.head (.extend htip') ?_)
  unfold extendDownload
  dsimp only
  split_ifs
  · exact sendThen_moves _ _ (lookaheadIfIdle_moves _ _ _)
  · exact lookaheadIfIdle_moves _ _ _

section

variable (m : FiltersManager blockHash)

theorem le_updateTips (tipHeight : Nat) :
    tipHeight ≤ (m.updateTips tipHeight).progress.filterHeaderTipHeight := by
  unfold updateTips updateTargetHeight updateFilterHeaderTipHeight
  split_ifs <;> dsimp only <;> omega

theorem handleNewFilterHeaders_moves (hstarts : starts) (tipHeight : Nat) :
    Moves scheme arrives starts (m.updateTips tipHeight)
      (m.handleNewFilterHeaders scheme tipHeight now accepts).1 := by
  have htip := m.le_updateTips tipHeight
  have hstart : Moves scheme arrives starts (m.updateTips tipHeight)
      (if (m.updateTips tipHeight).activeBatches.size = 0 then
        (m.updateTips tipHeight).startDownload scheme now accepts
      else ({ m.updateTips tipHeight with filterPipeline :=
        (m.updateTips tipHeight).filterPipeline.extendTarget tipHeight }, .ok [])).1 := by
    split_ifs with hidle
    · exact startDownload_moves _ _ hstarts hidle
    · exact .single (.extend htip)
  have hgoOn : Moves scheme arrives starts (m.updateTips tipHeight)
      (if (m.updateTips tipHeight).progress.committedHeight <
          (m.updateTips tipHeight).progress.filterHeaderTipHeight then
        (m.updateTips tipHeight).extendDownload scheme tipHeight now accepts
      else (m.updateTips tipHeight, .ok [])).1 := by
    split_ifs
    · exact extendDownload_moves _ _ htip
    · exact .refl
  unfold handleNewFilterHeaders
  dsimp only
  cases (m.updateTips tipHeight).progress.state with
  | syncing | synced => exact hgoOn
  | waitingForConnections | waitForEvents => exact hstart
  | error => exact .refl

theorem handleBlockProcessed_moves (hash : BlockHash)
    (height : Nat) (wallets : Finset WalletId)
    (newAddresses : SortedMap WalletId (List Address)) :
    Moves scheme arrives starts m (m.handleBlockProcessed scheme hash height wallets newAddresses).1 := by
  refine .head (.processed hash height wallets newAddresses) ?_
  unfold handleBlockProcessed
  generalize m.finishBlock hash height wallets newAddresses = r
  obtain ⟨m', _ | _⟩ := r
  · exact .refl
  · exact tryProcessBatch_moves _ _ m'

theorem handleMessage_moves (hash : BlockHash) {filter : Filter} (hfilter : arrives filter) :
    Moves scheme arrives starts m (m.handleMessage scheme hash filter now accepts).1 := by
  unfold handleMessage
  cases hheight : m.headerStorage.getHeaderHeightByHash hash with
  | none => exact .refl
  | some height =>
    dsimp only
    split_ifs
    · exact .refl
    · exact .head (.receive hfilter hheight)
        (sendThen_moves _ _ (storeAndMatchBatches_moves _ _ _))

theorem storeAndProcess_moves :
    Moves scheme arrives starts m (m.storeAndProcess scheme).1 := by
  have hstore := @storeAndMatchBatches_moves _ scheme arrives starts m
  unfold storeAndProcess
  generalize m.storeAndMatchBatches scheme = r at hstore ⊢
  obtain ⟨m', e | events⟩ := r
  · exact hstore
  have hprocess := @tryProcessBatch_moves _ scheme arrives starts m'
  dsimp only
  generalize m'.tryProcessBatch scheme = r at hprocess ⊢
  obtain ⟨m'', e | more⟩ := r <;> exact hstore.trans hprocess

theorem tickWork_moves :
    Moves scheme arrives starts m (m.tickWork scheme now accepts).1 := by
  unfold tickWork
  split_ifs
  · exact .head (.timeouts now)
      (sendThen_moves _ _ (storeAndProcess_moves _ _ _))
  · exact .refl

theorem tick_moves (hstarts : starts) :
    Moves scheme arrives starts m (m.tick scheme now accepts).1 := by
  unfold tick
  cases m.staleWallets with
  | none => exact tickWork_moves _ _ m
  | some synced =>
    exact .head (.reset hstarts synced)
      (startDownload_moves _ _ hstarts rfl)

theorem startSync_moves (hstarts : starts) :
    Moves scheme arrives starts m (m.startSync scheme now accepts).1 := by
  unfold startSync
  split_ifs with hbusy
  · exact sendThen_moves _ _ (.single (.setState .syncing))
  rw [not_not] at hbusy
  dsimp only
  split_ifs
  · -- stored filters are scanned as far as they go
    have hstart : Moves scheme arrives starts m (m.takeStoredTip.startDownload scheme now accepts).1 :=
      .head (.storedTip hstarts)
        (startDownload_moves _ _ (m := m.takeStoredTip) hstarts hbusy)
    generalize m.takeStoredTip.startDownload scheme now accepts = r at hstart ⊢
    obtain ⟨m', e | events⟩ := r <;> exact hstart
  · exact .head (.storedTip hstarts) (.head (.init hstarts hbusy (.inl (Nat.lt_succ_self _))) (.single (.setState .synced)))
  · exact .head (.storedTip hstarts) (.head (.init hstarts hbusy (.inl (Nat.lt_succ_self _))) (.single (.setState .waitForEvents)))
  · exact .single (.setState .waitForEvents)

/-- No store refuses to be cut at the height of a fork. -/
def Accepts (candidate : ForkCandidate) : Prop :=
  ¬ m.headerStorage.chain.RefusesCut candidate.ancestorHeight ∧
  ¬ m.filterHeaderStorage.content.RefusesCut candidate.ancestorHeight ∧
  ¬ m.filterStorage.content.RefusesCut candidate.ancestorHeight

end

/-- A cascade that no store refuses cuts the filter headers and the filters. -/
theorem cascade_content {candidate : ForkCandidate} (h : m.Accepts candidate) :
    (m.cascade candidate).filterHeaderStorage.content =
      m.filterHeaderStorage.content.cut 0 candidate.ancestorHeight ∧
    (m.cascade candidate).filterStorage.content =
      m.filterStorage.content.cut [] candidate.ancestorHeight := by
  obtain ⟨hhdrs, hfhs, hfilt⟩ := h
  obtain ⟨headers, hcut, -, -⟩ := PersistentBlockHeaderStorage.truncateAbove_of_accepts hhdrs
  obtain ⟨filterHeaders, hcut₁, hcont₁⟩ := SegmentStore.truncateAbove_of_accepts hfhs
  obtain ⟨filters, hcut₂, hcont₂⟩ := SegmentStore.truncateAbove_of_accepts hfilt
  simp only [cascade, truncateAll, truncateOptional, hcut, hcut₁, hcut₂, Except.mapError, getD_some]
  exact ⟨hcont₁, hcont₂⟩

/-- The filters that an action carries. -/
def Action.Carries : Action blockHash → Filter → Prop
  | .message _ filter _ _, other => other = filter
  | _, _ => False

/-- Every action goes in moves, after what it brings from outside. -/
theorem step_moves (m : FiltersManager blockHash) (a : Action blockHash) :
    Moves scheme a.Carries True (m.arrive a) (m.step scheme a) := by
  cases a with
  | message hash filter now accepts =>
    have hcarried : (.message hash filter now accepts : Action blockHash).Carries filter := rfl
    exact handleMessage_moves _ _ m hash hcarried
  | syncEvent event now accepts =>
    cases event with
    | filterHeadersSyncComplete tipHeight | filterHeadersStored _ _ tipHeight =>
      exact handleNewFilterHeaders_moves _ _ m trivial tipHeight
    | chainReorg forkHeight oldTip newTip generation => exact .single (.reorg trivial forkHeight)
    | blockProcessed hash height wallets newAddresses =>
      exact handleBlockProcessed_moves _ _ m hash height wallets newAddresses
    | _ => exact .refl
  | tick now accepts => exact tick_moves _ _ m trivial
  | networkEvent connectedCount bestHeight now accepts =>
    unfold step respond handleNetworkEvent
    dsimp only
    split_ifs
    · exact .head (.setState .waitingForConnections) (.single .disconnect)
    · exact startSync_moves _ _ _ trivial
    · exact .refl
  | stores | cascade | wallets => exact .refl

end FiltersManager

end Dashcore
