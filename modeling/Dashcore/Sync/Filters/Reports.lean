import Dashcore.Sync.Filters.RealScans

/-!
# Reported addresses

A processed block may report addresses that its wallets have derived. If the block was in
flight for a batch, the batch collects them. Before the batch is committed, it and the scanned
batches above it are matched against what it collected; batches that are scanned later are
matched against all addresses of the wallets. So a reported address is matched against the
filters of its batch and of all later ones, above the height that its wallet is matched up to.
-/

namespace Dashcore

open SortedMap FiltersBatch Option

/-- An address that a block in flight for a batch reported, when a number of batches had been
committed. -/
structure AddressReport where
  walletId : WalletId
  address : Address
  batchStart : Nat
  commitsBefore : Nat
  deriving DecidableEq

variable {blockHash : Header → BlockHash}

/-- The filters that a batch was scanned with have been matched against a reported address,
above the height that its wallet is matched up to. -/
def FiltersCommit.Honours (c : FiltersCommit blockHash) (r : AddressReport) : Prop :=
  ∃ scan, c.scan = some scan ∧ ∀ key, scan.filters.contains key = true →
    c.wallet.walletSyncedHeight r.walletId < key.height →
      c.tested r.walletId r.address key = true

namespace FiltersManager

variable {scheme : FilterScheme} {arrives : Filter → Prop} {starts : Prop}
  {m m' : FiltersManager blockHash} {start : Nat} {batch : FiltersBatch}

section

variable (m : FiltersManager blockHash)

/-- The reports of a processed block: none if no batch waits for it. -/
def reportsOf (hash : BlockHash)
    (newAddresses : SortedMap WalletId (List Address)) : List AddressReport :=
  match m.tracker.blocksRemaining.get? hash with
  | none => []
  | some (_, batchStart) =>
    newAddresses.entries.flatMap fun e => e.2.map fun address =>
      { walletId := e.1
        address
        batchStart
        commitsBefore := m.history.commits.length }

variable (r : AddressReport)

/-- A reported address was matched against a batch's filters. -/
def Tested (filters : FilterMap) : Prop :=
  ∀ key, filters.contains key = true → m.wallet.walletSyncedHeight r.walletId < key.height →
    m.history.tested r.walletId r.address key = true

/-- A batch collected a reported address. -/
def Collected (batch : FiltersBatch) : Prop :=
  ∃ addresses, batch.collectedAddresses.get? r.walletId = some addresses ∧ r.address ∈ addresses

/-- A reported address waits, at or below a batch, to be matched. -/
def Waits (start : Nat) : Prop :=
  ∃ k batch, m.activeBatches.get? k = some batch ∧ r.batchStart ≤ k ∧ k ≤ start ∧ Collected r batch

end

/-- What the manager keeps about the reports. -/
structure Honest (reports : List AddressReport) (m : FiltersManager blockHash) : Prop where
  accounted : m.Accounted
  monitored : ∀ r ∈ reports, r.address ∈ m.wallet.monitoredAddressesFor r.walletId
  /-- The filters of a batch lie in its range. -/
  ranged : ∀ {start batch}, m.activeBatches.get? start = some batch →
    ∀ key, batch.filters.contains key = true → start ≤ key.height ∧ key.height ≤ batch.endHeight
  /-- A scanned batch keeps the filters it was scanned with. -/
  scans : ∀ {start batch}, m.activeBatches.get? start = some batch → batch.scanned = true →
    ∃ scan, m.history.scans start = some scan ∧
      ∀ key, scan.filters.contains key = true → batch.filters.contains key = true
  /-- A batch whose rescan is complete is the next to be committed. -/
  complete : ∀ {start batch}, m.activeBatches.get? start = some batch →
    batch.rescanComplete = true → batch.scanned = true ∧ batch.pendingBlocks = 0 ∧
      batch.collectedAddresses = ∅ ∧
      ∀ {other batch'}, m.activeBatches.get? other = some batch' → start ≤ other
  covered : ∀ r ∈ reports, ∀ {start batch scan}, m.activeBatches.get? start = some batch →
    batch.scanned = true → r.batchStart ≤ start → m.history.scans start = some scan →
      m.Tested r scan.filters ∨ m.Waits r start
  honoured : ∀ r ∈ reports, r.commitsBefore ≤ m.history.commits.length ∧
    ∀ i c, r.commitsBefore ≤ i → m.history.commits[i]? = some c →
      r.batchStart ≤ c.batch.startHeight → c.Honours r

/-! ### What matching does -/

/-- Tests are not forgotten. -/
def Remembers (m m' : FiltersManager blockHash) : Prop :=
  ∀ walletId address key, m.history.tested walletId address key = true →
    m'.history.tested walletId address key = true

theorem remembers_recordTests (m : FiltersManager blockHash) (tests : List WalletTest)
    (filters : FilterMap) : Remembers m (m.recordTests tests filters) := by
  intro walletId address key htested
  simp [recordTests, htested]

/-- A test covers the filters above the height of its wallet. -/
theorem recordTests_tested {tests : List WalletTest} {filters : FilterMap} {t : WalletTest}
    (ht : t ∈ tests) {address : Address} (haddress : address ∈ t.addresses) {key : FilterMatchKey}
    (hkey : filters.contains key = true) (habove : t.syncedHeight < key.height) :
    (m.recordTests tests filters).history.tested t.walletId address key = true := by
  simp only [recordTests, Bool.or_eq_true, Bool.and_eq_true, List.any_eq_true, decide_eq_true_eq]
  exact .inr ⟨hkey, t, ht, ⟨rfl, habove⟩, haddress⟩

/-- The batches keep what they collected. -/
def SameCollected (m m' : FiltersManager blockHash) : Prop :=
  ∀ k, (m'.activeBatches.get? k).map (fun b => (b.collectedAddresses, b.rescanComplete)) =
    (m.activeBatches.get? k).map fun b => (b.collectedAddresses, b.rescanComplete)

theorem sameCollected_requestMatches (m : FiltersManager blockHash) (start : Nat)
    (blockToWallets : SortedMap FilterMatchKey (Finset WalletId)) :
    SameCollected m (m.requestMatches start blockToWallets).1 := by
  intro k
  unfold requestMatches
  cases hget : m.activeBatches.get? start with
  | none => rfl
  | some batch =>
    rw [get?_insert]
    split_ifs with hk
    · rw [← hk, hget]
      rfl
    · rfl

variable {r : AddressReport}

/-- Rescanning a batch matches its filters against the new addresses. -/
theorem rescanBatch_tested {newAddresses : SortedMap WalletId (Finset Address)}
    (hget : m.activeBatches.get? start = some batch)
    {addresses : Finset Address} (haddresses : newAddresses.get? r.walletId = some addresses)
    (hmem : r.address ∈ addresses) :
    (m.rescanBatch scheme start newAddresses).1.Tested r batch.filters := by
  have hsize : newAddresses.size ≠ 0 := by
    intro hzero
    rw [size_eq_zero_iff.mp hzero] at haddresses
    cases haddresses
  unfold rescanBatch
  simp only [hget]
  intro key hkey habove
  have hfilt : batch.filters.size ≠ 0 := by
    intro hzero
    rw [contains, size_eq_zero_iff.mp hzero] at hkey
    cases hkey
  rw [if_neg (not_or.mpr ⟨hsize, hfilt⟩)] at habove ⊢
  refine @recordTests_tested _ m (m.rescanTests newAddresses) batch.filters
    { walletId := r.walletId
      syncedHeight := m.wallet.walletSyncedHeight r.walletId
      addresses := addresses.sort (· ≤ ·) } ?_ r.address ?_ key hkey habove
  · refine List.mem_filter.mpr ⟨List.mem_map.mpr ⟨⟨r.walletId, addresses⟩, ?_, rfl⟩, ?_⟩
    · exact mem_entries_iff.mpr haddresses
    · simp only [Bool.not_eq_true', List.isEmpty_eq_false_iff, ne_eq]
      intro hnil
      have hsorted := (Finset.mem_sort (s := addresses) (· ≤ ·)).mpr hmem
      rw [hnil] at hsorted
      cases hsorted
  · exact (Finset.mem_sort (· ≤ ·)).mpr hmem

theorem remembers_rescanBatch (m : FiltersManager blockHash) (start : Nat)
    (newAddresses : SortedMap WalletId (Finset Address)) :
    Remembers m (m.rescanBatch scheme start newAddresses).1 ∧
      SameCollected m (m.rescanBatch scheme start newAddresses).1 := by
  unfold rescanBatch
  cases m.activeBatches.get? start with
  | none => exact ⟨fun _ _ _ h => h, fun _ => rfl⟩
  | some batch =>
    dsimp only
    split_ifs
    · exact ⟨fun _ _ _ h => h, fun _ => rfl⟩
    · exact ⟨remembers_recordTests m _ _, sameCollected_requestMatches _ _ _⟩

theorem Tested.mono {filters : FilterMap} (h : m.Tested r filters)
    (hremembers : Remembers m m')
    (hsynced : m.wallet.walletSyncedHeight r.walletId ≤ m'.wallet.walletSyncedHeight r.walletId) :
    m'.Tested r filters :=
  fun key hkey habove => hremembers _ _ _ (h key hkey (lt_of_le_of_lt hsynced habove))

theorem Matched.wallet_eq (h : Matched m m') : m'.wallet = m.wallet := by rw [h.rest]

/-- Rescanning several batches matches the filters of each against the new addresses. -/
theorem rescanBatches_tested (newAddresses : SortedMap WalletId (Finset Address))
    (batchStarts : List Nat) (m : FiltersManager blockHash) :
    Remembers m (rescanBatches scheme newAddresses batchStarts m).1 ∧
    SameCollected m (rescanBatches scheme newAddresses batchStarts m).1 ∧
    ∀ r : AddressReport, (∃ addresses, newAddresses.get? r.walletId = some addresses ∧
        r.address ∈ addresses) →
      ∀ k ∈ batchStarts, ∀ batch, m.activeBatches.get? k = some batch →
        (rescanBatches scheme newAddresses batchStarts m).1.Tested r batch.filters := by
  induction batchStarts generalizing m with
  | nil => exact ⟨fun _ _ _ h => h, fun _ => rfl, fun _ _ k hk => absurd hk List.not_mem_nil⟩
  | cons start rest ih =>
    obtain ⟨hremembers, hcoll⟩ := @remembers_rescanBatch _ scheme m start newAddresses
    have hmatched := @matched_rescanBatch _ scheme m start newAddresses
    have hmatched' := @matched_rescanBatches _ scheme newAddresses rest
      (m.rescanBatch scheme start newAddresses).1
    obtain ⟨hremembers', hcoll', htested'⟩ := ih (m.rescanBatch scheme start newAddresses).1
    refine ⟨fun _ _ _ h => hremembers' _ _ _ (hremembers _ _ _ h),
      fun k => (hcoll' k).trans (hcoll k), ?_⟩
    rintro r hr k hk batch hget
    rcases List.mem_cons.mp hk with rfl | hk
    · obtain ⟨addresses, haddrs, hmem⟩ := hr
      have hsynced := congrArg (fun ws => WalletSet.walletSyncedHeight ws r.walletId)
        hmatched'.wallet_eq
      exact (rescanBatch_tested hget haddrs hmem).mono hremembers' hsynced.ge
    · obtain ⟨batch', hget', hfixed⟩ := hmatched.get? hget
      have hfilt : batch'.fixed.filters = batch.fixed.filters := by rw [hfixed]
      exact hfilt ▸ htested' r hr k hk batch' hget'

/-- What a batch collected is matched against it and the scanned batches above it. -/
theorem rescanCollected_tested (hget : m.activeBatches.get? start = some batch) :
    Remembers m (m.rescanCollected scheme start batch).1 ∧
    (∀ k, ((m.rescanCollected scheme start batch).1.activeBatches.get? k).map
        (fun b => (b.collectedAddresses, b.rescanComplete)) =
      (m.activeBatches.get? k).map fun b =>
        (if k = start then ∅ else b.collectedAddresses, b.rescanComplete)) ∧
    ∀ r : AddressReport, Collected r batch → ∀ k batch', m.activeBatches.get? k = some batch' →
      (k = start ∨ start < k ∧ batch'.scanned = true) →
        (m.rescanCollected scheme start batch).1.Tested r batch'.filters := by
  have htaken : ∀ k, ((m.setBatch start batch.takeCollectedAddresses.1).activeBatches.get? k).map
        (fun b => (b.collectedAddresses, b.rescanComplete)) =
      (m.activeBatches.get? k).map fun b =>
        (if k = start then ∅ else b.collectedAddresses, b.rescanComplete) := by
    intro k
    rw [setBatch, get?_insert]
    by_cases hk : start = k
    · subst hk
      simp [hget, takeCollectedAddresses]
    · simp [hk, Ne.symm hk]
  unfold rescanCollected
  dsimp only
  split_ifs with hnone
  · refine ⟨fun _ _ _ h => h, htaken, ?_⟩
    rintro r ⟨addresses, haddrs, -⟩
    rw [show batch.collectedAddresses.get? r.walletId = none from
      size_eq_zero_iff.mp hnone r.walletId] at haddrs
    cases haddrs
  · obtain ⟨hremembers, hcoll, htested⟩ := @rescanBatches_tested _ scheme
      batch.collectedAddresses (start :: (m.setBatch start
        batch.takeCollectedAddresses.1).laterScanned start)
      (m.setBatch start batch.takeCollectedAddresses.1)
    refine ⟨hremembers, fun k => (hcoll k).trans (htaken k), ?_⟩
    intro r hr k batch' hget' hk
    -- the batch has the same filters after the addresses are taken out
    obtain ⟨batch'', hget'', hfilt, hscanned⟩ : ∃ batch'', (m.setBatch start
        batch.takeCollectedAddresses.1).activeBatches.get? k = some batch'' ∧
        batch''.filters = batch'.filters ∧ batch''.scanned = batch'.scanned := by
      rw [setBatch, get?_insert]
      by_cases hsame : start = k
      · subst hsame
        obtain rfl := mem_unique hget hget'
        exact ⟨_, if_pos rfl, rfl, rfl⟩
      · exact ⟨batch', by rw [if_neg hsame, hget'], rfl, rfl⟩
    refine hfilt ▸ htested r hr k ?_ batch'' hget''
    rcases hk with rfl | ⟨hlt, hlater⟩
    · exact List.mem_cons_self
    · refine List.mem_cons_of_mem start (mem_keys_iff.mpr ⟨batch'', ?_⟩)
      rw [get?_filter, hget'']
      simp [hlt, hscanned, hlater]

/-! ### Wallets -/

/-- Moving wallets to the end of a batch leaves their addresses as they are, and takes none
back. -/
theorem advanceWallets_spec (ws : WalletSet) (walletIds : Finset WalletId) (height : Nat)
    (walletId : WalletId) :
    (advanceWallets ws walletIds height).monitoredAddressesFor walletId =
        ws.monitoredAddressesFor walletId ∧
      ws.walletSyncedHeight walletId ≤
        (advanceWallets ws walletIds height).walletSyncedHeight walletId := by
  unfold advanceWallets
  generalize walletIds.sort (· ≤ ·) = ids
  induction ids generalizing ws with
  | nil => exact ⟨rfl, le_rfl⟩
  | cons id rest ih =>
    obtain ⟨hmon, hsynced⟩ := ih (ws.updateWalletSyncedHeight id height)
    exact ⟨hmon.trans (ws.monitoredAddressesFor_update id walletId height),
      (ws.walletSyncedHeight_le_update id walletId height).trans hsynced⟩

theorem handleChainReorg_monitored (m : FiltersManager blockHash) (forkHeight : Nat)
    (walletId : WalletId) :
    (m.handleChainReorg forkHeight).wallet.monitoredAddressesFor walletId =
      m.wallet.monitoredAddressesFor walletId := by
  unfold handleChainReorg rewindWalletForReorg
  dsimp only
  cases hrewind : m.wallet.rewindToHeight forkHeight with
  | some wallet => exact WalletSet.monitoredAddressesFor_rewind hrewind walletId
  | none => rfl

/-- A commit leaves the addresses of the wallets as they are, and takes none back. -/
theorem commitBatch_wallet (m : FiltersManager blockHash) (start : Nat) (batch : FiltersBatch)
    (walletId : WalletId) :
    (m.commitBatch start batch).wallet.monitoredAddressesFor walletId =
        m.wallet.monitoredAddressesFor walletId ∧
      m.wallet.walletSyncedHeight walletId ≤
        (m.commitBatch start batch).wallet.walletSyncedHeight walletId := by
  unfold commitBatch
  dsimp only
  split_ifs
  · exact advanceWallets_spec _ _ _ walletId
  · exact ⟨rfl, le_rfl⟩

/-- No move changes the addresses of a wallet. -/
theorem Move.monitored (hmove : Move scheme arrives starts m m') (walletId : WalletId) :
    m'.wallet.monitoredAddressesFor walletId = m.wallet.monitoredAddressesFor walletId := by
  cases hmove with
  | @scan start batch hget hnew hready =>
    have hsame : (m.scanBatch scheme start).1.wallet = m.wallet := by rw [sameRest_scanBatch m start]
    rw [hsame]
  | rescan hfirst hget hscanned hpend hopen =>
    rw [(matched_rescanForCommit hget hopen).wallet_eq]
  | @commit start batch hfirst hget hscanned hpend hcomp =>
    exact (m.commitBatch_wallet start batch walletId).1
  | @store m₁ start batch events hget hnext hverify => rw [verifyAndStore_eq hverify]; rfl
  | processed hash height wallets newAddresses =>
    rw [(matched_finishBlock m hash height wallets newAddresses).wallet_eq]
  | noteStored hstarts scanStart hidle =>
    unfold FiltersManager.noteStored
    split_ifs <;> rfl
  | reorg hstarts forkHeight => exact m.handleChainReorg_monitored forkHeight walletId
  | _ => rfl

/-! ### Keeping the reports -/

namespace Honest

variable {reports : List AddressReport}

section

variable (h : m.Honest reports)
include h

section

variable (haccounted : m'.Accounted)
include haccounted

/-- Only the batches in processing, the wallets and the history matter, and the wallets may
grow. -/
theorem grow (hactive : m'.activeBatches = m.activeBatches) (hwallet : m.wallet.Grows m'.wallet)
    (hscans : m'.history.scans = m.history.scans) (htested : m'.history.tested = m.history.tested)
    (hcommits : m'.history.commits = m.history.commits) : m'.Honest reports := by
  refine ⟨haccounted, ?_, ?_, ?_, ?_, ?_, ?_⟩
  · exact fun r hr => (hwallet r.walletId).1 r.address (h.monitored r hr)
  · rw [hactive]
    exact h.ranged
  · rw [hactive, hscans]
    exact h.scans
  · rw [hactive]
    exact h.complete
  · intro r hr start batch scan hget hscanned hle hscan
    rw [hactive] at hget
    rw [hscans] at hscan
    refine (h.covered r hr hget hscanned hle hscan).imp (fun hdone => ?_) (fun hwaits => ?_)
    · refine hdone.mono (fun walletId address key htest => ?_) (hwallet r.walletId).2
      rw [htested]
      exact htest
    · rw [Waits, hactive]
      exact hwaits
  · rw [hcommits]
    exact h.honoured

theorem congr (hactive : m'.activeBatches = m.activeBatches) (hwallet : m'.wallet = m.wallet)
    (hhistory : m'.history = m.history) : m'.Honest reports :=
  h.grow haccounted hactive (hwallet ▸ .refl _) (by rw [hhistory]) (by rw [hhistory])
    (by rw [hhistory])

/-- With nothing in processing. -/
theorem of_idle (hidle : ∀ k, m'.activeBatches.get? k = none)
    (hwallet : ∀ walletId, m'.wallet.monitoredAddressesFor walletId =
      m.wallet.monitoredAddressesFor walletId)
    (hcommits : m'.history.commits = m.history.commits) : m'.Honest reports := by
  refine ⟨haccounted, ?_, ?_, ?_, ?_, ?_, ?_⟩
  · intro r hr
    rw [hwallet]
    exact h.monitored r hr
  · intro start batch hget
    simp [hidle start] at hget
  · intro start batch hget
    simp [hidle start] at hget
  · intro start batch hget
    simp [hidle start] at hget
  · intro r hr start batch scan hget
    simp [hidle start] at hget
  · rw [hcommits]
    exact h.honoured

end

/-- A batch that waits for its scan is opened above the others. -/
theorem openBatch {startHeight endHeight : Nat} {filters : FilterMap}
    {verified : Bool} (haccounted : (m.openBatch startHeight endHeight filters verified).Accounted)
    (hnew : m.activeBatches.get? startHeight = none)
    (habove : ∀ k batch, m.activeBatches.get? k = some batch → k < startHeight)
    (hranged : ∀ key, filters.contains key = true →
      startHeight ≤ key.height ∧ key.height ≤ endHeight) :
    (m.openBatch startHeight endHeight filters verified).Honest reports := by
  obtain ⟨opened, hopened, hunscanned, hend, -, -, hfilt, hopen⟩ :=
    m.openBatch_activeBatches startHeight endHeight filters verified
  refine ⟨haccounted, h.monitored, ?_, ?_, ?_, ?_, h.honoured⟩
  · intro start batch hget
    obtain ⟨rfl, rfl⟩ | ⟨-, hold⟩ := of_get?_insert (hopened ▸ hget)
    · rw [hend, hfilt]
      exact hranged
    · exact h.ranged hold
  · intro start batch hget hscanned
    obtain ⟨-, rfl⟩ | ⟨-, hold⟩ := of_get?_insert (hopened ▸ hget)
    · simp [hunscanned] at hscanned
    · exact h.scans hold hscanned
  · intro start batch hget hcomp
    obtain ⟨-, rfl⟩ | ⟨-, hold⟩ := of_get?_insert (hopened ▸ hget)
    · simp [hopen] at hcomp
    · obtain ⟨hscanned, hpend, hcoll, hlowest⟩ := h.complete hold hcomp
      refine ⟨hscanned, hpend, hcoll, fun {other batch'} hother => ?_⟩
      obtain ⟨rfl, -⟩ | ⟨-, hother⟩ := of_get?_insert (hopened ▸ hother)
      · exact (habove start batch hold).le
      · exact hlowest hother
  · intro r hr start batch scan hget hscanned hle hscan
    obtain ⟨-, rfl⟩ | ⟨-, hold⟩ := of_get?_insert (hopened ▸ hget)
    · simp [hunscanned] at hscanned
    · refine (h.covered r hr hold hscanned hle hscan).imp_right ?_
      rintro ⟨k, batch', hwaits, hlo, hhi, hcoll⟩
      refine ⟨k, batch', ?_, hlo, hhi, hcoll⟩
      have hne : startHeight ≠ k := by
        rintro rfl
        simp [hnew] at hwaits
      rw [hopened, get?_insert, if_neg hne]
      exact hwaits

end

/-- What a scan does to its batch, and the tests it makes. -/
theorem scanBatch_effect (hget : m.activeBatches.get? start = some batch) :
    (∃ pendingBlocks wallets, (m.scanBatch scheme start).1.activeBatches.get? start =
      some { batch with scanned := true, scannedWallets := wallets, pendingBlocks }) ∧
    (m.scanBatch scheme start).1.history.tested =
      (m.recordTests (m.behindTests batch.endHeight) batch.filters).history.tested := by
  have hbegin : (m.beginScan start batch).activeBatches.get? start =
      some { batch with
        scanned := true
        scannedWallets := (m.wallet.walletsBehind batch.endHeight).toFinset } := by
    rw [beginScan, recordTests, setBatch, get?_insert_self]
    rfl
  unfold FiltersManager.scanBatch
  simp only [hget]
  split_ifs
  · exact ⟨⟨batch.pendingBlocks, _, hbegin⟩, rfl⟩
  · refine ⟨?_, rfl⟩
    simp only [requestMatches, hbegin, get?_insert, if_true]
    exact ⟨_, _, rfl⟩

/-- A wallet behind a height with an address is tested for it. -/
theorem mem_behindTests {height : Nat}
    (haddress : r.address ∈ m.wallet.monitoredAddressesFor r.walletId)
    (hbehind : m.wallet.walletSyncedHeight r.walletId < height) :
    ({ walletId := r.walletId
       syncedHeight := m.wallet.walletSyncedHeight r.walletId
       addresses := m.wallet.monitoredAddressesFor r.walletId } : WalletTest) ∈
      m.behindTests height := by
  refine List.mem_filter.mpr ⟨List.mem_map.mpr ⟨r.walletId, ?_, rfl⟩, ?_⟩
  · obtain ⟨view, hview⟩ : ∃ view, m.wallet.get? r.walletId = some view := by
      cases hview : m.wallet.get? r.walletId with
      | none => simp [WalletSet.monitoredAddressesFor, hview] at haddress
      | some view => exact ⟨view, rfl⟩
    refine mem_keys_iff.mpr ⟨view, ?_⟩
    rw [WalletSet.walletSyncedHeight, hview] at hbehind
    rw [get?_filter, hview]
    simpa using hbehind
  · simp only [Bool.not_eq_true', List.isEmpty_eq_false_iff, ne_eq]
    intro hnil
    rw [hnil] at haddress
    cases haddress

/-- A scanned batch was matched against all addresses of the wallets behind it. -/
theorem scanBatch (h : m.Honest reports) (hget : m.activeBatches.get? start = some batch)
    (hnew : batch.scanned = false) : (m.scanBatch scheme start).1.Honest reports := by
  have hothers := (@scanBatch_frame _ scheme m start).1
  have hrest := @sameRest_scanBatch _ scheme m start
  have hscans := @Sound.scans_scanBatch _ scheme m start batch hget
  have haccounted := @Accounted.scanBatch _ scheme m h.accounted start
  obtain ⟨⟨pendingBlocks, wallets, hself⟩, htests⟩ := @scanBatch_effect _ scheme m start batch hget
  generalize (m.scanBatch scheme start).1 = m' at *
  have hwallet : m'.wallet = m.wallet := by rw [hrest]
  have hcommits : m'.history.commits = m.history.commits := by rw [hrest]
  have hremembers : Remembers m m' := fun walletId address key htested => by
    rw [htests]
    exact remembers_recordTests m _ _ walletId address key htested
  -- a batch is the one scanned, or unchanged
  have hcases : ∀ {k batch'}, m'.activeBatches.get? k = some batch' →
      k = start ∧ batch' = { batch with scanned := true, scannedWallets := wallets, pendingBlocks } ∨
        k ≠ start ∧ m.activeBatches.get? k = some batch' := by
    intro k batch' hk
    by_cases hsame : k = start
    · subst hsame
      exact .inl ⟨rfl, mem_unique hk hself⟩
    · exact .inr ⟨hsame, hothers k hsame ▸ hk⟩
  refine ⟨haccounted, ?_, ?_, ?_, ?_, ?_, ?_⟩
  · rw [hwallet]
    exact h.monitored
  · intro k batch' hk
    have hranged := h.ranged hget
    obtain ⟨rfl, rfl⟩ | ⟨-, hold⟩ := hcases hk
    · exact hranged
    · exact h.ranged hold
  · intro k batch' hk hscanned
    obtain ⟨rfl, rfl⟩ | ⟨hne, hold⟩ := hcases hk
    · exact ⟨_, by rw [hscans, Function.update_self], fun _ hkey => hkey⟩
    · rw [hscans, Function.update_of_ne hne]
      exact h.scans hold hscanned
  · intro k batch' hk hcomp
    obtain ⟨rfl, rfl⟩ | ⟨hne, hold⟩ := hcases hk
    · -- a complete batch is scanned already
      have hscanned := (h.complete hget hcomp).1
      simp [hnew] at hscanned
    · obtain ⟨hscanned, hpend, hcoll, hlowest⟩ := h.complete hold hcomp
      refine ⟨hscanned, hpend, hcoll, fun {other batch''} hother => ?_⟩
      obtain ⟨rfl, -⟩ | ⟨-, hother⟩ := hcases hother
      · exact hlowest hget
      · exact hlowest hother
  · intro r hr k batch' scan hk hscanned hle hscan
    rw [hscans] at hscan
    obtain ⟨rfl, rfl⟩ | ⟨hne, hold⟩ := hcases hk
    · rw [Function.update_self] at hscan
      obtain rfl := Option.some.inj hscan
      refine .inl fun key hkey habove => ?_
      rw [hwallet] at habove
      have hend := (h.ranged hget key hkey).2
      rw [htests]
      exact @recordTests_tested _ m _ batch.filters _
        (mem_behindTests (h.monitored r hr) (lt_of_lt_of_le habove hend)) r.address
        (h.monitored r hr) key hkey habove
    · rw [Function.update_of_ne hne] at hscan
      refine (h.covered r hr hold hscanned hle hscan).imp ?_ ?_
      · exact fun htested => htested.mono hremembers (by rw [hwallet])
      · rintro ⟨j, waiting, hwaits, hlo, hhi, hcoll⟩
        by_cases hj : j = start
        · subst hj
          obtain rfl := mem_unique hget hwaits
          exact ⟨j, _, hself, hlo, hhi, hcoll⟩
        · exact ⟨j, waiting, (hothers j hj).trans hwaits, hlo, hhi, hcoll⟩
  · rw [hcommits]
    exact h.honoured

/-- What the rescan before a commit does to the batches, and the tests it makes. -/
theorem rescanForCommit_effect (hget : m.activeBatches.get? start = some batch)
    (hopen : batch.rescanComplete = false) :
    Remembers m (m.rescanForCommit scheme start batch).1 ∧
    (∀ {k batch'}, (m.rescanForCommit scheme start batch).1.activeBatches.get? k = some batch' →
      ∃ old, m.activeBatches.get? k = some old ∧ batch'.fixed = old.fixed ∧
        (k ≠ start → batch'.collectedAddresses = old.collectedAddresses ∧
          batch'.rescanComplete = old.rescanComplete) ∧
        (k = start → batch'.collectedAddresses = ∅ ∧
          (batch'.rescanComplete = true → batch'.pendingBlocks = 0))) ∧
    ∀ r : AddressReport, Collected r batch → ∀ k batch', m.activeBatches.get? k = some batch' →
      (k = start ∨ start < k ∧ batch'.scanned = true) →
        (m.rescanForCommit scheme start batch).1.Tested r batch'.filters := by
  obtain ⟨hremembers, hcoll, htested⟩ := @rescanCollected_tested _ scheme m start batch hget
  have hmatched := @matched_rescanCollected _ scheme m start batch hget
  have hback : ∀ {k batch'}, (m.rescanCollected scheme start batch).1.activeBatches.get? k =
      some batch' → ∃ old, m.activeBatches.get? k = some old ∧ batch'.fixed = old.fixed ∧
        batch'.collectedAddresses = (if k = start then ∅ else old.collectedAddresses) ∧
        batch'.rescanComplete = old.rescanComplete := by
    intro k batch' hk
    obtain ⟨old, hold, hfixed⟩ := hmatched.of_get? hk
    have hk' := hcoll k
    rw [hk, hold, map_some, map_some, Option.some.injEq, Prod.mk.injEq] at hk'
    exact ⟨old, hold, hfixed.symm, hk'⟩
  obtain ⟨batch₁, hget₁, -, ⟨-, -, heq⟩ | ⟨hpend, -, heq⟩⟩ :=
    @rescanForCommit_cases _ scheme m start batch hget hopen
  · rw [heq]
    refine ⟨hremembers, fun {k batch'} hk => ?_, htested⟩
    obtain ⟨old, hold, hfixed, haddrs, hsame⟩ := hback hk
    refine ⟨old, hold, hfixed, fun hne => ?_, fun heq => ?_⟩
    · rw [if_neg hne] at haddrs
      exact ⟨haddrs, hsame⟩
    · subst heq
      obtain rfl := mem_unique hget hold
      rw [if_pos rfl] at haddrs
      exact ⟨haddrs, fun hcomp => by simp [hsame, hopen] at hcomp⟩
  · rw [heq]
    refine ⟨hremembers, fun {k batch'} hk => ?_, htested⟩
    obtain ⟨rfl, rfl⟩ | ⟨hne, hk⟩ := of_get?_insert hk
    · -- the lowest batch is marked
      obtain ⟨old, hold, hfixed, haddrs, -⟩ := hback hget₁
      rw [if_pos rfl] at haddrs
      exact ⟨old, hold, hfixed, fun hne => absurd rfl hne, fun _ => ⟨haddrs, fun _ => hpend⟩⟩
    · obtain ⟨old, hold, hfixed, haddrs, hsame⟩ := hback hk
      rw [if_neg (Ne.symm hne)] at haddrs
      exact ⟨old, hold, hfixed, fun _ => ⟨haddrs, hsame⟩, fun heq => absurd heq.symm hne⟩

section

variable (h : m.Honest reports)
include h

section

variable (hfirst : m.activeBatches.keys.head? = some start)
  (hget : m.activeBatches.get? start = some batch)
include hfirst hget

/-- Before a commit the lowest batch gives up what it collected, and it and the scanned batches
above it are matched against it. -/
theorem rescanForCommit (hscanned : batch.scanned = true)
    (hopen : batch.rescanComplete = false) :
    (m.rescanForCommit scheme start batch).1.Honest reports := by
  have hmatched := @matched_rescanForCommit _ scheme m start batch hget hopen
  have haccounted := @Accounted.rescanForCommit _ scheme m h.accounted start batch hget hopen
  obtain ⟨hremembers, heffect, htested⟩ :=
    @rescanForCommit_effect _ scheme m start batch hget hopen
  generalize (m.rescanForCommit scheme start batch).1 = m' at *
  have hwallet := hmatched.wallet_eq
  have hscans : m'.history.scans = m.history.scans := by rw [hmatched.rest]
  have hcommits : m'.history.commits = m.history.commits := by rw [hmatched.rest]
  -- no batch was complete
  have hnone : ∀ {k other}, m.activeBatches.get? k = some other → other.rescanComplete = false := by
    intro k other hk
    by_contra hcomp
    rw [Bool.not_eq_false] at hcomp
    have hlowest := (h.complete hk hcomp).2.2.2 hget
    obtain rfl : k = start := le_antisymm hlowest (le_of_keys_head? hfirst hk)
    obtain rfl := mem_unique hget hk
    simp [hopen] at hcomp
  have hfixed : ∀ {k batch'}, m'.activeBatches.get? k = some batch' →
      ∃ old, m.activeBatches.get? k = some old ∧ batch'.filters = old.filters ∧
        batch'.scanned = old.scanned ∧ batch'.endHeight = old.endHeight := by
    intro k batch' hk
    obtain ⟨old, hold, heq, -⟩ := heffect hk
    simp only [fixed, FiltersBatch.mk.injEq] at heq
    exact ⟨old, hold, heq.2.2.1, heq.2.2.2.2.1, heq.2.1⟩
  refine ⟨haccounted, ?_, ?_, ?_, ?_, ?_, ?_⟩
  · rw [hwallet]
    exact h.monitored
  · intro k batch' hk
    obtain ⟨old, hold, hfilt, -, hend⟩ := hfixed hk
    rw [hfilt, hend]
    exact h.ranged hold
  · intro k batch' hk hscanned'
    obtain ⟨old, hold, hfilt, hsame, -⟩ := hfixed hk
    rw [hscans, hfilt]
    exact h.scans hold (hsame ▸ hscanned')
  · intro k batch' hk hcomp
    obtain ⟨old, hold, -, hother, hself⟩ := heffect hk
    by_cases hsame : k = start
    · obtain ⟨hcoll, hpend⟩ := hself hsame
      subst hsame
      obtain ⟨old', hold', -, hscanned', -⟩ := hfixed hk
      obtain rfl := mem_unique hget hold'
      refine ⟨hscanned'.trans hscanned, hpend hcomp, hcoll, fun {j batch''} hj => ?_⟩
      obtain ⟨other, hother', -⟩ := hfixed hj
      exact le_of_keys_head? hfirst hother'
    · rw [(hother hsame).2, hnone hold] at hcomp
      cases hcomp
  · intro r hr k batch' scan hk hscanned' hle hscan
    obtain ⟨old, hold, hfilt, hsame, -⟩ := hfixed hk
    rw [hscans] at hscan
    rcases h.covered r hr hold (hsame ▸ hscanned') hle hscan with
      hdone | ⟨j, waiting, hwaits, hlo, hhi, hcoll⟩
    · exact .inl (hdone.mono hremembers (by rw [hwallet]))
    · by_cases hj : j = start
      · -- what the lowest batch collected is matched now
        subst hj
        obtain rfl := mem_unique hget hwaits
        have hnow := htested r hcoll k old hold (by
          rcases Nat.eq_or_lt_of_le hhi with heq | hlt
          · exact .inl heq.symm
          · exact .inr ⟨hlt, hsame ▸ hscanned'⟩)
        obtain ⟨scan', hscan', hkept⟩ := h.scans hold (hsame ▸ hscanned')
        obtain rfl := mem_unique hscan hscan'
        exact .inl fun key hkey => hnow key (hkept key hkey)
      · obtain ⟨waiting', hwaits', -⟩ := hmatched.get? hwaits
        obtain ⟨old', hold', -, hother, -⟩ := heffect hwaits'
        obtain rfl := mem_unique hwaits hold'
        refine .inr ⟨j, waiting', hwaits', hlo, hhi, ?_⟩
        rw [Collected, (hother hj).1]
        exact hcoll
  · rw [hcommits]
    exact h.honoured

/-- A committed batch was matched against every report at or below it. -/
theorem commitBatch (hscanned : batch.scanned = true)
    (hpending : batch.pendingBlocks = 0) (hcomplete : batch.rescanComplete = true) :
    (m.commitBatch start batch).Honest reports := by
  have hempty := (h.complete hget hcomplete).2.2.1
  have hstart := (h.accounted.ranged hget).1
  have hwallet := m.commitBatch_wallet start batch
  -- nothing waits in the committed batch
  have hdone : ∀ {r k}, m.Waits r k → ∃ j waiting, j ≠ start ∧
      m.activeBatches.get? j = some waiting ∧ r.batchStart ≤ j ∧ j ≤ k ∧ Collected r waiting := by
    rintro r k ⟨j, waiting, hwaits, hlo, hhi, hcoll⟩
    refine ⟨j, waiting, ?_, hwaits, hlo, hhi, hcoll⟩
    rintro rfl
    obtain rfl := mem_unique hget hwaits
    obtain ⟨addresses, haddrs, -⟩ := hcoll
    rw [hempty, get?_empty] at haddrs
    cases haddrs
  refine ⟨h.accounted.commitBatch hget hpending, ?_, ?_, ?_, ?_, ?_, ?_⟩
  · intro r hr
    rw [(hwallet _).1]
    exact h.monitored r hr
  · exact fun hk => h.ranged (of_get?_commitBatch hk).2
  · exact fun hk => h.scans (of_get?_commitBatch hk).2
  · intro k other hk hother
    obtain ⟨hne, hk⟩ := of_get?_commitBatch hk
    -- only the lowest batch can be complete
    have hlowest := (h.complete hk hother).2.2.2 hget
    exact absurd (le_antisymm hlowest (le_of_keys_head? hfirst hk)) hne
  · intro r hr k other scan hk hscanned' hle hscan
    obtain ⟨hne, hk⟩ := of_get?_commitBatch hk
    refine (h.covered r hr hk hscanned' hle hscan).imp ?_ fun hwaits => ?_
    · exact fun htested => htested.mono (fun _ _ _ htest => htest) (hwallet _).2
    · obtain ⟨j, waiting, hj, hwaiting, hlo, hhi, hcoll⟩ := hdone hwaits
      refine ⟨j, waiting, ?_, hlo, hhi, hcoll⟩
      rw [FiltersManager.commitBatch, get?_erase, if_neg (Ne.symm hj)]
      exact hwaiting
  · intro r hr
    obtain ⟨hbefore, hhonoured⟩ := h.honoured r hr
    have hcommits : (m.commitBatch start batch).history.commits.length =
        m.history.commits.length + 1 := by
      simp [FiltersManager.commitBatch]
    refine ⟨by omega, fun i c hi hc hle => ?_⟩
    rw [FiltersManager.commitBatch] at hc
    rcases Nat.lt_or_ge i m.history.commits.length with hlt | hge
    · rw [List.getElem?_append_left hlt] at hc
      exact hhonoured i c hi hc hle
    · rw [List.getElem?_append_right hge, List.getElem?_singleton] at hc
      split_ifs at hc
      obtain rfl := Option.some.inj hc
      obtain ⟨scan, hscan, -⟩ := h.scans hget hscanned
      refine ⟨scan, hscan, ?_⟩
      rcases h.covered r hr hget hscanned (hstart ▸ hle) hscan with htested | hwaits
      · exact htested
      · obtain ⟨j, waiting, hj, hwaiting, -, hhi, -⟩ := hdone hwaits
        exact absurd (le_antisymm hhi (le_of_keys_head? hfirst hwaiting)) hj

end

/-- Filters of a stored download are added to the batches it overlaps. -/
theorem store {events : List SyncEvent}
    (hverify : verifyAndStore scheme
      { m with pendingBatches := m.pendingBatches.erase start } batch = .ok (m', events))
    (haccounted : (m'.acceptBatch batch).Accounted) : (m'.acceptBatch batch).Honest reports := by
  have heq := verifyAndStore_eq hverify
  have hwallet : (m'.acceptBatch batch).wallet = m.wallet := by rw [heq]; rfl
  have hhistory : (m'.acceptBatch batch).history = m.history := by rw [heq]; rfl
  -- batches change their filters only, which grow within their range
  have hmap : ∀ k, (m'.acceptBatch batch).activeBatches.get? k =
      (m.activeBatches.get? k).map fun active =>
        { active with filters := Sound.filtersAfter batch active } := by
    intro k
    rw [heq]
    exact acceptBatch_get? _ batch k
  have hback : ∀ {k active'}, (m'.acceptBatch batch).activeBatches.get? k = some active' →
      ∃ active, m.activeBatches.get? k = some active ∧
        active' = { active with filters := Sound.filtersAfter batch active } := by
    intro k active' hk
    rw [hmap] at hk
    obtain ⟨active, hactive, rfl⟩ := map_eq_some_iff.mp hk
    exact ⟨active, hactive, rfl⟩
  have hgrow : ∀ (active : FiltersBatch) key, active.filters.contains key = true →
      (Sound.filtersAfter batch active).contains key = true := by
    intro active key hkey
    unfold Sound.filtersAfter
    split_ifs
    · obtain ⟨filter, hfilter⟩ := contains_iff.mp hkey
      rw [contains, get?_union, hfilter]
      cases (overlap batch active).get? key <;> rfl
    · exact hkey
  refine ⟨haccounted, ?_, ?_, ?_, ?_, ?_, ?_⟩
  · rw [hwallet]
    exact h.monitored
  · intro k active' hk key hkey
    obtain ⟨active, hactive, rfl⟩ := hback hk
    have hranged := h.ranged hactive key
    have hstart := (h.accounted.ranged hactive).1
    unfold Sound.filtersAfter at hkey
    dsimp only at hkey ⊢
    split_ifs at hkey
    · rw [contains, get?_union] at hkey
      cases hoverlap : (overlap batch active).get? key with
      | none =>
        rw [hoverlap] at hkey
        exact hranged hkey
      | some filter =>
        rw [overlap, get?_filter, filter_eq_some_iff] at hoverlap
        simp only [Bool.and_eq_true, decide_eq_true_eq] at hoverlap
        omega
    · exact hranged hkey
  · intro k active' hk hscanned
    obtain ⟨active, hactive, rfl⟩ := hback hk
    obtain ⟨scan, hscan, hkept⟩ := h.scans hactive hscanned
    exact ⟨scan, hhistory ▸ hscan, fun key hkey => hgrow active key (hkept key hkey)⟩
  · intro k active' hk hcomp
    obtain ⟨active, hactive, rfl⟩ := hback hk
    obtain ⟨hscanned, hpend, hcoll, hlowest⟩ := h.complete hactive hcomp
    refine ⟨hscanned, hpend, hcoll, fun {other active''} hother => ?_⟩
    obtain ⟨active'', hactive'', -⟩ := hback hother
    exact hlowest hactive''
  · intro r hr k active' scan hk hscanned hle hscan
    obtain ⟨active, hactive, rfl⟩ := hback hk
    rw [hhistory] at hscan
    refine (h.covered r hr hactive hscanned hle hscan).imp ?_ ?_
    · exact fun htested => htested.mono (fun _ _ _ htest => hhistory ▸ htest) (by rw [hwallet])
    · rintro ⟨j, waiting, hwaits, hlo, hhi, hcoll⟩
      refine ⟨j, { waiting with filters := Sound.filtersAfter batch waiting }, ?_, hlo, hhi,
        hcoll⟩
      rw [hmap, hwaits]
      rfl
  · rw [hhistory]
    exact h.honoured

end

/-- Collecting keeps what was collected, and adds the new addresses. -/
theorem collected_addAddresses (entries : List ((_ : WalletId) × List Address))
    (batch : FiltersBatch) (r : AddressReport)
    (h : Collected r batch ∨ ∃ e ∈ entries, e.1 = r.walletId ∧ r.address ∈ e.2) :
    Collected r (entries.foldl
      (fun b e => if e.2 = [] then b else b.addAddressesForWallet e.1 e.2) batch) := by
  induction entries generalizing batch with
  | nil => exact h.resolve_right fun ⟨e, he, _⟩ => List.not_mem_nil he
  | cons first rest ih =>
    rw [List.foldl_cons]
    refine ih _ ?_
    -- collected before, in this entry, or in one that follows
    have hkeep : Collected r batch → Collected r
        (if first.2 = [] then batch else batch.addAddressesForWallet first.1 first.2) := by
      rintro ⟨addresses, haddrs, hmem⟩
      split_ifs
      · exact ⟨addresses, haddrs, hmem⟩
      · unfold Collected addAddressesForWallet
        rw [get?_insert]
        split_ifs with hsame
        · refine ⟨_, rfl, Finset.mem_union_left _ ?_⟩
          rw [hsame, haddrs]
          exact hmem
        · exact ⟨addresses, haddrs, hmem⟩
    rcases h with hcoll | ⟨e, he, hwallet, hmem⟩
    · exact .inl (hkeep hcoll)
    rcases List.mem_cons.mp he with rfl | he
    · refine .inl ?_
      rw [if_neg (List.ne_nil_of_mem hmem)]
      unfold Collected addAddressesForWallet
      rw [get?_insert, if_pos hwallet]
      exact ⟨_, rfl, Finset.mem_union_right _ (List.mem_toFinset.mpr hmem)⟩
    · exact .inr ⟨e, he, hwallet, hmem⟩

/-- A processed block that a batch waits for gives it the new addresses. -/
theorem finishBlock_effect (haccounted : m.Accounted) (hash : BlockHash) (height : Nat)
    (wallets : Finset WalletId) (newAddresses : SortedMap WalletId (List Address)) :
    (m.finishBlock hash height wallets newAddresses).1.history = m.history ∧
    ((m.tracker.blocksRemaining.get? hash = none ∧
      (m.finishBlock hash height wallets newAddresses).1.activeBatches = m.activeBatches) ∨
    ∃ blockHeight start batch, m.tracker.blocksRemaining.get? hash = some (blockHeight, start) ∧
      m.activeBatches.get? start = some batch ∧ 0 < batch.pendingBlocks ∧
      (m.finishBlock hash height wallets newAddresses).1.activeBatches =
        m.activeBatches.insert start
          (addAddresses batch.decrementPendingBlocks newAddresses)) := by
  have hsame := recordProcessed_blocksRemaining m.tracker height hash wallets
  unfold FiltersManager.finishBlock BlockMatchTracker.finishInFlight
  rw [hsame]
  cases hentry : m.tracker.blocksRemaining.get? hash with
  | none => exact ⟨rfl, .inl ⟨rfl, rfl⟩⟩
  | some entry =>
    obtain ⟨blockHeight, start⟩ := entry
    obtain ⟨batch, hbatch⟩ := haccounted.tracked hentry
    have hcount := BlockMatchTracker.remainingFor_erase hentry start
    rw [if_pos rfl, ← haccounted.pending hbatch] at hcount
    simp only [collectAddresses, hbatch]
    exact ⟨rfl, .inr ⟨blockHeight, start, batch, rfl, hbatch, by omega, rfl⟩⟩

/-- A processed block adds its reports, if the wallets have the addresses. -/
theorem finishBlock (h : m.Honest reports) (hash : BlockHash) (height : Nat)
    (wallets : Finset WalletId) (newAddresses : SortedMap WalletId (List Address))
    {extra : List AddressReport} (hextra : ∀ r ∈ extra, r ∈ m.reportsOf hash newAddresses ∧
      r.address ∈ m.wallet.monitoredAddressesFor r.walletId) :
    (m.finishBlock hash height wallets newAddresses).1.Honest (reports ++ extra) := by
  have hmatched := matched_finishBlock m hash height wallets newAddresses
  have haccounted := h.accounted.finishBlock hash height wallets newAddresses
  obtain ⟨hhistory, heffect⟩ := finishBlock_effect h.accounted hash height wallets newAddresses
  generalize (m.finishBlock hash height wallets newAddresses).1 = m' at *
  have hwallet := hmatched.wallet_eq
  have hmon : ∀ r ∈ reports ++ extra,
      r.address ∈ m.wallet.monitoredAddressesFor r.walletId := by
    intro r hr
    rcases List.mem_append.mp hr with hr | hr
    · exact h.monitored r hr
    · exact (hextra r hr).2
  have hreports : ∀ r ∈ extra, r.commitsBefore = m.history.commits.length := by
    intro r hr
    have hmem := (hextra r hr).1
    unfold reportsOf at hmem
    split at hmem
    · cases hmem
    · simp only [List.mem_flatMap, List.mem_map] at hmem
      obtain ⟨e, -, address, -, rfl⟩ := hmem
      rfl
  have hhonoured : ∀ r ∈ reports ++ extra, r.commitsBefore ≤ m.history.commits.length ∧
      ∀ i c, r.commitsBefore ≤ i → m.history.commits[i]? = some c →
        r.batchStart ≤ c.batch.startHeight → c.Honours r := by
    intro r hr
    rcases List.mem_append.mp hr with hr | hr
    · exact h.honoured r hr
    · -- nothing was committed since
      rw [hreports r hr]
      refine ⟨le_rfl, fun i c hi hc => ?_⟩
      rw [List.getElem?_eq_none hi] at hc
      cases hc
  obtain ⟨hnone, hactive⟩ | ⟨blockHeight, start, batch, hentry, hget, hpend, hactive⟩ := heffect
  · have hempty : extra = [] := by
      refine List.eq_nil_iff_forall_not_mem.mpr fun r hr => ?_
      have hmem := (hextra r hr).1
      rw [reportsOf, hnone] at hmem
      cases hmem
    rw [hempty, List.append_nil]
    exact h.congr haccounted hactive hwallet hhistory
  have hopen : batch.rescanComplete = false := by
    by_contra hcomp
    have hzero := (h.complete hget (by simpa using hcomp)).2.1
    omega
  obtain ⟨collected, hadded⟩ := addAddresses_eq batch.decrementPendingBlocks newAddresses
  have hcases : ∀ {k batch'}, m'.activeBatches.get? k = some batch' →
      k = start ∧ batch' = addAddresses batch.decrementPendingBlocks newAddresses ∨
        k ≠ start ∧ m.activeBatches.get? k = some batch' := by
    intro k batch' hk
    rw [hactive] at hk
    exact (of_get?_insert hk).imp (.imp .symm .symm) (.imp_left Ne.symm)
  have hfixed : ∀ {k batch'}, m'.activeBatches.get? k = some batch' →
      ∃ old, m.activeBatches.get? k = some old ∧ batch'.filters = old.filters ∧
        batch'.scanned = old.scanned ∧ batch'.endHeight = old.endHeight := by
    intro k batch' hk
    obtain ⟨rfl, rfl⟩ | ⟨-, hold⟩ := hcases hk
    · rw [hadded]
      exact ⟨batch, hget, rfl, rfl, rfl⟩
    · exact ⟨batch', hold, rfl, rfl, rfl⟩
  refine ⟨haccounted, ?_, ?_, ?_, ?_, ?_, ?_⟩
  · rw [hwallet]
    exact hmon
  · intro k batch' hk
    obtain ⟨old, hold, hfilt, -, hend⟩ := hfixed hk
    rw [hfilt, hend]
    exact h.ranged hold
  · intro k batch' hk hscanned
    obtain ⟨old, hold, hfilt, hsame, -⟩ := hfixed hk
    rw [hhistory, hfilt]
    exact h.scans hold (hsame ▸ hscanned)
  · intro k batch' hk hcomp
    obtain ⟨rfl, rfl⟩ | ⟨-, hold⟩ := hcases hk
    · rw [hadded] at hcomp
      exact absurd hcomp (by simp [decrementPendingBlocks, hopen])
    · obtain ⟨hscanned, hzero, hcoll, hlowest⟩ := h.complete hold hcomp
      refine ⟨hscanned, hzero, hcoll, fun {other batch''} hother => ?_⟩
      obtain ⟨old, hold', -⟩ := hfixed hother
      exact hlowest hold'
  · intro r hr k batch' scan hk hscanned hle hscan
    obtain ⟨old, hold, -, hsame, -⟩ := hfixed hk
    rw [hhistory] at hscan
    have hself : m'.activeBatches.get? start =
        some (addAddresses batch.decrementPendingBlocks newAddresses) := by
      rw [hactive, get?_insert_self]
    rcases List.mem_append.mp hr with hr | hr
    · refine (h.covered r hr hold (hsame ▸ hscanned) hle hscan).imp ?_ ?_
      · exact fun htested => htested.mono (fun _ _ _ htest => hhistory ▸ htest) (by rw [hwallet])
      · rintro ⟨j, waiting, hwaits, hlo, hhi, hcoll⟩
        by_cases hj : j = start
        · subst hj
          obtain rfl := mem_unique hget hwaits
          exact ⟨j, _, hself, hlo, hhi, collected_addAddresses _ _ r (.inl hcoll)⟩
        · refine ⟨j, waiting, ?_, hlo, hhi, hcoll⟩
          rw [hactive, get?_insert, if_neg (Ne.symm hj)]
          exact hwaits
    · -- a new report waits in the batch of its block
      have hmem := (hextra r hr).1
      rw [reportsOf, hentry] at hmem
      simp only [List.mem_flatMap, List.mem_map] at hmem
      obtain ⟨e, he, address, haddr, rfl⟩ := hmem
      exact .inr ⟨start, _, hself, le_rfl, hle,
        collected_addAddresses _ _ _ (.inr ⟨e, he, rfl, haddr⟩)⟩
  · rw [hhistory]
    exact hhonoured

/-- Every move keeps the reports. -/
theorem move (hmove : Move scheme arrives starts m m') (h : m.Honest reports) :
    m'.Honest reports := by
  have haccounted : m'.Accounted := h.accounted.move hmove
  cases hmove with
  | scan hget hnew hready => exact h.scanBatch hget hnew
  | rescan hfirst hget hscanned hpend hopen => exact h.rescanForCommit hfirst hget hscanned hopen
  | commit hfirst hget hscanned hpend hcomp =>
    exact h.commitBatch hfirst hget hscanned hpend hcomp
  | @lookahead filters htip hload =>
    refine h.openBatch haccounted h.accounted.get?_nextBatchStart
      (fun _ _ hget => h.accounted.lt_nextBatchStart hget) fun key hkey => ?_
    unfold loadAvailable at hload
    split_ifs at hload
    · obtain ⟨hlo, hhi⟩ := loadFilters_ranged hload hkey
      exact ⟨hlo, hhi.trans (Nat.min_le_right _ _)⟩
    · obtain rfl := Except.ok.inj hload
      simp [contains] at hkey
  | collect | discard | receive | send | timeouts | disconnect | extend | setState | init
  | storedTip | begin => exact h.congr haccounted rfl rfl rfl
  | store hget hnext hverify => exact h.store hverify haccounted
  | processed hash height wallets newAddresses =>
    have hkept := @finishBlock _ m reports h hash height wallets newAddresses [] (by simp)
    rwa [List.append_nil] at hkept
  | reset hstarts => exact h.of_idle haccounted (fun _ => rfl) (fun _ => rfl) rfl
  | noteStored hstarts scanStart hidle =>
    refine h.congr haccounted ?_ ?_ ?_ <;> unfold noteStored <;> split_ifs <;> rfl
  | @first scanStart filters hstarts hidle htip hload =>
    have hnone := size_eq_zero_iff.mp hidle
    have hranged : ∀ key, filters.contains key = true →
        scanStart ≤ key.height ∧ key.height ≤ m.firstBatchEnd scanStart := by
      intro key hkey
      unfold loadFirst at hload
      split_ifs at hload
      · obtain ⟨hlo, hhi⟩ := loadFilters_ranged hload hkey
        exact ⟨hlo, hhi.trans (Nat.min_le_right _ _)⟩
      · obtain rfl := Except.ok.inj hload
        simp [contains] at hkey
    have hrange : scanStart ≤ m.firstBatchEnd scanStart := by
      unfold firstBatchEnd batchProcessingSize
      omega
    have hopened := h.openBatch (h.accounted.openBatch hrange (hnone scanStart) filters
      (m.firstBatchEnd scanStart ≤ m.filterTipHeight)) (hnone scanStart)
      (fun k batch hget => by simp [hnone k] at hget) hranged
    exact hopened.congr haccounted rfl rfl rfl
  | reorg hstarts forkHeight =>
    obtain ⟨wallet, floor, -, heq⟩ := m.handleChainReorg_eq forkHeight
    refine h.of_idle haccounted (fun k => ?_) (m.handleChainReorg_monitored forkHeight) ?_
    · rfl
    · rw [heq]

/-- What arrives from outside keeps the reports, if the wallets only grow. -/
theorem arrive (h : m.Honest reports) (a : Action blockHash)
    (hgrows : m.wallet.Grows (m.arrive a).wallet) : (m.arrive a).Honest reports := by
  unfold FiltersManager.arrive at hgrows ⊢
  split at hgrows
  case h_3 bestHeight _ _ =>
    obtain ⟨targetHeight, heq⟩ := m.updateBestHeight_eq bestHeight
    rw [heq]
    exact h.congr (h.accounted.congr (fun _ => rfl) rfl rfl) rfl rfl rfl
  all_goals exact h.grow (h.accounted.congr (fun _ => rfl) rfl rfl) rfl hgrows rfl rfl rfl

/-- Every action keeps the reports, if the wallets that arrive have only grown. -/
theorem step (h : m.Honest reports) (a : Action blockHash)
    (hgrows : m.wallet.Grows (m.arrive a).wallet) : (m.step scheme a).Honest reports :=
  (step_moves m a).keep (fun _ _ hmove => move hmove) (h.arrive a hgrows)

end Honest

/-- An action changes the addresses of a wallet only by what arrives. -/
theorem step_monitored (m : FiltersManager blockHash) (a : Action blockHash) (walletId : WalletId) :
    (m.step scheme a).wallet.monitoredAddressesFor walletId =
      (m.arrive a).wallet.monitoredAddressesFor walletId :=
  @Moves.keep _ _ _ _ _ _ (fun m' => m'.wallet.monitoredAddressesFor walletId =
      (m.arrive a).wallet.monitoredAddressesFor walletId)
    (fun _ _ hmove heq => (hmove.monitored walletId).trans heq) (step_moves m a) rfl

/-- A new manager has no reports. -/
theorem honest_new (headerStorage : PersistentBlockHeaderStorage blockHash)
    (filterHeaderStorage : SegmentStore (0 : FilterHeader))
    (filterStorage : SegmentStore ([] : Filter)) (wallet : WalletSet) (reorgGeneration : Nat) :
    (new headerStorage filterHeaderStorage filterStorage wallet reorgGeneration).Honest [] where
  accounted := accounted_new _ _ _ _ _
  monitored := by simp
  ranged := by simp [new]
  scans := by simp [new]
  complete := by simp [new]
  covered := by simp
  honoured := by simp

end FiltersManager

end Dashcore
