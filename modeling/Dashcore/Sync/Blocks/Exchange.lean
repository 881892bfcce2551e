import Dashcore.Sync.Blocks.Manager
import Dashcore.Sync.Filters.Reports

/-!
# The exchange of blocks and addresses

The filters manager asks the blocks manager for blocks, and the blocks manager reports the
blocks that were processed, with the addresses that the wallets derived. Each manager takes the
events of the other from a queue. The managers share the wallets, the headers and the number of
reorgs, which are those of the filters manager here.

An address that a block in flight reports is matched against the filters of its batch and of
all later batches, above the height that its wallet is matched up to. The filters below are
skipped: a wallet that has been matched up to a height inside a batch is not matched against
the lower filters of the batch again.
-/

namespace Dashcore

open BlocksManager SortedMap List

/-- Processing a block takes nothing from a wallet, and the addresses reported are monitored. -/
structure BlockProcessor.Lawful {Block : Type} (process : BlockProcessor Block) : Prop where
  grows : ∀ (ws : WalletSet) block height interested, ws.Grows (process ws block height interested).1
  reported : ∀ ws block height interested walletId addresses,
    (process ws block height interested).2.get? walletId = some addresses →
      ∀ address ∈ addresses,
        address ∈ (process ws block height interested).1.monitoredAddressesFor walletId

/-- The two managers, the events on their way, and the addresses reported so far. -/
structure Exchange (blockHash : Header → BlockHash) (Block : Type) where
  filters : FiltersManager blockHash
  blocks : BlocksManager Block
  toFilters : List SyncEvent
  toBlocks : List SyncEvent
  reports : List AddressReport

namespace Exchange

variable {blockHash : Header → BlockHash} {Block : Type}

/-- What happens next. -/
inductive Action (blockHash : Header → BlockHash) (Block : Type)
  /-- Something happens to the filters manager that is no event. -/
  | filters (a : FiltersManager.Action blockHash)
  /-- The filters manager takes an event. -/
  | filtersTake (now : Nat) (accepts : Nat → Bool)
  | block (block : Block) (now : Nat) (accepts : Nat → Bool)
  /-- The blocks manager takes an event. -/
  | blocksTake (now : Nat) (accepts : Nat → Bool)
  | blocksTick (now : Nat) (accepts : Nat → Bool)
  | blocksPeers (connectedCount : Nat)
  /-- Another manager sends an event. -/
  | broadcast (event : SyncEvent)

/-- The events of an entry point; an error sends none. -/
def sent : Except SyncError (List SyncEvent) → List SyncEvent
  | .ok events => events
  | .error _ => []

/-- The addresses that an event reports to the filters manager. -/
def reportsOf (m : FiltersManager blockHash) : SyncEvent → List AddressReport
  | .blockProcessed hash _ _ newAddresses => m.reportsOf hash newAddresses
  | _ => []

section

variable (s : Exchange blockHash Block)

def filtersStep (r : FiltersManager blockHash × Except SyncError (List SyncEvent)) :
    Exchange blockHash Block :=
  { s with filters := r.1, toBlocks := s.toBlocks ++ sent r.2 }

def blocksStep (r : BlocksManager.Outcome Block) :
    Exchange blockHash Block :=
  { s with
    filters := { s.filters with wallet := r.2.1 }
    blocks := r.1
    toFilters := s.toFilters ++ sent r.2.2 }

/-- A cascade cuts the stored blocks as well. -/
def cutBlocks (b : BlocksManager Block) :
    FiltersManager.Action blockHash → BlocksManager Block
  | .cascade candidate =>
    { b with blockStorage := b.blockStorage.filter fun h _ => h ≤ candidate.ancestorHeight }
  | _ => b

def step (scheme : FilterScheme) (hashOf : Block → BlockHash) (process : BlockProcessor Block)
    (s : Exchange blockHash Block) : Action blockHash Block → Exchange blockHash Block
  | .filters a => filtersStep { s with blocks := cutBlocks s.blocks a } (s.filters.respond scheme a)
  | .filtersTake now accepts =>
    match s.toFilters with
    | [] => s
    | event :: rest =>
      filtersStep
        { s with toFilters := rest, reports := s.reports ++ reportsOf s.filters event }
        (s.filters.handleSyncEvent scheme event now accepts)
  | .block block now accepts =>
    s.blocksStep (s.blocks.handleMessage hashOf process s.filters.wallet s.filters.headerStorage
      s.filters.reorgGeneration block now accepts)
  | .blocksTake now accepts =>
    match s.toBlocks with
    | [] => s
    | event :: rest =>
      blocksStep { s with toBlocks := rest }
        (s.blocks.handleSyncEvent hashOf process s.filters.wallet s.filters.reorgGeneration event
          now accepts)
  | .blocksTick now accepts =>
    s.blocksStep (s.blocks.tick hashOf process s.filters.wallet s.filters.reorgGeneration now
      accepts)
  | .blocksPeers connectedCount =>
    { s with blocks := s.blocks.handleNetworkEvent connectedCount }
  | .broadcast event =>
    { s with toFilters := s.toFilters ++ [event], toBlocks := s.toBlocks ++ [event] }

/-- The two managers at the start, with nothing on the way. -/
def new (headerStorage : PersistentBlockHeaderStorage blockHash)
    (filterHeaderStorage : SegmentStore (0 : FilterHeader))
    (filterStorage : SegmentStore ([] : Filter)) (blockStorage : SortedMap Nat Block)
    (wallet : WalletSet) (reorgGeneration : Nat) : Exchange blockHash Block where
  filters := .new headerStorage filterHeaderStorage filterStorage wallet reorgGeneration
  blocks := .new blockStorage
  toFilters := []
  toBlocks := []
  reports := []

/-- The filters manager hears of events through its queue only, only the blocks manager
reports processed blocks, and nobody takes addresses or matched heights from a wallet. -/
def Valid : Action blockHash Block → Prop
  | .filters (.syncEvent _ _ _) => False
  | .filters (.wallets wallet) => s.filters.wallet.Grows wallet
  | .broadcast (.blockProcessed _ _ _ _) => False
  | _ => True

end

/-! ### Processing blocks -/

/-- The wallets have the addresses that an event reports. -/
def Monitored (wallet : WalletSet) : SyncEvent → Prop
  | .blockProcessed _ _ _ newAddresses => ∀ walletId addresses,
    newAddresses.get? walletId = some addresses →
      ∀ address ∈ addresses, address ∈ wallet.monitoredAddressesFor walletId
  | _ => True

variable {event : SyncEvent} {now : Nat} {accepts : Nat → Bool}

theorem Monitored.mono {ws ws' : WalletSet} (h : Monitored ws event)
    (hkeeps : ∀ walletId, ∀ address ∈ ws.monitoredAddressesFor walletId,
      address ∈ ws'.monitoredAddressesFor walletId) : Monitored ws' event := by
  cases event with
  | blockProcessed hash height wallets newAddresses =>
    intro walletId addresses hget address hmem
    exact hkeeps walletId address (h walletId addresses hget address hmem)
  | _ => trivial

/-- A result of the blocks manager takes nothing from a wallet, and the addresses it reports
are monitored. -/
def Reports (wallet wallet' : WalletSet) (events : List SyncEvent) : Prop :=
  wallet.Grows wallet' ∧ ∀ event ∈ events, Monitored wallet' event

theorem Reports.nil (wallet : WalletSet) : Reports wallet wallet [] :=
  ⟨.refl wallet, fun _ h => absurd h not_mem_nil⟩

section Processing

variable {hashOf : Block → BlockHash} {process : BlockProcessor Block}
  (hprocess : BlockProcessor.Lawful process)

include hprocess

theorem reports_processLoop (fuel : Nat) (pipeline : BlocksPipeline Block) (wallet : WalletSet) :
    Reports wallet (processLoop hashOf process fuel pipeline wallet).2.1
      (processLoop hashOf process fuel pipeline wallet).2.2 := by
  induction fuel generalizing pipeline wallet with
  | zero => exact .nil wallet
  | succ fuel ih =>
    unfold processLoop
    generalize pipeline.takeNextOrderedBlock hashOf = r
    obtain ⟨pipeline', _ | ⟨block, height, interested⟩⟩ := r
    · exact .nil wallet
    have hgrows := hprocess.grows wallet block height interested
    have hrep := hprocess.reported wallet block height interested
    obtain ⟨hrest, hevents⟩ := ih pipeline' (process wallet block height interested).1
    refine ⟨hgrows.trans hrest, ?_⟩
    intro event hmem
    rcases mem_cons.mp hmem with rfl | hmem
    · -- what this block reported is still monitored when the later ones are processed
      have hnow : Monitored (process wallet block height interested).1
          (.blockProcessed (hashOf block) height interested
            (process wallet block height interested).2) := hrep
      exact hnow.mono fun walletId => (hrest walletId).1
    · exact hevents event hmem

variable (b : BlocksManager Block) (wallet : WalletSet) {generation : Nat}

theorem reports_processBufferedBlocks :
    Reports wallet (b.processBufferedBlocks hashOf process wallet).2.1
      (b.processBufferedBlocks hashOf process wallet).2.2 :=
  reports_processLoop hprocess _ _ _

theorem reports_handleMessage {headers : PersistentBlockHeaderStorage blockHash} {block : Block} :
    Reports wallet
      (b.handleMessage hashOf process wallet headers generation block now accepts).2.1
      (sent (b.handleMessage hashOf process wallet headers generation block now accepts).2.2) := by
  unfold handleMessage
  split_ifs
  · exact .nil wallet
  generalize b.pipeline.receiveBlock hashOf block = r
  obtain ⟨pipeline, _ | _⟩ := r
  · exact .nil wallet
  cases headers.getHeaderHeightByHash (hashOf block) with
  | none => exact .nil wallet
  | some height =>
    dsimp only
    obtain ⟨hgrows, hevents⟩ := @reports_processBufferedBlocks Block hashOf process hprocess
      { b with pipeline, blockStorage := b.blockStorage.insert height block } wallet
    generalize processBufferedBlocks hashOf process
      { b with pipeline, blockStorage := b.blockStorage.insert height block } wallet = r at *
    obtain ⟨b', wallet', events⟩ := r
    generalize b'.sendIfPending generation now accepts = r
    obtain ⟨b'', e | n⟩ := r
    · exact ⟨hgrows, fun _ h => absurd h not_mem_nil⟩
    · exact ⟨hgrows, hevents⟩

theorem reports_handleSyncEvent :
    Reports wallet (b.handleSyncEvent hashOf process wallet generation event now accepts).2.1
      (sent (b.handleSyncEvent hashOf process wallet generation event now accepts).2.2) := by
  cases event with
  | blocksNeeded blocks =>
    unfold handleSyncEvent handleBlocksNeeded
    dsimp only
    split_ifs
    · exact .nil wallet
    generalize b.loadNeeded hashOf blocks.entries [] = r
    obtain ⟨b', e | toDownload⟩ := r
    · exact .nil wallet
    dsimp only
    generalize sendIfPending _ generation now accepts = r
    obtain ⟨b'', e | n⟩ := r
    · exact .nil wallet
    · exact reports_processBufferedBlocks hprocess b'' wallet
  | _ => exact .nil wallet

theorem reports_tick :
    Reports wallet (b.tick hashOf process wallet generation now accepts).2.1
      (sent (b.tick hashOf process wallet generation now accepts).2.2) := by
  unfold tick
  generalize sendPending _ generation now accepts = r
  obtain ⟨b', e | n⟩ := r
  · exact .nil wallet
  · exact reports_processBufferedBlocks hprocess b' wallet

end Processing

/-! ### Runs -/

/-- The filters manager keeps the reports, and the addresses on their way are monitored. -/
structure Keeps (s : Exchange blockHash Block) : Prop where
  honest : s.filters.Honest s.reports
  queued : ∀ event ∈ s.toFilters, Monitored s.filters.wallet event

namespace Keeps

variable {s : Exchange blockHash Block} {scheme : FilterScheme}

/-- An outcome of the blocks manager is queued for the filters manager. -/
theorem blocksStep (h : s.Keeps) {r : BlocksManager.Outcome Block}
    (hreports : Reports s.filters.wallet r.2.1 (sent r.2.2)) : (s.blocksStep r).Keeps where
  honest := h.honest.grow (h.honest.accounted.congr (fun _ => rfl) rfl rfl) rfl hreports.1 rfl rfl
    rfl
  queued := by
    intro event hmem
    rcases mem_append.mp hmem with hmem | hmem
    · exact (h.queued event hmem).mono fun walletId => (hreports.1 walletId).1
    · exact hreports.2 event hmem

/-- Something happens to the filters manager, and its wallets only grow by it. -/
theorem filtersStep (h : s.Keeps) (blocks : BlocksManager Block)
    (a : FiltersManager.Action blockHash)
    (hgrows : s.filters.wallet.Grows (s.filters.arrive a).wallet) :
    (Exchange.filtersStep { s with blocks } (s.filters.respond scheme a)).Keeps where
  honest := h.honest.step a hgrows
  queued := by
    intro event hmem
    refine (h.queued event hmem).mono fun walletId address hmon => ?_
    have hkept := @FiltersManager.step_monitored _ scheme s.filters a walletId
    exact hkept ▸ (hgrows walletId).1 address hmon

/-- The addresses of an event that is taken are reported. -/
theorem honest_take (h : s.Keeps)
    (hmonitored : Monitored s.filters.wallet event) :
    (s.filters.handleSyncEvent scheme event now accepts).1.Honest
      (s.reports ++ reportsOf s.filters event) := by
  cases event with
  | blockProcessed hash height wallets newAddresses =>
    have hextra : ∀ r ∈ s.filters.reportsOf hash newAddresses,
        r ∈ s.filters.reportsOf hash newAddresses ∧
          r.address ∈ s.filters.wallet.monitoredAddressesFor r.walletId := by
      intro r hr
      refine ⟨hr, ?_⟩
      unfold FiltersManager.reportsOf at hr
      split at hr
      · cases hr
      · simp only [mem_flatMap, mem_map] at hr
        obtain ⟨e, he, address, haddr, rfl⟩ := hr
        exact hmonitored e.1 e.2 (mem_entries_iff.mp he) address haddr
    have hfin := h.honest.finishBlock hash height wallets newAddresses hextra
    unfold FiltersManager.handleSyncEvent FiltersManager.handleBlockProcessed
    dsimp only
    generalize s.filters.finishBlock hash height wallets newAddresses = r at hfin ⊢
    obtain ⟨m, _ | _⟩ := r
    · exact hfin
    · exact (FiltersManager.tryProcessBatch_moves (fun _ => False) False m).keep
        (fun _ _ hmove => FiltersManager.Honest.move hmove) hfin
  | _ =>
    simp only [reportsOf, append_nil]
    exact @FiltersManager.Honest.step _ scheme _ _ h.honest (.syncEvent _ now accepts) (.refl _)

/-- Every action that the surroundings may take keeps the reports. -/
theorem step {hashOf : Block → BlockHash} {process : BlockProcessor Block}
    (hprocess : BlockProcessor.Lawful process) (h : s.Keeps) (a : Action blockHash Block)
    (hvalid : s.Valid a) : (s.step scheme hashOf process a).Keeps := by
  cases a with
  | filters a =>
    refine h.filtersStep _ a ?_
    cases a with
    | syncEvent event now accepts => exact hvalid.elim
    | wallets wallet => exact hvalid
    | networkEvent connectedCount bestHeight now accepts =>
      obtain ⟨targetHeight, heq⟩ := s.filters.updateBestHeight_eq bestHeight
      rw [FiltersManager.arrive, heq]
      exact .refl _
    | _ => exact .refl _
  | filtersTake now accepts =>
    unfold Exchange.step
    cases hqueue : s.toFilters with
    | nil => exact h
    | cons event rest =>
      have hqueued := h.queued
      rw [hqueue] at hqueued
      refine ⟨h.honest_take (hqueued event mem_cons_self), ?_⟩
      intro other hmem
      refine (hqueued other (mem_cons_of_mem event hmem)).mono fun walletId address hmon => ?_
      have hkept := @FiltersManager.step_monitored _ scheme s.filters (.syncEvent event now accepts)
        walletId
      have harrive : (s.filters.arrive (.syncEvent event now accepts)).wallet = s.filters.wallet := by
        cases event <;> rfl
      rw [harrive] at hkept
      exact hkept ▸ hmon
  | block block now accepts => exact h.blocksStep (reports_handleMessage hprocess _ _)
  | blocksTake now accepts =>
    unfold Exchange.step
    dsimp only
    cases s.toBlocks with
    | nil => exact h
    | cons event rest =>
      have hrest : Keeps { s with toBlocks := rest } := ⟨h.honest, h.queued⟩
      exact hrest.blocksStep (reports_handleSyncEvent hprocess _ _)
  | blocksTick now accepts => exact h.blocksStep (reports_tick hprocess _ _)
  | blocksPeers connectedCount => exact ⟨h.honest, h.queued⟩
  | broadcast event =>
    refine ⟨h.honest, fun other hmem => ?_⟩
    rcases mem_append.mp hmem with hmem | hmem
    · exact h.queued other hmem
    · obtain rfl := mem_singleton.mp hmem
      cases other with
      | blockProcessed hash height wallets newAddresses => exact hvalid.elim
      | _ => trivial

end Keeps

/-- In every run of the two managers, over any stores and wallets: an address that a processed
block reports while a batch waits for it has been matched, when that batch or a later one is
committed, against the filters that the batch was scanned with, above the height that the
wallet is matched up to. -/
theorem run_reports_honoured (scheme : FilterScheme) (hashOf : Block → BlockHash)
    (process : BlockProcessor Block) (hprocess : BlockProcessor.Lawful process)
    (headerStorage : PersistentBlockHeaderStorage blockHash)
    (filterHeaderStorage : SegmentStore (0 : FilterHeader))
    (filterStorage : SegmentStore ([] : Filter)) (blockStorage : SortedMap Nat Block)
    (wallet : WalletSet) (reorgGeneration : Nat) (actions : List (Action blockHash Block))
    (hvalid : Runs.Along (step scheme hashOf process) Valid
      (new headerStorage filterHeaderStorage filterStorage blockStorage wallet reorgGeneration)
      actions) :
    let s := Runs.run (step scheme hashOf process)
      (new headerStorage filterHeaderStorage filterStorage blockStorage wallet reorgGeneration)
      actions
    ∀ r ∈ s.reports, ∀ i c, r.commitsBefore ≤ i → s.filters.history.commits[i]? = some c →
      r.batchStart ≤ c.batch.startHeight → c.Honours r := by
  intro s r hr
  have h : s.Keeps := @Runs.invariant_run _ _ (step scheme hashOf process) Keeps Valid
    (fun _ a hs hstep => hs.step hprocess a hstep) _ actions
    ⟨FiltersManager.honest_new _ _ _ _ _, fun _ h => absurd h not_mem_nil⟩ hvalid
  exact (h.honest.honoured r hr).2

/-! ### A wallet that was matched up to the middle of a batch -/

namespace HalfMatched

open SparseBlocks

def known : Address := .witnessProgram 0 [1]

def derived : Address := .witnessProgram 0 [2]

/-- A filter matches everything at the block with hash 4. -/
def scheme : FilterScheme where
  filterHash := fun filter => Fin.ofNat _ filter.length
  filterHeader := fun hash previous => previous + hash
  matchAny := fun _ hash _ => hash = 4

/-- Every wallet that a block is processed for derives one address. -/
def process : BlockProcessor BlockHash := fun ws _ _ interested =>
  (ws.mapVal fun walletId w =>
      if walletId ∈ interested then
        { w with monitoredAddresses := w.monitoredAddresses ++ [derived] }
      else w,
    (ws.filter fun walletId _ => walletId ∈ interested).mapVal fun _ _ => [derived])

theorem lawful_process : BlockProcessor.Lawful process where
  grows := by
    intro ws block height interested walletId
    unfold process WalletSet.monitoredAddressesFor WalletSet.walletSyncedHeight
    rw [get?_mapVal]
    cases ws.get? walletId with
    | none => exact ⟨fun _ h => h, le_rfl⟩
    | some w =>
      split_ifs
      · exact ⟨fun _ h => mem_append_left _ h, le_rfl⟩
      · exact ⟨fun _ h => h, le_rfl⟩
  reported := by
    intro ws block height interested walletId addresses hget address hmem
    simp only [process, get?_mapVal, get?_filter, Option.map_eq_some_iff,
      Option.filter_eq_some_iff, decide_eq_true_eq] at hget
    obtain ⟨w, ⟨hw, hinterested⟩, rfl⟩ := hget
    simp only [WalletSet.monitoredAddressesFor, process, get?_mapVal, hw, Option.map_some,
      if_pos hinterested]
    exact mem_append_right _ hmem

def walletAt (syncedHeight : Nat) (monitoredAddresses : List Address) : WalletView where
  birthHeight := 0
  syncedHeight
  monitoredAddresses
  lastAppliedChainLock := none

/-- Headers, filter headers and filters at heights 0 to 3, for a wallet that is matched up to
height 0 and one that is matched up to height 2. -/
def start : Exchange nonceHash BlockHash :=
  new (PersistentBlockHeaderStorage.storeHashedHeaders ⟨.empty, ∅⟩
      [headerAfter 0 1, headerAfter 1 2, headerAfter 2 3, headerAfter 3 4])
    (SegmentStore.empty.storeItems [1, 2, 3, 4])
    (SegmentStore.empty.storeItems [[7], [7], [7], [7]])
    ∅ (((∅ : WalletSet).insert 1 (walletAt 0 [])).insert 2 (walletAt 2 [known])) 0

/-- The batch is scanned and matches the block at height 3, which is downloaded, processed and
reported; then the batch is committed. -/
def actions : List (Action nonceHash BlockHash) :=
  [.broadcast (.filterHeadersSyncComplete 3), .filtersTake 0 fun _ => true,
    .blocksTake 0 fun _ => true, .blocksTake 0 fun _ => true, .block 4 0 fun _ => true,
    .filtersTake 0 fun _ => true]

/-- The address that the second wallet derived is matched against the filter above the height
that the wallet was matched up to. -/
theorem run_reports_honoured_halfMatched :
    (Runs.run (step scheme id process) start actions).reports = [⟨2, derived, 0, 0⟩] ∧
    ∀ r ∈ (Runs.run (step scheme id process) start actions).reports, ∀ i c, r.commitsBefore ≤ i →
      (Runs.run (step scheme id process) start actions).filters.history.commits[i]? = some c →
        r.batchStart ≤ c.batch.startHeight → c.Honours r :=
  ⟨by decide +kernel, run_reports_honoured scheme id process lawful_process _ _ _ _ _ _ actions
    ⟨trivial, trivial, trivial, trivial, trivial, trivial, trivial⟩⟩

/-- The batch is committed with a filter at height 1 that was not matched against the
address. -/
theorem derived_unmatched_below :
    (Runs.run (step scheme id process) start actions).reports = [⟨2, derived, 0, 0⟩] ∧
    (Runs.run (step scheme id process) start actions).filters.history.commits.map
        (fun c => (c.batch.startHeight, c.batch.filters.contains ⟨1, 2⟩,
          c.tested 2 derived ⟨1, 2⟩)) = [(0, true, false)] := by
  constructor <;> decide +kernel

end HalfMatched

end Exchange

end Dashcore
