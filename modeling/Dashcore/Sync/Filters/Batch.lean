import Dashcore.Sync.Reorg

/-!
# Batches of compact filters

Filters of consecutive blocks are downloaded, matched and committed in batches. A filter is
kept under the height and the hash of its block.
-/

namespace Dashcore

/-- Filters by block. -/
abbrev FilterMap := SortedMap FilterMatchKey Filter

/-- Heights `startHeight` to `endHeight` with their filters. -/
structure FiltersBatch where
  startHeight : Nat
  endHeight : Nat
  filters : FilterMap
  /-- The filters were loaded from the store. -/
  verified : Bool
  /-- The filters were matched against the wallets. -/
  scanned : Bool
  /-- Matched blocks that are not processed yet. -/
  pendingBlocks : Nat
  rescanComplete : Bool
  /-- The wallets that were behind when the batch was scanned. -/
  scannedWallets : Finset WalletId
  /-- Addresses found in matched blocks that the filters are not matched against yet. -/
  collectedAddresses : SortedMap WalletId (Finset Address)
  deriving DecidableEq

namespace FiltersBatch

/-- A batch that was not looked at yet. -/
def new (startHeight endHeight : Nat) (filters : FilterMap) : FiltersBatch where
  startHeight
  endHeight
  filters
  verified := false
  scanned := false
  pendingBlocks := 0
  rescanComplete := false
  scannedWallets := ∅
  collectedAddresses := ∅

variable (b : FiltersBatch)

def markVerified : FiltersBatch := { b with verified := true }

def markScanned : FiltersBatch := { b with scanned := true }

def setPendingBlocks (count : Nat) : FiltersBatch :=
  { b with pendingBlocks := count }

def decrementPendingBlocks : FiltersBatch :=
  { b with pendingBlocks := b.pendingBlocks - 1 }

def markRescanComplete : FiltersBatch := { b with rescanComplete := true }

def setScannedWallets (wallets : Finset WalletId) : FiltersBatch :=
  { b with scannedWallets := wallets }

/-- Remember new addresses of a wallet. -/
def addAddressesForWallet (walletId : WalletId) (addresses : List Address) : FiltersBatch :=
  { b with
    collectedAddresses := b.collectedAddresses.insert walletId
      ((b.collectedAddresses.get? walletId).getD ∅ ∪ addresses.toFinset) }

/-- Take the remembered addresses out. -/
def takeCollectedAddresses : FiltersBatch × SortedMap WalletId (Finset Address) :=
  ({ b with collectedAddresses := ∅ }, b.collectedAddresses)

/-- The batch without what matching it changes. -/
def fixed : FiltersBatch :=
  { b with pendingBlocks := 0, rescanComplete := false, collectedAddresses := ∅ }

/-- The heights of a batch and their filters. -/
def content : Nat × Nat × FilterMap := (b.startHeight, b.endHeight, b.filters)

/-- A filter is there for every height. -/
def Full : Prop :=
  ∀ height, b.startHeight ≤ height → height ≤ b.endHeight →
    ∃ key filter, b.filters.get? key = some filter ∧ key.height = height

end FiltersBatch

/-- The filters received of a range that ends at `endHeight`. -/
structure BatchTracker where
  endHeight : Nat
  received : Finset Nat
  filters : FilterMap
  deriving DecidableEq

namespace BatchTracker

def new (endHeight : Nat) : BatchTracker where
  endHeight
  received := ∅
  filters := ∅

section

variable (t : BatchTracker)

def insertFilter (height : Nat) (blockHash : BlockHash) (filterData : Filter) :
    BatchTracker :=
  { t with
    received := insert height t.received
    filters := t.filters.insert ⟨height, blockHash⟩ filterData }

def isComplete (startHeight : Nat) : Bool :=
  startHeight ≤ t.endHeight && ∀ height ∈ Finset.Icc startHeight t.endHeight, height ∈ t.received

/-- Every height marked as received has a filter. -/
def Backed : Prop :=
  ∀ height ∈ t.received, ∃ key filter, t.filters.get? key = some filter ∧ key.height = height

end

theorem backed_new (endHeight : Nat) : (new endHeight).Backed := by
  intro height hheight
  exact absurd hheight (Finset.notMem_empty height)

variable {t : BatchTracker}

theorem Backed.insertFilter (h : t.Backed) (height : Nat) (blockHash : BlockHash)
    (filterData : Filter) : (t.insertFilter height blockHash filterData).Backed := by
  intro other hother
  rcases Finset.mem_insert.mp hother with rfl | hother
  · exact ⟨⟨other, blockHash⟩, filterData, by simp [BatchTracker.insertFilter], rfl⟩
  · obtain ⟨key, filter, hget, hkey⟩ := h other hother
    by_cases hsame : (⟨height, blockHash⟩ : FilterMatchKey) = key
    · exact ⟨key, filterData, by simp [BatchTracker.insertFilter, hsame], hkey⟩
    · exact ⟨key, filter, by simp [BatchTracker.insertFilter, hsame, hget], hkey⟩

/-- A complete tracker makes a full batch. -/
theorem Backed.full (h : t.Backed) {startHeight : Nat}
    (hcomplete : t.isComplete startHeight = true) :
    (FiltersBatch.new startHeight t.endHeight t.filters).Full := by
  intro height hlo hhi
  simp only [isComplete, Bool.and_eq_true, decide_eq_true_eq] at hcomplete
  exact h height (hcomplete.2 height (Finset.mem_Icc.mpr ⟨hlo, hhi⟩))

end BatchTracker

end Dashcore
