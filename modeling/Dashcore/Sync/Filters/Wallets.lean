import Dashcore.Sync.FilterHeaders.Pipeline
import Dashcore.Sync.Filters.Batch

/-!
# The wallets as the filters manager sees them

Of a wallet the manager reads the birth height, the height up to which its filters were
matched, and its addresses. It moves the matched height forward, and back in a reorg.

The functions that hash and match filters are parameters.
-/

namespace Dashcore

/-- What the manager sees of one wallet. -/
structure WalletView where
  birthHeight : Nat
  syncedHeight : Nat
  monitoredAddresses : List Address
  /-- The height of the last chainlock applied to the wallet. -/
  lastAppliedChainLock : Option Nat
  deriving DecidableEq

abbrev WalletSet := SortedMap WalletId WalletView

namespace WalletSet

variable (ws : WalletSet)

def earliestRequiredHeight : Nat :=
  ((ws.values.map WalletView.birthHeight).min?).getD 0

/-- The lowest height that all wallets are matched up to. -/
def syncedHeight : Nat :=
  ((ws.values.map WalletView.syncedHeight).min?).getD 0

/-- The wallets that are not matched up to a height, in key order. -/
def walletsBehind (height : Nat) : List WalletId :=
  (ws.filter fun _ w => w.syncedHeight < height).keys

section

variable (walletId : WalletId)

def walletSyncedHeight : Nat :=
  ((ws.get? walletId).map WalletView.syncedHeight).getD 0

def monitoredAddressesFor : List Address :=
  ((ws.get? walletId).map WalletView.monitoredAddresses).getD []

/-- Move the matched height of a wallet forward. -/
def updateWalletSyncedHeight (height : Nat) : WalletSet :=
  match ws.get? walletId with
  | some w => if w.syncedHeight < height then ws.insert walletId { w with syncedHeight := height }
    else ws
  | none => ws

end

/-- Take every wallet back to a height, unless one has a chainlock above it. -/
def rewindToHeight (height : Nat) : Option WalletSet :=
  if ws.values.any fun w => w.lastAppliedChainLock.any (height < ·) then none
  else some (ws.mapVal fun _ w => { w with syncedHeight := min height w.syncedHeight })

/-- No wallet loses an address or goes back. -/
def Grows (ws ws' : WalletSet) : Prop :=
  ∀ walletId, (∀ address ∈ ws.monitoredAddressesFor walletId,
      address ∈ ws'.monitoredAddressesFor walletId) ∧
    ws.walletSyncedHeight walletId ≤ ws'.walletSyncedHeight walletId

theorem Grows.refl : ws.Grows ws := fun _ => ⟨fun _ h => h, le_rfl⟩

theorem Grows.trans {ws ws' ws'' : WalletSet} (h : ws.Grows ws') (h' : ws'.Grows ws'') :
    ws.Grows ws'' := fun walletId =>
  ⟨fun address hmem => (h' walletId).1 address ((h walletId).1 address hmem),
    (h walletId).2.trans (h' walletId).2⟩

/-- Moving a wallet forward leaves its addresses as they are. -/
theorem monitoredAddressesFor_update (walletId other : WalletId) (height : Nat) :
    (ws.updateWalletSyncedHeight walletId height).monitoredAddressesFor other =
      ws.monitoredAddressesFor other := by
  unfold updateWalletSyncedHeight monitoredAddressesFor
  cases hget : ws.get? walletId with
  | none => rfl
  | some w =>
    dsimp only
    split_ifs
    · rw [SortedMap.get?_insert]
      split_ifs with hsame
      · rw [← hsame, hget]
        rfl
      · rfl
    · rfl

theorem walletSyncedHeight_le_update (walletId other : WalletId) (height : Nat) :
    ws.walletSyncedHeight other ≤
      (ws.updateWalletSyncedHeight walletId height).walletSyncedHeight other := by
  unfold updateWalletSyncedHeight walletSyncedHeight
  cases hget : ws.get? walletId with
  | none => exact le_rfl
  | some w =>
    dsimp only
    split_ifs with hlt
    · rw [SortedMap.get?_insert]
      split_ifs with hsame
      · rw [← hsame, hget]
        exact hlt.le
      · exact le_rfl
    · exact le_rfl

/-- Taking wallets back leaves their addresses as they are. -/
theorem monitoredAddressesFor_rewind {ws ws' : WalletSet} {height : Nat}
    (h : ws.rewindToHeight height = some ws') (walletId : WalletId) :
    ws'.monitoredAddressesFor walletId = ws.monitoredAddressesFor walletId := by
  unfold rewindToHeight at h
  split_ifs at h
  obtain rfl := Option.some.inj h
  unfold monitoredAddressesFor
  rw [SortedMap.get?_mapVal, Option.map_map]
  rfl

end WalletSet

/-- The functions on compact filters that the managers call. -/
structure FilterScheme where
  /-- The hash of a filter's content. -/
  filterHash : Filter → FilterHash
  /-- The hash of a filter hash followed by the previous filter header. -/
  filterHeader : FilterHash → FilterHeader → FilterHeader
  /-- Whether a filter of a block matches one of the scripts. A filter that cannot be read
  matches none. -/
  matchAny : Filter → BlockHash → List ScriptBuf → Bool

variable (scheme : FilterScheme)

/-- The header of a filter, chained onto the header before it. -/
def FilterScheme.headerOf (filter : Filter) (previous : FilterHeader) :
    FilterHeader :=
  scheme.filterHeader (scheme.filterHash filter) previous

/-- A wallet to be matched: its addresses count above a height. -/
structure WalletTest where
  walletId : WalletId
  syncedHeight : Nat
  addresses : List Address
  deriving DecidableEq

/-- The filter of a block matches one of the addresses. -/
def FilterScheme.matchesAddresses (key : FilterMatchKey) (filter : Filter)
    (addresses : List Address) : Bool :=
  scheme.matchAny filter key.hash (addresses.map Address.scriptPubkey)

/-- The filters above a height that match one of the addresses. -/
def checkCompactFiltersForAddresses (input : FilterMap)
    (addresses : List Address) (minHeight : Nat) : FilterMap :=
  input.filter fun key filter =>
    minHeight < key.height && scheme.matchesAddresses key filter addresses

variable (tests : List WalletTest)

/-- The wallets that a block's filter matches. -/
def matchingWallets (key : FilterMatchKey)
    (filter : Filter) : Finset WalletId :=
  ((tests.filter fun t =>
    t.syncedHeight < key.height && scheme.matchesAddresses key filter t.addresses).map
      WalletTest.walletId).toFinset

/-- The blocks whose filters match, each with the wallets it matches. -/
def attributeMatches (filters : FilterMap) :
    SortedMap FilterMatchKey (Finset WalletId) :=
  filters.filterMap fun key filter =>
    if matchingWallets scheme tests key filter = ∅ then none
    else some (matchingWallets scheme tests key filter)

end Dashcore
