import Dashcore.Lib.Runs
import Dashcore.Wallet.WalletInfo

/-!
# What account operations do to records and coins

Whatever makes an account remember a transaction stores one record: it replaces the entry
of that txid, or moves it to the final transactions if the record is chain-locked, and
leaves every other entry alone. The coins change along with it in one of three ways:
created and spent, released, or marked.
-/

namespace Dashcore

open TransactionContext SortedMap

variable {record : TransactionRecord} {context : TransactionContext} {a : ManagedCoreKeysAccount}
  {txid : Txid} {a a' : ManagedCoreKeysAccount} {keepFinalized : Bool} {address : Address}

namespace ManagedCoreKeysAccount

/-- Neither the records nor the final transactions differ. -/
structure SameRecords (a a' : ManagedCoreKeysAccount) : Prop where
  transactions : a'.transactions = a.transactions
  finalizedTxids : a'.finalizedTxids = a.finalizedTxids

namespace SameRecords

variable {a a' a'' : ManagedCoreKeysAccount}

theorem refl (a : ManagedCoreKeysAccount) : SameRecords a a := ⟨rfl, rfl⟩

theorem trans (h : SameRecords a a') (h' : SameRecords a' a'') : SameRecords a a'' :=
  ⟨h'.transactions.trans h.transactions, h'.finalizedTxids.trans h.finalizedTxids⟩

theorem hasTransaction (h : SameRecords a a') (keepFinalized : Bool) (txid : Txid) :
    a'.hasTransaction keepFinalized txid = a.hasTransaction keepFinalized txid := by
  rw [ManagedCoreKeysAccount.hasTransaction, h.transactions, h.finalizedTxids]
  rfl

end SameRecords

section

variable (a : ManagedCoreKeysAccount)

theorem sameRecords_bumpMonitorRevision : SameRecords a a.bumpMonitorRevision := ⟨rfl, rfl⟩

theorem sameRecords_markAddressUsed (address : Address) :
    SameRecords a (a.markAddressUsed address) := by
  rw [markAddressUsed]
  split <;> exact ⟨rfl, rfl⟩

theorem sameRecords_maintainGapLimits (keySource : KeySource) :
    SameRecords a (a.maintainGapLimits keySource).1 := by
  rw [maintainGapLimits]
  split <;> exact ⟨rfl, rfl⟩

theorem sameRecords_foldl_markAddressUsed (infos : List AddressInfo) :
    SameRecords a (infos.foldl (fun a info => a.markAddressUsed info.address) a) := by
  induction infos generalizing a with
  | nil => exact .refl a
  | cons info infos ih => exact (a.sameRecords_markAddressUsed info.address).trans (ih _)

theorem sameRecords_useAddresses (xpubs : AccountXpubs) (m : CoreAccountTypeMatch) :
    SameRecords a (a.useAddresses xpubs m).1 := by
  have hmark := a.sameRecords_foldl_markAddressUsed m.allInvolvedAddresses
  rw [useAddresses]
  split
  · exact hmark
  · exact hmark.trans (sameRecords_maintainGapLimits _ _)

end

/-! ### Pools -/

/-- The address pools do not differ. -/
structure SamePools (a a' : ManagedCoreKeysAccount) : Prop where
  addresses : a'.addresses = a.addresses
  internalAddresses : a'.internalAddresses = a.internalAddresses

/-- Every address is still in the pool it was in, and there are as many pools. -/
structure PoolsGrow (a a' : ManagedCoreKeysAccount) : Prop where
  addresses : ∀ address, a.addresses.1.containsAddress address = true →
    a'.addresses.1.containsAddress address = true
  internal : ∀ pool, a.internalAddresses = some pool → ∃ pool', a'.internalAddresses = some pool' ∧
    ∀ address, pool.1.containsAddress address = true → pool'.1.containsAddress address = true
  single : a.internalAddresses = none → a'.internalAddresses = none

theorem SamePools.refl (a : ManagedCoreKeysAccount) : SamePools a a := ⟨rfl, rfl⟩

theorem SamePools.trans {a a' a'' : ManagedCoreKeysAccount} (h : SamePools a a')
    (h' : SamePools a' a'') : SamePools a a'' :=
  ⟨h'.addresses.trans h.addresses, h'.internalAddresses.trans h.internalAddresses⟩

theorem SamePools.containsAddress (h : SamePools a a')
    (address : Address) : a'.containsAddress address = a.containsAddress address := by
  rw [ManagedCoreKeysAccount.containsAddress, addressPools, h.addresses, h.internalAddresses]
  rfl

namespace PoolsGrow

variable {a a' a'' : ManagedCoreKeysAccount}

theorem of_samePools (h : SamePools a a') : PoolsGrow a a' :=
  ⟨fun _ ha => h.addresses ▸ ha,
    fun pool hpool => ⟨pool, h.internalAddresses.trans hpool, fun _ ha => ha⟩,
    fun hnone => h.internalAddresses.trans hnone⟩

theorem trans (h : PoolsGrow a a') (h' : PoolsGrow a' a'') : PoolsGrow a a'' := by
  refine ⟨fun address ha => h'.addresses address (h.addresses address ha), fun pool hpool => ?_,
    fun hnone => h'.single (h.single hnone)⟩
  obtain ⟨pool', hpool', hfirst⟩ := h.internal pool hpool
  obtain ⟨pool'', hpool'', hsecond⟩ := h'.internal pool' hpool'
  exact ⟨pool'', hpool'', fun address ha => hsecond address (hfirst address ha)⟩

theorem containsAddress (h : PoolsGrow a a')
    (ha : a.containsAddress address = true) : a'.containsAddress address = true := by
  simp only [ManagedCoreKeysAccount.containsAddress, addressPools, List.any_cons,
    Bool.or_eq_true, List.any_eq_true, Option.mem_toList] at ha ⊢
  rcases ha with ha | ⟨pool, hpool, ha⟩
  · exact .inl (h.addresses address ha)
  · obtain ⟨pool', hpool', hgrows⟩ := h.internal pool hpool
    exact .inr ⟨pool', hpool', hgrows address ha⟩

end PoolsGrow

section

variable (a : ManagedCoreKeysAccount)

theorem samePools_updateContext (txid : Txid) (context : TransactionContext) :
    SamePools a (a.updateContext txid context) := by
  rw [updateContext]
  split <;> exact ⟨rfl, rfl⟩

theorem samePools_dropIfChainLocked (keepFinalized : Bool) (txid : Txid)
    (context : TransactionContext) :
    SamePools a (a.dropIfChainLocked keepFinalized txid context) := by
  cases context with
  | inChainLockedBlock info => cases keepFinalized <;> exact ⟨rfl, rfl⟩
  | _ => exact .refl a

theorem poolsGrow_markAddressUsed (address : Address) :
    PoolsGrow a (a.markAddressUsed address) := by
  have hmark (pool : ConsistentPool) (other : Address)
      (h : pool.1.containsAddress other = true) :
      (pool.markUsed address).1.1.containsAddress other = true :=
    (pool.1.markUsed_containsAddress address other).trans h
  rw [markAddressUsed]
  split
  · next pool hpool =>
    obtain rfl : (a.addresses.markUsed address).1 = pool := congrArg Prod.fst hpool
    exact ⟨hmark a.addresses, fun pool hpool => ⟨pool, hpool, fun _ h => h⟩, fun h => h⟩
  · refine ⟨fun _ h => h, fun pool hpool => ⟨(pool.markUsed address).1, ?_, hmark pool⟩,
      fun h => ?_⟩
    · simp [hpool]
    · simp [h]

variable (infos : List AddressInfo)

theorem poolsGrow_foldl_markAddressUsed :
    PoolsGrow a (infos.foldl (fun a info => a.markAddressUsed info.address) a) := by
  induction infos generalizing a with
  | nil => exact .of_samePools (.refl a)
  | cons info infos ih => exact (a.poolsGrow_markAddressUsed info.address).trans (ih _)

theorem poolsGrow_maintainGapLimits (keySource : KeySource) :
    PoolsGrow a (a.maintainGapLimits keySource).1 := by
  have hderive (pool : ConsistentPool) := (pool.1.grows_maintainGapLimit keySource).address
  have hgrow : PoolsGrow a { a with
      addresses := (a.addresses.maintainGapLimit keySource).1
      internalAddresses := a.internalAddresses.map fun pool =>
        (pool.maintainGapLimit keySource).1 } := by
    refine ⟨hderive a.addresses, fun pool hpool => ?_, fun h => ?_⟩
    · exact ⟨(pool.maintainGapLimit keySource).1, by simp [hpool], hderive pool⟩
    · simp [h]
  rw [maintainGapLimits]
  split_ifs
  · exact hgrow
  · exact hgrow.trans (.of_samePools ⟨rfl, rfl⟩)

theorem poolsGrow_useAddresses (xpubs : AccountXpubs) (m : CoreAccountTypeMatch) :
    PoolsGrow a (a.useAddresses xpubs m).1 := by
  have hmark := a.poolsGrow_foldl_markAddressUsed m.allInvolvedAddresses
  rw [useAddresses]
  split
  · exact hmark
  · exact hmark.trans (poolsGrow_maintainGapLimits _ _)

/-- Marking addresses as used derives none. -/
theorem foldl_markAddressUsed_addresses (address : Address) :
    (infos.foldl (fun a info => a.markAddressUsed info.address) a).addresses.1.containsAddress
      address = a.addresses.1.containsAddress address := by
  induction infos generalizing a with
  | nil => rfl
  | cons info infos ih =>
    rw [List.foldl_cons, ih, markAddressUsed]
    split
    · next pool hpool =>
      obtain rfl : (a.addresses.markUsed info.address).1 = pool := congrArg Prod.fst hpool
      exact a.addresses.1.markUsed_containsAddress info.address address
    · rfl

end

/-! ### Storing a record -/

/-- Whether a record in this context is dropped as final. -/
def drops (keepFinalized : Bool) (context : TransactionContext) : Bool :=
  !keepFinalized && context.isChainLocked

/-- A record was stored: it is there under its txid, or the txid is among the final
transactions, and all else is as before. -/
structure Stores (keepFinalized : Bool) (txid : Txid) (record : TransactionRecord)
    (a a' : ManagedCoreKeysAccount) : Prop where
  transactions : ∀ t, a'.transactions.get? t =
    if txid = t then if drops keepFinalized record.context then none else some record
    else a.transactions.get? t
  finalizedTxids : ∀ t, a'.finalizedTxids.get? t =
    if txid = t ∧ drops keepFinalized record.context then record.context.blockInfo
    else a.finalizedTxids.get? t

namespace Stores

variable {keepFinalized : Bool} {txid : Txid} {record : TransactionRecord}
  {a a' a'' : ManagedCoreKeysAccount} (h : Stores keepFinalized txid record a a')
include h

theorem trans_same (h' : SameRecords a' a'') :
    Stores keepFinalized txid record a a'' :=
  ⟨fun t => h'.transactions ▸ h.transactions t,
    fun t => h'.finalizedTxids ▸ h.finalizedTxids t⟩

/-- A record found afterwards is the stored one or was there. -/
theorem of_get? {t : Txid} {r : TransactionRecord}
    (hget : a'.transactions.get? t = some r) :
    (txid = t ∧ r = record ∧ drops keepFinalized record.context = false) ∨
      (txid ≠ t ∧ a.transactions.get? t = some r) := by
  rw [h.transactions] at hget
  split_ifs at hget with ht hdrop
  · exact .inl ⟨ht, (Option.some.inj hget).symm, by simpa using hdrop⟩
  · exact .inr ⟨ht, hget⟩

end Stores

theorem isChainLocked_iff :
    context.isChainLocked = true ↔ ∃ info, context = .inChainLockedBlock info := by
  cases context <;> simp [isChainLocked]

theorem get?_dropIfChainLocked (a : ManagedCoreKeysAccount) (keepFinalized : Bool)
    (txid : Txid) (context : TransactionContext) (t : Txid) :
    (a.dropIfChainLocked keepFinalized txid context).transactions.get? t =
        (if txid = t ∧ drops keepFinalized context then none else a.transactions.get? t) ∧
      (a.dropIfChainLocked keepFinalized txid context).finalizedTxids.get? t =
        if txid = t ∧ drops keepFinalized context then context.blockInfo
        else a.finalizedTxids.get? t := by
  cases context with
  | inChainLockedBlock info =>
    cases keepFinalized <;>
      simp [dropIfChainLocked, drops, dropFinalizedTransaction, isChainLocked, blockInfo]
  | _ => simp [dropIfChainLocked, drops, isChainLocked]

theorem dropIfChainLocked_of_isInstantSend (hlock : context.isInstantSend = true) :
    a.dropIfChainLocked keepFinalized txid context = a := by
  cases context with
  | instantSend lock => rfl
  | _ => cases hlock

/-- Dropping a chain-locked record completes its storing. -/
theorem stores_dropIfChainLocked
    (htransactions : a'.transactions = a.transactions.insert txid record)
    (hfinalized : a'.finalizedTxids = a.finalizedTxids) :
    Stores keepFinalized txid record a
      (a'.dropIfChainLocked keepFinalized txid record.context) := by
  constructor <;> intro t
  · rw [(get?_dropIfChainLocked ..).1, htransactions, get?_insert]
    split_ifs <;> simp_all
  · rw [(get?_dropIfChainLocked ..).2, hfinalized]

section

variable (keepFinalized : Bool) (txid : Txid) (tx : Transaction) (m : AccountMatch)
  (context : TransactionContext) (transactionType : TransactionType)

theorem stores_recordTransaction (a : ManagedCoreKeysAccount) :
    Stores keepFinalized txid (newRecord tx m context transactionType) a
      (a.recordTransaction keepFinalized txid tx m context transactionType).1 :=
  stores_dropIfChainLocked rfl rfl

variable {txid} (h : a.transactions.get? txid = some record)
include h

theorem updateContext_of_get? :
    a.updateContext txid context =
      { a with transactions := a.transactions.insert txid { record with context } } := by
  rw [updateContext, h]

theorem stores_updateContext :
    Stores keepFinalized txid { record with context } a
      ((a.updateContext txid context).dropIfChainLocked keepFinalized txid context) := by
  rw [updateContext_of_get? context h]
  exact stores_dropIfChainLocked rfl rfl

end

end ManagedCoreKeysAccount

namespace ManagedCoreKeysAccount

/-- A lock is stored in the record if there is one, and otherwise changes nothing. -/
theorem updateContext_instantSend (keepFinalized : Bool) (a : ManagedCoreKeysAccount)
    (txid : Txid) (lock : InstantLock) :
    (a.transactions.get? txid = none ∧ a.updateContext txid (.instantSend lock) = a) ∨
      ∃ r, a.transactions.get? txid = some r ∧
        Stores keepFinalized txid { r with context := .instantSend lock } a
          (a.updateContext txid (.instantSend lock)) := by
  cases hget : a.transactions.get? txid with
  | none => exact .inl ⟨rfl, by rw [updateContext, hget]⟩
  | some r => exact .inr ⟨r, rfl, stores_updateContext keepFinalized (.instantSend lock) hget⟩

end ManagedCoreKeysAccount

/-! ### Coins -/

/-- Two versions of a coin that differ in its flags at most. -/
structure Utxo.SameCoin (u u' : Utxo) : Prop where
  outpoint : u'.outpoint = u.outpoint
  txout : u'.txout = u.txout
  address : u'.address = u.address
  height : u'.height = u.height
  isCoinbase : u'.isCoinbase = u.isCoinbase

theorem Utxo.SameCoin.refl (u : Utxo) : u.SameCoin u := ⟨rfl, rfl, rfl, rfl, rfl⟩

theorem Utxo.SameCoin.trans {u u' u'' : Utxo} (h : u.SameCoin u') (h' : u'.SameCoin u'') :
    u.SameCoin u'' :=
  ⟨h'.outpoint.trans h.outpoint, h'.txout.trans h.txout, h'.address.trans h.address,
    h'.height.trans h.height, h'.isCoinbase.trans h.isCoinbase⟩

namespace ManagedCoreFundsAccount

variable {tx : Transaction}

theorem mem_ownedOutputs {owned : Address → Bool} {vout : Nat} {output : TxOut} :
    (vout, output, address) ∈ ownedOutputs owned tx ↔
      tx.output[vout]? = some output ∧ Address.fromScript output.scriptPubkey = some address ∧
        owned address = true := by
  simp only [ownedOutputs, List.mem_filterMap]
  constructor
  · rintro ⟨⟨output', vout'⟩, hmem, hsome⟩
    rw [List.mem_zipIdx_iff_getElem?] at hmem
    split at hsome
    · split_ifs at hsome with howned
      cases hsome
      exact ⟨hmem, ‹_›, howned⟩
    · cases hsome
  · rintro ⟨hmem, hscript, howned⟩
    exact ⟨(output, vout), List.mem_zipIdx_iff_getElem?.mpr hmem, by simp [hscript, howned]⟩

variable {o : OutPoint} {u : Utxo}

theorem mem_createdCoins {owned trusted : Address → Bool} :
    (o, u) ∈ createdCoins owned trusted txid tx context ↔
      ∃ vout output address, tx.output[vout]? = some output ∧
        Address.fromScript output.scriptPubkey = some address ∧ owned address = true ∧
        o = ⟨txid, vout⟩ ∧
        u = .ofOutput txid tx context vout output address (trusted address) := by
  simp only [createdCoins, List.mem_map]
  constructor
  · rintro ⟨⟨vout, output, address⟩, hmem, heq⟩
    obtain ⟨hget, hscript, howned⟩ := mem_ownedOutputs.mp hmem
    cases heq
    exact ⟨vout, output, address, hget, hscript, howned, rfl, rfl⟩
  · rintro ⟨vout, output, address, hget, hscript, howned, rfl, rfl⟩
    exact ⟨(vout, output, address), mem_ownedOutputs.mpr ⟨hget, hscript, howned⟩, rfl⟩

section

variable (a : ManagedCoreFundsAccount) (txid : Txid) (tx : Transaction) (m : AccountMatch)
  (context : TransactionContext)

theorem sameRecords_updateUtxos : a.keys.SameRecords (a.updateUtxos txid tx m context).keys := by
  rw [updateUtxos]
  split_ifs
  · rw [releaseInactiveUtxos]
    split_ifs
    · exact a.keys.sameRecords_bumpMonitorRevision
    · exact .refl _
  · dsimp only
    split_ifs
    · exact a.keys.sameRecords_bumpMonitorRevision
    · exact .refl _

/-- The coins do not depend on the records. -/
theorem updateUtxos_coins_of_keys (keys : ManagedCoreKeysAccount) :
    (updateUtxos { a with keys } txid tx m context).coins =
      (a.updateUtxos txid tx m context).coins := by
  rw [updateUtxos, updateUtxos]
  split_ifs <;> rfl

theorem samePools_updateUtxos : a.keys.SamePools (a.updateUtxos txid tx m context).keys := by
  rw [updateUtxos]
  split_ifs
  · rw [releaseInactiveUtxos]
    split_ifs <;> exact ⟨rfl, rfl⟩
  · dsimp only
    split_ifs <;> exact ⟨rfl, rfl⟩

variable {context} in
theorem updateUtxos_coins (hactive : context.isInactive = false) :
    (a.updateUtxos txid tx m context).coins =
      a.coins.apply (createdCoins (involves m) (trusts m) txid tx context)
        (tx.input.map TxIn.previousOutput) := by
  rw [updateUtxos, hactive]
  rfl

variable {a txid tx m context}

/-- A coin after a transaction is one that the transaction makes, or was there. -/
theorem of_get?_updateUtxos (h : (a.updateUtxos txid tx m context).utxos.get? o = some u) :
    (context.isInactive = false ∧
        (o, u) ∈ createdCoins (involves m) (trusts m) txid tx context) ∨
      a.utxos.get? o = some u := by
  cases hactive : context.isInactive with
  | false =>
    rw [utxos, updateUtxos_coins a txid tx m hactive] at h
    exact (CoinSet.of_get?_apply h).2.imp (⟨rfl, ·⟩) id
  | true =>
    rw [updateUtxos, if_pos hactive, utxos, releaseInactiveUtxos] at h
    rw [CoinSet.foldl_release_coins] at h
    exact .inr (CoinSet.get?_of_foldl_discard h)

end

/-- Marking changes the flags of coins only. -/
theorem of_get?_markUtxosInstantSend {a : ManagedCoreFundsAccount}
    {u' : Utxo} (h : (a.markUtxosInstantSend txid).1.utxos.get? o = some u') :
    ∃ u, a.utxos.get? o = some u ∧ u.SameCoin u' := by
  have hmap := (get?_mapVal ..).symm.trans h
  obtain ⟨u, hu, rfl⟩ := Option.map_eq_some_iff.mp hmap
  refine ⟨u, hu, ?_⟩
  split_ifs <;> exact ⟨rfl, rfl, rfl, rfl, rfl⟩

end ManagedCoreFundsAccount

/-! ### Offering a transaction -/

namespace ManagedCoreKeysAccount

/-- A transaction may be stored in a context: that takes no confirmation away, and what is
final stays so. -/
structure Admits (keepFinalized : Bool) (txid : Txid) (context : TransactionContext)
    (a : ManagedCoreKeysAccount) : Prop where
  confirmed : ∀ record, a.transactions.get? txid = some record →
    record.context = context ∨ context.confirmed = true ∨ record.context.confirmed = false
  finalized : keepFinalized = false → a.finalizedTxids.contains txid = true →
    context.isChainLocked = true

/-- The account does not know the transaction, or from this same offer. -/
structure Fresh (keepFinalized : Bool) (txid : Txid) (context : TransactionContext)
    (a : ManagedCoreKeysAccount) : Prop where
  recorded : ∀ record, a.transactions.get? txid = some record → record.context = context
  finalized : keepFinalized = false → a.finalizedTxids.contains txid = true →
    context.isChainLocked = true

/-- The transaction is not in a block for this account. -/
structure Unconfirmed (keepFinalized : Bool) (txid : Txid) (a : ManagedCoreKeysAccount) :
    Prop where
  recorded : ∀ record, a.transactions.get? txid = some record → record.context.confirmed = false
  finalized : keepFinalized = false → a.finalizedTxids.contains txid = false

/-- What offering a transaction does to the records of an account, in small steps. -/
inductive OfferStep (keepFinalized : Bool) (txid : Txid) (tx : Transaction)
    (context : TransactionContext) (a a' : ManagedCoreKeysAccount) : Prop
  | stores (record : TransactionRecord) (hcontext : record.context = context)
      (htx : record.transaction = tx ∨
        ∃ old, a.transactions.get? txid = some old ∧ record.transaction = old.transaction)
      (hadmits : a.Admits keepFinalized txid context)
      (h : Stores keepFinalized txid record a a')
  | same (h : SameRecords a a')

variable {keepFinalized : Bool} {txid : Txid} {context : TransactionContext}
  {a a' : ManagedCoreKeysAccount}

theorem Fresh.admits (h : a.Fresh keepFinalized txid context) :
    a.Admits keepFinalized txid context :=
  ⟨fun record hget => .inl (h.recorded record hget), h.finalized⟩

theorem Unconfirmed.admits (h : a.Unconfirmed keepFinalized txid) :
    a.Admits keepFinalized txid context :=
  ⟨fun record hget => .inr (.inr (h.recorded record hget)), fun hkeep hcontains => by
    rw [h.finalized hkeep] at hcontains
    cases hcontains⟩

theorem Fresh.of_sameRecords (h : a.Fresh keepFinalized txid context) (h' : SameRecords a a') :
    a'.Fresh keepFinalized txid context :=
  ⟨h'.transactions ▸ h.recorded, h'.finalizedTxids ▸ h.finalized⟩

theorem fresh_of_not_hasTransaction (h : a.hasTransaction keepFinalized txid = false)
    (context : TransactionContext) : a.Fresh keepFinalized txid context := by
  simp only [hasTransaction, Bool.or_eq_false_iff] at h
  refine ⟨fun record hget => ?_, fun hkeep hhas => ?_⟩
  · simp [contains, hget] at h
  · simp [hkeep, hhas] at h

/-- An account that has just stored a transaction knows it from this offer only. -/
theorem Stores.fresh (h : Stores keepFinalized txid record a a')
    (hfresh : a.Fresh keepFinalized txid record.context) :
    a'.Fresh keepFinalized txid record.context := by
  refine ⟨fun r hget => ?_, fun hkeep hhas => ?_⟩
  · rcases h.of_get? hget with ⟨-, rfl, -⟩ | ⟨hne, -⟩
    · rfl
    · exact absurd rfl hne
  · rw [contains, h.finalizedTxids] at hhas
    split_ifs at hhas with hdrop
    · exact (Bool.and_eq_true_iff.mp hdrop.2).2
    · exact hfresh.finalized hkeep hhas

theorem Stores.unconfirmed
    (h : Stores keepFinalized txid record a a') (ha : a.Unconfirmed keepFinalized txid)
    (hlock : record.context.isInstantSend = true) : a'.Unconfirmed keepFinalized txid := by
  have hconf : record.context.confirmed = false := by
    cases hctx : record.context <;> simp_all [isInstantSend,
      TransactionContext.confirmed, blockInfo]
  have hdrops : drops keepFinalized record.context = false := by
    cases hctx : record.context <;> simp_all [isInstantSend, drops, isChainLocked]
  refine ⟨fun r hget => ?_, fun hkeep => ?_⟩
  · rcases h.of_get? hget with ⟨-, rfl, -⟩ | ⟨hne, -⟩
    · exact hconf
    · exact absurd rfl hne
  · rw [contains, h.finalizedTxids, hdrops]
    simpa [contains] using ha.finalized hkeep

section

variable {tx : Transaction} {m : AccountMatch} {transactionType : TransactionType}
  {xpubs : AccountXpubs} {key : KeysKey}

open Relation (ReflTransGen)

theorem not_finalized_of_transactionIsFinalized
    (h : a.transactionIsFinalized keepFinalized txid = false) (hkeep : keepFinalized = false) :
    a.finalizedTxids.contains txid = false := by
  rwa [transactionIsFinalized, hkeep] at h

theorem admits_of_confirmed (hconfirmed : context.confirmed = true)
    (hnot : a.transactionIsFinalized keepFinalized txid = false) :
    a.Admits keepFinalized txid context :=
  ⟨fun _ _ => .inr (.inl hconfirmed), fun hkeep hcontains => by
    rw [not_finalized_of_transactionIsFinalized hnot hkeep] at hcontains
    cases hcontains⟩

theorem offerStep_recordTransaction (h : a.Admits keepFinalized txid context) :
    OfferStep keepFinalized txid tx context a
      (a.recordTransaction keepFinalized txid tx m context transactionType).1 :=
  .stores _ rfl (.inl rfl) h (stores_recordTransaction ..)

theorem offerStep_confirmTransaction (hconfirmed : context.confirmed = true) :
    OfferStep keepFinalized txid tx context a
      (a.confirmTransaction keepFinalized txid tx m context transactionType).1 := by
  have hadmits (hnot : a.transactionIsFinalized keepFinalized txid = false) :
      a.Admits keepFinalized txid context := admits_of_confirmed hconfirmed hnot
  rw [confirmTransaction]
  cases hnot : a.transactionIsFinalized keepFinalized txid with
  | true => exact .same (.refl a)
  | false =>
    cases hget : a.transactions.get? txid with
    | none => exact offerStep_recordTransaction (hadmits hnot)
    | some record =>
      exact .stores { record with context } rfl (.inr ⟨record, hget, rfl⟩) (hadmits hnot)
        (stores_updateContext keepFinalized context hget)

/-- A first sighting in a keys account. -/
theorem processMatch_new (h : a.Fresh keepFinalized txid context) :
    ReflTransGen (OfferStep keepFinalized txid tx context) a
        (a.processMatch keepFinalized xpubs txid tx context transactionType true m key).1 ∧
      (a.processMatch keepFinalized xpubs txid tx context transactionType true m key).1.Fresh
        keepFinalized txid context := by
  have hstores := stores_recordTransaction keepFinalized txid tx m context transactionType a
  have hsame := sameRecords_useAddresses
    (a.recordTransaction keepFinalized txid tx m context transactionType).1 xpubs
    m.accountTypeMatch
  exact ⟨.tail (.single (offerStep_recordTransaction h.admits)) (.same hsame),
    (hstores.fresh h).of_sameRecords hsame⟩

/-- A confirmation in a keys account. -/
theorem processMatch_known (hconfirmed : context.confirmed = true) :
    ReflTransGen (OfferStep keepFinalized txid tx context) a
      (a.processMatch keepFinalized xpubs txid tx context transactionType false m key).1 :=
  .tail (.single (offerStep_confirmTransaction hconfirmed))
    (.same (sameRecords_useAddresses
      (a.confirmTransaction keepFinalized txid tx m context transactionType).1 xpubs
      m.accountTypeMatch))

/-- An InstantSend lock in a keys account. -/
theorem lockMatch_unconfirmed (h : a.Unconfirmed keepFinalized txid)
    (hlock : context.isInstantSend = true) :
    ReflTransGen (OfferStep keepFinalized txid tx context) a
        (a.lockMatch keepFinalized txid tx context transactionType m key).1 ∧
      (a.lockMatch keepFinalized txid tx context transactionType m key).1.Unconfirmed
        keepFinalized txid := by
  rw [lockMatch]
  cases hget : a.transactions.get? txid with
  | some record =>
    have hstores := stores_updateContext keepFinalized context hget
    rw [dropIfChainLocked_of_isInstantSend hlock] at hstores
    exact ⟨.single (.stores { record with context } rfl (.inr ⟨record, hget, rfl⟩) h.admits
        hstores),
      hstores.unconfirmed h hlock⟩
  | none =>
    exact ⟨.single (offerStep_recordTransaction h.admits),
      (stores_recordTransaction keepFinalized txid tx m context transactionType a).unconfirmed h
        hlock⟩

end

end ManagedCoreKeysAccount

namespace ManagedCoreFundsAccount

open ManagedCoreKeysAccount (Stores SameRecords Admits Fresh Unconfirmed newRecord)

/-- What offering a transaction does to a funds account, in small steps. -/
inductive OfferStep (keepFinalized : Bool) (txid : Txid) (tx : Transaction)
    (context : TransactionContext) (a a' : ManagedCoreFundsAccount) : Prop
  | receives (record : TransactionRecord) (m : AccountMatch) (hcontext : record.context = context)
      (htx : record.transaction = tx ∨
        ∃ old, a.keys.transactions.get? txid = some old ∧ record.transaction = old.transaction)
      (hadmits : a.keys.Admits keepFinalized txid context)
      (h : Stores keepFinalized txid record a.keys a'.keys)
      (hcoins : a'.coins = (a.updateUtxos txid tx m context).coins)
  | locks (old : TransactionRecord) (hold : a.keys.transactions.get? txid = some old)
      (hlock : context.isInstantSend = true) (hadmits : a.keys.Admits keepFinalized txid context)
      (h : Stores keepFinalized txid { old with context } a.keys a'.keys)
      (hcoins : a'.coins = (a.markUtxosInstantSend txid).1.coins)
  | marks (h : SameRecords a.keys a'.keys)
      (hcoins : a'.coins = (a.markUtxosInstantSend txid).1.coins)
  | same (h : SameRecords a.keys a'.keys) (hcoins : a'.coins = a.coins)

variable {keepFinalized : Bool} {txid : Txid} {tx : Transaction} {context : TransactionContext}
  {a a' : ManagedCoreFundsAccount}

open Relation (ReflTransGen)

/-- The records of a funds account change as those of a keys account. -/
theorem OfferStep.keys (h : OfferStep keepFinalized txid tx context a a') :
    ManagedCoreKeysAccount.OfferStep keepFinalized txid tx context a.keys a'.keys := by
  cases h with
  | receives record m hctx htx hadmits h hcoins => exact .stores record hctx htx hadmits h
  | locks old hold hlock hadmits h hcoins =>
    exact .stores { old with context } rfl (.inr ⟨old, hold, rfl⟩) hadmits h
  | marks h hcoins | same h hcoins => exact .same h

section

variable {m : AccountMatch} {transactionType : TransactionType} {xpubs : AccountXpubs}
  {key : FundsKey}

variable (keepFinalized txid tx m context transactionType a) in
theorem stores_recordTransaction :
    Stores keepFinalized txid (newRecord tx m context transactionType) a.keys
        (a.recordTransaction keepFinalized txid tx m context transactionType).1.keys ∧
      (a.recordTransaction keepFinalized txid tx m context transactionType).1.coins =
        (a.updateUtxos txid tx m context).coins := by
  let inserted : ManagedCoreFundsAccount := { a with
    keys.transactions := a.keys.transactions.insert txid
      (newRecord tx m context transactionType) }
  have hsame := sameRecords_updateUtxos inserted txid tx m context
  exact ⟨ManagedCoreKeysAccount.stores_dropIfChainLocked hsame.transactions
    hsame.finalizedTxids, updateUtxos_coins_of_keys a txid tx m context inserted.keys⟩

theorem samePools_recordTransaction : a.keys.SamePools
    (a.recordTransaction keepFinalized txid tx m context transactionType).1.keys := by
  let inserted : ManagedCoreFundsAccount := { a with
    keys.transactions := a.keys.transactions.insert txid
      (newRecord tx m context transactionType) }
  have hins : a.keys.SamePools inserted.keys := ⟨rfl, rfl⟩
  have hutxos := samePools_updateUtxos inserted txid tx m context
  exact (hins.trans hutxos).trans
    (ManagedCoreKeysAccount.samePools_dropIfChainLocked _ keepFinalized txid context)

theorem samePools_confirmTransaction : a.keys.SamePools
    (a.confirmTransaction keepFinalized txid tx m context transactionType).1.keys := by
  rw [confirmTransaction]
  split
  · exact .refl _
  · split
    · exact samePools_recordTransaction
    · have hctx := a.keys.samePools_updateContext txid context
      have hutxos := samePools_updateUtxos { a with keys := a.keys.updateContext txid context }
        txid tx m context
      exact (hctx.trans hutxos).trans
        (ManagedCoreKeysAccount.samePools_dropIfChainLocked _ keepFinalized txid context)

theorem samePools_lockMatch : a.keys.SamePools
    (a.lockMatch keepFinalized txid tx context transactionType m key).1.keys := by
  rw [lockMatch]
  split
  · exact a.keys.samePools_updateContext txid context
  · exact samePools_recordTransaction (a := a)

theorem offerStep_recordTransaction (h : a.keys.Admits keepFinalized txid context) :
    OfferStep keepFinalized txid tx context a
      (a.recordTransaction keepFinalized txid tx m context transactionType).1 :=
  have hstores := stores_recordTransaction keepFinalized txid tx context a m transactionType
  .receives _ m rfl (.inl rfl) h hstores.1 hstores.2

/-- Seeing a transaction again in a block leaves a final transaction alone, records an
unknown one, and otherwise stores the record in its new context. -/
theorem confirmTransaction_cases :
    (a.keys.transactionIsFinalized keepFinalized txid = true ∧
      (a.confirmTransaction keepFinalized txid tx m context transactionType).1 = a) ∨
    (a.keys.transactionIsFinalized keepFinalized txid = false ∧
      a.keys.transactions.get? txid = none ∧
      (a.confirmTransaction keepFinalized txid tx m context transactionType).1 =
        (a.recordTransaction keepFinalized txid tx m context transactionType).1) ∨
    (a.keys.transactionIsFinalized keepFinalized txid = false ∧
      ∃ record, a.keys.transactions.get? txid = some record ∧
        Stores keepFinalized txid { record with context } a.keys
          (a.confirmTransaction keepFinalized txid tx m context transactionType).1.keys ∧
        (a.confirmTransaction keepFinalized txid tx m context transactionType).1.coins =
          (a.updateUtxos txid tx m context).coins) := by
  rw [confirmTransaction]
  cases hnot : a.keys.transactionIsFinalized keepFinalized txid with
  | true => exact .inl ⟨rfl, rfl⟩
  | false =>
    cases hget : a.keys.transactions.get? txid with
    | none => exact .inr (.inl ⟨rfl, rfl, rfl⟩)
    | some record =>
      refine .inr (.inr ⟨rfl, record, rfl, ?_, ?_⟩)
      · let updated : ManagedCoreFundsAccount :=
          { a with keys := a.keys.updateContext txid context }
        have hsame := sameRecords_updateUtxos updated txid tx m context
        have hupdated := ManagedCoreKeysAccount.updateContext_of_get? context hget
        apply ManagedCoreKeysAccount.stores_dropIfChainLocked
        · exact hsame.transactions.trans (congrArg (·.transactions) hupdated)
        · exact hsame.finalizedTxids.trans (congrArg (·.finalizedTxids) hupdated)
      · exact updateUtxos_coins_of_keys a txid tx m context (a.keys.updateContext txid context)

theorem offerStep_confirmTransaction (hconfirmed : context.confirmed = true) :
    OfferStep keepFinalized txid tx context a
      (a.confirmTransaction keepFinalized txid tx m context transactionType).1 := by
  have hadmits (hnot : a.keys.transactionIsFinalized keepFinalized txid = false) :
      a.keys.Admits keepFinalized txid context :=
    ManagedCoreKeysAccount.admits_of_confirmed hconfirmed hnot
  rcases confirmTransaction_cases (a := a) (m := m) with
    ⟨-, heq⟩ | ⟨hnot, -, heq⟩ | ⟨hnot, record, hget, hstores, hcoins⟩
  · rw [heq]
    exact .same (.refl _) rfl
  · rw [heq]
    exact offerStep_recordTransaction (hadmits hnot)
  · exact .receives { record with context } m rfl (.inr ⟨record, hget, rfl⟩) (hadmits hnot)
      hstores hcoins

/-- A first sighting in a funds account. -/
theorem processMatch_new (h : a.keys.Fresh keepFinalized txid context) :
    ReflTransGen (OfferStep keepFinalized txid tx context) a
        (a.processMatch keepFinalized xpubs txid tx context transactionType true m key).1 ∧
      (a.processMatch keepFinalized xpubs txid tx context transactionType true m key).1.keys.Fresh
        keepFinalized txid context := by
  have hstores := stores_recordTransaction keepFinalized txid tx context a m transactionType
  have hsame := (a.recordTransaction keepFinalized txid tx m context
    transactionType).1.keys.sameRecords_useAddresses xpubs m.accountTypeMatch
  exact ⟨.tail (.single (offerStep_recordTransaction h.admits)) (.same hsame rfl),
    (hstores.1.fresh h).of_sameRecords hsame⟩

/-- A confirmation in a funds account. -/
theorem processMatch_known (hconfirmed : context.confirmed = true) :
    ReflTransGen (OfferStep keepFinalized txid tx context) a
      (a.processMatch keepFinalized xpubs txid tx context transactionType false m key).1 :=
  .tail (.single (offerStep_confirmTransaction hconfirmed))
    (.same (ManagedCoreKeysAccount.sameRecords_useAddresses
      (a.confirmTransaction keepFinalized txid tx m context transactionType).1.keys xpubs
      m.accountTypeMatch) rfl)

/-- An InstantSend lock in a funds account. -/
theorem lockMatch_unconfirmed (h : a.keys.Unconfirmed keepFinalized txid)
    (hlock : context.isInstantSend = true) :
    ReflTransGen (OfferStep keepFinalized txid tx context) a
        (a.lockMatch keepFinalized txid tx context transactionType m key).1 ∧
      (a.lockMatch keepFinalized txid tx context transactionType m key).1.keys.Unconfirmed
        keepFinalized txid := by
  rw [lockMatch]
  cases hget : a.keys.transactions.get? txid with
  | some record =>
    have hstores := ManagedCoreKeysAccount.stores_updateContext keepFinalized context hget
    rw [ManagedCoreKeysAccount.dropIfChainLocked_of_isInstantSend hlock] at hstores
    exact ⟨.single (.locks record hget hlock h.admits hstores rfl),
      hstores.unconfirmed h hlock⟩
  | none =>
    have hstores := stores_recordTransaction keepFinalized txid tx context a m transactionType
    exact ⟨.tail (.single (offerStep_recordTransaction h.admits)) (.marks (.refl _) rfl),
      hstores.1.unconfirmed h hlock⟩

end

end ManagedCoreFundsAccount

end Dashcore
