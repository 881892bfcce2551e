import Dashcore.Wallet.CoinOrigin
import Dashcore.Wallet.Matching

/-!
# Maturity of coinbase coins

A coin remembers the height of the block it was made in, and a coinbase coin may be spent
100 blocks later. The height of a coin in no block is a placeholder, below every block.
If coinbases are offered in blocks only and no rewind disconnects one, every coinbase coin
has the height of its transaction's block, also after the transaction moves to another
block, and what may be spent is mature.
-/

namespace Dashcore

open Sample ManagedCoreKeysAccount SortedMap TransactionContext TransactionRouter

/-! ### The block of a transaction -/

variable {record : TransactionRecord} {txid : Txid}

namespace ManagedCoreKeysAccount

/-- The block of a transaction: that of its record, or the one it became final in. -/
def blockOf (a : ManagedCoreKeysAccount) (t : Txid) : Option BlockInfo :=
  match a.transactions.get? t with
  | some r => r.context.blockInfo
  | none => a.finalizedTxids.get? t

variable {keepFinalized : Bool} {a a' : ManagedCoreKeysAccount} {t : Txid}

theorem SameRecords.blockOf (h : SameRecords a a') (t : Txid) : a'.blockOf t = a.blockOf t := by
  rw [ManagedCoreKeysAccount.blockOf, ManagedCoreKeysAccount.blockOf, h.transactions,
    h.finalizedTxids]

/-- A transaction that is stored is in the block of its record, final or not. -/
theorem Stores.blockOf (h : Stores keepFinalized txid record a a') (t : Txid) :
    a'.blockOf t = if txid = t then record.context.blockInfo else a.blockOf t := by
  rw [ManagedCoreKeysAccount.blockOf, h.transactions, h.finalizedTxids]
  by_cases ht : txid = t
  · cases hdrops : drops keepFinalized record.context <;> simp [ht]
  · simp only [ht, if_false, false_and]
    rfl

/-- A chain lock moves no transaction to another block. -/
theorem blockOf_applyChainLock (clHeight : Nat) (t : Txid) :
    (a.applyChainLock keepFinalized clHeight).1.blockOf t = a.blockOf t := by
  obtain ⟨htxs, hfin⟩ := get?_applyChainLock keepFinalized a clHeight t
  rw [blockOf, blockOf, htxs, hfin]
  cases a.transactions.get? t with
  | none => rfl
  | some r =>
    rw [Option.bind_some, Option.bind_some]
    cases hctx : r.context with
    | inBlock info =>
      rw [lockedBy]
      split_ifs <;> simp [blockInfo, hctx]
    | _ => simp [lockedBy, hctx]

end ManagedCoreKeysAccount

/-! ### Coins of one account -/

namespace ManagedCoreFundsAccount

variable (computeTxid : Transaction → Txid) (keepFinalized : Bool) (offered : Transaction → Prop)

/-- A block from which on maturity is counted without overflow. -/
def Countable (b : BlockInfo) : Prop := b.height + 100 < 2 ^ 32

/-- Coinbases that count are in blocks, and their coins have the height of the block. -/
structure Mined (a : ManagedCoreFundsAccount) : Prop
    extends a.Accounted computeTxid keepFinalized offered where
  mined : ∀ t r, a.keys.transactions.get? t = some r → r.transaction.isCoinBase = true →
    r.context.isInactive = false → ∃ b, r.context.blockInfo = some b ∧ Countable b
  height : ∀ o u, a.utxos.get? o = some u → u.isCoinbase = true →
    u.outpoint = o ∧ ∃ b, a.keys.blockOf o.txid = some b ∧ Countable b ∧ u.height = b.height

/-- Coinbase coins are at addresses of the account. -/
def CoinbasePooled (a : ManagedCoreFundsAccount) : Prop :=
  ∀ o u, a.utxos.get? o = some u → u.isCoinbase = true → a.keys.containsAddress u.address = true

variable {computeTxid keepFinalized offered} {a a' : ManagedCoreFundsAccount}

/-- What leaves records and blocks alone and keeps coins but for flags. -/
theorem Mined.of_same (h : a.Mined computeTxid keepFinalized offered)
    (haccounted : a'.Accounted computeTxid keepFinalized offered)
    (hkeys : a.keys.SameRecords a'.keys)
    (hcoins : ∀ o u', a'.utxos.get? o = some u' → ∃ u, a.utxos.get? o = some u ∧ u.SameCoin u') :
    a'.Mined computeTxid keepFinalized offered := by
  refine ⟨haccounted, hkeys.transactions ▸ h.mined, fun o u' hu' hbase => ?_⟩
  obtain ⟨u, hu, hsame⟩ := hcoins o u' hu'
  obtain ⟨hout, hheight⟩ := h.height o u hu (hsame.isCoinbase ▸ hbase)
  rw [hkeys.blockOf, hsame.outpoint, hsame.height]
  exact ⟨hout, hheight⟩

/-- Balances do not count. -/
theorem Mined.of_eq
    (h : a.Mined computeTxid keepFinalized offered ∧ a.CoinbasePooled) (hkeys : a'.keys = a.keys)
    (hcoins : a'.coins = a.coins) :
    a'.Mined computeTxid keepFinalized offered ∧ a'.CoinbasePooled := by
  refine ⟨h.1.of_same (h.1.toAccounted.of_same (hkeys ▸ .refl _) hcoins) (hkeys ▸ .refl _)
    fun o u hu => ⟨u, ?_, .refl u⟩, fun o u hu hbase => ?_⟩
  · rwa [utxos, hcoins] at hu
  · rw [utxos, hcoins] at hu
    rw [hkeys]
    exact h.2 o u hu hbase

/-- Storing a transaction that does not count as a coinbase, or is not one of the coins'. -/
theorem Mined.of_stores (h : a.Mined computeTxid keepFinalized offered)
    (haccounted : a'.Accounted computeTxid keepFinalized offered)
    (hstores : a.keys.Stores keepFinalized txid record a'.keys)
    (hrecord : record.transaction.isCoinBase = true → record.context.isInactive = false →
      ∃ b, record.context.blockInfo = some b ∧ Countable b)
    (hcoins : ∀ o u', a'.utxos.get? o = some u' → u'.isCoinbase = true →
      (o.txid = txid ∧ u'.outpoint = o ∧
        ∃ b, record.context.blockInfo = some b ∧ Countable b ∧ u'.height = b.height) ∨
      (o.txid ≠ txid ∧ ∃ u, a.utxos.get? o = some u ∧ u.SameCoin u')) :
    a'.Mined computeTxid keepFinalized offered := by
  refine ⟨haccounted, fun t r hr => ?_, fun o u' hu' hbase => ?_⟩
  · rcases hstores.of_get? hr with ⟨-, rfl, -⟩ | ⟨-, hold⟩
    · exact hrecord
    · exact h.mined t r hold
  · rw [hstores.blockOf]
    rcases hcoins o u' hu' hbase with ⟨htxid, hout, hb⟩ | ⟨htxid, u, hu, hsame⟩
    · rw [if_pos htxid.symm]
      exact ⟨hout, hb⟩
    · obtain ⟨hout, hheight⟩ := h.height o u hu (hsame.isCoinbase ▸ hbase)
      rw [if_neg (Ne.symm htxid), hsame.outpoint, hsame.height]
      exact ⟨hout, hheight⟩

variable {context : TransactionContext} {tx : Transaction}

section

variable (h : a.Mined computeTxid keepFinalized offered) (hinj : Set.InjOn computeTxid offered)
include h hinj

/-- Coinbase coins are of other transactions than one that is offered, is no coinbase or no
longer counts, and may be stored. -/
theorem Mined.txid_ne {o : OutPoint} {u : Utxo}
    (hoffered : offered tx) (hguard : tx.isCoinBase = true → context.isInactive = true)
    (hadmits : a.keys.Admits keepFinalized (computeTxid tx) context)
    (hu : a.utxos.get? o = some u) (hcoinbase : u.isCoinbase = true) : o.txid ≠ computeTxid tx := by
  intro htxid
  obtain ⟨hknown, tx', hoffered', htx', -, -, hmade⟩ := h.coin o u hu
  cases hinj hoffered' hoffered (htx'.trans htxid)
  have hinactive : context.isInactive = true := hguard (hmade.symm.trans hcoinbase)
  have hblock : context.blockInfo = none := by
    cases context <;> first | rfl | cases hinactive
  obtain ⟨-, b, hb, -⟩ := h.height o u hu hcoinbase
  rw [ManagedCoreKeysAccount.blockOf, htxid] at hb
  cases hrecord : a.keys.transactions.get? (computeTxid tx) with
  | some r =>
    replace hb : r.context.blockInfo = some b := by simpa [hrecord] using hb
    rcases hadmits.confirmed r hrecord with rfl | hconf | hconf
    · cases hblock.symm.trans hb
    · rw [confirmed, hblock] at hconf
      cases hconf
    · rw [confirmed, hb] at hconf
      cases hconf
  | none =>
    rw [htxid, hasTransaction_iff, contains, hrecord] at hknown
    obtain ⟨hkeep, hfinal⟩ := hknown.resolve_left Bool.false_ne_true
    obtain ⟨info, rfl⟩ :=
      isChainLocked_iff.mp (hadmits.finalized hkeep hfinal)
    cases hinactive

/-- Taking a transaction that is no coinbase, or no longer counts. -/
theorem Mined.offerStep
    (hoffered : offered tx) (hguard : tx.isCoinBase = true → context.isInactive = true)
    (hstep : OfferStep keepFinalized (computeTxid tx) tx context a a') :
    a'.Mined computeTxid keepFinalized offered ∧
      ∀ o u', a'.utxos.get? o = some u' → u'.isCoinbase = true →
        ∃ u, a.utxos.get? o = some u ∧ u.SameCoin u' := by
  have hacc := h.toAccounted.offerStep hoffered hstep
  cases hstep with
  | receives record m hctx htx hadmits hstores hcoins =>
    subst hctx
    have hrecord : record.transaction = tx := by
      rcases htx with htx | ⟨old, hold, htx⟩
      · exact htx
      · obtain ⟨htxid, hold⟩ := h.record _ old hold
        exact htx.trans (hinj hold hoffered htxid)
    -- a coinbase coin is not one that the transaction makes
    have hold : ∀ o u, a'.utxos.get? o = some u → u.isCoinbase = true → a.utxos.get? o = some u := by
      intro o u hu hbase
      rw [utxos, hcoins] at hu
      rcases of_get?_updateUtxos hu with ⟨hactive, hmem⟩ | hold
      · obtain ⟨vout, output, address, -, -, -, -, rfl⟩ := mem_createdCoins.mp hmem
        rw [hguard hbase] at hactive
        cases hactive
      · exact hold
    refine ⟨h.of_stores hacc hstores (fun hbase hactive => ?_)
      (fun o u hu hbase => ?_), fun o u hu hbase =>
        ⟨u, hold o u hu hbase, .refl u⟩⟩
    · rw [hrecord] at hbase
      rw [hguard hbase] at hactive
      cases hactive
    · have hu := hold o u hu hbase
      exact .inr ⟨h.txid_ne hinj hoffered hguard hadmits hu hbase, u, hu, .refl u⟩
  | locks old hold hlock hadmits hstores hcoins =>
    have hmarked : ∀ o u', a'.utxos.get? o = some u' →
        ∃ u, a.utxos.get? o = some u ∧ u.SameCoin u' := by
      intro o u' hu'
      rw [utxos, hcoins] at hu'
      exact of_get?_markUtxosInstantSend hu'
    refine ⟨h.of_stores hacc hstores (fun hbase hactive => ?_)
      (fun o u' hu' hbase => ?_), fun o u' hu' _ => hmarked o u' hu'⟩
    · obtain ⟨htxid, holdOffered⟩ := h.record _ old hold
      rw [hinj holdOffered hoffered htxid] at hbase
      rw [hguard hbase] at hactive
      cases hactive
    · obtain ⟨u, hu, hsame⟩ := hmarked o u' hu'
      exact .inr ⟨h.txid_ne hinj hoffered hguard hadmits hu (hsame.isCoinbase ▸ hbase),
        u, hu, hsame⟩
  | marks hsame hcoins =>
    have hmarked : ∀ o u', a'.utxos.get? o = some u' →
        ∃ u, a.utxos.get? o = some u ∧ u.SameCoin u' := by
      intro o u' hu'
      rw [utxos, hcoins] at hu'
      exact of_get?_markUtxosInstantSend hu'
    exact ⟨h.of_same hacc hsame hmarked, fun o u' hu' _ => hmarked o u' hu'⟩
  | same hsame hcoins =>
    have hkept : ∀ o u', a'.utxos.get? o = some u' →
        ∃ u, a.utxos.get? o = some u ∧ u.SameCoin u' := by
      intro o u hu
      rw [utxos, hcoins] at hu
      exact ⟨u, hu, .refl u⟩
    exact ⟨h.of_same hacc hsame hkept, fun o u' hu' _ => hkept o u' hu'⟩

end

variable {transactionType : TransactionType} {xpubs : AccountXpubs} {m : AccountMatch}
  {key : FundsKey} {isNew : Bool}

/-- Recording or confirming leaves records and coins alone, or stores a record of the
transaction and updates the coins. -/
theorem processMatch_cases
    (ha' : a' = (a.processMatch keepFinalized xpubs txid tx context transactionType isNew m key).1) :
    (a.keys.SameRecords a'.keys ∧ a'.coins = a.coins) ∨
      ∃ record, record.context = context ∧ (record.transaction = tx ∨
          ∃ old, a.keys.transactions.get? txid = some old ∧
            record.transaction = old.transaction) ∧
        a.keys.Stores keepFinalized txid record a'.keys ∧
        a'.coins = (a.updateUtxos txid tx m context).coins := by
  have huse (b : ManagedCoreFundsAccount) :=
    b.keys.sameRecords_useAddresses xpubs m.accountTypeMatch
  have hrecord := stores_recordTransaction keepFinalized txid tx context a m transactionType
  subst ha'
  cases isNew with
  | true => exact .inr ⟨_, rfl, .inl rfl, hrecord.1.trans_same (huse _), hrecord.2⟩
  | false =>
    rcases @confirmTransaction_cases keepFinalized txid tx context a m transactionType with
      ⟨-, heq⟩ | ⟨-, -, heq⟩ | ⟨-, record, hget, hstores, hcoins⟩
    · have hsame : a.keys.SameRecords
          (a.confirmTransaction keepFinalized txid tx m context transactionType).1.keys := by
        rw [heq]
        exact .refl _
      have hcoins := congrArg coins heq
      exact .inl ⟨hsame.trans (huse _), hcoins⟩
    · have hstores := hrecord.1
      rw [← heq] at hstores
      exact .inr ⟨_, rfl, .inl rfl, hstores.trans_same (huse _),
        (congrArg coins heq).trans hrecord.2⟩
    · exact .inr ⟨{ record with context }, rfl, .inr ⟨record, hget, rfl⟩,
        hstores.trans_same (huse _), hcoins⟩

variable (h : a.Mined computeTxid keepFinalized offered)
include h

/-- Taking a coinbase in a block: its coins are made again at the height of that block. -/
theorem Mined.processMatch {b : BlockInfo}
    (hpooled : a.CoinbasePooled) (hinj : Set.InjOn computeTxid offered) (hoffered : offered tx)
    (hblock : context.blockInfo = some b) (hb : Countable b)
    (hmatch : a.checkTransactionForMatch key tx = some m)
    (ha' : a' = (a.processMatch keepFinalized xpubs (computeTxid tx) tx context transactionType
      isNew m key).1) (haccounted : a'.Accounted computeTxid keepFinalized offered) :
    a'.Mined computeTxid keepFinalized offered ∧ a'.CoinbasePooled := by
  have hgrow : a.keys.PoolsGrow a'.keys := ha' ▸ ManagedWalletInfo.poolsGrow_processMatch ..
  rcases processMatch_cases ha' with ⟨hsame, hcoins⟩ | ⟨record, rfl, htx, hstores, hcoins⟩
  · have hkept : ∀ o u, a'.utxos.get? o = some u → a.utxos.get? o = some u := by
      intro o u hu
      rwa [utxos, hcoins] at hu
    exact ⟨h.of_same haccounted hsame fun o u hu => ⟨u, hkept o u hu, .refl u⟩,
      fun o u hu hbase => hgrow.containsAddress (hpooled o u (hkept o u hu) hbase)⟩
  · have hactive : record.context.isInactive = false := by
      cases hctx : record.context <;> rw [hctx] at hblock <;> first | rfl | cases hblock
    -- what is there afterwards is made now, or by another transaction
    have hmade : ∀ o u, a'.utxos.get? o = some u → u.isCoinbase = true →
        (o, u) ∈ createdCoins (involves m) (trusts m) (computeTxid tx) tx record.context ∨
          (o.txid ≠ computeTxid tx ∧ a.utxos.get? o = some u) := by
      intro o u hu hbase
      rw [utxos, hcoins] at hu
      rcases of_get?_updateUtxos hu with ⟨-, hmem⟩ | hold
      · exact .inl hmem
      · by_cases htxid : o.txid = computeTxid tx
        · obtain ⟨tx', hoffered', htx', houtput, hscript, -⟩ := (h.coin o u hold).2
          cases hinj hoffered' hoffered (htx'.trans htxid)
          have hinvolves : involves m u.address = true := (involves_iff hmatch).mpr
            (involved_of_pays (List.mem_of_getElem? houtput) hscript (hpooled o u hold hbase))
          obtain ⟨txid, vout⟩ := o
          cases htxid
          rw [updateUtxos_coins a _ tx m hactive] at hu
          refine .inl (CoinSet.of_get?_apply_of_mem (List.mem_map_of_mem (f := Prod.fst)
            (mem_createdCoins.mpr
              ⟨vout, u.txout, u.address, houtput, hscript, hinvolves, rfl, rfl⟩)) hu)
        · exact .inr ⟨htxid, hold⟩
    refine ⟨h.of_stores haccounted hstores (fun _ _ => ⟨b, hblock, hb⟩)
      fun o u hu hbase => ?_, fun o u hu hbase => ?_⟩
    · rcases hmade o u hu hbase with hmem | ⟨htxid, hold⟩
      · obtain ⟨vout, output, address, -, -, -, rfl, rfl⟩ := mem_createdCoins.mp hmem
        exact .inl ⟨rfl, rfl, b, hblock, hb, by simp [Utxo.ofOutput, hblock]⟩
      · exact .inr ⟨htxid, u, hold, .refl u⟩
    · apply hgrow.containsAddress
      rcases hmade o u hu hbase with hmem | ⟨-, hold⟩
      · obtain ⟨vout, output, address, -, -, hinvolves, rfl, rfl⟩ := mem_createdCoins.mp hmem
        exact containsAddress_of_involves hmatch hinvolves
      · exact hpooled o u hold hbase

theorem Mined.applyChainLock {chainLock : ChainLock}
    (haccounted : a'.Accounted computeTxid keepFinalized offered)
    (hkeys : a'.keys = (a.keys.applyChainLock keepFinalized chainLock.blockHeight).1)
    (hcoins : a'.coins = a.coins) : a'.Mined computeTxid keepFinalized offered := by
  refine ⟨haccounted, fun t r hr hbase hactive => ?_, fun o u hu hbase => ?_⟩
  · rw [hkeys] at hr
    obtain ⟨r₀, hr₀, htx, ⟨rfl, -⟩ | ⟨-, info, hlocked, hctx⟩⟩ :=
      of_get?_applyChainLock hr
    · exact h.mined t r hr₀ hbase hactive
    · -- the block of a record that becomes final is the one it is in
      have hr₀context := (lockedBy_eq_some.mp hlocked).1
      obtain ⟨b, hblock, hb⟩ := h.mined t r₀ hr₀ (htx ▸ hbase) (by rw [hr₀context]; rfl)
      rw [hr₀context] at hblock
      rw [hctx]
      exact ⟨b, hblock, hb⟩
  · rw [utxos, hcoins] at hu
    rw [hkeys, ManagedCoreKeysAccount.blockOf_applyChainLock]
    exact h.height o u hu hbase

/-- A rewind that returns no coinbase to the mempool. -/
theorem Mined.rewound {height : Nat}
    (hguard : ∀ t r, a.keys.transactions.get? t = some r → r.transaction.isCoinBase = true →
      isAbove height r = false)
    (hrewound : Rewound computeTxid height a a') :
    a'.Mined computeTxid keepFinalized offered ∧ a'.CoinbasePooled := by
  have hacc := h.toAccounted.rewound hrewound
  have hmined : ∀ t r, a'.keys.transactions.get? t = some r → r.transaction.isCoinBase = true →
      r.context.isInactive = false → ∃ b, r.context.blockInfo = some b ∧ Countable b := by
    intro t r' hr' hbase hactive
    obtain ⟨r, hr, hdemoted⟩ := hrewound.demotes.transactions.of_get? hr'
    rcases hdemoted with rfl | ⟨habove, -, rfl⟩
    · exact h.mined t r' hr hbase hactive
    · rcases habove with habove | hnot
      · cases (hguard t r hr hbase).symm.trans habove
      · cases hnot.symm.trans hbase
  refine ⟨⟨hacc, hmined, fun o u hu hbase => ?_⟩, fun o u hu _ => ?_⟩
  · rw [utxos, hrewound.coins] at hu
    obtain ⟨r, trusted, ⟨⟨t, hr⟩, hactive⟩, hmem⟩ := of_get?_rebuildUtxos hu
    obtain ⟨vout, output, address, -, -, -, rfl, rfl⟩ := mem_createdCoins.mp hmem
    obtain ⟨b, hblock, hb⟩ := hmined t r hr hbase hactive
    refine ⟨rfl, b, ?_, hb, by simp [Utxo.ofOutput, hblock]⟩
    rw [(hacc.record t r hr).1, ManagedCoreKeysAccount.blockOf, hr]
    exact hblock
  · rw [utxos, hrewound.coins] at hu
    obtain ⟨r, trusted, -, hmem⟩ := of_get?_rebuildUtxos hu
    obtain ⟨vout, output, address, -, -, howned, rfl, rfl⟩ := mem_createdCoins.mp hmem
    exact howned

end ManagedCoreFundsAccount

/-! ### Runs -/

namespace ManagedWalletInfo

/-- Coinbases are offered in blocks, or in contexts that do not count, and a rewind that is
accepted leaves the coinbases of funds accounts in their blocks. Locks from outside are left
out. -/
def MinesCoinbases (w : ManagedWalletInfo) : WalletAction → Prop
  | .checkCoreTransaction _ tx context _ _ => tx.isCoinBase = true → context.isInactive = true ∨
      (context.blockInfo.any fun b => b.height + 100 < 2 ^ 32) = true
  | .rewindToHeight height => w.RewindRefused height ∨
      ∀ a ∈ w.accounts.funds.values, ∀ r ∈ a.keys.transactions.values,
        r.transaction.isCoinBase = true → isAbove height r = false
  | .markInstantSendUtxos _ _ => False
  | _ => True

instance decidableMinesCoinbases (w : ManagedWalletInfo) (action : WalletAction) :
    Decidable (w.MinesCoinbases action) := by
  cases action <;> unfold MinesCoinbases <;> infer_instance

variable {computeTxid : Transaction → Txid} {keepFinalized : Bool} {offered : Transaction → Prop}
  {w : ManagedWalletInfo}

/-- Every funds account has its coinbase coins at the height of their blocks. -/
def AllMined (computeTxid : Transaction → Txid) (keepFinalized : Bool)
    (offered : Transaction → Prop) (w : ManagedWalletInfo) : Prop :=
  w.AllFunds fun a => a.Mined computeTxid keepFinalized offered ∧ a.CoinbasePooled

variable {tx : Transaction} {context : TransactionContext}

/-- Offering a transaction that is no coinbase, or no longer counts. -/
theorem AllMined.offer_other (h : w.AllMined computeTxid keepFinalized offered)
    (hinj : Set.InjOn computeTxid offered)
    (hoffered : offered tx) (hguard : tx.isCoinBase = true → context.isInactive = true)
    (xpubs : AccountXpubs) (shouldUpdateState shouldUpdateBalance : Bool) :
    (w.checkCoreTransaction computeTxid keepFinalized xpubs tx context shouldUpdateState
      shouldUpdateBalance).1.AllMined computeTxid keepFinalized offered := by
  intro key a' ha'
  obtain ⟨a, ha, hsteps⟩ := (w.checkCoreTransaction_funds computeTxid keepFinalized xpubs tx
    context shouldUpdateState shouldUpdateBalance).of_get? ha'
  obtain ⟨a'', ha'', hgrow⟩ := (w.checkCoreTransaction_poolsGrow computeTxid keepFinalized xpubs tx
    context shouldUpdateState shouldUpdateBalance).get? ha
  cases ha'.symm.trans ha''
  obtain ⟨hmined, hpooled⟩ := h key a ha
  have hkept : a'.Mined computeTxid keepFinalized offered ∧
      ∀ o u', a'.utxos.get? o = some u' → u'.isCoinbase = true →
        ∃ u, a.utxos.get? o = some u ∧ u.SameCoin u' := by
    clear ha' ha'' hgrow
    induction hsteps with
    | refl => exact ⟨hmined, fun o u hu _ => ⟨u, hu, .refl u⟩⟩
    | tail _ hstep ih =>
      obtain ⟨hmined, hold⟩ := ih
      obtain ⟨hmined', hold'⟩ := hmined.offerStep hinj hoffered hguard hstep
      refine ⟨hmined', fun o u'' hu'' hbase => ?_⟩
      obtain ⟨u', hu', hsame'⟩ := hold' o u'' hu'' hbase
      obtain ⟨u, hu, hsame⟩ := hold o u' hu' (hsame'.isCoinbase ▸ hbase)
      exact ⟨u, hu, hsame.trans hsame'⟩
  refine ⟨hkept.1, fun o u' hu' hbase => ?_⟩
  obtain ⟨u, hu, hsame⟩ := hkept.2 o u' hu' hbase
  rw [hsame.address]
  exact hgrow.containsAddress (hpooled o u hu (hsame.isCoinbase ▸ hbase))

/-- The routing of a coinbase selects accounts with an index only. -/
theorem isDashpay_of_routesTo {type : FundsType}
    (hcoinbase : tx.isCoinBase = true) (hroutes : RoutesTo tx type) : type.isDashpay = false := by
  have hclass : classifyTransaction tx ≠ .standard := by
    rw [classifyTransaction, hcoinbase]
    cases tx.specialTransactionPayload with
    | none => exact TransactionType.noConfusion
    | some payload => cases payload <;> exact TransactionType.noConfusion
  have hstandard : ∀ class', class' ≠ .standard →
      .funds type ∈ getRelevantAccountTypes class' → type.isDashpay = false := by
    intro class'
    cases class' <;> cases type <;> decide
  exact hstandard _ hclass hroutes

section

variable (h : w.AllMined computeTxid keepFinalized offered) (hinj : Set.InjOn computeTxid offered)
include h hinj

/-- Offering a coinbase in a block. -/
theorem AllMined.offer_block
    {b : BlockInfo} (hoffered : offered tx) (hcoinbase : tx.isCoinBase = true)
    (hblock : context.blockInfo = some b) (hb : ManagedCoreFundsAccount.Countable b)
    (xpubs : AccountXpubs) (shouldUpdateState shouldUpdateBalance : Bool) :
    (w.checkCoreTransaction computeTxid keepFinalized xpubs tx context shouldUpdateState
      shouldUpdateBalance).1.AllMined computeTxid keepFinalized offered := by
  intro key a' ha'
  obtain ⟨a, ha, hsteps⟩ := (w.checkCoreTransaction_funds computeTxid keepFinalized xpubs tx
    context shouldUpdateState shouldUpdateBalance).of_get? ha'
  obtain ⟨hmined, hpooled⟩ := h key a ha
  have hacc := hmined.toAccounted.offerSteps hoffered hsteps
  rcases w.checkCoreTransaction_cases computeTxid keepFinalized xpubs tx context shouldUpdateState
    shouldUpdateBalance with heq | ⟨hlock, -⟩ | ⟨-, r, -, f, hf, hget⟩
  · rw [heq, ha] at ha'
    cases ha'
    exact ⟨hmined, hpooled⟩
  · rw [show context.isInstantSend = false by cases context <;> first | rfl | cases hblock]
      at hlock
    cases hlock
  · rw [hget, processMatches_funds (fun hroutes => ManagedAccountCollection.resolves_of_not_isDashpay
      (isDashpay_of_routesTo hcoinbase hroutes)) ha, Option.map_some] at ha'
    cases ha'
    have hb' := hacc.of_same ⟨by rw [(hf _).1], by rw [(hf _).1]⟩ (hf _).2.symm
    refine ManagedCoreFundsAccount.Mined.of_eq ?_ (hf _).1 (hf _).2
    split_ifs at hb' ⊢
    · cases hmatch : a.checkTransactionForMatch key tx with
      | none => exact ⟨hmined, hpooled⟩
      | some m =>
        rw [hmatch] at hb'
        exact hmined.processMatch hpooled hinj hoffered hblock hb hmatch rfl hb'
    · exact ⟨hmined, hpooled⟩

/-- A conforming step keeps coinbase coins at the height of their blocks. -/
theorem AllMined.step {action : WalletAction} (hoffered : ∀ tx, action.Offers tx → offered tx)
    (hguard : w.MinesCoinbases action) :
    (w.step computeTxid keepFinalized action).AllMined computeTxid keepFinalized offered := by
  cases action with
  | checkCoreTransaction xpubs tx context shouldUpdateState shouldUpdateBalance =>
    by_cases hcounts : tx.isCoinBase = true ∧ context.isInactive = false
    · obtain ⟨hbase, hactive⟩ := hcounts
      rcases hguard hbase with hinactive | hblock
      · cases hactive.symm.trans hinactive
      · obtain ⟨b, hblock, hb⟩ := (Option.any_eq_true _ _).mp hblock
        have hb : b.height + 100 < 2 ^ 32 := of_decide_eq_true hb
        exact h.offer_block hinj (hoffered tx rfl) hbase hblock hb xpubs
          shouldUpdateState shouldUpdateBalance
    · refine h.offer_other hinj (hoffered tx rfl) (fun hbase => ?_) xpubs shouldUpdateState
        shouldUpdateBalance
      simpa [hbase] using hcounts
  | applyChainLock chainLock =>
    refine AllFunds.step h fun a a' ha hchange => ?_
    have hacc := ha.1.toAccounted.change hoffered hchange
    cases hchange with
    | same hkeys hcoins => exact ManagedCoreFundsAccount.Mined.of_eq ha hkeys hcoins
    | chainLock hkeys hcoins =>
      refine ⟨ha.1.applyChainLock hacc hkeys hcoins, fun o u hu hbase => ?_⟩
      rw [ManagedCoreFundsAccount.utxos, hcoins] at hu
      rw [hkeys, (samePools_applyChainLock ..).containsAddress]
      exact ha.2 o u hu hbase
  | markInstantSendUtxos txid lock => exact hguard.elim
  | updateLastProcessedHeight height =>
    refine AllFunds.step h fun a a' ha hchange => ?_
    cases hchange with
    | same hkeys hcoins => exact ManagedCoreFundsAccount.Mined.of_eq ha hkeys hcoins
  | updateSyncedHeight height => exact h
  | rewindToHeight height =>
    by_cases hrefused : w.RewindRefused height
    · obtain ⟨e, he⟩ := rewindToHeight_refused computeTxid hrefused
      rw [ManagedWalletInfo.step, he]
      exact h
    · intro key a' ha'
      obtain ⟨a, ha, hrewound⟩ := (rewindToHeight_funds computeTxid hrefused).of_get? ha'
      refine (h key a ha).1.rewound (fun t r hr => ?_) hrewound
      exact hguard.resolve_left hrefused a (mem_values_iff.mpr ⟨key, ha⟩) r
        (mem_values_iff.mpr ⟨t, hr⟩)

end

theorem IsFresh.allMined (h : w.IsFresh) : w.AllMined computeTxid keepFinalized offered := by
  intro key a ha
  obtain ⟨htxs, -, hcoins⟩ := h.funds key a ha
  have hnone : ∀ o u, a.utxos.get? o ≠ some u := by
    intro o u hu
    rw [ManagedCoreFundsAccount.utxos, hcoins] at hu
    cases hu
  refine ⟨⟨h.accounted offered key a ha, fun t r hr => ?_, fun o u hu => (hnone o u hu).elim⟩,
    fun o u hu => (hnone o u hu).elim⟩
  rw [htxs] at hr
  cases hr

/-- A coin of the wallet is one of an account. -/
theorem of_get?_utxos {o : OutPoint} {u : Utxo} (h : w.utxos.get? o = some u) :
    ∃ key a, w.accounts.funds.get? key = some a ∧ a.utxos.get? o = some u := by
  have hfold : ∀ (accounts : List ManagedCoreFundsAccount) (acc : SortedMap OutPoint Utxo),
      (accounts.foldl (fun utxos account => account.utxos.union utxos) acc).get? o = some u →
        acc.get? o = some u ∨ ∃ a ∈ accounts, a.utxos.get? o = some u := by
    intro accounts
    induction accounts with
    | nil => exact fun acc hacc => .inl hacc
    | cons a rest ih =>
      intro acc hacc
      rcases ih _ hacc with hunion | ⟨a', hmem, ha'⟩
      · rw [get?_union, Option.or_eq_some_iff] at hunion
        rcases hunion with hold | ⟨-, ha⟩
        · exact .inl hold
        · exact .inr ⟨a, List.mem_cons_self, ha⟩
      · exact .inr ⟨a', List.mem_cons_of_mem a hmem, ha'⟩
  rcases hfold _ _ h with hempty | ⟨a, hmem, ha⟩
  · cases hempty
  · obtain ⟨key, hkey⟩ := mem_values_iff.mp hmem
    exact ⟨key, a, hkey, ha⟩

/-- In every state of a conforming run from a fresh wallet, a coinbase coin that may be spent
belongs to an offered coinbase that is in a block at least 100 below the height processed. -/
theorem run_spendable_mature (computeTxid : Transaction → Txid) (keepFinalized : Bool)
    (w : ManagedWalletInfo) (actions : List WalletAction) (hfresh : w.IsFresh)
    (hinj : Set.InjOn computeTxid {tx | ∃ action ∈ actions, action.Offers tx})
    (halong : Runs.Along (step computeTxid keepFinalized) MinesCoinbases w actions)
    (u : Utxo) (hu : u ∈ (Runs.run (step computeTxid keepFinalized) w actions).getSpendableUtxos)
    (hcoinbase : u.isCoinbase = true) :
    ∃ key a b, (Runs.run (step computeTxid keepFinalized) w actions).accounts.funds.get? key =
        some a ∧ a.utxos.get? u.outpoint = some u ∧
      (∃ tx, (∃ action ∈ actions, action.Offers tx) ∧ computeTxid tx = u.outpoint.txid ∧
        tx.isCoinBase = true) ∧
      a.keys.blockOf u.outpoint.txid = some b ∧
      b.height + 100 ≤
        (Runs.run (step computeTxid keepFinalized) w actions).lastProcessedHeight := by
  have hmined : (Runs.run (step computeTxid keepFinalized) w actions).AllMined computeTxid
      keepFinalized fun tx => ∃ action ∈ actions, action.Offers tx := Runs.invariant_run
    (fun _ action hmined hguard => hmined.step hinj
      (fun tx hoffers => ⟨action, hguard.2, hoffers⟩) hguard.1) hfresh.allMined
    (halong.and_of_forall_mem (D := (· ∈ actions)) fun _ hmem => hmem)
  obtain ⟨hvalue, hspendable⟩ := List.mem_filter.mp hu
  obtain ⟨o, ho⟩ := mem_values_iff.mp hvalue
  obtain ⟨key, a, ha, hcoin⟩ := of_get?_utxos ho
  obtain ⟨hmined, -⟩ := hmined key a ha
  obtain ⟨rfl, b, hblock, hb, hheight⟩ := hmined.height o u hcoin hcoinbase
  obtain ⟨tx, hoffered, htx, -, -, htxCoinbase⟩ := (hmined.coin _ u hcoin).2
  refine ⟨key, a, b, ha, hcoin, ⟨tx, hoffered, htx, htxCoinbase.symm.trans hcoinbase⟩, hblock, ?_⟩
  have hmature := (Bool.and_eq_true_iff.mp hspendable).2
  rw [Utxo.isMature, hcoinbase, Bool.not_true, Bool.false_or, decide_eq_true_eq, hheight,
    Nat.mod_eq_of_lt hb] at hmature
  exact hmature

end ManagedWalletInfo

/-- A coinbase that pays 50 to the first address. -/
def Sample.coinbase : Transaction := payment 8 .null [(50, address 0)]

namespace ManagedWalletInfo

/-- The sample coinbase in block 10 may be spent at height 110. -/
theorem run_spendable_mature_coinbase :
    ∃ u ∈ (Runs.run (step Sample.computeTxid false) wallet
        [offer coinbase (.inBlock (block 10)),
          .updateLastProcessedHeight 110]).getSpendableUtxos,
      u.isCoinbase = true ∧
      ∃ key a b, (Runs.run (step Sample.computeTxid false) wallet
          [offer coinbase (.inBlock (block 10)),
            .updateLastProcessedHeight 110]).accounts.funds.get? key = some a ∧
        a.utxos.get? u.outpoint = some u ∧
        (∃ tx, (∃ action ∈ [offer coinbase (.inBlock (block 10)),
          .updateLastProcessedHeight 110], action.Offers tx) ∧
          Sample.computeTxid tx = u.outpoint.txid ∧ tx.isCoinBase = true) ∧
        a.keys.blockOf u.outpoint.txid = some b ∧
        b.height + 100 ≤ (Runs.run (step Sample.computeTxid false) wallet
          [offer coinbase (.inBlock (block 10)),
            .updateLastProcessedHeight 110]).lastProcessedHeight := by
  have hspendable : (Runs.run (step Sample.computeTxid false) wallet
      [offer coinbase (.inBlock (block 10)),
        .updateLastProcessedHeight 110]).getSpendableUtxos.any Utxo.isCoinbase = true := by
    decide +kernel
  obtain ⟨u, hu, hbase⟩ := List.any_eq_true.mp hspendable
  refine ⟨u, hu, hbase, run_spendable_mature Sample.computeTxid false wallet _
    isFresh ?_ (by decide +kernel) u hu hbase⟩
  have honly : ∀ tx, (∃ action ∈ [offer coinbase (.inBlock (block 10)),
      .updateLastProcessedHeight 110], action.Offers tx) → coinbase = tx := by
    rintro tx ⟨action, hmem, hoffers⟩
    rcases List.mem_cons.mp hmem with rfl | hmem
    · exact hoffers
    · cases List.mem_singleton.mp hmem
      exact hoffers.elim
  exact fun tx htx tx' htx' _ => (honly tx htx).symm.trans (honly tx' htx')

/-- Offered as a mempool transaction, the sample coinbase may be spent at height 100 although
it is in no block. Mined in block 200 and disconnected from it, it may be spent at once. -/
theorem unmined_coinbase_spendable :
    wallet.IsFresh ∧
      ((after [offer coinbase .mempool,
          .updateLastProcessedHeight 100]).getSpendableUtxos.any fun u =>
        u.isCoinbase && u.outpoint.txid = 8) = true ∧
      ((after [offer coinbase .mempool,
          .updateLastProcessedHeight 100]).accounts.funds.values.all fun a =>
        (a.keys.blockOf 8).isNone) = true ∧
      ((after [offer coinbase (.inBlock (block 200)),
          .updateLastProcessedHeight 200, .rewindToHeight 150]).getSpendableUtxos.any fun u =>
        u.isCoinbase && u.outpoint.txid = 8) = true ∧
      ((after [offer coinbase (.inBlock (block 200)),
          .updateLastProcessedHeight 200, .rewindToHeight 150]).accounts.funds.values.all fun a =>
        (a.keys.blockOf 8).isNone) = true :=
  ⟨isFresh, by decide +kernel, by decide +kernel, by decide +kernel, by decide +kernel⟩

end ManagedWalletInfo

end Dashcore
