import Dashcore.Wallet.CoinOrigin

/-!
# Coins across a rewind

The coins of an account are kept up to date one transaction at a time, and a rewind throws
them away and computes them from the records. Both agree on the coins of recorded
transactions. They differ on the coins of final transactions, whose records were dropped:
a rewind loses those.
-/

namespace Dashcore

open Sample SortedMap ManagedCoreKeysAccount

/-- A transaction is offered in a context that counts: mempool, locked or in a block. -/
def WalletAction.OffersActive : WalletAction → Prop
  | .checkCoreTransaction _ _ context _ _ => context.isInactive = false
  | _ => True

/-! ### Records and coins agree -/

variable {height : Nat}

namespace ManagedCoreFundsAccount

/-- Records are of active transactions, which are not final, and their inputs are known to be
spent. -/
structure Ledgered (computeTxid : Transaction → Txid) (offered : Transaction → Prop)
    (a : ManagedCoreFundsAccount) : Prop extends a.Accounted computeTxid false offered where
  active : ∀ t r, a.keys.transactions.get? t = some r → r.context.isInactive = false
  spent : ∀ t r, a.keys.transactions.get? t = some r →
    ∀ input ∈ r.transaction.input, input.previousOutput ∈ a.spentOutpoints
  recordedOnly : ∀ t r, a.keys.transactions.get? t = some r →
    a.keys.finalizedTxids.contains t = false

variable {computeTxid : Transaction → Txid} {offered : Transaction → Prop}
  {a a' : ManagedCoreFundsAccount}

/-- Marking coins does not spend any. -/
theorem markUtxosInstantSend_spent (a : ManagedCoreFundsAccount) (txid : Txid) :
    (a.markUtxosInstantSend txid).1.coins.spent = a.coins.spent := rfl

variable (h : a.Ledgered computeTxid offered)
include h

theorem Ledgered.of_same (hkeys : a.keys.SameRecords a'.keys)
    (haccounted : a'.Accounted computeTxid false offered)
    (hspent : a'.coins.spent = a.coins.spent) : a'.Ledgered computeTxid offered := by
  refine ⟨haccounted, ?_, ?_, ?_⟩
  · rw [hkeys.transactions]
    exact h.active
  · rw [hkeys.transactions, spentOutpoints, hspent]
    exact h.spent
  · rw [hkeys.transactions, hkeys.finalizedTxids]
    exact h.recordedOnly

/-- Storing a record keeps the agreement, if its inputs become known to be spent. -/
theorem Ledgered.of_stores {txid : Txid} {record : TransactionRecord}
    (hstores : a.keys.Stores false txid record a'.keys)
    (haccounted : a'.Accounted computeTxid false offered)
    (hactive : record.context.isInactive = false)
    (hfinal : a.keys.finalizedTxids.contains txid = true → record.context.isChainLocked = true)
    (hspent : ∀ o ∈ a.spentOutpoints, o ∈ a'.spentOutpoints)
    (hinputs : ∀ input ∈ record.transaction.input, input.previousOutput ∈ a'.spentOutpoints) :
    a'.Ledgered computeTxid offered := by
  refine ⟨haccounted, fun t r hr => ?_, fun t r hr => ?_, fun t r hr => ?_⟩
  · rcases hstores.of_get? hr with ⟨-, rfl, -⟩ | ⟨-, hold⟩
    · exact hactive
    · exact h.active t r hold
  · rcases hstores.of_get? hr with ⟨-, rfl, -⟩ | ⟨-, hold⟩
    · exact hinputs
    · exact fun input hinput => hspent _ (h.spent t r hold input hinput)
  · rcases hstores.of_get? hr with ⟨rfl, rfl, hdrops⟩ | ⟨hne, hold⟩
    · -- a final transaction is only stored again as final, and then has no record
      rw [contains, hstores.finalizedTxids, if_neg (by simp [hdrops])]
      cases hhas : a.keys.finalizedTxids.contains txid with
      | false => exact hhas
      | true =>
        rw [drops, hfinal hhas] at hdrops
        cases hdrops
    · rw [contains, hstores.finalizedTxids, if_neg fun hdrop => hne hdrop.1]
      exact h.recordedOnly t r hold

theorem Ledgered.offerStep {tx : Transaction} {context : TransactionContext}
    (hinj : Set.InjOn computeTxid offered) (hoffered : offered tx)
    (hactive : context.isInactive = false)
    (hstep : OfferStep false (computeTxid tx) tx context a a') :
    a'.Ledgered computeTxid offered := by
  have hacc := h.toAccounted.offerStep hoffered hstep
  cases hstep with
  | receives record m hctx htx hadmits hstores hcoins =>
    subst hctx
    -- the record is one of the offered transaction, since the txid tells them apart
    have hrecord : record.transaction = tx := by
      rcases htx with htx | ⟨old, hold, htx⟩
      · exact htx
      · obtain ⟨htxid, hold⟩ := h.record _ old hold
        exact htx.trans (hinj hold hoffered htxid)
    rw [updateUtxos_coins a _ tx m hactive] at hcoins
    refine h.of_stores hstores hacc hactive (hadmits.finalized rfl) ?_ ?_
    · intro o ho
      rw [spentOutpoints, hcoins]
      exact CoinSet.mem_spent_apply.mpr (.inr ho)
    · intro input hinput
      rw [spentOutpoints, hcoins]
      exact CoinSet.mem_spent_apply.mpr (.inl (List.mem_map_of_mem (hrecord ▸ hinput)))
  | locks old hold hlock hadmits hstores hcoins =>
    have hspent : a'.spentOutpoints = a.spentOutpoints :=
      (congrArg CoinSet.spent hcoins).trans (a.markUtxosInstantSend_spent _)
    exact h.of_stores hstores hacc hactive (hadmits.finalized rfl)
      (fun o ho => hspent ▸ ho) (fun input hinput => hspent ▸ h.spent _ old hold input hinput)
  | marks hsame hcoins =>
    exact h.of_same hsame hacc
      ((congrArg CoinSet.spent hcoins).trans (a.markUtxosInstantSend_spent _))
  | same hsame hcoins => exact h.of_same hsame hacc (congrArg CoinSet.spent hcoins)

theorem Ledgered.rewound (hrewound : Rewound computeTxid height a a') :
    a'.Ledgered computeTxid offered := by
  have hactive : ∀ t r, a'.keys.transactions.get? t = some r → r.context.isInactive = false := by
    intro t r' hr'
    obtain ⟨r, hr, hdemoted⟩ := hrewound.demotes.transactions.of_get? hr'
    rw [hdemoted.isInactive]
    exact h.active t r hr
  refine ⟨h.toAccounted.rewound hrewound, hactive, fun t r' hr' input hinput => ?_,
    fun t r' hr' => ?_⟩
  · rw [spentOutpoints, hrewound.coins]
    exact mem_spent_rebuildUtxos.mpr
      ⟨r', ⟨⟨t, hr'⟩, hactive t r' hr'⟩, List.mem_map_of_mem hinput⟩
  · obtain ⟨r, hr, -⟩ := hrewound.demotes.transactions.of_get? hr'
    rw [hrewound.demotes.finalizedTxids]
    exact h.recordedOnly t r hr

theorem Ledgered.change {w : ManagedWalletInfo} {action : WalletAction}
    (hinj : Set.InjOn computeTxid offered) (hoffered : ∀ tx, action.Offers tx → offered tx)
    (hactive : action.OffersActive) (hchange : Change computeTxid false w action a a') :
    a'.Ledgered computeTxid offered := by
  have hacc := h.toAccounted.change hoffered hchange
  cases hchange with
  | same hkeys hcoins => exact h.of_same (hkeys ▸ .refl _) hacc (congrArg CoinSet.spent hcoins)
  | offer hsteps =>
    clear hacc
    induction hsteps with
    | refl => exact h
    | tail _ hstep ih => exact ih.offerStep hinj (hoffered _ rfl) hactive hstep
  | @chainLock chainLock a a' hkeys hcoins =>
    -- a record that stays is untouched, and one that goes becomes final
    have hstays {t : Txid} {r : TransactionRecord} (hr : a'.keys.transactions.get? t = some r) :
        a.keys.transactions.get? t = some r ∧
          lockedBy chainLock.blockHeight r.context = none := by
      rw [hkeys] at hr
      obtain ⟨r₀, hr₀, -, ⟨rfl, hnone⟩ | ⟨hkeep, -⟩⟩ :=
        of_get?_applyChainLock hr
      · exact ⟨hr₀, hnone⟩
      · cases hkeep
    refine ⟨hacc, fun t r hr => h.active t r (hstays hr).1, fun t r hr => ?_,
      fun t r hr => ?_⟩
    · rw [spentOutpoints, hcoins]
      exact h.spent t r (hstays hr).1
    · obtain ⟨hr, hnone⟩ := hstays hr
      rw [hkeys, contains, (get?_applyChainLock ..).2, hr, Option.bind_some, hnone]
      exact h.recordedOnly t r hr
  | @mark txid lock a a' hkeys hcoins =>
    have hspent : a'.spentOutpoints = a.spentOutpoints :=
      (congrArg CoinSet.spent hcoins).trans (a.markUtxosInstantSend_spent _)
    rcases a.keys.updateContext_instantSend false txid lock with ⟨-, hnone⟩ | ⟨r, hr, hstores⟩
    · exact h.of_same (by rw [hkeys, hnone]; exact .refl _) hacc hspent
    · rw [← hkeys] at hstores
      refine h.of_stores hstores hacc rfl (fun hfinal => ?_) (fun o ho => hspent ▸ ho)
        fun input hinput => hspent ▸ h.spent txid r hr input hinput
      rw [h.recordedOnly txid r hr] at hfinal
      cases hfinal
  | rewind _ hrewound => exact h.rewound hrewound

end ManagedCoreFundsAccount

/-! ### One rewind -/

namespace ManagedWalletInfo

/-- Some account has an active record of a transaction that spends the outpoint. -/
def SpentByRecorded (w : ManagedWalletInfo) (o : OutPoint) : Prop :=
  ∃ key a t r, w.accounts.records key = some a ∧ a.transactions.get? t = some r ∧
    r.context.isInactive = false ∧ o ∈ r.transaction.input.map TxIn.previousOutput

end ManagedWalletInfo

namespace ManagedCoreFundsAccount

/-- The coins of an account across a rewind that leaves the wallet in this state: those not
from a coinbase are still there, and each new one is an output of a recorded active
transaction to an address of the account that no recorded active transaction spends. -/
structure KeepsCoins (computeTxid : Transaction → Txid) (w' : ManagedWalletInfo)
    (a a' : ManagedCoreFundsAccount) : Prop where
  kept : ∀ o u, a.utxos.get? o = some u → u.isCoinbase = false →
    ∃ u', a'.utxos.get? o = some u' ∧ u'.txout.value = u.txout.value
  new : ∀ o u', a'.utxos.get? o = some u' →
    (¬∃ u, a.utxos.get? o = some u ∧ u.txout.value = u'.txout.value) →
    (∃ r output address, a'.Retains r ∧ computeTxid r.transaction = o.txid ∧
      r.transaction.output[o.vout]? = some output ∧ output.value = u'.txout.value ∧
      Address.fromScript output.scriptPubkey = some address ∧
      a'.keys.containsAddress address = true) ∧ ¬w'.SpentByRecorded o

/-- The coins can be computed from the records: those not from a coinbase are outputs of
recorded transactions to addresses of the account, and what the account would gain is not
spent by a record of another account. -/
structure SafeToRebuild (computeTxid : Transaction → Txid) (w : ManagedWalletInfo)
    (a : ManagedCoreFundsAccount) : Prop where
  recorded : ∀ o u, a.utxos.get? o = some u → u.isCoinbase = false →
    a.keys.transactions.contains o.txid = true ∧ a.keys.containsAddress u.address = true
  unspent : ∀ r output, a.Retains r →
    output ∈ ownedOutputs a.keys.containsAddress r.transaction →
    a.utxos.contains ⟨computeTxid r.transaction, output.1⟩ = false →
    (∀ r', a.Retains r' → (⟨computeTxid r.transaction, output.1⟩ : OutPoint) ∉
      r'.transaction.input.map TxIn.previousOutput) →
    ¬w.SpentByRecorded ⟨computeTxid r.transaction, output.1⟩

variable {computeTxid : Transaction → Txid} {offered : Transaction → Prop}
  {a a' : ManagedCoreFundsAccount} {height : Nat} {o : OutPoint} {u : Utxo} {r : TransactionRecord}

section

variable (h : Rewound computeTxid height a a')
include h

theorem Rewound.retains
    (hr : a.Retains r) : ∃ r', a'.Retains r' ∧ r'.transaction = r.transaction := by
  obtain ⟨⟨t, hget⟩, hactive⟩ := hr
  obtain ⟨r', hget', hdemoted⟩ := h.demotes.transactions.get? hget
  exact ⟨r', ⟨⟨t, hget'⟩, hdemoted.isInactive.trans hactive⟩, hdemoted.transaction⟩

theorem Rewound.of_retains {r' : TransactionRecord}
    (hr' : a'.Retains r') : ∃ r, a.Retains r ∧ r'.transaction = r.transaction := by
  obtain ⟨⟨t, hget'⟩, hactive⟩ := hr'
  obtain ⟨r, hget, hdemoted⟩ := h.demotes.transactions.of_get? hget'
  exact ⟨r, ⟨⟨t, hget⟩, hdemoted.isInactive ▸ hactive⟩, hdemoted.transaction⟩

/-- The coins after a rewind, in terms of the records before it. -/
theorem Rewound.contains_iff :
    a'.utxos.contains o = true ↔
      (∃ r, a.Retains r ∧ ∃ output ∈ ownedOutputs a.keys.containsAddress r.transaction,
        (⟨computeTxid r.transaction, output.1⟩ : OutPoint) = o) ∧
      ∀ r, a.Retains r → o ∉ r.transaction.input.map TxIn.previousOutput := by
  have hpools : a'.keys.containsAddress = a.keys.containsAddress :=
    funext h.demotes.pools.containsAddress
  rw [utxos, h.coins]
  refine contains_rebuildUtxos_iff.trans (and_congr ⟨?_, ?_⟩ ⟨fun hunspent r hr => ?_,
    fun hunspent r' hr' => ?_⟩)
  · rintro ⟨r', hr', output, houtput, rfl⟩
    obtain ⟨r, hr, htx⟩ := h.of_retains hr'
    rw [hpools, htx] at houtput
    exact ⟨r, hr, output, houtput, by rw [htx]⟩
  · rintro ⟨r, hr, output, houtput, rfl⟩
    obtain ⟨r', hr', htx⟩ := h.retains hr
    rw [← hpools, ← htx] at houtput
    exact ⟨r', hr', output, houtput, by rw [htx]⟩
  · obtain ⟨r', hr', htx⟩ := h.retains hr
    exact htx ▸ hunspent r' hr'
  · obtain ⟨r, hr, htx⟩ := h.of_retains hr'
    exact htx ▸ hunspent r hr

end

variable (h : a.Ledgered computeTxid offered)
include h

/-- No record spends a coin. -/
theorem Ledgered.not_spent (hu : a.utxos.get? o = some u) (hr : a.Retains r) :
    o ∉ r.transaction.input.map TxIn.previousOutput := by
  intro hmem
  obtain ⟨input, hinput, rfl⟩ := List.mem_map.mp hmem
  obtain ⟨⟨t, hget⟩, -⟩ := hr
  exact a.coins.unspent _ u hu (h.spent t r hget input hinput)

/-- A coin is the output of the record with its txid. -/
theorem Ledgered.output_of_coin (hinj : Set.InjOn computeTxid offered)
    (hu : a.utxos.get? o = some u) (hr : a.Retains r) (htxid : computeTxid r.transaction = o.txid) :
    r.transaction.output[o.vout]? = some u.txout ∧
      Address.fromScript u.txout.scriptPubkey = some u.address := by
  obtain ⟨tx, hoffered, htx, houtput, hscript, -⟩ := (h.coin o u hu).2
  obtain ⟨⟨t, hget⟩, -⟩ := hr
  have heq : tx = r.transaction :=
    hinj hoffered (h.record t r hget).2 (htx.trans htxid.symm)
  exact ⟨heq ▸ houtput, hscript⟩

theorem Ledgered.retains_of_contains {t : Txid} (ht : a.keys.transactions.contains t = true) :
    ∃ r, a.Retains r ∧ computeTxid r.transaction = t := by
  obtain ⟨r, hr⟩ := contains_iff.mp ht
  exact ⟨r, ⟨⟨t, hr⟩, h.active t r hr⟩, (h.record t r hr).1⟩

variable (hinj : Set.InjOn computeTxid offered) (hrewound : Rewound computeTxid height a a')
include hinj hrewound

/-- A coin is computed again exactly if its transaction is recorded and its address one of
the account's. -/
theorem Ledgered.rebuilt_iff (hu : a.utxos.get? o = some u) :
    a'.utxos.contains o = true ↔
      a.keys.transactions.contains o.txid = true ∧ a.keys.containsAddress u.address = true := by
  rw [hrewound.contains_iff]
  constructor
  · rintro ⟨⟨r, hr, ⟨vout, output, address⟩, houtput, rfl⟩, -⟩
    obtain ⟨houtput, hscript, howned⟩ := mem_ownedOutputs.mp houtput
    obtain ⟨houtput', hscript'⟩ := h.output_of_coin hinj hu hr rfl
    cases houtput.symm.trans houtput'
    cases hscript.symm.trans hscript'
    obtain ⟨⟨t, hget⟩, -⟩ := hr
    rw [(h.record t r hget).1]
    exact ⟨contains_iff.mpr ⟨r, hget⟩, howned⟩
  · rintro ⟨hrec, howned⟩
    obtain ⟨r, hr, htxid⟩ := h.retains_of_contains hrec
    obtain ⟨houtput, hscript⟩ := h.output_of_coin hinj hu hr htxid
    refine ⟨⟨r, hr, (o.vout, u.txout, u.address), mem_ownedOutputs.mpr ⟨houtput, hscript, howned⟩,
      ?_⟩, fun r hr => h.not_spent hu hr⟩
    rw [htxid]

/-- A coin that is there before and after is the same output. -/
theorem Ledgered.txout_eq (hu : a.utxos.get? o = some u) {u' : Utxo}
    (hu' : a'.utxos.get? o = some u') : u'.txout = u.txout := by
  obtain ⟨tx, hoffered, htx, houtput, -, -⟩ := (h.coin o u hu).2
  obtain ⟨tx', hoffered', htx', houtput', -, -⟩ := ((h.rewound hrewound).coin o u' hu').2
  cases hinj hoffered hoffered' (htx.trans htx'.symm)
  exact Option.mem_unique houtput' houtput

/-- For an account whose records and coins agree, a rewind keeps the coins exactly if they
can be computed from the records. -/
theorem Ledgered.keepsCoins_iff {w w' : ManagedWalletInfo}
    (hspent : ∀ o, w'.SpentByRecorded o ↔ w.SpentByRecorded o) :
    a.KeepsCoins computeTxid w' a' ↔ a.SafeToRebuild computeTxid w := by
  constructor
  · rintro ⟨hkept, hnew⟩
    refine ⟨fun o u hu hbase => ?_, fun r output hr houtput hmissing hunspent => ?_⟩
    · obtain ⟨u', hu', -⟩ := hkept o u hu hbase
      exact (h.rebuilt_iff hinj hrewound hu).mp (contains_iff.mpr ⟨u', hu'⟩)
    · -- the output becomes a coin, and a new one
      obtain ⟨u', hu'⟩ := contains_iff.mp
        (hrewound.contains_iff.mpr ⟨⟨r, hr, output, houtput, rfl⟩, hunspent⟩)
      rw [← hspent]
      refine (hnew _ u' hu' ?_).2
      rintro ⟨u, hu, -⟩
      rw [contains_iff.mpr ⟨u, hu⟩] at hmissing
      cases hmissing
  · rintro ⟨hrec, hunspent⟩
    refine ⟨fun o u hu hbase => ?_, fun o u' hu' hold => ⟨?_, ?_⟩⟩
    · obtain ⟨u', hu'⟩ := contains_iff.mp
        ((h.rebuilt_iff hinj hrewound hu).mpr (hrec o u hu hbase))
      exact ⟨u', hu', by rw [h.txout_eq hinj hrewound hu hu']⟩
    · have hbuilt := hu'
      rw [utxos, hrewound.coins] at hbuilt
      obtain ⟨r, trusted, hr, hmem⟩ := of_get?_rebuildUtxos hbuilt
      obtain ⟨vout, output, address, houtput, hscript, howned, rfl, rfl⟩ := mem_createdCoins.mp hmem
      exact ⟨r, output, address, hr, rfl, houtput, rfl, hscript, howned⟩
    · have hmissing : a.utxos.contains o = false := by
        by_contra hhas
        obtain ⟨u, hu⟩ := contains_iff.mp (by simpa using hhas)
        exact hold ⟨u, hu, by rw [h.txout_eq hinj hrewound hu hu']⟩
      obtain ⟨⟨r, hr, output, houtput, rfl⟩, hnot⟩ :=
        hrewound.contains_iff.mp (contains_iff.mpr ⟨u', hu'⟩)
      rw [hspent]
      exact hunspent r output hr houtput hmissing hnot

end ManagedCoreFundsAccount

/-! ### Runs -/

namespace ManagedWalletInfo

section

variable (computeTxid : Transaction → Txid) (w : ManagedWalletInfo)

/-- What a rewind promises: refused, it changes nothing; otherwise every funds account keeps
its coins. -/
def RewindKeepsCoins (height : Nat) :
    Prop :=
  match w.rewindToHeight computeTxid height with
  | (w', .error _) => w' = w
  | (w', .ok _) =>
    w.accounts.funds.Rel (ManagedCoreFundsAccount.KeepsCoins computeTxid w') w'.accounts.funds

/-- A rewind is refused, or every funds account can compute its coins from its records. -/
def RewindSafe (height : Nat) : Prop :=
  w.RewindRefused height ∨ w.AllFunds (ManagedCoreFundsAccount.SafeToRebuild computeTxid w)

end

variable {computeTxid : Transaction → Txid} {w : ManagedWalletInfo}

variable (computeTxid) in
/-- A rewind changes no recorded transaction and none becomes inactive. -/
theorem spentByRecorded_rewindToHeight (h : ¬w.RewindRefused height) (o : OutPoint) :
    (w.rewindToHeight computeTxid height).1.SpentByRecorded o ↔ w.SpentByRecorded o := by
  constructor
  · rintro ⟨key, a', t, r', ha', hr', hactive, hspends⟩
    obtain ⟨a, ha, hdemotes, -⟩ :=
      exists_of_optionRel_right (rewindToHeight_records computeTxid h key) ha'
    obtain ⟨r, hr, hdemoted⟩ := hdemotes.transactions.of_get? hr'
    exact ⟨key, a, t, r, ha, hr, hdemoted.isInactive ▸ hactive, hdemoted.transaction ▸ hspends⟩
  · rintro ⟨key, a, t, r, ha, hr, hactive, hspends⟩
    obtain ⟨a', ha', hdemotes, -⟩ :=
      exists_of_optionRel_left (rewindToHeight_records computeTxid h key) ha
    obtain ⟨r', hr', hdemoted⟩ := hdemotes.transactions.get? hr
    exact ⟨key, a', t, r', ha', hr', hdemoted.isInactive.trans hactive,
      hdemoted.transaction.symm ▸ hspends⟩

theorem rewindKeepsCoins_iff_rel (h : ¬w.RewindRefused height) :
    w.RewindKeepsCoins computeTxid height ↔ w.accounts.funds.Rel
      (ManagedCoreFundsAccount.KeepsCoins computeTxid (w.rewindToHeight computeTxid height).1)
      (w.rewindToHeight computeTxid height).1.accounts.funds := by
  obtain ⟨outcome, hok⟩ := rewindToHeight_ok computeTxid h
  rw [RewindKeepsCoins]
  split
  · next heq =>
    rw [heq] at hok
    cases hok
  · next heq => rw [heq]

/-- In a wallet whose records and coins agree, a rewind keeps the coins exactly if it is
safe. -/
theorem rewindKeepsCoins_iff_of_ledgered {offered : Transaction → Prop}
    (h : w.AllFunds fun a => a.Ledgered computeTxid offered)
    (hinj : Set.InjOn computeTxid offered) (height : Nat) :
    w.RewindKeepsCoins computeTxid height ↔ w.RewindSafe computeTxid height := by
  by_cases hrefused : w.RewindRefused height
  · obtain ⟨e, he⟩ := rewindToHeight_refused computeTxid hrefused
    rw [RewindKeepsCoins, he]
    exact iff_of_true rfl (.inl hrefused)
  · have hrel := rewindToHeight_funds computeTxid hrefused
    have hspent := spentByRecorded_rewindToHeight computeTxid hrefused
    rw [rewindKeepsCoins_iff_rel hrefused, RewindSafe, or_iff_right hrefused]
    constructor
    · intro hall key a ha
      obtain ⟨a', ha', hrewound⟩ := hrel.get? ha
      obtain ⟨a'', ha'', hcoins⟩ := hall.get? ha
      cases ha'.symm.trans ha''
      exact ((h key a ha).keepsCoins_iff hinj hrewound hspent).mp hcoins
    · intro hall key
      cases ha : w.accounts.funds.get? key with
      | none =>
        have hnone := hrel key
        rw [ha] at hnone
        generalize (w.rewindToHeight computeTxid height).1.accounts.funds.get? key = x at hnone ⊢
        cases hnone
        exact .none
      | some a =>
        obtain ⟨a', ha', hrewound⟩ := hrel.get? ha
        rw [ha']
        exact .some (((h key a ha).keepsCoins_iff hinj hrewound hspent).mpr (hall key a ha))

theorem IsFresh.ledgered (h : w.IsFresh) (offered : Transaction → Prop) :
    w.AllFunds fun a => a.Ledgered computeTxid offered := by
  intro key a ha
  have hnone : ∀ t r, a.keys.transactions.get? t ≠ some r := by
    intro t r hr
    rw [(h.funds key a ha).1] at hr
    cases hr
  exact ⟨h.accounted offered key a ha, fun t r hr => (hnone t r hr).elim,
    fun t r hr => (hnone t r hr).elim, fun t r hr => (hnone t r hr).elim⟩

/-- Along a run from a fresh wallet, records and coins agree. -/
theorem run_ledgered {actions : List WalletAction}
    (hfresh : w.IsFresh) (hactive : ∀ action ∈ actions, action.OffersActive)
    (hinj : Set.InjOn computeTxid {tx | ∃ action ∈ actions, action.Offers tx}) :
    (Runs.run (step computeTxid false) w actions).AllFunds fun a =>
      a.Ledgered computeTxid fun tx => ∃ action ∈ actions, action.Offers tx := by
  refine Runs.invariant_run (fun _ action hall hmem => ?_) (hfresh.ledgered _)
    (Runs.along_of_forall_mem (D := (· ∈ actions)) fun _ hmem => hmem)
  exact hall.step fun a a' ha => ha.change hinj (fun tx hoffers => ⟨action, hmem, hoffers⟩)
    (hactive action hmem)

/-- In every state that a fresh wallet reaches, a rewind keeps the coins exactly if it is
safe: it is refused, or the coins are those of recorded transactions. -/
theorem rewindKeepsCoins_iff (computeTxid : Transaction → Txid) (w : ManagedWalletInfo)
    (actions : List WalletAction) (hfresh : w.IsFresh)
    (hactive : ∀ action ∈ actions, action.OffersActive)
    (hinj : Set.InjOn computeTxid {tx | ∃ action ∈ actions, action.Offers tx}) (height : Nat) :
    (Runs.run (step computeTxid false) w actions).RewindKeepsCoins computeTxid height ↔
      (Runs.run (step computeTxid false) w actions).RewindSafe computeTxid height :=
  rewindKeepsCoins_iff_of_ledgered (run_ledgered hfresh hactive hinj) hinj height

/-- A block and a rewind below it: the sample payment goes back to the mempool. -/
theorem rewindKeepsCoins_iff_received :
    (Runs.run (step Sample.computeTxid false) wallet
        [Sample.offer received (.inBlock (block 10))]).RewindKeepsCoins
        Sample.computeTxid 5 ↔
      (Runs.run (step Sample.computeTxid false) wallet
        [Sample.offer received (.inBlock (block 10))]).RewindSafe
        Sample.computeTxid 5 := by
  refine rewindKeepsCoins_iff Sample.computeTxid wallet _ isFresh ?_ ?_ 5
  · intro action hmem
    rw [List.mem_singleton.mp hmem]
    rfl
  · rintro tx ⟨action, hmem, hoffers⟩ tx' ⟨action', hmem', hoffers'⟩ -
    cases List.mem_singleton.mp hmem
    cases List.mem_singleton.mp hmem'
    exact hoffers.symm.trans hoffers'

/-- The sample payment becomes final in its block, and a rewind to that very block, which
disconnects nothing, loses the coin. -/
theorem rewind_loses_final_coin :
    wallet.IsFresh ∧
      ((after [Sample.offer received (.inBlock (block 10)),
        .applyChainLock (Sample.chainLock 10)]).rewindToHeight Sample.computeTxid 10).2.isOk ∧
      ¬(after [Sample.offer received (.inBlock (block 10)),
        .applyChainLock (Sample.chainLock 10)]).RewindKeepsCoins Sample.computeTxid 10 := by
  refine ⟨isFresh, by decide +kernel, fun hkeeps => ?_⟩
  rw [rewindKeepsCoins_iff_rel (by decide +kernel)] at hkeeps
  have hbefore : (after [Sample.offer received (.inBlock (block 10)),
      .applyChainLock (Sample.chainLock 10)]).accounts.funds.get? (.standardBip44 0) |>.any
        fun a => (a.utxos.get? ⟨7, 0⟩).any fun u => !u.isCoinbase := by decide +kernel
  have hafter : ((after [Sample.offer received (.inBlock (block 10)),
      .applyChainLock (Sample.chainLock 10)]).rewindToHeight Sample.computeTxid
        10).1.accounts.funds.get? (.standardBip44 0) |>.all
        fun a => (a.utxos.get? ⟨7, 0⟩).isNone := by decide +kernel
  obtain ⟨a, ha, hcoin⟩ := (Option.any_eq_true _ _).mp hbefore
  obtain ⟨u, hu, hbase⟩ := (Option.any_eq_true _ _).mp hcoin
  obtain ⟨a', ha', hkept, -⟩ := hkeeps.get? ha
  obtain ⟨u', hu', -⟩ := hkept _ u hu (by simpa using hbase)
  rw [ha', Option.all_some, hu'] at hafter
  cases hafter

end ManagedWalletInfo

end Dashcore
