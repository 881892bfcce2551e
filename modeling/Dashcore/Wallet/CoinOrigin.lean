import Dashcore.Wallet.ChainSpec

/-!
# Where coins come from

Every coin of a funds account is an output of a transaction that was offered to the wallet
and that the account still knows, by its record or as final. Records carry the txid they
are kept under.
-/

namespace Dashcore

open SortedMap

/-- The coin is an output of a transaction with the txid of its outpoint. -/
def Utxo.MadeBy (computeTxid : Transaction → Txid) (offered : Transaction → Prop) (o : OutPoint)
    (u : Utxo) : Prop :=
  ∃ tx, offered tx ∧ computeTxid tx = o.txid ∧ tx.output[o.vout]? = some u.txout ∧
    Address.fromScript u.txout.scriptPubkey = some u.address ∧ u.isCoinbase = tx.isCoinBase

theorem Utxo.MadeBy.of_sameCoin {computeTxid : Transaction → Txid}
    {offered : Transaction → Prop} {o : OutPoint} {u u' : Utxo}
    (h : u.MadeBy computeTxid offered o) (h' : u.SameCoin u') : u'.MadeBy computeTxid offered o := by
  obtain ⟨tx, hoffered, htxid, houtput, hscript, hbase⟩ := h
  refine ⟨tx, hoffered, htxid, ?_, ?_, h'.isCoinbase.trans hbase⟩
  · rw [houtput, h'.txout]
  · rw [h'.txout, hscript, h'.address]

/-! ### Known transactions -/

variable {record : TransactionRecord} {txid : Txid}

namespace ManagedCoreKeysAccount

variable {keepFinalized : Bool} {a a' : ManagedCoreKeysAccount} {t : Txid}

theorem hasTransaction_iff :
    a.hasTransaction keepFinalized t = true ↔ a.transactions.contains t = true ∨
      (keepFinalized = false ∧ a.finalizedTxids.contains t = true) := by
  simp [hasTransaction]

theorem hasTransaction_of_get? {r : TransactionRecord} (h : a.transactions.get? t = some r) :
    a.hasTransaction keepFinalized t = true :=
  hasTransaction_iff.mpr (.inl (contains_iff.mpr ⟨r, h⟩))

/-- Storing makes a transaction known and forgets none. -/
theorem Stores.hasTransaction (h : Stores keepFinalized txid record a a')
    (ht : txid = t ∨ a.hasTransaction keepFinalized t = true) :
    a'.hasTransaction keepFinalized t = true := by
  by_cases heq : txid = t
  · cases hdrops : drops keepFinalized record.context with
    | false =>
      refine hasTransaction_of_get? (r := record) ?_
      rw [h.transactions, if_pos heq, hdrops]
      rfl
    | true =>
      obtain ⟨hkeep, hlocked⟩ := Bool.and_eq_true_iff.mp hdrops
      obtain ⟨info, hinfo⟩ := isChainLocked_iff.mp hlocked
      refine hasTransaction_iff.mpr (.inr ⟨by simpa using hkeep, ?_⟩)
      rw [contains, h.finalizedTxids, if_pos ⟨heq, hdrops⟩, hinfo]
      rfl
  · rw [hasTransaction_iff, contains, contains, h.transactions,
      h.finalizedTxids, if_neg heq, if_neg fun hdrop => heq hdrop.1]
    exact hasTransaction_iff.mp (ht.resolve_left heq)

theorem hasTransaction_applyChainLock (h : a.hasTransaction keepFinalized t = true)
    (clHeight : Nat) :
    (a.applyChainLock keepFinalized clHeight).1.hasTransaction keepFinalized t = true := by
  obtain ⟨htxs, hfin⟩ := get?_applyChainLock keepFinalized a clHeight t
  rw [hasTransaction_iff, contains, contains, htxs, hfin]
  rcases hasTransaction_iff.mp h with hrec | ⟨hkeep, hfinal⟩
  · obtain ⟨r, hr⟩ := contains_iff.mp hrec
    rw [hr, Option.bind_some, Option.bind_some]
    cases lockedBy clHeight r.context with
    | none => exact .inl rfl
    | some info => cases keepFinalized <;> simp
  · refine .inr ⟨hkeep, ?_⟩
    rw [Option.isSome_or]
    exact Bool.or_eq_true_iff.mpr (.inr hfinal)

/-- A record after a chain lock has the transaction of the one before. -/
theorem of_get?_applyChainLock {clHeight : Nat} {r' : TransactionRecord}
    (h : (a.applyChainLock keepFinalized clHeight).1.transactions.get? t = some r') :
    ∃ r, a.transactions.get? t = some r ∧ r'.transaction = r.transaction ∧
      (r' = r ∧ lockedBy clHeight r.context = none ∨
        keepFinalized = true ∧ ∃ info, lockedBy clHeight r.context = some info ∧
          r'.context = .inChainLockedBlock info) := by
  rw [(get?_applyChainLock keepFinalized a clHeight t).1, Option.bind_eq_some_iff] at h
  obtain ⟨r, hr, hlocked⟩ := h
  refine ⟨r, hr, ?_⟩
  cases hlock : lockedBy clHeight r.context with
  | none =>
    rw [hlock] at hlocked
    cases hlocked
    exact ⟨rfl, .inl ⟨rfl, rfl⟩⟩
  | some info =>
    simp only [hlock, Option.ite_none_right_eq_some, Option.some.injEq] at hlocked
    obtain ⟨hkeep, rfl⟩ := hlocked
    exact ⟨rfl, .inr ⟨hkeep, info, rfl, rfl⟩⟩

end ManagedCoreKeysAccount

/-- The action offers this transaction. -/
def WalletAction.Offers (tx : Transaction) : WalletAction → Prop
  | .checkCoreTransaction _ tx' _ _ _ => tx' = tx
  | _ => False

/-! ### Accounts -/

variable {w : ManagedWalletInfo} {action : WalletAction}

namespace ManagedCoreFundsAccount

/-- Records and coins come from offered transactions. -/
structure Accounted (computeTxid : Transaction → Txid) (keepFinalized : Bool)
    (offered : Transaction → Prop) (a : ManagedCoreFundsAccount) : Prop where
  record : ∀ t r, a.keys.transactions.get? t = some r →
    computeTxid r.transaction = t ∧ offered r.transaction
  coin : ∀ o u, a.utxos.get? o = some u →
    a.keys.hasTransaction keepFinalized o.txid = true ∧ u.MadeBy computeTxid offered o

variable {computeTxid : Transaction → Txid} {keepFinalized : Bool} {offered : Transaction → Prop}
  {a a' : ManagedCoreFundsAccount} {context : TransactionContext} {tx : Transaction}

theorem madeBy_of_mem_createdCoins {owned trusted : Address → Bool} {o : OutPoint} {u : Utxo}
    (h : (o, u) ∈ createdCoins owned trusted (computeTxid tx) tx context) (hoffered : offered tx) :
    o.txid = computeTxid tx ∧ u.MadeBy computeTxid offered o := by
  obtain ⟨vout, output, address, houtput, hscript, -, rfl, rfl⟩ := mem_createdCoins.mp h
  exact ⟨rfl, tx, hoffered, rfl, houtput, hscript, rfl⟩

variable (h : a.Accounted computeTxid keepFinalized offered)
include h

theorem Accounted.of_same (hkeys : a.keys.SameRecords a'.keys) (hcoins : a'.coins = a.coins) :
    a'.Accounted computeTxid keepFinalized offered := by
  constructor
  · rw [hkeys.transactions]
    exact h.record
  · intro o u hu
    rw [utxos, hcoins] at hu
    rw [hkeys.hasTransaction]
    exact h.coin o u hu

theorem Accounted.of_marks (hkeys : a.keys.SameRecords a'.keys)
    (hcoins : a'.coins = (a.markUtxosInstantSend txid).1.coins) :
    a'.Accounted computeTxid keepFinalized offered := by
  constructor
  · rw [hkeys.transactions]
    exact h.record
  · intro o u hu
    rw [utxos, hcoins] at hu
    obtain ⟨u₀, hu₀, hcoin⟩ := of_get?_markUtxosInstantSend hu
    obtain ⟨hknown, hmade⟩ := h.coin o u₀ hu₀
    rw [hkeys.hasTransaction]
    exact ⟨hknown, hmade.of_sameCoin hcoin⟩

/-- Storing a record of an offered transaction keeps an account accounted for, if the coins
are those it had or outputs of that transaction. -/
theorem Accounted.of_stores (hstores : a.keys.Stores keepFinalized txid record a'.keys)
    (hrecord : computeTxid record.transaction = txid ∧ offered record.transaction)
    (hcoins : ∀ o u, a'.utxos.get? o = some u →
      (o.txid = txid ∧ u.MadeBy computeTxid offered o) ∨
        ∃ u₀, a.utxos.get? o = some u₀ ∧ u₀.SameCoin u) :
    a'.Accounted computeTxid keepFinalized offered := by
  constructor
  · intro t r hr
    rcases hstores.of_get? hr with ⟨rfl, rfl, -⟩ | ⟨-, hold⟩
    · exact hrecord
    · exact h.record t r hold
  · intro o u hu
    rcases hcoins o u hu with ⟨htxid, hmade⟩ | ⟨u₀, hu₀, hsame⟩
    · exact ⟨hstores.hasTransaction (.inl htxid.symm), hmade⟩
    · obtain ⟨hknown, hmade⟩ := h.coin o u₀ hu₀
      exact ⟨hstores.hasTransaction (.inr hknown), hmade.of_sameCoin hsame⟩

theorem Accounted.offerStep (hoffered : offered tx)
    (hstep : OfferStep keepFinalized (computeTxid tx) tx context a a') :
    a'.Accounted computeTxid keepFinalized offered := by
  cases hstep with
  | receives record m hctx htx hadmits hstores hcoins =>
    refine h.of_stores hstores ?_ fun o u hu => ?_
    · rcases htx with htx | ⟨old, hold, htx⟩
      · rw [htx]
        exact ⟨rfl, hoffered⟩
      · rw [htx]
        exact h.record _ old hold
    · rw [utxos, hcoins] at hu
      rcases of_get?_updateUtxos hu with ⟨-, hmem⟩ | hold
      · exact .inl (madeBy_of_mem_createdCoins hmem hoffered)
      · exact .inr ⟨u, hold, .refl u⟩
  | locks old hold hlock hadmits hstores hcoins =>
    refine h.of_stores hstores (h.record _ old hold) fun o u hu => ?_
    rw [utxos, hcoins] at hu
    exact .inr (of_get?_markUtxosInstantSend hu)
  | marks hsame hcoins => exact h.of_marks hsame hcoins
  | same hsame hcoins => exact h.of_same hsame hcoins

theorem Accounted.offerSteps (hoffered : offered tx)
    (hsteps : Relation.ReflTransGen (OfferStep keepFinalized (computeTxid tx) tx context) a a') :
    a'.Accounted computeTxid keepFinalized offered := by
  induction hsteps with
  | refl => exact h
  | tail _ hstep ih => exact ih.offerStep hoffered hstep

theorem Accounted.rewound {height : Nat} (hrewound : Rewound computeTxid height a a') :
    a'.Accounted computeTxid keepFinalized offered := by
  have hrecord : ∀ t r, a'.keys.transactions.get? t = some r →
      computeTxid r.transaction = t ∧ offered r.transaction := by
    intro t r' hr'
    obtain ⟨r, hr, hdemoted⟩ := hrewound.demotes.transactions.of_get? hr'
    rw [hdemoted.transaction]
    exact h.record t r hr
  refine ⟨hrecord, fun o u hu => ?_⟩
  rw [utxos, hrewound.coins] at hu
  obtain ⟨r, trusted, ⟨⟨t, hr⟩, -⟩, hmem⟩ := of_get?_rebuildUtxos hu
  obtain ⟨htxid, hoffered⟩ := hrecord t r hr
  obtain ⟨ho, hmade⟩ := madeBy_of_mem_createdCoins hmem hoffered
  exact ⟨ManagedCoreKeysAccount.hasTransaction_of_get? (by rw [ho, htxid, hr]), hmade⟩

/-- An action keeps an account accounted for. -/
theorem Accounted.change (hoffered : ∀ tx, action.Offers tx → offered tx)
    (hchange : Change computeTxid keepFinalized w action a a') :
    a'.Accounted computeTxid keepFinalized offered := by
  cases hchange with
  | same hkeys hcoins => exact h.of_same (hkeys ▸ .refl _) hcoins
  | offer hsteps => exact h.offerSteps (hoffered _ rfl) hsteps
  | chainLock hkeys hcoins =>
    constructor
    · intro t r' hr'
      rw [hkeys] at hr'
      obtain ⟨r, hr, htx, -⟩ := ManagedCoreKeysAccount.of_get?_applyChainLock hr'
      rw [htx]
      exact h.record t r hr
    · intro o u hu
      rw [utxos, hcoins] at hu
      obtain ⟨hknown, hmade⟩ := h.coin o u hu
      exact ⟨hkeys ▸ ManagedCoreKeysAccount.hasTransaction_applyChainLock hknown _, hmade⟩
  | @mark txid lock a a' hkeys hcoins =>
    rcases a.keys.updateContext_instantSend keepFinalized txid lock with
      ⟨-, hnone⟩ | ⟨r, hr, hstores⟩
    · exact h.of_marks (by rw [hkeys, hnone]; exact .refl _) hcoins
    · rw [← hkeys] at hstores
      refine h.of_stores hstores (h.record txid r hr) fun o u hu => ?_
      rw [utxos, hcoins] at hu
      exact .inr (of_get?_markUtxosInstantSend hu)
  | rewind _ hrewound => exact h.rewound hrewound

end ManagedCoreFundsAccount

/-! ### Runs -/

namespace ManagedWalletInfo

/-- A wallet that has seen nothing: no account has a transaction or a coin. -/
structure IsFresh (w : ManagedWalletInfo) : Prop where
  funds : ∀ key a, w.accounts.funds.get? key = some a →
    a.keys.transactions = ∅ ∧ a.keys.finalizedTxids = ∅ ∧ a.coins = ∅
  keys : ∀ key a, w.accounts.keys.get? key = some a →
    a.transactions = ∅ ∧ a.finalizedTxids = ∅
  lastAppliedChainLock : w.lastAppliedChainLock = none
  instantSendLocks : w.instantSendLocks = []

/-- Every funds account has the property. -/
def AllFunds (P : ManagedCoreFundsAccount → Prop) (w : ManagedWalletInfo) : Prop :=
  ∀ key a, w.accounts.funds.get? key = some a → P a

variable {computeTxid : Transaction → Txid} {keepFinalized : Bool}

/-- What an action keeps for each account, it keeps for the wallet. -/
theorem AllFunds.step {P : ManagedCoreFundsAccount → Prop} (h : w.AllFunds P)
    (hkeep : ∀ a a', P a →
      ManagedCoreFundsAccount.Change computeTxid keepFinalized w action a a' → P a') :
    (w.step computeTxid keepFinalized action).AllFunds P := by
  intro key a' ha'
  obtain ⟨a, ha, hchange⟩ := (w.step_funds computeTxid keepFinalized action).of_get? ha'
  exact hkeep a a' (h key a ha) hchange

theorem IsFresh.accounted (h : w.IsFresh)
    (offered : Transaction → Prop) :
    w.AllFunds fun a => a.Accounted computeTxid keepFinalized offered := by
  intro key a ha
  obtain ⟨htxs, -, hcoins⟩ := h.funds key a ha
  constructor
  · intro t r hr
    rw [htxs] at hr
    cases hr
  · intro o u hu
    rw [ManagedCoreFundsAccount.utxos, hcoins] at hu
    cases hu

end ManagedWalletInfo

/-- The sample wallet is fresh. -/
theorem Sample.isFresh : Sample.wallet.IsFresh := by
  refine ⟨fun key a ha => ?_, fun key a ha => ?_, rfl, rfl⟩
  · rw [Sample.wallet, ManagedWalletInfo.new, get?_insert] at ha
    split_ifs at ha
    · cases ha
      exact ⟨rfl, rfl, rfl⟩
    · cases ha
  · cases ha

namespace ManagedWalletInfo

/-- In every run from a fresh wallet, rewinds included, every coin of a funds account is an
output of a transaction that was offered, and the account still knows that transaction. -/
theorem run_coins_offered (computeTxid : Transaction → Txid) (keepFinalized : Bool)
    (w : ManagedWalletInfo) (actions : List WalletAction) (hfresh : w.IsFresh) :
    (Runs.run (step computeTxid keepFinalized) w actions).AllFunds fun a =>
      ∀ o u, a.utxos.get? o = some u → a.keys.hasTransaction keepFinalized o.txid = true ∧
        u.MadeBy computeTxid (fun tx => ∃ action ∈ actions, action.Offers tx) o := by
  have haccounted : (Runs.run (step computeTxid keepFinalized) w actions).AllFunds fun a =>
      a.Accounted computeTxid keepFinalized fun tx => ∃ action ∈ actions, action.Offers tx := by
    refine Runs.invariant_run (fun _ action hall hmem => ?_) (hfresh.accounted _)
      (Runs.along_of_forall_mem (D := (· ∈ actions)) fun _ hmem => hmem)
    exact hall.step fun a a' ha => ha.change fun tx hoffers => ⟨action, hmem, hoffers⟩
  exact fun key a ha => (haccounted key a ha).coin

/-- The coin of the sample payment. -/
theorem run_coins_offered_received :
    ∃ a u, (Runs.run (step Sample.computeTxid false) Sample.wallet
        [Sample.offer Sample.received .mempool]).accounts.funds.get? (.standardBip44 0) = some a ∧
      a.utxos.get? ⟨7, 0⟩ = some u ∧ a.keys.hasTransaction false 7 = true := by
  have hcoin : ((Runs.run (step Sample.computeTxid false) Sample.wallet
      [Sample.offer Sample.received .mempool]).accounts.funds.get? (.standardBip44 0)).any
        fun a => (a.utxos.get? ⟨7, 0⟩).isSome := by decide +kernel
  obtain ⟨a, ha, hsome⟩ := (Option.any_eq_true _ _).mp hcoin
  obtain ⟨u, hu⟩ := Option.isSome_iff_exists.mp hsome
  exact ⟨a, u, ha, hu, (run_coins_offered _ _ _ _ Sample.isFresh _ a ha _ u hu).1⟩

end ManagedWalletInfo

end Dashcore
