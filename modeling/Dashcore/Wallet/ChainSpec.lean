import Dashcore.Wallet.WalletSpec

/-!
# Chain locks and rewinds, account by account

A chain lock moves records in blocks up to its height to the final transactions. A rewind
returns records to the mempool, first those in blocks above its height, then in rounds
those that spend outputs of returned ones, and computes the coins anew from the records.
-/

namespace Dashcore

open SortedMap Option

variable {height : Nat} {r : TransactionRecord} {a : ManagedCoreKeysAccount} {txid : Txid}
  {r' : TransactionRecord}

namespace ManagedCoreKeysAccount

/-! ### Chain locks -/

theorem lockedBy_eq_some {clHeight : Nat} {context : TransactionContext} {info : BlockInfo} :
    lockedBy clHeight context = some info ↔ context = .inBlock info ∧ info.height ≤ clHeight := by
  cases context with
  | inBlock info' =>
    simp only [lockedBy, ite_none_right_eq_some, Option.some.injEq,
      TransactionContext.inBlock.injEq]
    constructor
    · rintro ⟨hle, rfl⟩
      exact ⟨rfl, hle⟩
    · rintro ⟨rfl, hle⟩
      exact ⟨hle, rfl⟩
  | _ => simp [lockedBy]

theorem get?_applyChainLock (keepFinalized : Bool) (a : ManagedCoreKeysAccount) (clHeight : Nat)
    (t : Txid) :
    (a.applyChainLock keepFinalized clHeight).1.transactions.get? t =
        ((a.transactions.get? t).bind fun record => match lockedBy clHeight record.context with
          | none => some record
          | some info =>
            if keepFinalized then some { record with context := .inChainLockedBlock info }
            else none) ∧
      (a.applyChainLock keepFinalized clHeight).1.finalizedTxids.get? t =
        ((a.transactions.get? t).bind fun record =>
          if keepFinalized then none else lockedBy clHeight record.context).or
            (a.finalizedTxids.get? t) := by
  cases keepFinalized with
  | true =>
    constructor
    · simp only [applyChainLock, ↓reduceIte, get?_mapVal]
      cases a.transactions.get? t with
      | none => rfl
      | some record => cases hlocked : lockedBy clHeight record.context <;> simp [hlocked]
    · cases a.transactions.get? t <;> simp [applyChainLock]
  | false =>
    constructor
    · simp only [applyChainLock, Bool.false_eq_true, ↓reduceIte, get?_filter,
        contains, get?_filterMap]
      cases hget : a.transactions.get? t with
      | none => simp
      | some record => cases hlocked : lockedBy clHeight record.context <;> simp [hlocked]
    · simp [applyChainLock]

theorem samePools_applyChainLock (keepFinalized : Bool) (a : ManagedCoreKeysAccount)
    (clHeight : Nat) : SamePools a (a.applyChainLock keepFinalized clHeight).1 := by
  cases keepFinalized <;> exact ⟨rfl, rfl⟩

/-! ### Demotion -/

/-- A record is as before, or was in a block and is back in the mempool. A coinbase is
returned only from above the height. -/
def Demoted (height : Nat) (r r' : TransactionRecord) : Prop :=
  r' = r ∨ ((isAbove height r = true ∨ r.transaction.isCoinBase = false) ∧
    r.context.confirmed = true ∧ r' = { r with context := .mempool })

/-- No record is in a block above the height. -/
def Settled (height : Nat) (a : ManagedCoreKeysAccount) : Prop :=
  ∀ t r, a.transactions.get? t = some r → isAbove height r = false

/-- Some records of an account were returned to the mempool. -/
structure Demotes (height : Nat) (a a' : ManagedCoreKeysAccount) : Prop where
  pools : SamePools a a'
  finalizedTxids : a'.finalizedTxids = a.finalizedTxids
  transactions : a.transactions.Rel (Demoted height) a'.transactions

theorem Demoted.trans {r' r'' : TransactionRecord} (h : Demoted height r r')
    (h' : Demoted height r' r'') : Demoted height r r'' := by
  rcases h with rfl | h
  · exact h'
  · rcases h' with rfl | h'
    · exact .inr h
    · -- a record in the mempool cannot be demoted again
      obtain ⟨-, -, rfl⟩ := h
      cases h'.2.1

theorem Demoted.transaction (h : Demoted height r r') :
    r'.transaction = r.transaction := by
  rcases h with rfl | ⟨-, -, rfl⟩ <;> rfl

theorem Demoted.isInactive (h : Demoted height r r') :
    r'.context.isInactive = r.context.isInactive := by
  rcases h with rfl | ⟨-, hconf, rfl⟩
  · rfl
  · cases hctx : r.context <;> rw [hctx] at hconf <;>
      first | rfl | cases hconf

namespace Demotes

variable {a' a'' : ManagedCoreKeysAccount}

theorem refl (height : Nat) (a : ManagedCoreKeysAccount) : Demotes height a a :=
  ⟨.refl a, rfl, rel_refl (fun _ => .inl rfl) _⟩

theorem trans (h : Demotes height a a') (h' : Demotes height a' a'') : Demotes height a a'' :=
  ⟨h.pools.trans h'.pools, h'.finalizedTxids.trans h.finalizedTxids,
    h.transactions.trans (fun _ _ _ h h' => h.trans h') h'.transactions⟩

end Demotes

theorem demotes_demoteRecordsAbove (a : ManagedCoreKeysAccount) (height : Nat) :
    Demotes height a (a.demoteRecordsAbove height).1 := by
  refine ⟨⟨rfl, rfl⟩, rfl, rel_mapVal fun t r _ => ?_⟩
  split_ifs with habove
  · refine .inr ⟨.inl habove, ?_, rfl⟩
    rw [isAbove, any_eq_true] at habove
    obtain ⟨info, hinfo, -⟩ := habove
    simp [TransactionContext.confirmed, hinfo]
  · exact .inl rfl

theorem settled_demoteRecordsAbove (a : ManagedCoreKeysAccount) (height : Nat) :
    Settled height (a.demoteRecordsAbove height).1 := by
  intro t r' hget
  rw [demoteRecordsAbove, get?_mapVal, map_eq_some_iff] at hget
  obtain ⟨r, -, rfl⟩ := hget
  split_ifs with habove
  · rfl
  · simpa using habove

theorem Settled.of_demotes {a' : ManagedCoreKeysAccount} (h : Settled height a)
    (h' : Demotes height a a') : Settled height a' := by
  intro t r' hget
  obtain ⟨r, hr, hdemoted⟩ := h'.transactions.of_get? hget
  rcases hdemoted with rfl | ⟨-, -, rfl⟩
  · exact h t r' hr
  · rfl

theorem demotes_demoteRecord
    (h : ∀ r, a.transactions.get? txid = some r → r.transaction.isCoinBase = false) :
    Demotes height a (a.demoteRecord txid).1 := by
  rw [demoteRecord]
  split
  · exact .refl height a
  · next r hget =>
    split_ifs with hconf
    · refine ⟨a.samePools_updateContext txid .mempool, ?_, fun t => ?_⟩
      · rw [updateContext_of_get? .mempool hget]
      · rw [updateContext_of_get? .mempool hget]
        rw [get?_insert]
        split_ifs with ht
        · subst ht
          rw [hget]
          exact .some (.inr ⟨.inr (h r hget), hconf, rfl⟩)
        · exact (Demotes.refl height a).transactions t
    · exact .refl height a

theorem demotes_demoteAll {txids : List Txid}
    (h : ∀ txid ∈ txids, ∀ r, a.transactions.get? txid = some r →
      r.transaction.isCoinBase = false) : Demotes height a (a.demoteAll txids).1 := by
  suffices haux : ∀ (demoted : List Txid) (a : ManagedCoreKeysAccount),
      (∀ txid ∈ txids, ∀ r, a.transactions.get? txid = some r →
        r.transaction.isCoinBase = false) →
      Demotes height a (txids.foldl (fun (acc : ManagedCoreKeysAccount × List Txid) txid =>
        ((acc.1.demoteRecord txid).1,
          if (acc.1.demoteRecord txid).2 then acc.2 ++ [txid] else acc.2)) (a, demoted)).1 from
    haux [] a h
  clear h
  induction txids with
  | nil => exact fun _ a _ => .refl height a
  | cons txid rest ih =>
    intro demoted a h
    have hfirst : Demotes height a (a.demoteRecord txid).1 :=
      demotes_demoteRecord (h txid List.mem_cons_self)
    refine hfirst.trans (ih _ _ fun txid' hmem r' hget' => ?_)
    -- demoting does not change the transactions themselves
    obtain ⟨r, hget, hdemoted⟩ := hfirst.transactions.of_get? hget'
    rw [hdemoted.transaction]
    exact h txid' (List.mem_cons_of_mem txid hmem) r hget

theorem demotes_cascadeRound (height : Nat) (alreadyDemoted : List Txid)
    {released : List OutPoint} (hnull : OutPoint.null ∉ released) (a : ManagedCoreKeysAccount) :
    Demotes height a (a.cascadeRound alreadyDemoted released).1 := by
  refine demotes_demoteAll fun txid hmem r hget => ?_
  obtain ⟨⟨t, r'⟩, he, rfl⟩ := List.mem_map.mp hmem
  have hfilter := mem_entries_iff.mp he
  rw [get?_filter, hget] at hfilter
  obtain ⟨heq, hpred⟩ := filter_eq_some_iff.mp hfilter
  cases heq
  obtain ⟨input, hinput, hreleased⟩ := List.any_eq_true.mp (Bool.and_eq_true_iff.mp hpred).2
  -- the input of a coinbase is null, and no output is
  rw [Transaction.isCoinBase]
  split
  · next input' hsingle =>
    rw [hsingle, List.mem_singleton] at hinput
    subst hinput
    rw [decide_eq_false_iff_not]
    intro hinput
    exact hnull (hinput ▸ of_decide_eq_true hreleased)
  · rfl

end ManagedCoreKeysAccount

namespace ManagedAccountCollection

/-- The null outpoint is above every index of an output. -/
theorem null_not_mem_releasedOutpoints (c : ManagedAccountCollection) (frontier : List Txid) :
    OutPoint.null ∉ c.releasedOutpoints frontier := by
  intro hmem
  rw [releasedOutpoints, List.mem_flatMap] at hmem
  obtain ⟨a, -, hmem⟩ := hmem
  obtain ⟨txid, -, hmem⟩ := List.mem_flatMap.mp hmem
  split at hmem
  · obtain ⟨vout, hvout, heq⟩ := List.mem_map.mp hmem
    have hlt := List.mem_range.mp hvout
    have hvout : vout = 2 ^ 32 - 1 := congrArg OutPoint.vout heq
    omega
  · cases hmem

/-- Some records of the accounts were returned to the mempool. -/
structure Demotes (height : Nat) (c c' : ManagedAccountCollection) : Prop where
  funds : c.funds.Rel (fun a a' => a'.coins = a.coins ∧ a.keys.Demotes height a'.keys) c'.funds
  keys : c.keys.Rel (ManagedCoreKeysAccount.Demotes height) c'.keys

theorem Demotes.trans {c c' c'' : ManagedAccountCollection} (h : Demotes height c c')
    (h' : Demotes height c' c'') : Demotes height c c'' :=
  ⟨h.funds.trans (fun _ _ _ h h' => ⟨h'.1.trans h.1, h.2.trans h'.2⟩) h'.funds,
    h.keys.trans (fun _ _ _ h h' => h.trans h') h'.keys⟩

theorem demotes_mapKeys {f : ManagedCoreKeysAccount → ManagedCoreKeysAccount}
    (h : ∀ a, ManagedCoreKeysAccount.Demotes height a (f a)) (c : ManagedAccountCollection) :
    Demotes height c (c.mapKeys f) :=
  ⟨rel_mapVal fun _ a _ => ⟨rfl, h a.keys⟩, rel_mapVal fun _ a _ => h a⟩

theorem Demotes.refl (height : Nat) (c : ManagedAccountCollection) : Demotes height c c :=
  ⟨rel_refl (fun _ => ⟨rfl, .refl height _⟩) _,
    rel_refl (fun _ => .refl height _) _⟩

theorem demotes_cascade (height fuel : Nat) (alreadyDemoted frontier : List Txid)
    (c : ManagedAccountCollection) :
    Demotes height c (cascade fuel alreadyDemoted frontier c).1 := by
  induction fuel generalizing alreadyDemoted frontier c with
  | zero => exact .refl height c
  | succ fuel ih =>
    rw [cascade]
    dsimp only
    have hround := demotes_mapKeys (ManagedCoreKeysAccount.demotes_cascadeRound height
      alreadyDemoted (c.null_not_mem_releasedOutpoints frontier)) c
    split_ifs
    · exact .refl height c
    · exact hround
    · exact hround.trans (ih _ _ _)

end ManagedAccountCollection

/-! ### Coins computed from records -/

namespace ManagedCoreFundsAccount

theorem mem_byHeight {records : List TransactionRecord} : r ∈ byHeight records ↔ r ∈ records := by
  exact List.mem_insertionSort _

theorem createdCoins_keys (owned trusted : Address → Bool) (txid : Txid) (tx : Transaction)
    (context : TransactionContext) :
    (createdCoins owned trusted txid tx context).map Prod.fst =
      (ownedOutputs owned tx).map fun output => (⟨txid, output.1⟩ : OutPoint) := by
  rw [createdCoins, List.map_map]
  rfl

variable {computeTxid : Transaction → Txid} {a : ManagedCoreFundsAccount} {o : OutPoint}

/-- The record is retained, and active. -/
def Retains (a : ManagedCoreFundsAccount) (r : TransactionRecord) : Prop :=
  (∃ t, a.keys.transactions.get? t = some r) ∧ r.context.isInactive = false

theorem mem_activeRecords : r ∈ a.activeRecords ↔ a.Retains r := by
  rw [activeRecords, mem_byHeight, List.mem_filter, mem_values_iff, Retains, Bool.not_eq_true']

theorem rebuildEntry_keys (r : TransactionRecord) :
    (a.rebuildEntry computeTxid r).1.map Prod.fst =
      (ownedOutputs a.keys.containsAddress r.transaction).map fun output =>
        (⟨computeTxid r.transaction, output.1⟩ : OutPoint) :=
  createdCoins_keys ..

/-- A computed coin is an output of a retained record to an address of the account. -/
theorem of_get?_rebuildUtxos {u : Utxo}
    (h : (a.rebuildUtxos computeTxid).utxos.get? o = some u) :
    ∃ r trusted, a.Retains r ∧ (o, u) ∈ createdCoins a.keys.containsAddress trusted
      (computeTxid r.transaction) r.transaction r.context := by
  obtain ⟨entry, hentry, hmem⟩ := CoinSet.of_get?_build h
  obtain ⟨r, hr, rfl⟩ := List.mem_map.mp hentry
  exact ⟨r, a.rebuildTrusts computeTxid r, mem_activeRecords.mp hr, hmem⟩

theorem mem_spent_rebuildUtxos :
    o ∈ (a.rebuildUtxos computeTxid).spentOutpoints ↔
      ∃ r, a.Retains r ∧ o ∈ r.transaction.input.map TxIn.previousOutput := by
  refine CoinSet.mem_spent_build.trans ⟨?_, ?_⟩
  · rintro ⟨entry, hentry, hmem⟩
    obtain ⟨r, hr, rfl⟩ := List.mem_map.mp hentry
    exact ⟨r, mem_activeRecords.mp hr, hmem⟩
  · rintro ⟨r, hr, hmem⟩
    exact ⟨_, List.mem_map_of_mem (mem_activeRecords.mpr hr), hmem⟩

/-- The computed coins are the outputs of retained records to addresses of the account that
no retained record spends. -/
theorem contains_rebuildUtxos_iff :
    (a.rebuildUtxos computeTxid).utxos.contains o = true ↔
      (∃ r, a.Retains r ∧ ∃ output ∈ ownedOutputs a.keys.containsAddress r.transaction,
        (⟨computeTxid r.transaction, output.1⟩ : OutPoint) = o) ∧
      ∀ r, a.Retains r → o ∉ r.transaction.input.map TxIn.previousOutput := by
  refine CoinSet.contains_build_iff.trans (and_congr ⟨?_, ?_⟩ ?_)
  · rintro ⟨entry, hentry, hmem⟩
    obtain ⟨r, hr, rfl⟩ := List.mem_map.mp hentry
    rw [rebuildEntry_keys] at hmem
    exact ⟨r, mem_activeRecords.mp hr, List.mem_map.mp hmem⟩
  · rintro ⟨r, hr, hmem⟩
    refine ⟨_, List.mem_map_of_mem (mem_activeRecords.mpr hr), ?_⟩
    rw [rebuildEntry_keys]
    exact List.mem_map.mpr hmem
  · rw [List.forall_mem_map]
    simp only [mem_activeRecords]
    rfl

/-- What a rewind makes of a funds account: records above the height and what spends their
outputs are back in the mempool, and the coins are those of the records. -/
structure Rewound (computeTxid : Transaction → Txid) (height : Nat)
    (a a' : ManagedCoreFundsAccount) : Prop where
  demotes : a.keys.Demotes height a'.keys
  settled : a'.keys.Settled height
  coins : a'.coins = (a'.rebuildUtxos computeTxid).coins

end ManagedCoreFundsAccount

namespace ManagedAccountCollection

variable (c : ManagedAccountCollection)

theorem demoteAbove_funds (height : Nat) :
    c.funds.Rel (fun a a' => a.keys.Demotes height a'.keys ∧ a'.keys.Settled height)
      (c.demoteAbove height).1.funds := by
  have hfirst : c.funds.Rel (fun a a' => a'.keys = (a.keys.demoteRecordsAbove height).1)
      (c.mapKeys fun account => (account.demoteRecordsAbove height).1).funds :=
    rel_mapVal fun _ _ _ => rfl
  refine hfirst.trans (fun a a₁ a' heq hcascade => ?_) (demotes_cascade height _ _ _ _).funds
  have habove : a.keys.Demotes height a₁.keys := heq ▸ a.keys.demotes_demoteRecordsAbove height
  have hsettled : a₁.keys.Settled height := heq ▸ a.keys.settled_demoteRecordsAbove height
  exact ⟨habove.trans hcascade.2, hsettled.of_demotes hcascade.2⟩

theorem demoteAbove_keys (height : Nat) :
    c.keys.Rel (fun a a' => a.Demotes height a' ∧ a'.Settled height)
      (c.demoteAbove height).1.keys := by
  have hfirst : c.keys.Rel (fun a a' => a' = (a.demoteRecordsAbove height).1)
      (c.mapKeys fun account => (account.demoteRecordsAbove height).1).keys :=
    rel_mapVal fun _ _ _ => rfl
  refine hfirst.trans (fun a a₁ a' heq hcascade => ?_) (demotes_cascade height _ _ _ _).keys
  subst heq
  exact ⟨(a.demotes_demoteRecordsAbove height).trans hcascade,
    (a.settled_demoteRecordsAbove height).of_demotes hcascade⟩

end ManagedAccountCollection

namespace ManagedWalletInfo

variable (computeTxid : Transaction → Txid) (w : ManagedWalletInfo) (height : Nat)

/-- A rewind is refused below a chain lock. -/
def RewindRefused : Prop :=
  ∃ chainLock, w.lastAppliedChainLock = some chainLock ∧ height < chainLock.blockHeight

instance : Decidable (w.RewindRefused height) :=
  decidable_of_iff (w.lastAppliedChainLock.any (height < ·.blockHeight) = true)
    (by simp [RewindRefused, any_eq_true])

variable {w height}

theorem rewindToHeight_refused (h : w.RewindRefused height) :
    ∃ e, w.rewindToHeight computeTxid height = (w, .error e) := by
  obtain ⟨chainLock, hlock, hlt⟩ := h
  rw [rewindToHeight, hlock, filter_some, if_pos (by simpa using hlt)]
  exact ⟨_, rfl⟩

variable (h : ¬w.RewindRefused height)
include h

theorem rewindToHeight_filter :
    (w.lastAppliedChainLock.filter fun chainLock => height < chainLock.blockHeight) = none := by
  rw [filter_eq_none_iff]
  intro chainLock hlock hlt
  exact h ⟨chainLock, hlock, by simpa using hlt⟩

theorem rewindToHeight_ok : ∃ outcome, (w.rewindToHeight computeTxid height).2 = .ok outcome := by
  rw [rewindToHeight, rewindToHeight_filter h]
  exact ⟨_, rfl⟩

theorem rewindToHeight_funds :
    w.accounts.funds.Rel (ManagedCoreFundsAccount.Rewound computeTxid height)
      (w.rewindToHeight computeTxid height).1.accounts.funds := by
  rw [rewindToHeight, rewindToHeight_filter h]
  intro key
  have hrel := w.accounts.demoteAbove_funds height key
  dsimp only [updateBalance, ManagedAccountCollection.mapAccounts]
  rw [get?_mapVal, get?_mapVal, map_map]
  revert hrel
  generalize w.accounts.funds.get? key = x
  generalize (w.accounts.demoteAbove height).1.funds.get? key = y
  intro hrel
  cases hrel with
  | none => exact .none
  | some hrel =>
    have hbump (a : ManagedCoreKeysAccount) : a.Demotes height a.bumpMonitorRevision :=
      ⟨⟨rfl, rfl⟩, rfl, (ManagedCoreKeysAccount.Demotes.refl height a).transactions⟩
    exact .some ⟨hrel.1.trans (hbump _), hrel.2, rfl⟩

theorem rewindToHeight_keys :
    w.accounts.keys.Rel (fun a a' => a.Demotes height a' ∧ a'.Settled height)
      (w.rewindToHeight computeTxid height).1.accounts.keys := by
  rw [rewindToHeight, rewindToHeight_filter h]
  intro key
  dsimp only [updateBalance, ManagedAccountCollection.mapAccounts]
  simpa using w.accounts.demoteAbove_keys height key

end ManagedWalletInfo

/-! ### Accounts of either kind -/

namespace ManagedAccountCollection

/-- The pools and records of an account. -/
def records (c : ManagedAccountCollection) : AccountKey → Option ManagedCoreKeysAccount
  | .funds key => (c.funds.get? key).map ManagedCoreFundsAccount.keys
  | .keys key => c.keys.get? key

@[simp] theorem records_mapKeys (c : ManagedAccountCollection)
    (f : ManagedCoreKeysAccount → ManagedCoreKeysAccount) (key : AccountKey) :
    (c.mapKeys f).records key = (c.records key).map f := by
  cases key with
  | funds key =>
    simp only [records, mapKeys, mapAccounts, get?_mapVal, map_map]
    rfl
  | keys key => exact get?_mapVal ..

theorem SameButBalances.records {c c' : ManagedAccountCollection} (h : SameButBalances c c')
    (key : AccountKey) : c'.records key = c.records key := by
  obtain ⟨hkeys, f, hf, hfunds⟩ := h
  cases key with
  | funds key =>
    rw [ManagedAccountCollection.records, ManagedAccountCollection.records, hfunds, map_map]
    congr 1
    funext a
    exact (hf a).1
  | keys key => rw [ManagedAccountCollection.records, ManagedAccountCollection.records, hkeys]

end ManagedAccountCollection

variable {w : ManagedWalletInfo}

namespace ManagedWalletInfo

variable {computeTxid : Transaction → Txid} {keepFinalized : Bool}

variable (computeTxid keepFinalized) in
/-- Offering a transaction takes the records of each account through small steps. -/
theorem checkCoreTransaction_records {key : AccountKey}
    (h : w.accounts.records key = some a) (xpubs : AccountXpubs) (tx : Transaction)
    (context : TransactionContext) (shouldUpdateState shouldUpdateBalance : Bool) :
    ∃ a', (w.checkCoreTransaction computeTxid keepFinalized xpubs tx context shouldUpdateState
        shouldUpdateBalance).1.accounts.records key = some a' ∧
      Relation.ReflTransGen (ManagedCoreKeysAccount.OfferStep keepFinalized (computeTxid tx) tx
        context) a a' := by
  cases key with
  | funds key =>
    obtain ⟨account, haccount, rfl⟩ := map_eq_some_iff.mp h
    obtain ⟨account', haccount', hsteps⟩ := (w.checkCoreTransaction_funds computeTxid keepFinalized
      xpubs tx context shouldUpdateState shouldUpdateBalance).get? haccount
    exact ⟨account'.keys, map_eq_some_iff.mpr ⟨account', haccount', rfl⟩,
      hsteps.lift ManagedCoreFundsAccount.keys fun _ _ => ManagedCoreFundsAccount.OfferStep.keys⟩
  | keys key =>
    exact (w.checkCoreTransaction_keys computeTxid keepFinalized xpubs tx context
      shouldUpdateState shouldUpdateBalance).get? h

/-- A lock from outside replaces the context of a record, whatever it is. -/
theorem markInstantSendUtxos_records
    (hnew : txid ∉ w.instantSendLocks) (lock : InstantLock) (key : AccountKey) :
    (w.markInstantSendUtxos txid lock).1.accounts.records key =
      (w.accounts.records key).map fun a => a.updateContext txid (.instantSend lock) := by
  have hmark : (w.accounts.mapAccounts (fun account => (account.markUtxosInstantSend txid).1)
      id).records key = w.accounts.records key := by
    cases key with
    | funds key =>
      simp only [ManagedAccountCollection.records, ManagedAccountCollection.mapAccounts,
        get?_mapVal, map_map]
      rfl
    | keys key =>
      simp [ManagedAccountCollection.records, ManagedAccountCollection.mapAccounts]
  rw [markInstantSendUtxos, if_neg hnew]
  dsimp only
  split_ifs
  · rw [(sameButBalances_updateBalance _).records]
    simp only [ManagedAccountCollection.records_mapKeys, hmark]
  · simp only [ManagedAccountCollection.records_mapKeys, hmark]

theorem applyChainLock_records (w : ManagedWalletInfo) (chainLock : ChainLock)
    (key : AccountKey) :
    (w.applyChainLock keepFinalized chainLock).1.accounts.records key =
      (w.accounts.records key).map fun a =>
        (a.applyChainLock keepFinalized chainLock.blockHeight).1 :=
  w.accounts.records_mapKeys _ key

variable (computeTxid) in
theorem rewindToHeight_records (h : ¬w.RewindRefused height)
    (key : AccountKey) :
    Option.Rel (fun a a' => a.Demotes height a' ∧ a'.Settled height) (w.accounts.records key)
      ((w.rewindToHeight computeTxid height).1.accounts.records key) := by
  cases key with
  | funds key =>
    have hrel := rewindToHeight_funds computeTxid h key
    rw [ManagedAccountCollection.records, ManagedAccountCollection.records]
    generalize w.accounts.funds.get? key = x at hrel
    generalize (w.rewindToHeight computeTxid height).1.accounts.funds.get? key = y at hrel
    cases hrel with
    | none => exact .none
    | some hrewound => exact .some ⟨hrewound.demotes, hrewound.settled⟩
  | keys key => exact rewindToHeight_keys computeTxid h key

end ManagedWalletInfo

/-! ### One action -/

namespace ManagedCoreFundsAccount

/-- What an action can do to a funds account of a wallet. -/
inductive Change (computeTxid : Transaction → Txid) (keepFinalized : Bool)
    (w : ManagedWalletInfo) : WalletAction → ManagedCoreFundsAccount →
      ManagedCoreFundsAccount → Prop
  | same {action : WalletAction} {a a' : ManagedCoreFundsAccount} (hkeys : a'.keys = a.keys)
      (hcoins : a'.coins = a.coins) : Change computeTxid keepFinalized w action a a'
  | offer {xpubs : AccountXpubs} {tx : Transaction} {context : TransactionContext}
      {shouldUpdateState shouldUpdateBalance : Bool} {a a' : ManagedCoreFundsAccount}
      (h : Relation.ReflTransGen (OfferStep keepFinalized (computeTxid tx) tx context) a a') :
      Change computeTxid keepFinalized w
        (.checkCoreTransaction xpubs tx context shouldUpdateState shouldUpdateBalance) a a'
  | chainLock {chainLock : ChainLock} {a a' : ManagedCoreFundsAccount}
      (hkeys : a'.keys = (a.keys.applyChainLock keepFinalized chainLock.blockHeight).1)
      (hcoins : a'.coins = a.coins) :
      Change computeTxid keepFinalized w (.applyChainLock chainLock) a a'
  | mark {txid : Txid} {lock : InstantLock} {a a' : ManagedCoreFundsAccount}
      (hkeys : a'.keys = a.keys.updateContext txid (.instantSend lock))
      (hcoins : a'.coins = (a.markUtxosInstantSend txid).1.coins) :
      Change computeTxid keepFinalized w (.markInstantSendUtxos txid lock) a a'
  | rewind {height : Nat} {a a' : ManagedCoreFundsAccount} (hallowed : ¬w.RewindRefused height)
      (h : Rewound computeTxid height a a') :
      Change computeTxid keepFinalized w (.rewindToHeight height) a a'

end ManagedCoreFundsAccount

namespace ManagedWalletInfo

variable (computeTxid : Transaction → Txid) (keepFinalized : Bool)

theorem markInstantSendUtxos_funds (hnew : txid ∉ w.instantSendLocks) (lock : InstantLock) :
    w.accounts.funds.Rel (fun a a' => a'.keys = a.keys.updateContext txid (.instantSend lock) ∧
        a'.coins = (a.markUtxosInstantSend txid).1.coins)
      (w.markInstantSendUtxos txid lock).1.accounts.funds := by
  have hmarked : w.accounts.funds.Rel
      (fun a a' => a'.keys = a.keys.updateContext txid (.instantSend lock) ∧
        a'.coins = (a.markUtxosInstantSend txid).1.coins)
      ((w.accounts.mapAccounts (fun account => (account.markUtxosInstantSend txid).1) id).mapKeys
        fun account => account.updateContext txid (.instantSend lock)).funds := by
    intro key
    simp only [ManagedAccountCollection.mapKeys, ManagedAccountCollection.mapAccounts, get?_mapVal]
    cases w.accounts.funds.get? key with
    | none => exact .none
    | some a => exact .some ⟨rfl, rfl⟩
  have hbalance (c : ManagedAccountCollection) : c.funds.Rel
      (fun a a' => a'.keys = a.keys ∧ a'.coins = a.coins)
      (c.funds.mapVal fun _ a => a.updateBalance w.lastProcessedHeight) :=
    rel_mapVal fun _ _ _ => ⟨rfl, rfl⟩
  rw [markInstantSendUtxos, if_neg hnew]
  dsimp only
  split_ifs
  · refine hmarked.trans (fun _ _ _ h h' => ?_) (hbalance _)
    exact ⟨h'.1.trans h.1, h'.2.trans h.2⟩
  · exact hmarked

/-- What an action does to each funds account. -/
theorem step_funds (w : ManagedWalletInfo) (action : WalletAction) :
    w.accounts.funds.Rel (ManagedCoreFundsAccount.Change computeTxid keepFinalized w action)
      (w.step computeTxid keepFinalized action).accounts.funds := by
  cases action with
  | checkCoreTransaction xpubs tx context shouldUpdateState shouldUpdateBalance =>
    exact (w.checkCoreTransaction_funds computeTxid keepFinalized xpubs tx context
      shouldUpdateState shouldUpdateBalance).mono fun _ _ => .offer
  | applyChainLock chainLock => exact rel_mapVal fun _ _ _ => .chainLock rfl rfl
  | markInstantSendUtxos txid lock =>
    by_cases hnew : txid ∈ w.instantSendLocks
    · rw [step, markInstantSendUtxos, if_pos hnew]
      exact rel_refl (fun _ => .same rfl rfl) _
    · exact (markInstantSendUtxos_funds hnew lock).mono fun _ _ h => .mark h.1 h.2
  | updateLastProcessedHeight height => exact rel_mapVal fun _ _ _ => .same rfl rfl
  | updateSyncedHeight height => exact rel_refl (fun _ => .same rfl rfl) _
  | rewindToHeight height =>
    by_cases hrefused : w.RewindRefused height
    · obtain ⟨e, he⟩ := rewindToHeight_refused computeTxid hrefused
      rw [step, he]
      exact rel_refl (fun _ => .same rfl rfl) _
    · exact (rewindToHeight_funds computeTxid hrefused).mono fun _ _ h => .rewind hrefused h

end ManagedWalletInfo

end Dashcore
