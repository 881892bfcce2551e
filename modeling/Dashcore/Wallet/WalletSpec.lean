import Dashcore.Wallet.AccountSpec

/-!
# What wallet operations do to accounts

The loop over the matches of a transaction finds its account anew for each match. What it
finds does not change while the loop runs, so each account goes through exactly the matches
that name it at the start. For every account this is a sequence of the small steps in which
a transaction is taken.
-/

namespace Dashcore

open ManagedCoreFundsAccount SortedMap Option

/-- Whether the account has a friend's identity in its key, and no index of its own. -/
def FundsType.isDashpay : FundsType → Bool
  | .dashpayReceivingFunds | .dashpayExternalAccount => true
  | _ => false

namespace ManagedAccountCollection

/-! ### Finding the account of a match -/

/-- The two collections have the same accounts, as far as finding them goes. -/
structure SameResolution (c c' : ManagedAccountCollection) : Prop where
  funds : ∀ key, c'.funds.contains key = c.funds.contains key
  keys : ∀ key, c'.keys.contains key = c.keys.contains key
  dashpay : ∀ key a a', key.type.isDashpay = true → c.funds.get? key = some a →
    c'.funds.get? key = some a' →
    ∀ address, a'.keys.addresses.1.containsAddress address =
      a.keys.addresses.1.containsAddress address

variable {c c' : ManagedAccountCollection} {type : FundsType}

theorem SameResolution.findDashpay (h : SameResolution c c') (htype : type.isDashpay = true) (m : CoreAccountTypeMatch) :
    c'.findDashpay type m = c.findDashpay type m := by
  rw [ManagedAccountCollection.findDashpay, ManagedAccountCollection.findDashpay,
    keys_eq_of_contains h.funds]
  congr 1
  funext key
  by_cases hkey : key.type = type
  · cases hget : c.funds.get? key with
    | none =>
      have hnone : c'.funds.get? key = none := by
        have hhas := h.funds key
        simpa [contains, hget] using hhas
      rw [hnone]
    | some a =>
      obtain ⟨a', hget'⟩ : ∃ a', c'.funds.get? key = some a' :=
        contains_iff.mp ((h.funds key).trans (contains_iff.mpr ⟨a, hget⟩))
      have hsame := h.dashpay key a a' (hkey ▸ htype) hget hget'
      simp only [hget', any_some, hsame]
  · simp [hkey]

/-- A match names the same account in both. -/
theorem SameResolution.getByAccountTypeMatch (h : SameResolution c c') (m : CoreAccountTypeMatch) :
    c'.getByAccountTypeMatch m = c.getByAccountTypeMatch m := by
  rw [ManagedAccountCollection.getByAccountTypeMatch,
    ManagedAccountCollection.getByAccountTypeMatch]
  simp only [indexed, h.funds, h.keys]
  split
  · rfl
  · rfl
  · rfl
  · rw [h.findDashpay rfl]
  · rw [h.findDashpay rfl]
  · rfl

variable {m : CoreAccountTypeMatch}

/-- A match names an account of its own type. -/
theorem type_of_getByAccountTypeMatch {c : ManagedAccountCollection}
    {key : FundsKey} (h : c.getByAccountTypeMatch m = some (.funds key)) :
    m.accountType = .funds key.type := by
  have hfind {type : FundsType} (h : c.findDashpay type m = some key) : key.type = type := by
    have hpred := List.find?_some h
    simp only [Bool.and_eq_true, decide_eq_true_eq] at hpred
    exact hpred.1.1
  have hindexed {key' : FundsKey} (h : c.indexed key' = some (.funds key)) : key = key' := by
    rw [indexed] at h
    split_ifs at h
    cases h
    rfl
  rw [getByAccountTypeMatch] at h
  split at h
  · cases hindexed h
    assumption
  · cases hindexed h
    assumption
  · cases hindexed h
    assumption
  · simp only [map_eq_some_iff, AccountKey.funds.injEq, exists_eq_right] at h
    rwa [hfind h]
  · simp only [map_eq_some_iff, AccountKey.funds.injEq, exists_eq_right] at h
    rwa [hfind h]
  · dsimp only at h
    split_ifs at h
    cases h

/-! ### The loop over the matches -/

section Loop

variable {R : Type}
  {onFunds : AccountMatch → FundsKey → ManagedCoreFundsAccount →
    ManagedCoreFundsAccount × (R → R)}
  {onKeys : AccountMatch → KeysKey → ManagedCoreKeysAccount → ManagedCoreKeysAccount × (R → R)}

/-- A function on accounts does not derive addresses for DashPay accounts. -/
def KeepsDashpay (onFunds : AccountMatch → FundsKey → ManagedCoreFundsAccount →
    ManagedCoreFundsAccount × (R → R)) : Prop :=
  ∀ m key a, m.accountTypeMatch.accountType = .funds key.type → key.type.isDashpay = true →
    ∀ address, (onFunds m key a).1.keys.addresses.1.containsAddress address =
      a.keys.addresses.1.containsAddress address

theorem get?_funds_modifyMatched (m : AccountMatch) (c : ManagedAccountCollection) (r : R)
    (key : FundsKey) :
    (modifyMatched m.accountTypeMatch (onFunds m) (onKeys m) (c, r)).1.funds.get? key =
      (c.funds.get? key).map fun a =>
        if c.getByAccountTypeMatch m.accountTypeMatch = some (.funds key) then
          (onFunds m key a).1 else a := by
  rw [modifyMatched]
  split
  · simp [*]
  · next key' hkey' =>
    by_cases hkey : key' = key
    · subst hkey
      split <;> simp [*]
    · split <;> simp [*]
  · next key' hkey' => split <;> simp [*]

theorem get?_keys_modifyMatched (m : AccountMatch) (c : ManagedAccountCollection) (r : R)
    (key : KeysKey) :
    (modifyMatched m.accountTypeMatch (onFunds m) (onKeys m) (c, r)).1.keys.get? key =
      (c.keys.get? key).map fun a =>
        if c.getByAccountTypeMatch m.accountTypeMatch = some (.keys key) then
          (onKeys m key a).1 else a := by
  rw [modifyMatched]
  split
  · simp [*]
  · next key' hkey' => split <;> simp [*]
  · next key' hkey' =>
    by_cases hkey : key' = key
    · subst hkey
      split <;> simp [*]
    · split <;> simp [*]

variable (onKeys) in
theorem sameResolution_modifyMatched (hkeeps : KeepsDashpay onFunds) (m : AccountMatch)
    (c : ManagedAccountCollection) (r : R) :
    SameResolution c (modifyMatched m.accountTypeMatch (onFunds m) (onKeys m) (c, r)).1 := by
  refine ⟨fun key => ?_, fun key => ?_, fun key a a' hdashpay hget hget' address => ?_⟩
  · rw [contains, get?_funds_modifyMatched, isSome_map]
    rfl
  · rw [contains, get?_keys_modifyMatched, isSome_map]
    rfl
  · rw [get?_funds_modifyMatched, hget, map_some] at hget'
    cases hget'
    split_ifs with hmatch
    · exact hkeeps m key a (type_of_getByAccountTypeMatch hmatch) hdashpay address
    · rfl

/-- Each funds account goes through the matches that name it. -/
theorem get?_funds_foldl_modifyMatched (hkeeps : KeepsDashpay onFunds)
    (affected : List AccountMatch) (c : ManagedAccountCollection) (r : R) (key : FundsKey) :
    (affected.foldl (fun acc m => modifyMatched m.accountTypeMatch (onFunds m) (onKeys m) acc)
        (c, r)).1.funds.get? key =
      (c.funds.get? key).map fun a =>
        (affected.filter fun m =>
          c.getByAccountTypeMatch m.accountTypeMatch = some (.funds key)).foldl
            (fun a m => (onFunds m key a).1) a := by
  induction affected generalizing c r with
  | nil => simp
  | cons m rest ih =>
    -- the rest of the loop starts with the first match applied, and finds the same accounts
    have hsame := sameResolution_modifyMatched onKeys hkeeps m c r
    rw [List.foldl_cons, ih, get?_funds_modifyMatched, map_map]
    simp only [hsame.getByAccountTypeMatch]
    congr 1
    funext a
    split_ifs <;> simp_all

/-- Each keys account goes through the matches that name it. -/
theorem get?_keys_foldl_modifyMatched (hkeeps : KeepsDashpay onFunds)
    (affected : List AccountMatch) (c : ManagedAccountCollection) (r : R) (key : KeysKey) :
    (affected.foldl (fun acc m => modifyMatched m.accountTypeMatch (onFunds m) (onKeys m) acc)
        (c, r)).1.keys.get? key =
      (c.keys.get? key).map fun a =>
        (affected.filter fun m =>
          c.getByAccountTypeMatch m.accountTypeMatch = some (.keys key)).foldl
            (fun a m => (onKeys m key a).1) a := by
  induction affected generalizing c r with
  | nil => simp
  | cons m rest ih =>
    have hsame := sameResolution_modifyMatched onKeys hkeeps m c r
    rw [List.foldl_cons, ih, get?_keys_modifyMatched, map_map]
    simp only [hsame.getByAccountTypeMatch]
    congr 1
    funext a
    split_ifs <;> simp_all

end Loop

/-- DashPay accounts have no key source that would extend their pool. -/
theorem useAddresses_of_isDashpay {xpubs : AccountXpubs} (htype : m.accountType = .funds type) (hdashpay : type.isDashpay = true)
    (a : ManagedCoreKeysAccount) (address : Address) :
    (a.useAddresses xpubs m).1.addresses.1.containsAddress address =
      a.addresses.1.containsAddress address := by
  have hnone : extendedPublicKeyForAccountType xpubs m.accountType m.accountIndex = none := by
    rw [htype]
    cases type with
    | dashpayReceivingFunds => rfl
    | dashpayExternalAccount => rfl
    | _ => cases hdashpay
  rw [ManagedCoreKeysAccount.useAddresses, hnone]
  exact a.foldl_markAddressUsed_addresses m.allInvolvedAddresses address

section Offer

variable {keepFinalized : Bool} {xpubs : AccountXpubs} {txid : Txid} {tx : Transaction}
  {context : TransactionContext} {transactionType : TransactionType}

theorem keepsDashpay_processMatch {isNew : Bool} :
    KeepsDashpay (processMatch keepFinalized xpubs txid tx context
      transactionType isNew) := by
  intro m key a htype hdashpay address
  cases isNew with
  | true =>
    have hsame : a.keys.SamePools (a.recordTransaction keepFinalized txid tx m context
      transactionType).1.keys := samePools_recordTransaction
    rw [← hsame.addresses]
    exact useAddresses_of_isDashpay htype hdashpay _ address
  | false =>
    have hsame : a.keys.SamePools (a.confirmTransaction keepFinalized txid tx m context
      transactionType).1.keys := samePools_confirmTransaction
    rw [← hsame.addresses]
    exact useAddresses_of_isDashpay htype hdashpay _ address

theorem keepsDashpay_lockMatch :
    KeepsDashpay (lockMatch keepFinalized txid tx context
      transactionType) := by
  intro m key a _ _ address
  rw [samePools_lockMatch.addresses]

variable {c : ManagedAccountCollection} {affected : List AccountMatch} {m : AccountMatch}
  {a : ManagedCoreKeysAccount}

theorem fresh_of_knows (h : c.knows keepFinalized txid affected = false) (hm : m ∈ affected)
    (hmatched : c.matchedKeys m.accountTypeMatch = some a) (context : TransactionContext) :
    a.Fresh keepFinalized txid context := by
  rw [knows, List.any_eq_false] at h
  have hnot := h m hm
  rw [hmatched] at hnot
  exact ManagedCoreKeysAccount.fresh_of_not_hasTransaction (by simpa using hnot) context

theorem unconfirmed_of_alreadyConfirmed
    (h : c.alreadyConfirmed keepFinalized txid affected = false) (hm : m ∈ affected)
    (hmatched : c.matchedKeys m.accountTypeMatch = some a) : a.Unconfirmed keepFinalized txid := by
  rw [alreadyConfirmed, List.any_eq_false] at h
  have hnot := h m hm
  rw [hmatched, any_some, Bool.not_eq_true, Bool.or_eq_false_iff] at hnot
  refine ⟨fun record hget => ?_,
    ManagedCoreKeysAccount.not_finalized_of_transactionIsFinalized hnot.1⟩
  simpa [hget] using hnot.2

end Offer

/-- The collections differ in balances at most. -/
def SameButBalances (c c' : ManagedAccountCollection) : Prop :=
  c'.keys = c.keys ∧ ∃ f : ManagedCoreFundsAccount → ManagedCoreFundsAccount,
    (∀ a, (f a).keys = a.keys ∧ (f a).coins = a.coins) ∧
      ∀ key, c'.funds.get? key = (c.funds.get? key).map f

theorem SameButBalances.refl (c : ManagedAccountCollection) : SameButBalances c c :=
  ⟨rfl, id, fun _ => ⟨rfl, rfl⟩, fun _ => map_id.symm ▸ rfl⟩

end ManagedAccountCollection

namespace ManagedWalletInfo

open ManagedAccountCollection

theorem sameButBalances_updateBalance (w : ManagedWalletInfo) :
    w.accounts.SameButBalances w.updateBalance.accounts :=
  ⟨rfl, fun a => a.updateBalance w.lastProcessedHeight, fun _ => ⟨rfl, rfl⟩,
    fun _ => get?_mapVal ..⟩

section Offer

variable (computeTxid : Transaction → Txid) (keepFinalized : Bool) (w : ManagedWalletInfo)
  (xpubs : AccountXpubs) (tx : Transaction) (context : TransactionContext)
  (shouldUpdateState shouldUpdateBalance : Bool)

/-- Offering a transaction leaves the accounts alone, or applies a lock in the matched
accounts, none of which has it in a block, or records it in all of them, or confirms it. -/
theorem checkCoreTransaction_cases :
    (w.checkCoreTransaction computeTxid keepFinalized xpubs tx context shouldUpdateState
        shouldUpdateBalance).1.accounts = w.accounts ∨
    (context.isInstantSend = true ∧
      w.accounts.alreadyConfirmed keepFinalized (computeTxid tx) (w.affectedAccounts tx) = false ∧
      ∃ r, SameButBalances
        (lockMatches keepFinalized (computeTxid tx) tx context
          (TransactionRouter.classifyTransaction tx) (w.affectedAccounts tx) (w.accounts, r)).1
        (w.checkCoreTransaction computeTxid keepFinalized xpubs tx context shouldUpdateState
          shouldUpdateBalance).1.accounts) ∨
    ((w.accounts.knows keepFinalized (computeTxid tx) (w.affectedAccounts tx) = false ∨
        context.confirmed = true) ∧
      ∃ r, SameButBalances
        (processMatches keepFinalized xpubs (computeTxid tx) tx context
          (TransactionRouter.classifyTransaction tx)
          (!w.accounts.knows keepFinalized (computeTxid tx) (w.affectedAccounts tx))
          (w.affectedAccounts tx) (w.accounts, r)).1
        (w.checkCoreTransaction computeTxid keepFinalized xpubs tx context shouldUpdateState
          shouldUpdateBalance).1.accounts) := by
  have hbalance (w : ManagedWalletInfo) : SameButBalances w.accounts
      (if shouldUpdateBalance then w.updateBalance else w).accounts := by
    split_ifs
    · exact w.sameButBalances_updateBalance
    · exact .refl _
  rw [checkCoreTransaction]
  dsimp only
  split
  · exact .inl rfl
  · split
    · next hlock =>
      split
      · exact .inl rfl
      · split
        · exact .inl rfl
        · next hconf =>
          exact .inr (.inl ⟨(Bool.and_eq_true_iff.mp hlock).2, by simpa using hconf, _,
            hbalance _⟩)
    · split
      · exact .inl rfl
      · next hproceed =>
        refine .inr (.inr ⟨?_, _, hbalance _⟩)
        cases hknows : w.accounts.knows keepFinalized (computeTxid tx) (w.affectedAccounts tx)
        · exact .inl rfl
        · exact .inr (by simpa [hknows] using hproceed)

/-- Offering a transaction takes each funds account through small steps. -/
theorem checkCoreTransaction_funds :
    w.accounts.funds.Rel (Relation.ReflTransGen
        (ManagedCoreFundsAccount.OfferStep keepFinalized (computeTxid tx) tx context))
      (w.checkCoreTransaction computeTxid keepFinalized xpubs tx context shouldUpdateState
        shouldUpdateBalance).1.accounts.funds := by
  intro key
  have hmatched {m : AccountMatch} {a : ManagedCoreFundsAccount}
      (hget : w.accounts.funds.get? key = some a)
      (hm : w.accounts.getByAccountTypeMatch m.accountTypeMatch = some (.funds key)) :
      w.accounts.matchedKeys m.accountTypeMatch = some a.keys := by
    simp [matchedKeys, hm, hget]
  rcases w.checkCoreTransaction_cases computeTxid keepFinalized xpubs tx context shouldUpdateState
    shouldUpdateBalance with heq | ⟨hlock, hconf, r, -, f, hf, hsame⟩ |
    ⟨hproceed, r, -, f, hf, hsame⟩
  · rw [heq]
    exact rel_refl (fun _ => .refl) _ key
  · rw [hsame, lockMatches, get?_funds_foldl_modifyMatched keepsDashpay_lockMatch]
    cases hget : w.accounts.funds.get? key with
    | none => exact .none
    | some a =>
      refine .some (.tail ?_ (.same ((hf _).1 ▸ .refl _) (hf _).2))
      apply Runs.reflTransGen_foldl fun a m h =>
        lockMatch_unconfirmed (a := a) h hlock
      intro m hm
      obtain ⟨hmem, hkey⟩ := List.mem_filter.mp hm
      exact unconfirmed_of_alreadyConfirmed hconf hmem
        (hmatched hget (of_decide_eq_true hkey))
  · rw [hsame, processMatches, get?_funds_foldl_modifyMatched keepsDashpay_processMatch]
    cases hget : w.accounts.funds.get? key with
    | none => exact .none
    | some a =>
      refine .some (.tail ?_ (.same ((hf _).1 ▸ .refl _) (hf _).2))
      cases hknows : w.accounts.knows keepFinalized (computeTxid tx) (w.affectedAccounts tx) with
      | false =>
        apply Runs.reflTransGen_foldl fun a m h =>
          processMatch_new (a := a) h
        intro m hm
        obtain ⟨hmem, hkey⟩ := List.mem_filter.mp hm
        exact fresh_of_knows hknows hmem (hmatched hget (of_decide_eq_true hkey)) context
      | true =>
        have hctx : context.confirmed = true := hproceed.resolve_left (by simp [hknows])
        exact Runs.reflTransGen_foldl (P := fun _ => True) (fun a m _ =>
          ⟨processMatch_known hctx, trivial⟩) fun _ _ => trivial

/-- Offering a transaction takes each keys account through small steps. -/
theorem checkCoreTransaction_keys :
    w.accounts.keys.Rel (Relation.ReflTransGen
        (ManagedCoreKeysAccount.OfferStep keepFinalized (computeTxid tx) tx context))
      (w.checkCoreTransaction computeTxid keepFinalized xpubs tx context shouldUpdateState
        shouldUpdateBalance).1.accounts.keys := by
  intro key
  have hmatched {m : AccountMatch} {a : ManagedCoreKeysAccount}
      (hget : w.accounts.keys.get? key = some a)
      (hm : w.accounts.getByAccountTypeMatch m.accountTypeMatch = some (.keys key)) :
      w.accounts.matchedKeys m.accountTypeMatch = some a := by
    simp [matchedKeys, hm, hget]
  rcases w.checkCoreTransaction_cases computeTxid keepFinalized xpubs tx context shouldUpdateState
    shouldUpdateBalance with heq | ⟨hlock, hconf, r, hsame, -⟩ | ⟨hproceed, r, hsame, -⟩
  · rw [heq]
    exact rel_refl (fun _ => .refl) _ key
  · rw [hsame, lockMatches, get?_keys_foldl_modifyMatched keepsDashpay_lockMatch]
    cases hget : w.accounts.keys.get? key with
    | none => exact .none
    | some a =>
      refine .some (Runs.reflTransGen_foldl (fun a m h =>
        ManagedCoreKeysAccount.lockMatch_unconfirmed (a := a) h hlock) fun m hm => ?_)
      obtain ⟨hmem, hkey⟩ := List.mem_filter.mp hm
      exact unconfirmed_of_alreadyConfirmed hconf hmem
        (hmatched hget (of_decide_eq_true hkey))
  · rw [hsame, processMatches, get?_keys_foldl_modifyMatched keepsDashpay_processMatch]
    cases hget : w.accounts.keys.get? key with
    | none => exact .none
    | some a =>
      cases hknows : w.accounts.knows keepFinalized (computeTxid tx) (w.affectedAccounts tx) with
      | false =>
        refine .some (Runs.reflTransGen_foldl (fun a m h =>
          ManagedCoreKeysAccount.processMatch_new (a := a) h) fun m hm => ?_)
        obtain ⟨hmem, hkey⟩ := List.mem_filter.mp hm
        exact fresh_of_knows hknows hmem (hmatched hget (of_decide_eq_true hkey)) context
      | true =>
        have hctx : context.confirmed = true := hproceed.resolve_left (by simp [hknows])
        exact .some (Runs.reflTransGen_foldl (P := fun _ => True) (fun a m _ =>
          ⟨ManagedCoreKeysAccount.processMatch_known hctx, trivial⟩) fun _ _ => trivial)

end Offer

end ManagedWalletInfo

end Dashcore
