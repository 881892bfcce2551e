import Dashcore.Wallet.WalletSpec

/-!
# Which match goes to which account

A match lists every address of its account that an output pays to, and no other address. If
matches lead back to the accounts they came from, an account goes through its own match and
no other, provided the routing selects its type.
-/

namespace Dashcore

open ManagedCoreFundsAccount ManagedCoreKeysAccount SortedMap TransactionRouter List

/-! ### Addresses of a match -/

namespace ManagedCoreKeysAccount

variable {a : ManagedCoreKeysAccount} {address : Address} {info : AddressInfo}

theorem containsAddress_iff :
    a.containsAddress address = true ↔
      ∃ pool ∈ a.addressPools, pool.1.containsAddress address = true := by
  rw [containsAddress, any_eq_true]

/-- An address of an account is found with its entry. -/
theorem getAddressInfo_of_containsAddress (h : a.containsAddress address = true) :
    ∃ info, a.getAddressInfo address = some info := by
  obtain ⟨pool, hpool, hhas⟩ := containsAddress_iff.mp h
  obtain ⟨-, info, hinfo, -⟩ := ConsistentPool.found hhas
  rw [← Option.isSome_iff_exists, getAddressInfo, findSome?_isSome_iff]
  exact ⟨pool, hpool, by rw [hinfo]; rfl⟩

/-- What is found for an address is the entry of that address. -/
theorem of_getAddressInfo (h : a.getAddressInfo address = some info) :
    a.containsAddress address = true ∧ info.address = address := by
  obtain ⟨pool, hpool, hinfo⟩ := exists_of_findSome?_eq_some h
  have hhas : pool.1.containsAddress address = true := by
    rw [AddressPool.addressInfo, Option.bind_eq_some_iff] at hinfo
    obtain ⟨index, hindex, -⟩ := hinfo
    exact contains_iff.mpr ⟨index, hindex⟩
  obtain ⟨-, info', hinfo', haddr⟩ := ConsistentPool.found hhas
  cases hinfo.symm.trans hinfo'
  exact ⟨containsAddress_iff.mpr ⟨pool, hpool, hhas⟩, haddr⟩

variable {script : ScriptBuf}

/-- A script that pays to an address of the account is recognised. -/
theorem involvedByScript_of_containsAddress (hscript : Address.fromScript script = some address)
    (h : a.containsAddress address = true) :
    ∃ info, a.involvedByScript script = some (address, info) := by
  obtain ⟨pool, hpool, hhas⟩ := containsAddress_iff.mp h
  have hfound : a.containsScriptPubKey script = true := by
    rw [Address.fromScript_eq_some hscript, containsScriptPubKey, any_eq_true]
    exact ⟨pool, hpool, (ConsistentPool.found hhas).1⟩
  obtain ⟨info, hinfo⟩ := getAddressInfo_of_containsAddress h
  exact ⟨info, by rw [involvedByScript, if_pos hfound, hscript, Option.bind_some, hinfo]; rfl⟩

theorem of_involvedByScript (h : a.involvedByScript script = some (address, info)) :
    a.getAddressInfo address = some info := by
  rw [involvedByScript] at h
  split_ifs at h
  obtain ⟨address', -, hinfo⟩ := Option.bind_eq_some_iff.mp h
  obtain ⟨info', hinfo', heq⟩ := Option.map_eq_some_iff.mp hinfo
  cases heq
  exact hinfo'

end ManagedCoreKeysAccount

variable {a : ManagedCoreFundsAccount} {key : FundsKey} {type : FundsType} {tx : Transaction}
  {m : AccountMatch} {address : Address} {info : AddressInfo}

namespace ManagedCoreFundsAccount

/-- Involved addresses come with their entries. -/
theorem getAddressInfo_of_mem_involvedAddresses (h : (address, info) ∈ a.involvedAddresses tx) :
    a.keys.getAddressInfo address = some info := by
  rw [involvedAddresses, mem_append, mem_append] at h
  rcases h with (hpayout | houtput) | hspent
  · rw [Option.mem_toList] at hpayout
    obtain ⟨script, -, hscript⟩ := Option.bind_eq_some_iff.mp hpayout
    exact ManagedCoreKeysAccount.of_involvedByScript hscript
  · obtain ⟨output, -, hscript⟩ := mem_filterMap.mp houtput
    exact ManagedCoreKeysAccount.of_involvedByScript hscript
  · obtain ⟨u, -, hinfo⟩ := mem_filterMap.mp hspent
    obtain ⟨info', hinfo', heq⟩ := Option.map_eq_some_iff.mp hinfo
    cases heq
    exact hinfo'

/-- The addresses of a standard account are on one of its two lists. -/
theorem classifyAddress_ne_other (htype : type = .standardBip44 ∨ type = .standardBip32)
    (h : a.keys.containsAddress address = true) : a.classifyAddress type address ≠ .other := by
  obtain ⟨pool, hpool, hhas⟩ := ManagedCoreKeysAccount.containsAddress_iff.mp h
  have hclass : a.classifyAddress .standardBip44 address ≠ .other := by
    rw [classifyAddress]
    split_ifs with hexternal hinternal
    · exact AddressClassification.noConfusion
    · exact AddressClassification.noConfusion
    · rw [addressPools, mem_cons, Option.mem_toList] at hpool
      rcases hpool with rfl | hpool
      · exact absurd hhas hexternal
      · rw [hpool, Option.any_some] at hinternal
        exact absurd hhas hinternal
  rcases htype with rfl | rfl
  · exact hclass
  · exact hclass

theorem mem_involvedOf {classification : AddressClassification} :
    info ∈ a.involvedOf type tx classification ↔
      ∃ address, (address, info) ∈ a.involvedAddresses tx ∧
        a.classifyAddress type address = classification := by
  simp only [involvedOf, mem_map, mem_filter, decide_eq_true_eq, Prod.exists, exists_eq_right]

section

variable (h : a.checkTransactionForMatch key tx = some m)
include h

/-- The lists of a match are made of the classes that its type has. -/
theorem mem_allInvolvedAddresses_iff :
    info ∈ m.accountTypeMatch.allInvolvedAddresses ↔
      info ∈ a.involvedOf key.type tx .external ∨ info ∈ a.involvedOf key.type tx .internal ∨
        info ∈ a.involvedOf key.type tx .other := by
  have hstandard (htype : key.type = .standardBip44 ∨ key.type = .standardBip32) :
      info ∉ a.involvedOf key.type tx .other := by
    intro hmem
    obtain ⟨address, hmem, hclass⟩ := mem_involvedOf.mp hmem
    have hinfo := getAddressInfo_of_mem_involvedAddresses hmem
    exact classifyAddress_ne_other htype (ManagedCoreKeysAccount.of_getAddressInfo hinfo).1 hclass
  rw [checkTransactionForMatch] at h
  split_ifs at h
  cases h
  cases htype : key.type with
  | standardBip44 =>
    have hother := hstandard (.inl htype)
    rw [htype] at hother
    simp [CoreAccountTypeMatch.allInvolvedAddresses, hother]
  | standardBip32 =>
    have hother := hstandard (.inr htype)
    rw [htype] at hother
    simp [CoreAccountTypeMatch.allInvolvedAddresses, hother]
  | coinJoin =>
    have hinternal : info ∉ a.involvedOf .coinJoin tx .internal := by
      intro hmem
      obtain ⟨address, -, hclass⟩ := mem_involvedOf.mp hmem
      rw [classifyAddress] at hclass
      split_ifs at hclass
    simp [CoreAccountTypeMatch.allInvolvedAddresses, hinternal]
  | dashpayReceivingFunds | dashpayExternalAccount =>
    simp [CoreAccountTypeMatch.allInvolvedAddresses, involvedOf, classifyAddress]

/-- A match lists the entries of the involved addresses. -/
theorem mem_allInvolvedAddresses :
    info ∈ m.accountTypeMatch.allInvolvedAddresses ↔
      ∃ address, (address, info) ∈ a.involvedAddresses tx := by
  rw [mem_allInvolvedAddresses_iff h]
  simp only [mem_involvedOf]
  constructor
  · rintro (⟨address, hmem, -⟩ | ⟨address, hmem, -⟩ | ⟨address, hmem, -⟩) <;>
      exact ⟨address, hmem⟩
  · rintro ⟨address, hmem⟩
    cases hclass : a.classifyAddress key.type address with
    | external => exact .inl ⟨address, hmem, hclass⟩
    | internal => exact .inr (.inl ⟨address, hmem, hclass⟩)
    | other => exact .inr (.inr ⟨address, hmem, hclass⟩)

/-- A match lists an address exactly if it is an involved one. -/
theorem involves_iff :
    involves m address = true ↔ ∃ info, (address, info) ∈ a.involvedAddresses tx := by
  rw [involves, contains_iff_mem, mem_map]
  constructor
  · rintro ⟨info, hmem, rfl⟩
    obtain ⟨address, hmem⟩ := (mem_allInvolvedAddresses h).mp hmem
    have hinfo := getAddressInfo_of_mem_involvedAddresses hmem
    rw [(ManagedCoreKeysAccount.of_getAddressInfo hinfo).2]
    exact ⟨info, hmem⟩
  · rintro ⟨info, hmem⟩
    have hinfo := getAddressInfo_of_mem_involvedAddresses hmem
    exact ⟨info, (mem_allInvolvedAddresses h).mpr ⟨address, hmem⟩,
      (ManagedCoreKeysAccount.of_getAddressInfo hinfo).2⟩

/-- A match lists addresses of its account only. -/
theorem containsAddress_of_involves (hinvolves : involves m address = true) :
    a.keys.containsAddress address = true := by
  obtain ⟨info, hmem⟩ := (involves_iff h).mp hinvolves
  exact (ManagedCoreKeysAccount.of_getAddressInfo
    (getAddressInfo_of_mem_involvedAddresses hmem)).1

end

/-- An output to an address of the account involves that address. -/
theorem involved_of_pays {output : TxOut} (houtput : output ∈ tx.output)
    (hscript : Address.fromScript output.scriptPubkey = some address)
    (howned : a.keys.containsAddress address = true) :
    ∃ info, (address, info) ∈ a.involvedAddresses tx := by
  obtain ⟨info, hinfo⟩ := ManagedCoreKeysAccount.involvedByScript_of_containsAddress hscript howned
  refine ⟨info, ?_⟩
  rw [involvedAddresses, mem_append, mem_append]
  exact .inl (.inr (mem_filterMap.mpr ⟨output, houtput, hinfo⟩))

end ManagedCoreFundsAccount

/-! ### From a match to its account -/

theorem ManagedCoreFundsAccount.of_checkTransactionForMatch
    (h : a.checkTransactionForMatch key tx = some m) :
    m.accountTypeMatch.accountType = .funds key.type ∧
      m.accountTypeMatch.accountIndex = some key.index := by
  rw [checkTransactionForMatch] at h
  split_ifs at h
  cases h
  exact ⟨rfl, rfl⟩

theorem ManagedCoreKeysAccount.type_of_check {a : ManagedCoreKeysAccount} {key : KeysKey}
    (h : a.check key tx = some m) : m.accountTypeMatch.accountType = .keys key.type := by
  have hkey {type : KeysType} {info : Option AddressInfo}
      (h : info.map (keyMatch type) = some m) : m.accountTypeMatch.accountType = .keys type := by
    obtain ⟨info, -, rfl⟩ := Option.map_eq_some_iff.mp h
    rfl
  have hassetLock (h : a.checkAssetLockTransactionForMatch key tx = some m) :
      m.accountTypeMatch.accountType = .keys key.type := by
    rw [checkAssetLockTransactionForMatch] at h
    split at h
    · dsimp only at h
      split_ifs at h
      cases h
      rfl
    · cases h
  rw [check] at h
  cases htype : key.type with
  | identityTopUp =>
    simp only [htype, checkTransactionForMatch] at h
    split_ifs at h
    cases h
    rfl
  | providerVotingKeys | providerOwnerKeys | providerPlatformKeys =>
    rw [htype] at h
    exact hkey h
  | providerOperatorKeys =>
    rw [htype] at h
    obtain ⟨_, -, hfound⟩ := Option.bind_eq_some_iff.mp h
    exact hkey hfound
  | _ =>
    rw [htype] at h
    exact htype ▸ hassetLock h

namespace ManagedAccountCollection

variable {c : ManagedAccountCollection}

/-- The matches of accounts of this type lead back to their accounts. -/
def Resolves (c : ManagedAccountCollection) (tx : Transaction) (type : FundsType) : Prop :=
  ∀ key a m, key.type = type → c.funds.get? key = some a →
    a.checkTransactionForMatch key tx = some m →
    c.getByAccountTypeMatch m.accountTypeMatch = some (.funds key)

theorem type_of_mem_checkAccountType {type : AccountTypeToCheck}
    (h : m ∈ c.checkAccountType tx type) : m.accountTypeMatch.accountType = type := by
  cases type with
  | funds type =>
    obtain ⟨e, -, hmatch⟩ := mem_filterMap.mp h
    split_ifs at hmatch with htype
    rw [(of_checkTransactionForMatch hmatch).1, htype]
  | keys type =>
    obtain ⟨e, -, hmatch⟩ := mem_filterMap.mp h
    split_ifs at hmatch with htype
    rw [type_of_check hmatch, htype]

/-- Accounts with an index are found by it. -/
theorem resolves_of_not_isDashpay (htype : type.isDashpay = false) : c.Resolves tx type := by
  rintro key a m rfl hget hmatch
  obtain ⟨haccount, hindex⟩ := of_checkTransactionForMatch hmatch
  have hhas : c.funds.contains key = true := contains_iff.mpr ⟨a, hget⟩
  rw [getByAccountTypeMatch, haccount, hindex]
  cases key with
  | dashpayReceivingFunds _ _ _ => cases htype
  | dashpayExternalAccount _ _ _ => cases htype
  | _ => exact if_pos hhas

/-- If one element of a list without duplicates contributes, the result is its part. -/
theorem flatMap_eq_of_unique {α β : Type*} {l : List α} {g : α → List β} {x : α}
    (hnodup : l.Nodup) (hx : x ∈ l) (hother : ∀ y ∈ l, y ≠ x → g y = []) :
    l.flatMap g = g x := by
  induction l with
  | nil => cases hx
  | cons y l ih =>
    obtain ⟨hy, hnodup⟩ := nodup_cons.mp hnodup
    rw [flatMap_cons]
    rcases mem_cons.mp hx with rfl | hx
    · have hrest : l.flatMap g = [] := flatMap_eq_nil_iff.mpr fun z hz =>
        hother z (mem_cons_of_mem x hz) fun heq => hy (heq ▸ hz)
      rw [hrest, append_nil]
    · have hfirst : g y = [] := hother y mem_cons_self fun heq => hy (heq ▸ hx)
      rw [hfirst, nil_append]
      exact ih hnodup hx fun z hz => hother z (mem_cons_of_mem y hz)

/-- Among the matches of its type, an account is named by its own only. -/
theorem filter_checkAccountType (hresolves : c.Resolves tx key.type)
    (hget : c.funds.get? key = some a) :
    ((c.checkAccountType tx (.funds key.type)).filter fun m =>
        c.getByAccountTypeMatch m.accountTypeMatch = some (.funds key)) =
      (a.checkTransactionForMatch key tx).toList := by
  rw [checkAccountType, filter_filterMap, filterMap_eq_flatMap_toList,
    flatMap_eq_of_unique (x := ⟨key, a⟩) (List.Pairwise.imp ?_ c.funds.sorted)
      (mem_entries_iff.mpr hget) ?_]
  · rw [if_pos rfl]
    cases hmatch : a.checkTransactionForMatch key tx with
    | none => rfl
    | some m => simp [hresolves key a m rfl hget hmatch]
  · rintro e e' hlt rfl
    exact lt_irrefl _ hlt
  · -- the match of another account names that one
    rintro ⟨key', a'⟩ hmem hne
    have hget' := mem_entries_iff.mp hmem
    split_ifs with htype
    · cases hmatch : a'.checkTransactionForMatch key' tx with
      | none => rfl
      | some m =>
        have hkey : key' ≠ key := by
          rintro rfl
          cases hget.symm.trans hget'
          exact hne rfl
        simp [hresolves key' a' m htype hget' hmatch, hkey]
    · rfl

theorem nodup_getRelevantAccountTypes (type : TransactionType) :
    (getRelevantAccountTypes type).Nodup := by
  cases type <;> decide

/-- Among all matches of a transaction, an account is named by its own only, and by that if
the routing selects its type. -/
theorem filter_checkTransaction {types : List AccountTypeToCheck}
    (hresolves : .funds key.type ∈ types → c.Resolves tx key.type)
    (hget : c.funds.get? key = some a) (hnodup : types.Nodup) :
    ((c.checkTransaction tx types).filter fun m =>
        c.getByAccountTypeMatch m.accountTypeMatch = some (.funds key)) =
      if .funds key.type ∈ types then (a.checkTransactionForMatch key tx).toList else [] := by
  have hother : ∀ type ∈ types, type ≠ .funds key.type →
      ((c.checkAccountType tx type).filter fun m =>
        c.getByAccountTypeMatch m.accountTypeMatch = some (.funds key)) = [] := by
    intro type _ hne
    rw [filter_eq_nil_iff]
    intro m hm hnames
    refine hne ((type_of_mem_checkAccountType hm).symm.trans ?_)
    exact type_of_getByAccountTypeMatch (of_decide_eq_true hnames)
  rw [checkTransaction, filter_flatMap]
  split_ifs with htype
  · rw [flatMap_eq_of_unique hnodup htype hother, filter_checkAccountType (hresolves htype) hget]
  · exact flatMap_eq_nil_iff.mpr fun type hmem =>
      hother type hmem fun heq => htype (heq ▸ hmem)

end ManagedAccountCollection

namespace ManagedWalletInfo

open ManagedAccountCollection

/-- The routing of a transaction selects funds accounts of a type. -/
def RoutesTo (tx : Transaction) (type : FundsType) : Prop :=
  .funds type ∈
    getRelevantAccountTypes (classifyTransaction tx)

instance (tx : Transaction) (type : FundsType) : Decidable (RoutesTo tx type) :=
  inferInstanceAs (Decidable (_ ∈ _))

/-- Recording or confirming a transaction takes an account through its own match. -/
theorem processMatches_funds {w : ManagedWalletInfo}
    (hresolves : RoutesTo tx key.type → w.accounts.Resolves tx key.type)
    (hget : w.accounts.funds.get? key = some a) (keepFinalized : Bool) (xpubs : AccountXpubs)
    (txid : Txid) (context : TransactionContext) (transactionType : TransactionType)
    (isNew : Bool) (r : TransactionCheckResult) :
    (processMatches keepFinalized xpubs txid tx context transactionType isNew
        (w.affectedAccounts tx) (w.accounts, r)).1.funds.get? key =
      some (if RoutesTo tx key.type then (a.checkTransactionForMatch key tx).elim a fun m =>
        (a.processMatch keepFinalized xpubs txid tx context transactionType isNew m key).1
        else a) := by
  rw [processMatches, get?_funds_foldl_modifyMatched keepsDashpay_processMatch, hget,
    Option.map_some, affectedAccounts,
    filter_checkTransaction hresolves hget (nodup_getRelevantAccountTypes _)]
  split_ifs with hroutes hmem hmem
  · cases a.checkTransactionForMatch key tx <;> rfl
  · exact absurd hroutes hmem
  · exact absurd hmem hroutes
  · rfl

/-! ### Pools -/

theorem poolsGrow_processMatch (keepFinalized : Bool) (xpubs : AccountXpubs) (txid : Txid)
    (tx : Transaction) (context : TransactionContext) (transactionType : TransactionType)
    (isNew : Bool) (m : AccountMatch) (key : FundsKey) (a : ManagedCoreFundsAccount) :
    a.keys.PoolsGrow (a.processMatch keepFinalized xpubs txid tx context transactionType isNew m
      key).1.keys := by
  cases isNew with
  | true =>
    exact (ManagedCoreKeysAccount.PoolsGrow.of_samePools
      samePools_recordTransaction).trans
        (poolsGrow_useAddresses _ xpubs m.accountTypeMatch)
  | false =>
    exact (ManagedCoreKeysAccount.PoolsGrow.of_samePools
      samePools_confirmTransaction).trans
        (poolsGrow_useAddresses _ xpubs m.accountTypeMatch)

/-- Offering a transaction removes no address from a pool. -/
theorem checkCoreTransaction_poolsGrow (computeTxid : Transaction → Txid) (keepFinalized : Bool)
    (w : ManagedWalletInfo) (xpubs : AccountXpubs) (tx : Transaction)
    (context : TransactionContext) (shouldUpdateState shouldUpdateBalance : Bool) :
    w.accounts.funds.Rel (fun a a' => a.keys.PoolsGrow a'.keys)
      (w.checkCoreTransaction computeTxid keepFinalized xpubs tx context shouldUpdateState
        shouldUpdateBalance).1.accounts.funds := by
  have hrefl (a : ManagedCoreFundsAccount) : a.keys.PoolsGrow a.keys := .of_samePools (.refl _)
  have hfold {onFunds : ManagedCoreFundsAccount → AccountMatch → ManagedCoreFundsAccount}
      (hround : ∀ (a : ManagedCoreFundsAccount) (m : AccountMatch),
        a.keys.PoolsGrow (onFunds a m).keys) (affected : List AccountMatch)
      (a : ManagedCoreFundsAccount) : a.keys.PoolsGrow (affected.foldl onFunds a).keys := by
    induction affected generalizing a with
    | nil => exact hrefl a
    | cons m rest ih => exact (hround a m).trans (ih _)
  intro key
  rcases w.checkCoreTransaction_cases computeTxid keepFinalized xpubs tx context shouldUpdateState
    shouldUpdateBalance with heq | ⟨-, -, r, -, f, hf, hsame⟩ | ⟨-, r, -, f, hf, hsame⟩
  · rw [heq]
    exact rel_refl hrefl _ key
  · rw [hsame, lockMatches, get?_funds_foldl_modifyMatched keepsDashpay_lockMatch]
    cases w.accounts.funds.get? key with
    | none => exact .none
    | some a =>
      refine .some ?_
      rw [(hf _).1]
      exact hfold (fun a m => .of_samePools samePools_lockMatch) _ a
  · rw [hsame, processMatches, get?_funds_foldl_modifyMatched keepsDashpay_processMatch]
    cases w.accounts.funds.get? key with
    | none => exact .none
    | some a =>
      refine .some ?_
      rw [(hf _).1]
      exact hfold (fun a m => poolsGrow_processMatch ..) _ a

end ManagedWalletInfo

end Dashcore
