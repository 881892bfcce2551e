import Dashcore.Wallet.ChainSpec

/-!
# Confirmations stay

Once a transaction of an account is in a block, it is from then on in a block or final, as
long as nothing is rewound. Every way to take a transaction keeps this except one: applying
an InstantSend lock from outside replaces the context of a record in a block. Runs in which
no such lock meets a record in a block keep every confirmation, with the block the
transaction was last offered in.
-/

namespace Dashcore

open Sample SortedMap ManagedCoreKeysAccount Option

/-! ### One account -/

variable {context : TransactionContext} {t : Txid} {tx : Transaction}

namespace ManagedCoreKeysAccount

variable {keepFinalized : Bool} {txid : Txid} {blocks : BlockInfo → Prop}
  {a a' : ManagedCoreKeysAccount}

/-- The transaction is in one of the blocks, or dropped as final. -/
def StaysConfirmed (keepFinalized : Bool) (txid : Txid) (blocks : BlockInfo → Prop)
    (a : ManagedCoreKeysAccount) : Prop :=
  (∃ r b, a.transactions.get? txid = some r ∧ r.context.blockInfo = some b ∧ blocks b) ∨
    (keepFinalized = false ∧ a.finalizedTxids.contains txid = true)

variable (h : a.StaysConfirmed keepFinalized txid blocks)
include h

theorem StaysConfirmed.of_sameRecords (h' : SameRecords a a') :
    a'.StaysConfirmed keepFinalized txid blocks := by
  rw [StaysConfirmed, h'.transactions, h'.finalizedTxids]
  exact h

/-- Storing a record keeps a confirmation: of another transaction anyway, and of this one
if a record in a block is only replaced by one in a block. -/
theorem StaysConfirmed.of_stores {record : TransactionRecord}
    (hstores : Stores keepFinalized t record a a')
    (hreplaces : t = txid → ∀ r b, a.transactions.get? t = some r → r.context.blockInfo = some b →
      ∃ b', record.context.blockInfo = some b' ∧ blocks b') :
    a'.StaysConfirmed keepFinalized txid blocks := by
  by_cases ht : t = txid
  · subst ht
    rcases h with ⟨r, b, hget, hb, -⟩ | ⟨hkeep, hfinal⟩
    · obtain ⟨b', hb', hallowed⟩ := hreplaces rfl r b hget hb
      cases hdrops : drops keepFinalized record.context with
      | false =>
        refine .inl ⟨record, b', ?_, hb', hallowed⟩
        rw [hstores.transactions, if_pos rfl, hdrops]
        rfl
      | true =>
        refine .inr ⟨by simpa using (Bool.and_eq_true_iff.mp hdrops).1, ?_⟩
        rw [contains, hstores.finalizedTxids, if_pos ⟨rfl, hdrops⟩, hb']
        rfl
    · refine .inr ⟨hkeep, ?_⟩
      rw [contains, hstores.finalizedTxids]
      split_ifs with hdrop
      · obtain ⟨info, hinfo⟩ := isChainLocked_iff.mp (Bool.and_eq_true_iff.mp hdrop.2).2
        rw [hinfo]
        rfl
      · exact hfinal
  · rw [StaysConfirmed, contains, hstores.transactions, hstores.finalizedTxids,
      if_neg ht, if_neg fun hdrop => ht hdrop.1]
    exact h

section

variable (hblocks : t = txid → ∀ b, context.blockInfo = some b → blocks b)
include hblocks

theorem StaysConfirmed.of_offerStep (hstep : OfferStep keepFinalized t tx context a a') :
    a'.StaysConfirmed keepFinalized txid blocks := by
  cases hstep with
  | same hsame => exact h.of_sameRecords hsame
  | stores record hctx _ hadmits hstores =>
    subst hctx
    refine h.of_stores hstores fun ht r b hget hb => ?_
    -- what may be stored in place of a record in a block is in a block too
    obtain ⟨b', hb'⟩ : ∃ b', record.context.blockInfo = some b' := by
      rcases hadmits.confirmed r hget with hsame | hconf | hnot
      · exact ⟨b, hsame ▸ hb⟩
      · exact isSome_iff_exists.mp hconf
      · rw [TransactionContext.confirmed, hb] at hnot
        cases hnot
    exact ⟨b', hb', hblocks ht b' hb'⟩

theorem StaysConfirmed.of_offerSteps
    (hsteps : Relation.ReflTransGen (OfferStep keepFinalized t tx context) a a') :
    a'.StaysConfirmed keepFinalized txid blocks := by
  induction hsteps with
  | refl => exact h
  | tail _ hstep ih => exact ih.of_offerStep hblocks hstep

end

/-- A chain lock keeps a confirmation, or makes it final. -/
theorem StaysConfirmed.applyChainLock (clHeight : Nat) :
    (a.applyChainLock keepFinalized clHeight).1.StaysConfirmed keepFinalized txid blocks := by
  obtain ⟨htxs, hfin⟩ := get?_applyChainLock keepFinalized a clHeight txid
  rw [StaysConfirmed, contains, htxs, hfin]
  rcases h with ⟨r, b, hget, hb, hallowed⟩ | ⟨hkeep, hfinal⟩
  · rw [hget, bind_some, bind_some]
    cases hlocked : lockedBy clHeight r.context with
    | none => exact .inl ⟨r, b, rfl, hb, hallowed⟩
    | some info =>
      cases keepFinalized with
      | true =>
        have hinfo : some info = some b := by
          rw [← hb, (lockedBy_eq_some.mp hlocked).1]
          rfl
        cases hinfo
        exact .inl ⟨_, b, rfl, rfl, hallowed⟩
      | false => exact .inr ⟨rfl, rfl⟩
  · exact .inr ⟨hkeep, by
      rw [isSome_or]
      exact Bool.or_eq_true_iff.mpr (.inr hfinal)⟩

end ManagedCoreKeysAccount

/-! ### Runs -/

/-- The action offers the transaction in this block. -/
def WalletAction.OffersIn (computeTxid : Transaction → Txid) (txid : Txid) (b : BlockInfo) :
    WalletAction → Prop
  | .checkCoreTransaction _ tx context _ _ => computeTxid tx = txid ∧ context.blockInfo = some b
  | _ => False

namespace ManagedWalletInfo

/-- A lock from outside that is not a repeated one meets no record in a block. Nothing is
rewound. -/
def MarksUnconfirmed (w : ManagedWalletInfo) : WalletAction → Prop
  | .markInstantSendUtxos txid _ => txid ∈ w.instantSendLocks ∨
      ∀ a ∈ w.accounts.allAccounts, ∀ r ∈ a.transactions.get? txid, r.context.confirmed = false
  | .rewindToHeight _ => False
  | _ => True

instance (w : ManagedWalletInfo) : ∀ action, Decidable (w.MarksUnconfirmed action)
  | .markInstantSendUtxos _ _ => inferInstanceAs (Decidable (_ ∨ _))
  | .rewindToHeight _ => inferInstanceAs (Decidable False)
  | .checkCoreTransaction _ _ _ _ _ => inferInstanceAs (Decidable True)
  | .applyChainLock _ => inferInstanceAs (Decidable True)
  | .updateLastProcessedHeight _ => inferInstanceAs (Decidable True)
  | .updateSyncedHeight _ => inferInstanceAs (Decidable True)

/-- The context in which an account has recorded a transaction. -/
def contextOf (w : ManagedWalletInfo) (key : AccountKey) (txid : Txid) :
    Option TransactionContext :=
  (w.accounts.records key).bind fun a =>
    (a.transactions.get? txid).map TransactionRecord.context

/-- The account has dropped the transaction as final. -/
def droppedAsFinal (w : ManagedWalletInfo) (key : AccountKey) (txid : Txid) : Bool :=
  (w.accounts.records key).any fun a => a.finalizedTxids.contains txid

/-- The account has the transaction in a block. A chain lock from the block's height on makes
it final, and a rewind below that height returns it to the mempool. -/
structure ConfirmedIn (computeTxid : Transaction → Txid) (keepFinalized : Bool)
    (w : ManagedWalletInfo) (key : AccountKey) (txid : Txid) (b : BlockInfo) : Prop where
  recorded : ∃ context, w.contextOf key txid = some context ∧ context.blockInfo = some b
  finalizes : ∀ chainLock : ChainLock, b.height ≤ chainLock.blockHeight →
    (w.applyChainLock keepFinalized chainLock).1.droppedAsFinal key txid = true ∨
      ∃ context, (w.applyChainLock keepFinalized chainLock).1.contextOf key txid = some context ∧
        context.isChainLocked = true
  demotes : ∀ height < b.height, ¬w.RewindRefused height →
    (w.rewindToHeight computeTxid height).1.contextOf key txid = some .mempool

variable {computeTxid : Transaction → Txid} {keepFinalized : Bool} {w : ManagedWalletInfo}
  {key : AccountKey} {txid : Txid} {blocks : BlockInfo → Prop}

theorem mem_allAccounts {a : ManagedCoreKeysAccount} (h : w.accounts.records key = some a) :
    a ∈ w.accounts.allAccounts := by
  rw [ManagedAccountCollection.allAccounts, List.mem_append]
  cases key with
  | funds key =>
    obtain ⟨account, haccount, rfl⟩ := map_eq_some_iff.mp h
    exact .inl (List.mem_map_of_mem (mem_values_iff.mpr ⟨key, haccount⟩))
  | keys key => exact .inr (mem_values_iff.mpr ⟨key, h⟩)

/-- The account of a key keeps the transaction in one of the blocks, or dropped as final. -/
def KeepsConfirmed (keepFinalized : Bool) (key : AccountKey) (txid : Txid)
    (blocks : BlockInfo → Prop) (w : ManagedWalletInfo) : Prop :=
  ∃ a, w.accounts.records key = some a ∧ a.StaysConfirmed keepFinalized txid blocks

section

variable (h : w.KeepsConfirmed keepFinalized key txid blocks)
include h

theorem KeepsConfirmed.of_records {w' : ManagedWalletInfo}
    (hrecords : w'.accounts.records key = w.accounts.records key) :
    w'.KeepsConfirmed keepFinalized key txid blocks := by
  rw [KeepsConfirmed, hrecords]
  exact h

/-- A conforming step keeps the confirmation. -/
theorem KeepsConfirmed.step {action : WalletAction} (hguard : w.MarksUnconfirmed action)
    (hblocks : ∀ b, action.OffersIn computeTxid txid b → blocks b) :
    (w.step computeTxid keepFinalized action).KeepsConfirmed keepFinalized key txid blocks := by
  obtain ⟨a, hget, hstays⟩ := h
  cases action with
  | checkCoreTransaction xpubs tx context shouldUpdateState shouldUpdateBalance =>
    obtain ⟨a', hget', hsteps⟩ := checkCoreTransaction_records computeTxid keepFinalized hget xpubs
      tx context shouldUpdateState shouldUpdateBalance
    exact ⟨a', hget', hstays.of_offerSteps (fun htxid b hb => hblocks b ⟨htxid, hb⟩) hsteps⟩
  | applyChainLock chainLock =>
    refine ⟨(a.applyChainLock keepFinalized chainLock.blockHeight).1, ?_,
      hstays.applyChainLock chainLock.blockHeight⟩
    exact (w.applyChainLock_records chainLock key).trans (by rw [hget, map_some])
  | markInstantSendUtxos t lock =>
    by_cases hnew : t ∈ w.instantSendLocks
    · refine KeepsConfirmed.of_records (w := w) ⟨a, hget, hstays⟩ ?_
      rw [ManagedWalletInfo.step, markInstantSendUtxos, if_pos hnew]
    · have hunconfirmed := hguard.resolve_left hnew a (mem_allAccounts hget)
      refine ⟨a.updateContext t (.instantSend lock), ?_, ?_⟩
      · exact (markInstantSendUtxos_records hnew lock key).trans (by rw [hget, map_some])
      · -- the lock changes the record of another transaction, or none
        cases hrecord : a.transactions.get? t with
        | none =>
          rw [updateContext, hrecord]
          exact hstays
        | some r =>
          have hstores := stores_updateContext keepFinalized
            (.instantSend lock) hrecord
          refine hstays.of_stores hstores fun _ r' b hr' hb => ?_
          have hnot := hunconfirmed r' hr'
          rw [TransactionContext.confirmed, hb] at hnot
          cases hnot
  | updateLastProcessedHeight height =>
    exact KeepsConfirmed.of_records (w := w) ⟨a, hget, hstays⟩
      ((sameButBalances_updateBalance _).records key)
  | updateSyncedHeight height => exact ⟨a, hget, hstays⟩
  | rewindToHeight height => exact hguard.elim

end

/-- What it is to be in a block: later chain locks and rewinds see the block. -/
theorem confirmedIn_of_contextOf {b : BlockInfo}
    (h : w.contextOf key txid = some context) (hb : context.blockInfo = some b) :
    w.ConfirmedIn computeTxid keepFinalized key txid b := by
  obtain ⟨a, ha, hctx⟩ := bind_eq_some_iff.mp h
  obtain ⟨r, hr, rfl⟩ := map_eq_some_iff.mp hctx
  refine ⟨⟨r.context, h, hb⟩, fun chainLock hle => ?_, fun height hlt hallowed => ?_⟩
  · rw [droppedAsFinal, contextOf, applyChainLock_records, ha, map_some, any_some,
      bind_some, contains]
    obtain ⟨htxs, hfin⟩ :=
      ManagedCoreKeysAccount.get?_applyChainLock keepFinalized a chainLock.blockHeight txid
    rw [htxs, hfin, hr, bind_some, bind_some]
    cases hlocked : ManagedCoreKeysAccount.lockedBy chainLock.blockHeight r.context with
    | none =>
      -- a record in a block that the lock passes over is in a chain-locked block already
      refine .inr ⟨r.context, rfl, ?_⟩
      cases hctx : r.context with
      | inChainLockedBlock info => rfl
      | inBlock info =>
        rw [hctx] at hb hlocked
        cases hb
        simp [ManagedCoreKeysAccount.lockedBy, hle] at hlocked
      | _ =>
        rw [hctx] at hb
        cases hb
    | some info =>
      cases keepFinalized with
      | true => exact .inr ⟨.inChainLockedBlock info, rfl, rfl⟩
      | false => exact .inl rfl
  · obtain ⟨a', ha', hdemotes, hsettled⟩ :=
      exists_of_optionRel_left (rewindToHeight_records computeTxid hallowed key) ha
    obtain ⟨r', hr', hdemoted⟩ := hdemotes.transactions.get? hr
    rw [contextOf, ha', bind_some, hr', map_some]
    rcases hdemoted with rfl | ⟨-, -, rfl⟩
    · -- a record above the height is not left as it is
      have habove := hsettled txid r' hr'
      rw [isAbove, hb, any_some] at habove
      simp [hlt] at habove
    · rfl

/-- In a run without rewinds in which no lock from outside meets a record in a block, a
transaction that is in a block stays so, in the block it was last offered in, or is dropped
as final. -/
theorem run_stays_confirmed (computeTxid : Transaction → Txid) (keepFinalized : Bool)
    (w : ManagedWalletInfo) (actions : List WalletAction)
    (halong : Runs.Along (step computeTxid keepFinalized) MarksUnconfirmed w actions)
    (key : AccountKey) (txid : Txid) (context : TransactionContext) (b : BlockInfo)
    (hcontext : w.contextOf key txid = some context) (hb : context.blockInfo = some b) :
    (∃ b', (b' = b ∨ ∃ action ∈ actions, action.OffersIn computeTxid txid b') ∧
        (Runs.run (step computeTxid keepFinalized) w actions).ConfirmedIn computeTxid
          keepFinalized key txid b') ∨
      (keepFinalized = false ∧
        (Runs.run (step computeTxid keepFinalized) w actions).droppedAsFinal key txid = true) := by
  let blocks := fun b' => b' = b ∨ ∃ action ∈ actions, action.OffersIn computeTxid txid b'
  have hoffers : ∀ action ∈ actions, ∀ b', action.OffersIn computeTxid txid b' → blocks b' :=
    fun action hmem b' hoffer => .inr ⟨action, hmem, hoffer⟩
  obtain ⟨a, ha, hrec⟩ := bind_eq_some_iff.mp hcontext
  obtain ⟨r, hr, rfl⟩ := map_eq_some_iff.mp hrec
  have hstart : w.KeepsConfirmed keepFinalized key txid blocks :=
    ⟨a, ha, .inl ⟨r, b, hr, hb, .inl rfl⟩⟩
  obtain ⟨a', ha', hstays⟩ := Runs.invariant_run
    (fun _ _ hkeeps hguard => hkeeps.step hguard.1 hguard.2) hstart
    (halong.and_of_forall_mem hoffers)
  rcases hstays with ⟨r', b', hr', hb', hallowed⟩ | ⟨hkeep, hfinal⟩
  · refine .inl ⟨b', hallowed, confirmedIn_of_contextOf ?_ hb'⟩
    rw [contextOf, ha', bind_some, hr', map_some]
  · exact .inr ⟨hkeep, by rw [droppedAsFinal, ha', any_some, hfinal]⟩

/-- The sample payment is in a block and is seen in another block; a lock of some other
transaction does not matter. -/
theorem run_stays_confirmed_received :
    (∃ b', (b' = block 10 ∨ ∃ action ∈ [.markInstantSendUtxos 9 (Sample.lock 9),
          offer received (.inBlock (block 12))],
          action.OffersIn Sample.computeTxid 7 b') ∧
        (Runs.run (step Sample.computeTxid false)
          (after [offer received (.inBlock (block 10))])
          [.markInstantSendUtxos 9 (Sample.lock 9),
            offer received (.inBlock (block 12))]).ConfirmedIn
          Sample.computeTxid false (.funds (.standardBip44 0)) 7 b') ∨
      (false = false ∧
        (Runs.run (step Sample.computeTxid false)
          (after [offer received (.inBlock (block 10))])
          [.markInstantSendUtxos 9 (Sample.lock 9),
            offer received (.inBlock (block 12))]).droppedAsFinal
          (.funds (.standardBip44 0)) 7 = true) :=
  run_stays_confirmed Sample.computeTxid false _ _ (by decide +kernel) (.funds (.standardBip44 0))
    7 (.inBlock (block 10)) (block 10) (by decide +kernel) rfl

/-- A lock from outside takes the sample payment out of its block. A chain lock above the
block does not make it final, and a rewind below the block does not return it. -/
theorem lock_replaces_block :
    (after [offer received (.inBlock (block 10))]).contextOf
        (.funds (.standardBip44 0)) 7 = some (.inBlock (block 10)) ∧
      (after [offer received (.inBlock (block 10)),
        .markInstantSendUtxos 7 (Sample.lock 7)]).contextOf (.funds (.standardBip44 0)) 7 =
          some (.instantSend (Sample.lock 7)) ∧
      (after [offer received (.inBlock (block 10)),
        .markInstantSendUtxos 7 (Sample.lock 7),
        .applyChainLock (Sample.chainLock 20)]).contextOf (.funds (.standardBip44 0)) 7 =
          some (.instantSend (Sample.lock 7)) ∧
      (after [offer received (.inBlock (block 10)),
        .markInstantSendUtxos 7 (Sample.lock 7), .rewindToHeight 5]).contextOf
          (.funds (.standardBip44 0)) 7 = some (.instantSend (Sample.lock 7)) := by
  decide +kernel

end ManagedWalletInfo

end Dashcore
