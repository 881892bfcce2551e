import Dashcore.Wallet.AccountChecker

/-!
# The managed wallet

A wallet offers each transaction to the accounts its routing selects, follows InstantSend
locks and chain locks, and can be rewound to a height when blocks are disconnected.
-/

namespace Dashcore

open ManagedCoreFundsAccount TransactionRouter

/-- What checking a transaction found and did. -/
structure TransactionCheckResult where
  isNewTransaction : Bool
  stateModified : Bool
  affectedAccounts : List AccountMatch
  newAddresses : List (AccountKey × AddressPoolType × AddressInfo)
  newRecords : List (AccountKey × TransactionRecord)
  updatedRecords : List (AccountKey × TransactionRecord)

/-- State of a wallet. -/
structure ManagedWalletInfo where
  accounts : ManagedAccountCollection
  lastProcessedHeight : Nat
  syncedHeight : Nat
  lastAppliedChainLock : Option ChainLock
  /-- Transactions with an InstantSend lock that was applied. -/
  instantSendLocks : List Txid
  balance : WalletCoreBalance
  deriving DecidableEq

/-- The extended public keys of a wallet's accounts, as sources of addresses. -/
abbrev AccountXpubs := AccountTypeToCheck → Option Nat → Option KeySource

/-- The key source by which an account's pools are extended. Accounts with other kinds of keys
and DashPay accounts have none. -/
def extendedPublicKeyForAccountType (xpubs : AccountXpubs) (type : AccountTypeToCheck)
    (index : Option Nat) : Option KeySource :=
  match type with
  | .keys .providerOperatorKeys | .keys .providerPlatformKeys => none
  | .funds .dashpayReceivingFunds | .funds .dashpayExternalAccount => none
  | _ => xpubs type index

/-- Mark the involved addresses as used and extend the pools. -/
def ManagedCoreKeysAccount.useAddresses (a : ManagedCoreKeysAccount) (xpubs : AccountXpubs)
    (m : CoreAccountTypeMatch) :
    ManagedCoreKeysAccount × List (AddressPoolType × AddressInfo) :=
  let a := m.allInvolvedAddresses.foldl (fun a info => a.markAddressUsed info.address) a
  match extendedPublicKeyForAccountType xpubs m.accountType m.accountIndex with
  | none => (a, [])
  | some keySource => a.maintainGapLimits keySource

namespace ManagedAccountCollection

/-- Change the account that a match names, and a result along with it. -/
def modifyMatched {R : Type} (m : CoreAccountTypeMatch)
    (onFunds : FundsKey → ManagedCoreFundsAccount → ManagedCoreFundsAccount × (R → R))
    (onKeys : KeysKey → ManagedCoreKeysAccount → ManagedCoreKeysAccount × (R → R))
    (acc : ManagedAccountCollection × R) : ManagedAccountCollection × R :=
  let (c, result) := acc
  match c.getByAccountTypeMatch m with
  | none => acc
  | some (.funds key) =>
    match c.funds.get? key with
    | none => acc
    | some account =>
      let (account, change) := onFunds key account
      ({ c with funds := c.funds.insert key account }, change result)
  | some (.keys key) =>
    match c.keys.get? key with
    | none => acc
    | some account =>
      let (account, change) := onKeys key account
      ({ c with keys := c.keys.insert key account }, change result)

variable (c : ManagedAccountCollection)

/-- The pools and records of the account that a match names. -/
def matchedKeys (m : CoreAccountTypeMatch) :
    Option ManagedCoreKeysAccount :=
  match c.getByAccountTypeMatch m with
  | none => none
  | some (.funds key) => (c.funds.get? key).map ManagedCoreFundsAccount.keys
  | some (.keys key) => c.keys.get? key

/-- Change every account. -/
def mapAccounts (onFunds : ManagedCoreFundsAccount → ManagedCoreFundsAccount)
    (onKeys : ManagedCoreKeysAccount → ManagedCoreKeysAccount) : ManagedAccountCollection where
  funds := c.funds.mapVal fun _ account => onFunds account
  keys := c.keys.mapVal fun _ account => onKeys account

/-- The pools and records of all accounts. -/
def allAccounts : List ManagedCoreKeysAccount :=
  c.funds.values.map ManagedCoreFundsAccount.keys ++ c.keys.values

end ManagedAccountCollection

namespace TransactionCheckResult

variable (key : AccountKey)

/-- A record was added. -/
def addNew (record : TransactionRecord) (r : TransactionCheckResult) :
    TransactionCheckResult :=
  { r with stateModified := true, newRecords := r.newRecords ++ [(key, record)] }

/-- A record was updated. -/
def addUpdated (record : TransactionRecord) (r : TransactionCheckResult) :
    TransactionCheckResult :=
  { r with stateModified := true, updatedRecords := r.updatedRecords ++ [(key, record)] }

/-- A confirmation produced this record, if any. -/
def addConfirmed (existedBefore : Bool) (record : Option TransactionRecord)
    (r : TransactionCheckResult) : TransactionCheckResult :=
  match record with
  | none => r
  | some record => if existedBefore then r.addUpdated key record else r.addNew key record

/-- Addresses were derived. -/
def addAddresses (infos : List (AddressPoolType × AddressInfo))
    (r : TransactionCheckResult) : TransactionCheckResult :=
  { r with newAddresses := r.newAddresses ++ infos.map fun info => (key, info) }

end TransactionCheckResult

section Checking

variable (keepFinalized : Bool) (xpubs : AccountXpubs) (txid : Txid) (tx : Transaction)
  (context : TransactionContext) (transactionType : TransactionType)

/-- Record or confirm a transaction in a funds account, then extend its pools. -/
def ManagedCoreFundsAccount.processMatch (isNew : Bool) (m : AccountMatch) (key : FundsKey)
    (a : ManagedCoreFundsAccount) :
    ManagedCoreFundsAccount × (TransactionCheckResult → TransactionCheckResult) :=
  let (a, change) : ManagedCoreFundsAccount × (TransactionCheckResult → TransactionCheckResult) :=
    if isNew then
      let (a, record) := a.recordTransaction keepFinalized txid tx m context transactionType
      (a, .addNew (.funds key) record)
    else
      let existedBefore := a.keys.hasTransaction keepFinalized txid
      let (a, record) := a.confirmTransaction keepFinalized txid tx m context transactionType
      (a, .addConfirmed (.funds key) existedBefore record)
  let (keys, derived) := a.keys.useAddresses xpubs m.accountTypeMatch
  ({ a with keys }, fun r => (change r).addAddresses (.funds key) derived)

/-- Record or confirm a transaction in a keys account, then extend its pools. -/
def ManagedCoreKeysAccount.processMatch (isNew : Bool) (m : AccountMatch) (key : KeysKey)
    (a : ManagedCoreKeysAccount) :
    ManagedCoreKeysAccount × (TransactionCheckResult → TransactionCheckResult) :=
  let (a, change) : ManagedCoreKeysAccount × (TransactionCheckResult → TransactionCheckResult) :=
    if isNew then
      let (a, record) := a.recordTransaction keepFinalized txid tx m context transactionType
      (a, .addNew (.keys key) record)
    else
      let existedBefore := a.hasTransaction keepFinalized txid
      let (a, record) := a.confirmTransaction keepFinalized txid tx m context transactionType
      (a, .addConfirmed (.keys key) existedBefore record)
  let (a, derived) := a.useAddresses xpubs m.accountTypeMatch
  (a, fun r => (change r).addAddresses (.keys key) derived)

/-- Apply an InstantSend lock in a funds account, recording the transaction if it is not. -/
def ManagedCoreFundsAccount.lockMatch (m : AccountMatch) (key : FundsKey)
    (a : ManagedCoreFundsAccount) :
    ManagedCoreFundsAccount × (TransactionCheckResult → TransactionCheckResult) :=
  match a.keys.transactions.get? txid with
  | some record =>
    let a := (a.markUtxosInstantSend txid).1
    ({ a with keys := a.keys.updateContext txid context },
      .addUpdated (.funds key) { record with context })
  | none =>
    let (a, record) := a.recordTransaction keepFinalized txid tx m context transactionType
    ((a.markUtxosInstantSend txid).1, .addNew (.funds key) record)

/-- Apply an InstantSend lock in a keys account, recording the transaction if it is not. -/
def ManagedCoreKeysAccount.lockMatch (m : AccountMatch) (key : KeysKey)
    (a : ManagedCoreKeysAccount) :
    ManagedCoreKeysAccount × (TransactionCheckResult → TransactionCheckResult) :=
  match a.transactions.get? txid with
  | some record =>
    (a.updateContext txid context, .addUpdated (.keys key) { record with context })
  | none =>
    let (a, record) := a.recordTransaction keepFinalized txid tx m context transactionType
    (a, .addNew (.keys key) record)

end Checking

namespace ManagedAccountCollection

section Checking

variable (keepFinalized : Bool) (xpubs : AccountXpubs) (txid : Txid) (tx : Transaction)
  (context : TransactionContext) (transactionType : TransactionType)

/-- Record or confirm a transaction in every matched account. -/
def processMatches (isNew : Bool) (affected : List AccountMatch)
    (acc : ManagedAccountCollection × TransactionCheckResult) :
    ManagedAccountCollection × TransactionCheckResult :=
  affected.foldl (fun acc m => modifyMatched m.accountTypeMatch
    (processMatch keepFinalized xpubs txid tx context transactionType
      isNew m)
    (ManagedCoreKeysAccount.processMatch keepFinalized xpubs txid tx context transactionType
      isNew m) acc) acc

/-- Apply an InstantSend lock in every matched account. -/
def lockMatches (affected : List AccountMatch)
    (acc : ManagedAccountCollection × TransactionCheckResult) :
    ManagedAccountCollection × TransactionCheckResult :=
  affected.foldl (fun acc m => modifyMatched m.accountTypeMatch
    (lockMatch keepFinalized txid tx context transactionType m)
    (ManagedCoreKeysAccount.lockMatch keepFinalized txid tx context transactionType m) acc) acc

variable (c : ManagedAccountCollection) (affected : List AccountMatch)

/-- Whether a matched account knows the transaction. -/
def knows : Bool :=
  affected.any fun m => (c.matchedKeys m.accountTypeMatch).any fun account =>
    account.hasTransaction keepFinalized txid

/-- Whether the transaction is in a block for a matched account. -/
def alreadyConfirmed : Bool :=
  affected.any fun m => (c.matchedKeys m.accountTypeMatch).any fun account =>
    account.transactionIsFinalized keepFinalized txid ||
      (account.transactions.get? txid).any fun record => record.context.confirmed

end Checking

/-! ### Demotion -/

/-- The outputs of the transactions that were demoted last. Their number is read as a 32-bit
number. -/
def releasedOutpoints (c : ManagedAccountCollection) (frontier : List Txid) : List OutPoint :=
  c.allAccounts.flatMap fun account => frontier.flatMap fun txid =>
    match account.transactions.get? txid with
    | some record =>
      (List.range (record.transaction.output.length % 2 ^ 32)).map fun vout => ⟨txid, vout⟩
    | none => []

end ManagedAccountCollection

namespace ManagedCoreKeysAccount

variable (alreadyDemoted : List Txid) (released : List OutPoint) (a : ManagedCoreKeysAccount)

/-- The active transactions, not demoted so far, that spend a released output. -/
def demotionCandidates : List Txid :=
  (a.transactions.filter fun txid record =>
    txid ∉ alreadyDemoted && !record.context.isInactive &&
      record.transaction.input.any fun input => input.previousOutput ∈ released).keys

/-- Demote transactions. Returns those that were in a block. -/
def demoteAll (txids : List Txid) :
    ManagedCoreKeysAccount × List Txid :=
  txids.foldl (fun (a, demoted) txid =>
    let (a, did) := a.demoteRecord txid
    (a, if did then demoted ++ [txid] else demoted)) (a, [])

/-- One round of the cascade on an account. -/
def cascadeRound : ManagedCoreKeysAccount × List Txid :=
  a.demoteAll (a.demotionCandidates alreadyDemoted released)

end ManagedCoreKeysAccount

namespace ManagedAccountCollection

/-- Change the records of every account. -/
def mapKeys (c : ManagedAccountCollection)
    (f : ManagedCoreKeysAccount → ManagedCoreKeysAccount) : ManagedAccountCollection :=
  c.mapAccounts (fun account => { account with keys := f account.keys }) f

/-- Demote the transactions that spend outputs of demoted ones, in rounds until a round
demotes nothing. A round that goes on moves a record out of its block, so the number of
records bounds the rounds. -/
def cascade : Nat → List Txid → List Txid → ManagedAccountCollection →
    ManagedAccountCollection × List Txid
  | 0, alreadyDemoted, _, c => (c, alreadyDemoted)
  | fuel + 1, alreadyDemoted, frontier, c =>
    let released := c.releasedOutpoints frontier
    if released.isEmpty then (c, alreadyDemoted)
    else
      let round := ManagedCoreKeysAccount.cascadeRound alreadyDemoted released
      let newDemoted := c.allAccounts.flatMap fun account => (round account).2
      let c := c.mapKeys fun account => (round account).1
      if newDemoted.isEmpty then (c, alreadyDemoted)
      else cascade fuel (alreadyDemoted ++ newDemoted) newDemoted c

variable (c : ManagedAccountCollection)

/-- Number of records. -/
def recordCount : Nat :=
  (c.allAccounts.map fun account => account.transactions.size).sum

/-- Return the transactions in blocks above a height, and those that spend their outputs, to
the mempool. Returns their txids. -/
def demoteAbove (height : Nat) :
    ManagedAccountCollection × List Txid :=
  let demoted := c.allAccounts.flatMap fun account => (account.demoteRecordsAbove height).2
  let c := c.mapKeys fun account => (account.demoteRecordsAbove height).1
  c.cascade (c.recordCount + 1) demoted demoted

end ManagedAccountCollection

/-- What a rewind did. -/
structure RewindOutcome where
  demotedTxids : List Txid
  conflictedTxids : List Txid
  stateChanged : Bool
  deriving DecidableEq

/-- Why a rewind is refused: it would disconnect a block under a chain lock. -/
inductive RewindRejection
  | belowChainLockFloor (requested floor : Nat)
  deriving DecidableEq

/-- What a chain lock did. -/
structure ApplyChainLockOutcome where
  lockedTransactions : List (AccountKey × List Txid)
  metadataAdvanced : Bool
  deriving DecidableEq

namespace ManagedWalletInfo

/-- A wallet that has seen nothing. -/
def new (accounts : ManagedAccountCollection) : ManagedWalletInfo where
  accounts := accounts
  lastProcessedHeight := 0
  syncedHeight := 0
  lastAppliedChainLock := none
  instantSendLocks := []
  balance := .zero

section

variable (w : ManagedWalletInfo)

/-- Compute the balances of the accounts and of the wallet from the coins. -/
def updateBalance : ManagedWalletInfo :=
  let funds := w.accounts.funds.mapVal fun _ account =>
    account.updateBalance w.lastProcessedHeight
  { w with
    accounts.funds := funds
    balance := funds.values.foldl (fun balance account => balance.add account.balance) .zero }

/-- The coins of all accounts. If two accounts hold one outpoint, the first is taken. -/
def utxos : SortedMap OutPoint Utxo :=
  w.accounts.funds.values.foldl (fun utxos account => account.utxos.union utxos) ∅

/-- The coins that may be spent. -/
def getSpendableUtxos : List Utxo :=
  w.utxos.values.filter fun utxo => utxo.isSpendable w.lastProcessedHeight

/-- The accounts that a transaction concerns, among those its type is routed to. -/
def affectedAccounts (tx : Transaction) : List AccountMatch :=
  w.accounts.checkTransaction tx
    (getRelevantAccountTypes (classifyTransaction tx))

end

section Operations

variable (computeTxid : Transaction → Txid) (keepFinalized : Bool) (w : ManagedWalletInfo)

/-- Offer a transaction to the wallet. With `shouldUpdateState` off nothing is recorded. -/
def checkCoreTransaction (xpubs : AccountXpubs) (tx : Transaction)
    (context : TransactionContext) (shouldUpdateState shouldUpdateBalance : Bool) :
    ManagedWalletInfo × TransactionCheckResult :=
  let txid := computeTxid tx
  let txType := classifyTransaction tx
  let affected := w.affectedAccounts tx
  let result : TransactionCheckResult := {
    isNewTransaction := false
    stateModified := false
    affectedAccounts := affected
    newAddresses := []
    newRecords := []
    updatedRecords := [] }
  if !shouldUpdateState || affected.isEmpty then (w, result)
  else
    let isNew := !w.accounts.knows keepFinalized txid affected
    let result := { result with isNewTransaction := isNew }
    if !isNew && context.isInstantSend then
      if txid ∈ w.instantSendLocks then (w, result)
      else
        let w := { w with instantSendLocks := txid :: w.instantSendLocks }
        -- a lock on a transaction that is in a block is stale
        if w.accounts.alreadyConfirmed keepFinalized txid affected then (w, result)
        else
          let (accounts, result) := ManagedAccountCollection.lockMatches keepFinalized txid tx
            context txType affected (w.accounts, result)
          let w := { w with accounts }
          (if shouldUpdateBalance then w.updateBalance else w, { result with stateModified := true })
    else if !isNew && !context.confirmed then (w, result)
    else
      let (accounts, result) := ManagedAccountCollection.processMatches keepFinalized xpubs txid
        tx context txType isNew affected (w.accounts, result)
      let w := { w with
        accounts
        instantSendLocks := if isNew && context.isInstantSend && txid ∉ w.instantSendLocks then
            txid :: w.instantSendLocks
          else w.instantSendLocks }
      (if shouldUpdateBalance then w.updateBalance else w, result)

/-- Transactions in blocks up to a chain lock become final. -/
def applyChainLock (chainLock : ChainLock) :
    ManagedWalletInfo × ApplyChainLockOutcome :=
  let clHeight := chainLock.blockHeight
  let locked :=
    (w.accounts.funds.entries.map fun e =>
      (AccountKey.funds e.1, (e.2.keys.applyChainLock keepFinalized clHeight).2)) ++
    (w.accounts.keys.entries.map fun e =>
      (AccountKey.keys e.1, (e.2.applyChainLock keepFinalized clHeight).2))
  let advance := w.lastAppliedChainLock.all fun existing => existing.blockHeight < clHeight
  ({ w with
      accounts := w.accounts.mapKeys fun account =>
        (account.applyChainLock keepFinalized clHeight).1
      lastAppliedChainLock := if advance then some chainLock else w.lastAppliedChainLock },
    { lockedTransactions := locked.filter fun e => !e.2.isEmpty
      metadataAdvanced := advance })

/-- Apply an InstantSend lock to whatever account has the transaction. The result says
whether a coin was not marked before. -/
def markInstantSendUtxos (txid : Txid) (lock : InstantLock) :
    ManagedWalletInfo × Bool :=
  if txid ∈ w.instantSendLocks then (w, false)
  else
    let anyChanged := w.accounts.funds.values.any fun account =>
      (account.markUtxosInstantSend txid).2
    let w := { w with
      instantSendLocks := txid :: w.instantSendLocks
      accounts := (w.accounts.mapAccounts (fun account => (account.markUtxosInstantSend txid).1)
        id).mapKeys fun account => account.updateContext txid (.instantSend lock) }
    (if anyChanged then w.updateBalance else w, anyChanged)

/-- Set the height up to which blocks were processed. -/
def updateLastProcessedHeight (height : Nat) : ManagedWalletInfo :=
  { w with lastProcessedHeight := height }.updateBalance

/-- Set the height up to which the wallet is synced. -/
def updateSyncedHeight (height : Nat) : ManagedWalletInfo :=
  { w with syncedHeight := height }

/-- Disconnect the blocks above a height. -/
def rewindToHeight (height : Nat) :
    ManagedWalletInfo × Except RewindRejection RewindOutcome :=
  match w.lastAppliedChainLock.filter fun chainLock => height < chainLock.blockHeight with
  | some chainLock => (w, .error (.belowChainLockFloor height chainLock.blockHeight))
  | none =>
    let (accounts, demotedTxids) := w.accounts.demoteAbove height
    let lastProcessedHeight := min w.lastProcessedHeight height
    let syncedHeight := min w.syncedHeight height
    let stateChanged := !demotedTxids.isEmpty ||
      lastProcessedHeight ≠ w.lastProcessedHeight || syncedHeight ≠ w.syncedHeight
    let w := { w with
      accounts := accounts.mapAccounts (rebuildUtxos computeTxid) id
      lastProcessedHeight
      syncedHeight }
    (w.updateBalance, .ok { demotedTxids, conflictedTxids := [], stateChanged })

end Operations

end ManagedWalletInfo

/-- An operation on a wallet. -/
inductive WalletAction
  | checkCoreTransaction (xpubs : AccountXpubs) (tx : Transaction) (context : TransactionContext)
      (shouldUpdateState shouldUpdateBalance : Bool)
  | applyChainLock (chainLock : ChainLock)
  | markInstantSendUtxos (txid : Txid) (lock : InstantLock)
  | updateLastProcessedHeight (height : Nat)
  | updateSyncedHeight (height : Nat)
  | rewindToHeight (height : Nat)

/-- The state after an operation. -/
def ManagedWalletInfo.step (computeTxid : Transaction → Txid) (keepFinalized : Bool)
    (w : ManagedWalletInfo) : WalletAction → ManagedWalletInfo
  | .checkCoreTransaction xpubs tx context shouldUpdateState shouldUpdateBalance =>
    (w.checkCoreTransaction computeTxid keepFinalized xpubs tx context shouldUpdateState
      shouldUpdateBalance).1
  | .applyChainLock chainLock => (w.applyChainLock keepFinalized chainLock).1
  | .markInstantSendUtxos txid lock => (w.markInstantSendUtxos txid lock).1
  | .updateLastProcessedHeight height => w.updateLastProcessedHeight height
  | .updateSyncedHeight height => w.updateSyncedHeight height
  | .rewindToHeight height => (w.rewindToHeight computeTxid height).1

/-! ### A small wallet -/

namespace Sample

/-- The hash of the key at an index. -/
def hash (index : Nat) : PubkeyHash := ⟨List.replicate 20 (UInt8.ofNat index), by simp⟩

def address (index : Nat) : Address := .pubkeyHash (hash index)

/-- The receive branch counts from a base, the change branch from 100 above it. -/
def keySource (base : Nat) : KeySource
  | .internal, index => some (hash (base + 100 + index), .ecdsa [])
  | _, index => some (hash (base + index), .ecdsa [])

/-- A pool with its first address. -/
def pool (type : AddressPoolType) (base : Nat) : ConsistentPool :=
  (ConsistentPool.new type 1 (keySource base)).getD
    ⟨.newWithoutGeneration type 1, AddressPool.consistent_newWithoutGeneration type 1⟩

/-- A wallet with one standard account. -/
def wallet : ManagedWalletInfo := .new
  { funds := (∅ : SortedMap FundsKey ManagedCoreFundsAccount).insert (.standardBip44 0)
      (.new (pool .external 0) (some (pool .internal 0)))
    keys := ∅ }

/-- The lock time tells the transactions apart. -/
def computeTxid (tx : Transaction) : Txid := Fin.ofNat _ tx.lockTime

/-- A transaction with one input. -/
def payment (lockTime : Nat) (previousOutput : OutPoint) (outputs : List (Nat × Address)) :
    Transaction where
  version := 1
  lockTime := lockTime
  input := [{ previousOutput, scriptSig := ⟨[]⟩, sequence := 0 }]
  output := outputs.map fun (value, address) => { value, scriptPubkey := address.scriptPubkey }
  specialTransactionPayload := none

def block (height : Nat) : BlockInfo := { height, blockHash := 0, timestamp := 0 }

def chainLock (blockHeight : Nat) : ChainLock :=
  { blockHeight, blockHash := 0, signature := .replicate 96 0 }

def lock (txid : Txid) : InstantLock :=
  { version := 1, inputs := [], txid, cyclehash := 0, signature := .replicate 96 0 }

/-- Offer a transaction with all updates. -/
def offer (tx : Transaction) (context : TransactionContext) : WalletAction :=
  .checkCoreTransaction (fun _ _ => some (keySource 0)) tx context true true

/-- The wallet after some actions, with final transactions dropped. -/
def after (actions : List WalletAction) : ManagedWalletInfo :=
  actions.foldl (ManagedWalletInfo.step computeTxid false) wallet

/-- A payment of 50 to the first address. -/
def received : Transaction := payment 7 ⟨1, 0⟩ [(50, address 0)]

end Sample

end Dashcore
