import Dashcore.Lib.CoinSet
import Dashcore.Sml.MessageVerification
import Dashcore.Wallet.Router

/-!
# Managed accounts

A keys account records the transactions that concern it, with the context in which each
was last seen. A funds account also keeps the coins it holds, as the outputs of its
transactions come and go. A transaction in a chain-locked block is final: its record is
dropped and only its txid kept, unless the build keeps finalized transactions.
-/

namespace Dashcore

/-- The block a transaction is in. -/
structure BlockInfo where
  height : Nat
  blockHash : BlockHash
  timestamp : Nat
  deriving DecidableEq

/-- Where a transaction was last seen. -/
inductive TransactionContext
  | mempool
  | instantSend (lock : InstantLock)
  | inBlock (info : BlockInfo)
  | inChainLockedBlock (info : BlockInfo)
  /-- Superseded by a double spend on the active chain. -/
  | conflicted (previous : TransactionContext)
  | abandoned
  deriving DecidableEq

namespace TransactionContext

def blockInfo : TransactionContext → Option BlockInfo
  | inBlock info => some info
  | inChainLockedBlock info => some info
  | _ => none

/-- Whether the transaction is in a block. -/
def confirmed (c : TransactionContext) : Bool := c.blockInfo.isSome

def isInstantSend : TransactionContext → Bool
  | instantSend _ => true
  | _ => false

def isChainLocked : TransactionContext → Bool
  | inChainLockedBlock _ => true
  | _ => false

/-- Whether the transaction no longer contributes to the balance. -/
def isInactive : TransactionContext → Bool
  | conflicted _ => true
  | abandoned => true
  | _ => false

end TransactionContext

/-- An unspent output. -/
structure Utxo where
  outpoint : OutPoint
  txout : TxOut
  address : Address
  /-- Height of the block it was created in, or 0. -/
  height : Nat
  isCoinbase : Bool
  isConfirmed : Bool
  isInstantlocked : Bool
  isLocked : Bool
  /-- Change of a transaction of our own. -/
  isTrusted : Bool
  deriving DecidableEq

/-- Whether a coinbase is 100 blocks deep. The sum is one of 32-bit numbers. -/
def Utxo.isMature (u : Utxo) (currentHeight : Nat) : Bool :=
  !u.isCoinbase || (u.height + 100) % 2 ^ 32 ≤ currentHeight

def Utxo.isSpendable (u : Utxo) (currentHeight : Nat) : Bool :=
  !u.isLocked && u.isMature currentHeight

/-- The coins an output makes in a context. -/
def Utxo.ofOutput (txid : Txid) (tx : Transaction) (context : TransactionContext) (vout : Nat)
    (output : TxOut) (address : Address) (isTrusted : Bool) : Utxo where
  outpoint := ⟨txid, vout⟩
  txout := output
  address := address
  height := (context.blockInfo.map BlockInfo.height).getD 0
  isCoinbase := tx.isCoinBase
  isConfirmed := context.confirmed
  isInstantlocked := context.isInstantSend
  isLocked := false
  isTrusted := isTrusted

/-- A transaction of an account. -/
structure TransactionRecord where
  transaction : Transaction
  context : TransactionContext
  transactionType : TransactionType
  netAmount : Int
  deriving DecidableEq

/-- Balance by kind of coin. -/
structure WalletCoreBalance where
  confirmed : Nat
  unconfirmed : Nat
  immature : Nat
  locked : Nat
  deriving DecidableEq

def WalletCoreBalance.zero : WalletCoreBalance := ⟨0, 0, 0, 0⟩

def WalletCoreBalance.add (a b : WalletCoreBalance) : WalletCoreBalance :=
  ⟨a.confirmed + b.confirmed, a.unconfirmed + b.unconfirmed, a.immature + b.immature,
    a.locked + b.locked⟩

/-! ### Accounts that hold keys -/

/-- An account: its address pools and its transactions. -/
structure ManagedCoreKeysAccount where
  /-- The only pool, or the external one of a standard account. -/
  addresses : ConsistentPool
  /-- The change addresses of a standard account. -/
  internalAddresses : Option ConsistentPool
  transactions : SortedMap Txid TransactionRecord
  /-- Transactions dropped as final. The code keeps the txids; the block of each is kept
  here to speak about it, and no function reads it. -/
  finalizedTxids : SortedMap Txid BlockInfo
  monitorRevision : Nat
  deriving DecidableEq

namespace ManagedCoreKeysAccount

/-- An account without transactions. -/
def new (addresses : ConsistentPool) (internalAddresses : Option ConsistentPool) :
    ManagedCoreKeysAccount :=
  { addresses, internalAddresses, transactions := ∅, finalizedTxids := ∅, monitorRevision := 0 }

section

variable (a : ManagedCoreKeysAccount)

def addressPools : List ConsistentPool :=
  a.addresses :: a.internalAddresses.toList

section

variable (address : Address)

def containsAddress : Bool :=
  a.addressPools.any fun pool => pool.1.containsAddress address

def containsScriptPubKey (script : ScriptBuf) : Bool :=
  a.addressPools.any fun pool => pool.1.containsScriptPubkey script

def getAddressInfo : Option AddressInfo :=
  a.addressPools.findSome? fun pool => pool.1.addressInfo address

def bumpMonitorRevision : ManagedCoreKeysAccount :=
  { a with monitorRevision := a.monitorRevision + 1 }

/-- Mark an address as used in the first pool to which that is news. -/
def markAddressUsed : ManagedCoreKeysAccount :=
  match a.addresses.markUsed address with
  | (pool, true) => { a with addresses := pool }
  | (_, false) =>
    { a with internalAddresses := a.internalAddresses.map fun pool => (pool.markUsed address).1 }

end

/-- Maintain the gap limit of every pool. The result is the new addresses with the type of
their pool; a pool whose derivation fails contributes none. -/
def maintainGapLimits (keySource : KeySource) :
    ManagedCoreKeysAccount × List (AddressPoolType × AddressInfo) :=
  let derived := a.addressPools.flatMap fun pool =>
    ((pool.maintainGapLimit keySource).2.getD []).map fun info => (pool.1.poolType, info)
  let a := { a with
    addresses := (a.addresses.maintainGapLimit keySource).1
    internalAddresses := a.internalAddresses.map fun pool => (pool.maintainGapLimit keySource).1 }
  (if derived.isEmpty then a else a.bumpMonitorRevision, derived)

/-- Replace the context of a record. -/
def updateContext (txid : Txid) (context : TransactionContext) : ManagedCoreKeysAccount :=
  match a.transactions.get? txid with
  | some record => { a with transactions := a.transactions.insert txid { record with context } }
  | none => a

end

section

variable (keepFinalized : Bool) (a : ManagedCoreKeysAccount)

section

variable (txid : Txid)

/-- Whether the transaction is recorded, or was and is final. -/
def hasTransaction : Bool :=
  a.transactions.contains txid || !keepFinalized && a.finalizedTxids.contains txid

def transactionIsFinalized : Bool :=
  if keepFinalized then (a.transactions.get? txid).any fun record => record.context.isChainLocked
  else a.finalizedTxids.contains txid

/-- Drop the record of a final transaction. -/
def dropFinalizedTransaction (info : BlockInfo) : ManagedCoreKeysAccount :=
  { a with
    finalizedTxids := a.finalizedTxids.insert txid info
    transactions := a.transactions.erase txid }

/-- Drop the record if the context makes the transaction final. -/
def dropIfChainLocked : TransactionContext → ManagedCoreKeysAccount
  | .inChainLockedBlock info => if keepFinalized then a else a.dropFinalizedTransaction txid info
  | _ => a

variable (tx : Transaction) (accountMatch : AccountMatch) (context : TransactionContext)
  (transactionType : TransactionType)

/-- The record of a transaction seen for the first time. -/
def newRecord : TransactionRecord where
  transaction := tx
  context := context
  transactionType := transactionType
  netAmount := accountMatch.received - accountMatch.sent

/-- Record a transaction. -/
def recordTransaction : ManagedCoreKeysAccount × TransactionRecord :=
  let record := newRecord tx accountMatch context transactionType
  let a := { a with transactions := a.transactions.insert txid record }
  (a.dropIfChainLocked keepFinalized txid context, record)

/-- A recorded transaction is seen in a block. Returns the record if that is worth an
event. -/
def confirmTransaction : ManagedCoreKeysAccount × Option TransactionRecord :=
  if a.transactionIsFinalized keepFinalized txid then (a, none)
  else
    match a.transactions.get? txid with
    | none =>
      let (a, record) := a.recordTransaction keepFinalized txid tx accountMatch context
        transactionType
      (a, some record)
    | some record =>
      let changed := record.context ≠ context && !record.context.confirmed
      ((a.updateContext txid context).dropIfChainLocked keepFinalized txid context,
        if changed then some { record with context } else none)

end

/-- Whether a chain lock at this height makes the record final. -/
def lockedBy (clHeight : Nat) : TransactionContext → Option BlockInfo
  | .inBlock info => if info.height ≤ clHeight then some info else none
  | _ => none

/-- Transactions in blocks up to a chain lock become final. Returns their txids. -/
def applyChainLock (clHeight : Nat) : ManagedCoreKeysAccount × List Txid :=
  let promoted := a.transactions.filterMap fun _ record => lockedBy clHeight record.context
  if keepFinalized then
    ({ a with transactions := a.transactions.mapVal fun _ record =>
        match lockedBy clHeight record.context with
        | some info => { record with context := .inChainLockedBlock info }
        | none => record }, promoted.keys)
  else
    ({ a with
        finalizedTxids := a.finalizedTxids.union promoted
        transactions := a.transactions.filter fun txid _ => !promoted.contains txid },
      promoted.keys)

end

/-- Whether the record is in a block above a height. -/
def isAbove (height : Nat) (record : TransactionRecord) : Bool :=
  record.context.blockInfo.any fun info => height < info.height

variable (a : ManagedCoreKeysAccount)

/-- Return the transactions in blocks above a height to the mempool. Returns their txids. -/
def demoteRecordsAbove (height : Nat) :
    ManagedCoreKeysAccount × List Txid :=
  ({ a with transactions := a.transactions.mapVal fun _ record =>
      if isAbove height record then { record with context := .mempool } else record },
    (a.transactions.filter fun _ record => isAbove height record).keys)

/-- Return a transaction in a block to the mempool. The result says whether there was one. -/
def demoteRecord (txid : Txid) : ManagedCoreKeysAccount × Bool :=
  match a.transactions.get? txid with
  | none => (a, false)
  | some record =>
    if record.context.confirmed then (a.updateContext txid .mempool, true) else (a, false)

end ManagedCoreKeysAccount

/-! ### Accounts that hold coins -/

/-- An account with its coins. -/
structure ManagedCoreFundsAccount where
  keys : ManagedCoreKeysAccount
  balance : WalletCoreBalance
  /-- The unspent outputs, and the outpoints known to be spent. -/
  coins : CoinSet OutPoint Utxo
  deriving DecidableEq

namespace ManagedCoreFundsAccount

/-- An account without transactions. -/
def new (addresses : ConsistentPool) (internalAddresses : Option ConsistentPool) :
    ManagedCoreFundsAccount :=
  { keys := .new addresses internalAddresses, balance := .zero, coins := ∅ }

section

variable (a : ManagedCoreFundsAccount)

def utxos : SortedMap OutPoint Utxo := a.coins.coins

def spentOutpoints : List OutPoint := a.coins.spent

/-- The outputs of a transaction that pay to addresses of `owned`, with their index. -/
def ownedOutputs (owned : Address → Bool) (tx : Transaction) : List (Nat × TxOut × Address) :=
  tx.output.zipIdx.filterMap fun (output, vout) =>
    match Address.fromScript output.scriptPubkey with
    | some address => if owned address then some (vout, output, address) else none
    | none => none

/-- The coins that outputs of a transaction make. -/
def createdCoins (owned trusted : Address → Bool) (txid : Txid) (tx : Transaction)
    (context : TransactionContext) : List (OutPoint × Utxo) :=
  (ownedOutputs owned tx).map fun (vout, output, address) =>
    (⟨txid, vout⟩, .ofOutput txid tx context vout output address (trusted address))

/-- A transaction became inactive: its outputs are no coins, and what it spent is no longer
known to be spent. -/
def releaseInactiveUtxos (txid : Txid) (tx : Transaction) : ManagedCoreFundsAccount :=
  let outpoints := (List.range tx.output.length).map fun vout => (⟨txid, vout⟩ : OutPoint)
  let inputs := tx.input.map TxIn.previousOutput
  let changed := outpoints.any a.utxos.contains || inputs.any a.spentOutpoints.contains
  { a with
    coins := inputs.foldl CoinSet.release (outpoints.foldl CoinSet.discard a.coins)
    keys := if changed then a.keys.bumpMonitorRevision else a.keys }

/-- Whether a match lists an address. -/
def involves (accountMatch : AccountMatch) (address : Address) : Bool :=
  (accountMatch.accountTypeMatch.allInvolvedAddresses.map AddressInfo.address).contains address

/-- Whether an output to an address is our own change: the account owns an input, and the
match lists the address as one for change. -/
def trusts (accountMatch : AccountMatch) (address : Address) : Bool :=
  0 < accountMatch.sent &&
    (accountMatch.accountTypeMatch.involvedChangeAddresses.map AddressInfo.address).contains address

/-- Create the coins of a transaction that pay to involved addresses, and spend its inputs. -/
def updateUtxos (txid : Txid) (tx : Transaction)
    (accountMatch : AccountMatch) (context : TransactionContext) : ManagedCoreFundsAccount :=
  if context.isInactive then a.releaseInactiveUtxos txid tx
  else
    let created := createdCoins (involves accountMatch) (trusts accountMatch) txid tx context
    let inputs := tx.input.map TxIn.previousOutput
    let changed := created.any (fun coin => coin.1 ∉ a.spentOutpoints) ||
      inputs.any (created.foldl CoinSet.create a.coins).coins.contains
    { a with
      coins := a.coins.apply created inputs
      keys := if changed then a.keys.bumpMonitorRevision else a.keys }

end

section

variable (keepFinalized : Bool) (a : ManagedCoreFundsAccount)

/-- Record a transaction and update the coins. -/
def recordTransaction (txid : Txid) (tx : Transaction)
    (accountMatch : AccountMatch) (context : TransactionContext)
    (transactionType : TransactionType) : ManagedCoreFundsAccount × TransactionRecord :=
  let record := ManagedCoreKeysAccount.newRecord tx accountMatch context transactionType
  let a := { a with keys.transactions := a.keys.transactions.insert txid record }
  let a := a.updateUtxos txid tx accountMatch context
  ({ a with keys := a.keys.dropIfChainLocked keepFinalized txid context }, record)

/-- A recorded transaction is seen in a block. Returns the record if that is worth an
event. -/
def confirmTransaction (txid : Txid) (tx : Transaction)
    (accountMatch : AccountMatch) (context : TransactionContext)
    (transactionType : TransactionType) : ManagedCoreFundsAccount × Option TransactionRecord :=
  if a.keys.transactionIsFinalized keepFinalized txid then (a, none)
  else
    match a.keys.transactions.get? txid with
    | none =>
      let (a, record) := a.recordTransaction keepFinalized txid tx accountMatch context
        transactionType
      (a, some record)
    | some record =>
      let changed := record.context ≠ context &&
        (!record.context.confirmed || context.isInactive)
      let a := { a with keys := a.keys.updateContext txid context }
      let a := a.updateUtxos txid tx accountMatch context
      ({ a with keys := a.keys.dropIfChainLocked keepFinalized txid context },
        if changed then some { record with context } else none)

end

variable (computeTxid : Transaction → Txid) (a : ManagedCoreFundsAccount)

/-- Mark the coins of a transaction as InstantSend-locked. The result says whether any was
not. -/
def markUtxosInstantSend (txid : Txid) : ManagedCoreFundsAccount × Bool :=
  let marks := fun (u : Utxo) => u.outpoint.txid = txid && !u.isInstantlocked
  ({ a with coins := a.coins.mapVal fun _ u =>
      if marks u then { u with isInstantlocked := true } else u },
    a.utxos.values.any marks)

/-- Records by block height, those in no block first. -/
def byHeight (records : List TransactionRecord) : List TransactionRecord :=
  let rank := fun (record : TransactionRecord) => match record.context.blockInfo with
    | none => 0
    | some info => info.height + 1
  records.insertionSort fun r r' => rank r ≤ rank r'

/-- Whether an address is one of the account's change addresses. -/
def isChangeAddress (address : Address) : Bool :=
  a.keys.addressPools.any fun pool => pool.1.isInternal && pool.1.containsAddress address

/-- The retained records that are active, by height. -/
def activeRecords : List TransactionRecord :=
  byHeight (a.keys.transactions.values.filter fun record => !record.context.isInactive)

/-- The outputs of active records to addresses of the account. -/
def ownedOutpoints : List OutPoint :=
  a.activeRecords.flatMap fun record =>
    (ownedOutputs a.keys.containsAddress record.transaction).map fun output =>
      ⟨computeTxid record.transaction, output.1⟩

/-- Whether an output of a record to an address is our own change: the record spends an
output of the account. -/
def rebuildTrusts (record : TransactionRecord) (address : Address) : Bool :=
  (record.transaction.input.any fun input =>
    (a.ownedOutpoints computeTxid).contains input.previousOutput) && a.isChangeAddress address

/-- The coins that a record makes, and the outpoints that it spends. -/
def rebuildEntry (record : TransactionRecord) : List (OutPoint × Utxo) × List OutPoint :=
  (createdCoins a.keys.containsAddress (a.rebuildTrusts computeTxid record)
      (computeTxid record.transaction) record.transaction record.context,
    record.transaction.input.map TxIn.previousOutput)

/-- Compute the coins anew from the retained records that are active. -/
def rebuildUtxos : ManagedCoreFundsAccount :=
  { a with
    coins := .build (a.activeRecords.map (a.rebuildEntry computeTxid))
    keys := a.keys.bumpMonitorRevision }

variable (lastProcessedHeight : Nat)

/-- The balance of one coin. -/
def balanceOf (u : Utxo) : WalletCoreBalance :=
  if u.isLocked then { WalletCoreBalance.zero with locked := u.txout.value }
  else if !u.isMature lastProcessedHeight then
    { WalletCoreBalance.zero with immature := u.txout.value }
  else if u.isConfirmed || u.isInstantlocked || u.isTrusted then
    { WalletCoreBalance.zero with confirmed := u.txout.value }
  else { WalletCoreBalance.zero with unconfirmed := u.txout.value }

/-- Compute the balance from the coins. -/
def updateBalance : ManagedCoreFundsAccount :=
  { a with balance := a.utxos.values.foldl (fun balance u =>
      balance.add (balanceOf lastProcessedHeight u)) .zero }

end ManagedCoreFundsAccount

end Dashcore
