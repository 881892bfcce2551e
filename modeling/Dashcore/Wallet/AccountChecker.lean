import Dashcore.Wallet.Account

/-!
# Matching transactions against accounts

A transaction concerns a funds account if it pays to one of its addresses or spends one of
its coins, and a keys account if it carries one of its keys or credits one of its
addresses. A match names the account by type and index and lists the addresses involved.
A DashPay account has no index of its own: it is found again by the involved addresses.
-/

namespace Dashcore

/-! ### Accounts of a wallet -/

/-- Where a funds account is kept. -/
inductive FundsKey
  | standardBip44 (index : Nat)
  | standardBip32 (index : Nat)
  | coinJoin (index : Nat)
  | dashpayReceivingFunds (index : Nat) (userIdentityId friendIdentityId : Hash256)
  | dashpayExternalAccount (index : Nat) (userIdentityId friendIdentityId : Hash256)
  deriving DecidableEq

namespace FundsKey

def type : FundsKey → FundsType
  | standardBip44 _ => .standardBip44
  | standardBip32 _ => .standardBip32
  | coinJoin _ => .coinJoin
  | dashpayReceivingFunds _ _ _ => .dashpayReceivingFunds
  | dashpayExternalAccount _ _ _ => .dashpayExternalAccount

def index : FundsKey → Nat
  | standardBip44 index => index
  | standardBip32 index => index
  | coinJoin index => index
  | dashpayReceivingFunds index _ _ => index
  | dashpayExternalAccount index _ _ => index

/-- The key as numbers, type first. -/
def code : FundsKey → List Nat
  | standardBip44 index => [0, index]
  | standardBip32 index => [1, index]
  | coinJoin index => [2, index]
  | dashpayReceivingFunds index user friend => [3, index, user, friend]
  | dashpayExternalAccount index user friend => [4, index, user, friend]

theorem code_inj : Function.Injective code := by
  intro a b h
  cases a <;> cases b <;> simp_all [code, Fin.val_inj]

/-- Accounts are kept by type, then by index and identities. -/
instance : LinearOrder FundsKey := LinearOrder.lift' code code_inj

end FundsKey

/-- Where a keys account is kept: all types but one have a single account. -/
inductive KeysKey
  | single (type : KeysType) (unindexed : type ≠ .identityTopUp)
  | identityTopUp (index : Nat)
  deriving DecidableEq

namespace KeysKey

def type : KeysKey → KeysType
  | single type _ => type
  | identityTopUp _ => .identityTopUp

/-- The account index of a match with this account. -/
def index : KeysKey → Option Nat
  | single _ _ => none
  | identityTopUp index => some index

/-- The key for a type and an index. -/
def ofType (type : KeysType) (index : Option Nat) : KeysKey :=
  if h : type = .identityTopUp then .identityTopUp (index.getD 0) else .single type h

/-- The position of a type in the collection. -/
def rank : KeysType → Nat
  | .identityRegistration => 0
  | .identityTopUp => 1
  | .identityTopUpNotBound => 2
  | .identityInvitation => 3
  | .assetLockAddressTopUp => 4
  | .assetLockShieldedAddressTopUp => 5
  | .providerVotingKeys => 6
  | .providerOwnerKeys => 7
  | .providerOperatorKeys => 8
  | .providerPlatformKeys => 9

/-- The key as numbers, type first. -/
def code : KeysKey → List Nat
  | single type _ => [rank type]
  | identityTopUp index => [1, index]

theorem rank_injective : Function.Injective rank := by
  intro a b h
  cases a <;> cases b <;> first | rfl | cases h

theorem code_inj : Function.Injective code := by
  intro a b h
  cases a <;> cases b <;> simp_all [code, rank_injective.eq_iff]

/-- Accounts are kept by type, then by index. -/
instance : LinearOrder KeysKey := LinearOrder.lift' code code_inj

end KeysKey

/-- The accounts of a wallet. -/
structure ManagedAccountCollection where
  funds : SortedMap FundsKey ManagedCoreFundsAccount
  keys : SortedMap KeysKey ManagedCoreKeysAccount
  deriving DecidableEq

/-- The account a match belongs to. -/
inductive AccountKey
  | funds (key : FundsKey)
  | keys (key : KeysKey)
  deriving DecidableEq

/-! ### Matches -/

/-- Which list of a match an address goes to. -/
inductive AddressClassification
  | external
  | internal
  | other
  deriving DecidableEq

/-- The payout script of a masternode transaction. -/
def Transaction.scriptPayout (tx : Transaction) : Option ScriptBuf :=
  match tx.specialTransactionPayload with
  | some (.providerRegistration payload) => some payload.scriptPayout
  | some (.providerUpdateRegistrar payload) => some payload.scriptPayout
  | some (.providerUpdateService payload) => some payload.scriptPayout
  | _ => none

namespace ManagedCoreKeysAccount

variable (a : ManagedCoreKeysAccount)

/-- The address of this account that a script pays to, with what is known about it. -/
def involvedByScript (script : ScriptBuf) : Option (Address × AddressInfo) :=
  if a.containsScriptPubKey script then
    (Address.fromScript script).bind fun address =>
      (a.getAddressInfo address).map fun info => (address, info)
  else none

/-- The total value of the outputs whose script belongs to this account. -/
def receivedValue (outputs : List TxOut) : Nat :=
  ((outputs.filter fun output => a.containsScriptPubKey output.scriptPubkey).map TxOut.value).sum

/-- Check an account of the top-up keys: a masternode payout or an output pays to it. -/
def checkTransactionForMatch (key : KeysKey) (tx : Transaction) : Option AccountMatch :=
  let payout := tx.scriptPayout.bind a.involvedByScript
  let involved := payout.toList ++
    tx.output.filterMap fun output => a.involvedByScript output.scriptPubkey
  if involved.isEmpty then none
  else
    some
      { accountTypeMatch :=
          { accountType := .keys key.type
            accountIndex := key.index
            involvedReceiveAddresses := involved.map Prod.snd
            involvedChangeAddresses := [] }
        received := a.receivedValue tx.output
        sent := 0
        receivedForCreditConversion := 0 }

/-- Check the outputs that an asset lock credits on the platform. -/
def checkAssetLockTransactionForMatch (key : KeysKey) (tx : Transaction) : Option AccountMatch :=
  match tx.specialTransactionPayload with
  | some (.assetLock payload) =>
    let involved := payload.creditOutputs.filterMap fun output =>
      a.involvedByScript output.scriptPubkey
    if involved.isEmpty then none
    else
      some
        { accountTypeMatch :=
            { accountType := .keys key.type
              accountIndex := key.index
              involvedReceiveAddresses := involved.map Prod.snd
              involvedChangeAddresses := [] }
          received := 0
          sent := 0
          receivedForCreditConversion := a.receivedValue payload.creditOutputs }
  | _ => none

/-- The match of a masternode key. -/
def keyMatch (type : KeysType) (info : AddressInfo) : AccountMatch where
  accountTypeMatch :=
    { accountType := .keys type
      accountIndex := none
      involvedReceiveAddresses := [info]
      involvedChangeAddresses := [] }
  received := 0
  sent := 0
  receivedForCreditConversion := 0

/-- The match of a key that is given by its hash. -/
def checkKeyHash (type : KeysType) (hash : Option PubkeyHash) : Option AccountMatch :=
  (hash.bind fun hash => a.addresses.1.addressInfo (.pubkeyHash hash)).map (keyMatch type)

section

variable (tx : Transaction)

/-- Voting keys are in registrations and registrar updates. -/
def checkProviderVotingKeyInTransactionForMatch : Option AccountMatch :=
  a.checkKeyHash .providerVotingKeys <| match tx.specialTransactionPayload with
    | some (.providerRegistration payload) => some payload.votingKeyHash
    | some (.providerUpdateRegistrar payload) => some payload.votingKeyHash
    | _ => none

/-- Owner keys are in registrations. -/
def checkProviderOwnerKeyInTransactionForMatch : Option AccountMatch :=
  a.checkKeyHash .providerOwnerKeys <| match tx.specialTransactionPayload with
    | some (.providerRegistration payload) => some payload.ownerKeyHash
    | _ => none

/-- Platform node keys are in registrations of evolution nodes. -/
def checkProviderPlatformKeyInTransactionForMatch : Option AccountMatch :=
  a.checkKeyHash .providerPlatformKeys <| match tx.specialTransactionPayload with
    | some (.providerRegistration payload) => payload.platformNodeId
    | _ => none

/-- Operator keys are BLS keys, compared as bytes. -/
def checkProviderOperatorKeyInTransactionForMatch : Option AccountMatch :=
  let operatorPublicKey := match tx.specialTransactionPayload with
    | some (.providerRegistration payload) => some payload.operatorPublicKey
    | some (.providerUpdateRegistrar payload) => some payload.operatorPublicKey
    | _ => none
  operatorPublicKey.bind fun key =>
    (a.addresses.1.addresses.values.find? fun info =>
      info.publicKey = some (.bls key.toList)).map (keyMatch .providerOperatorKeys)

end

/-- The check for an account's type. -/
def check (key : KeysKey) (tx : Transaction) : Option AccountMatch :=
  match key.type with
  | .identityTopUp => a.checkTransactionForMatch key tx
  | .identityRegistration | .identityTopUpNotBound | .identityInvitation
  | .assetLockAddressTopUp | .assetLockShieldedAddressTopUp =>
    a.checkAssetLockTransactionForMatch key tx
  | .providerVotingKeys => a.checkProviderVotingKeyInTransactionForMatch tx
  | .providerOwnerKeys => a.checkProviderOwnerKeyInTransactionForMatch tx
  | .providerOperatorKeys => a.checkProviderOperatorKeyInTransactionForMatch tx
  | .providerPlatformKeys => a.checkProviderPlatformKeyInTransactionForMatch tx

end ManagedCoreKeysAccount

namespace ManagedCoreFundsAccount

variable (a : ManagedCoreFundsAccount)

/-- Which of its lists an account of a type puts an address on. -/
def classifyAddress (type : FundsType) (address : Address) : AddressClassification :=
  match type with
  | .standardBip44 | .standardBip32 =>
    if a.keys.addresses.1.containsAddress address then .external
    else if a.keys.internalAddresses.any fun pool => pool.1.containsAddress address then .internal
    else .other
  | .coinJoin => if a.keys.addresses.1.containsAddress address then .external else .other
  | .dashpayReceivingFunds | .dashpayExternalAccount => .other

section

variable (tx : Transaction)

/-- The coins of this account that a transaction spends. A coinbase spends nothing. -/
def spentBy : List Utxo :=
  if tx.isCoinBase then []
  else tx.input.filterMap fun input => a.utxos.get? input.previousOutput

/-- The addresses of this account that a transaction involves: its payout, then its outputs,
then its inputs. -/
def involvedAddresses : List (Address × AddressInfo) :=
  (tx.scriptPayout.bind a.keys.involvedByScript).toList ++
    tx.output.filterMap (fun output => a.keys.involvedByScript output.scriptPubkey) ++
    (a.spentBy tx).filterMap fun utxo =>
      (a.keys.getAddressInfo utxo.address).map fun info => (utxo.address, info)

/-- The involved addresses of one class. -/
def involvedOf (type : FundsType) (tx : Transaction)
    (classification : AddressClassification) : List AddressInfo :=
  ((a.involvedAddresses tx).filter fun involved =>
    a.classifyAddress type involved.1 = classification).map Prod.snd

/-- The value a transaction spends from this account, in a 64-bit number that saturates. -/
def sentValue : Nat :=
  (a.spentBy tx).foldl (fun sent utxo => min (sent + utxo.txout.value) (2 ^ 64 - 1)) 0

end

/-- Check whether a transaction pays to the account or spends from it. -/
def checkTransactionForMatch (key : FundsKey) (tx : Transaction) : Option AccountMatch :=
  let sent := a.sentValue tx
  if (a.involvedAddresses tx).isEmpty && sent = 0 then none
  else
    let receive := a.involvedOf key.type tx .external
    let change := a.involvedOf key.type tx .internal
    let other := a.involvedOf key.type tx .other
    let (receive, change) := match key.type with
      | .standardBip44 | .standardBip32 => (receive, change)
      | .coinJoin => (receive ++ other, [])
      | .dashpayReceivingFunds | .dashpayExternalAccount => (other, [])
    some
      { accountTypeMatch :=
          { accountType := .funds key.type
            accountIndex := some key.index
            involvedReceiveAddresses := receive
            involvedChangeAddresses := change }
        received := a.keys.receivedValue tx.output
        sent
        receivedForCreditConversion := 0 }

end ManagedCoreFundsAccount

namespace ManagedAccountCollection

variable (c : ManagedAccountCollection)

/-- The matches among the accounts of one type, in key order. -/
def checkAccountType (tx : Transaction) : AccountTypeToCheck → List AccountMatch
  | .funds type => c.funds.entries.filterMap fun e =>
      if e.1.type = type then e.2.checkTransactionForMatch e.1 tx else none
  | .keys type => c.keys.entries.filterMap fun e =>
      if e.1.type = type then e.2.check e.1 tx else none

/-- The matches among the accounts of some types. -/
def checkTransaction (tx : Transaction)
    (accountTypes : List AccountTypeToCheck) : List AccountMatch :=
  accountTypes.flatMap (c.checkAccountType tx)

/-- The account of a DashPay match: the first of its type and index with an involved
address. -/
def findDashpay (type : FundsType) (m : CoreAccountTypeMatch) : Option FundsKey :=
  c.funds.keys.find? fun key => key.type = type && key.index = m.accountIndex.getD 0 &&
    (c.funds.get? key).any fun account => m.involvedReceiveAddresses.any fun info =>
      account.keys.addresses.1.containsAddress info.address

/-- The funds account with this key, if there is one. -/
def indexed (key : FundsKey) : Option AccountKey :=
  if c.funds.contains key then some (.funds key) else none

/-- The account that a match names. -/
def getByAccountTypeMatch (m : CoreAccountTypeMatch) : Option AccountKey :=
  let index := m.accountIndex.getD 0
  match m.accountType with
  | .funds .standardBip44 => c.indexed (.standardBip44 index)
  | .funds .standardBip32 => c.indexed (.standardBip32 index)
  | .funds .coinJoin => c.indexed (.coinJoin index)
  | .funds .dashpayReceivingFunds => (c.findDashpay .dashpayReceivingFunds m).map .funds
  | .funds .dashpayExternalAccount => (c.findDashpay .dashpayExternalAccount m).map .funds
  | .keys type =>
    let key := KeysKey.ofType type m.accountIndex
    if c.keys.contains key then some (.keys key) else none

end ManagedAccountCollection

end Dashcore
