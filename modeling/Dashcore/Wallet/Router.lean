import Dashcore.Wallet.AddressPool

/-!
# Routing of transactions to account types

A transaction is classified by its payload and shape, and only the account types listed
for its class are looked at.
-/

namespace Dashcore

/-- Classification of a transaction for routing. -/
inductive TransactionType
  | standard
  | coinJoin
  | providerRegistration
  | providerUpdateRegistrar
  | providerUpdateService
  | providerUpdateRevocation
  | assetLock
  | assetUnlock
  | coinbase
  | ignored
  deriving DecidableEq

/-- Types of accounts that hold and spend coins. -/
inductive FundsType
  | standardBip44
  | standardBip32
  | coinJoin
  | dashpayReceivingFunds
  | dashpayExternalAccount
  deriving DecidableEq

/-- Types of accounts that only hold keys. -/
inductive KeysType
  | identityRegistration
  | identityTopUp
  | identityTopUpNotBound
  | identityInvitation
  | assetLockAddressTopUp
  | assetLockShieldedAddressTopUp
  | providerVotingKeys
  | providerOwnerKeys
  | providerOperatorKeys
  | providerPlatformKeys
  deriving DecidableEq

/-- Account types that can be checked for transactions. -/
inductive AccountTypeToCheck
  | funds (type : FundsType)
  | keys (type : KeysType)
  deriving DecidableEq

namespace TransactionRouter

/-- 1, 0.1, 0.01, 0.001 and 0.0001 Dash. -/
def coinjoinDenominations : List Nat := [100000000, 10000000, 1000000, 100000, 10000]

section

variable (tx : Transaction)

/-- Whether at least half of the outputs, rounded down, are denominations. -/
def hasDenominationOutputs : Bool :=
  tx.output.length / 2 ≤
    (tx.output.filter fun output => coinjoinDenominations.contains output.value).length

def isCoinjoinTransaction : Bool :=
  3 ≤ tx.input.length && 3 ≤ tx.output.length && hasDenominationOutputs tx

/-- The class that a payload alone decides. -/
def specialClassification : TransactionPayload → Option TransactionType
  | .providerRegistration _ => some .providerRegistration
  | .providerUpdateRegistrar _ => some .providerUpdateRegistrar
  | .providerUpdateService _ => some .providerUpdateService
  | .providerUpdateRevocation _ => some .providerUpdateRevocation
  | .assetLock _ => some .assetLock
  | .assetUnlock _ => some .assetUnlock
  | .coinbase _ => some .coinbase
  | .quorumCommitment _ => some .ignored
  | .mnhfSignal _ => some .ignored
  -- transactions from before special transactions are classified by their shape
  | .classicalWithNonStandardVersionTypeBytes _ => none

/-- Classify a transaction by its payload and shape. -/
def classifyTransaction : TransactionType :=
  match tx.specialTransactionPayload.bind specialClassification with
  | some classification => classification
  | none =>
    if tx.isCoinBase then .coinbase
    else if isCoinjoinTransaction tx then .coinJoin
    else .standard

end

/-- The account types that are checked for a class of transactions, in order. -/
def getRelevantAccountTypes : TransactionType → List AccountTypeToCheck
  | .standard => [.funds .standardBip44, .funds .standardBip32, .funds .dashpayReceivingFunds,
      .funds .dashpayExternalAccount]
  | .coinJoin => [.funds .coinJoin]
  | .providerRegistration => [.keys .providerOwnerKeys, .keys .providerOperatorKeys,
      .keys .providerVotingKeys, .keys .providerPlatformKeys, .funds .standardBip44,
      .funds .standardBip32, .funds .coinJoin]
  | .providerUpdateRegistrar => [.keys .providerVotingKeys, .keys .providerOperatorKeys,
      .funds .standardBip44, .funds .standardBip32, .funds .coinJoin]
  | .providerUpdateService => [.keys .providerOperatorKeys, .keys .providerPlatformKeys,
      .funds .standardBip44, .funds .standardBip32, .funds .coinJoin]
  | .providerUpdateRevocation => [.funds .standardBip44, .funds .standardBip32, .funds .coinJoin]
  | .assetLock => [.funds .standardBip44, .funds .standardBip32, .keys .identityRegistration,
      .keys .identityTopUp, .keys .identityTopUpNotBound, .keys .identityInvitation,
      .keys .assetLockAddressTopUp, .keys .assetLockShieldedAddressTopUp]
  | .assetUnlock => [.funds .standardBip44, .funds .standardBip32]
  | .coinbase => [.funds .standardBip44, .funds .standardBip32]
  | .ignored => []

end TransactionRouter

/-- The account a transaction concerns, and which of its addresses. Accounts without change
addresses list all involved addresses as receive addresses. -/
structure CoreAccountTypeMatch where
  accountType : AccountTypeToCheck
  /-- The account index, for types with several accounts. -/
  accountIndex : Option Nat
  involvedReceiveAddresses : List AddressInfo
  involvedChangeAddresses : List AddressInfo
  deriving DecidableEq

def CoreAccountTypeMatch.allInvolvedAddresses (m : CoreAccountTypeMatch) : List AddressInfo :=
  m.involvedReceiveAddresses ++ m.involvedChangeAddresses

/-- How a transaction concerns an account. -/
structure AccountMatch where
  accountTypeMatch : CoreAccountTypeMatch
  received : Nat
  sent : Nat
  receivedForCreditConversion : Nat
  deriving DecidableEq

end Dashcore
