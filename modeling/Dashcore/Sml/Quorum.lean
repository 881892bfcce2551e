import Mathlib.Data.List.MinMax
import Dashcore.Primitives
import Dashcore.Lib.SortedMap

/-!
# Quorums

Quorum types, quorum entries with their validation status, and the check of a
threshold signature under a quorum's public key.
-/

namespace Dashcore

/-- The quorum types, with the wire numbers of `LLMQType.toU8`. -/
inductive LLMQType
  | llmqtypeUnknown
  | llmqtype50_60
  | llmqtype400_60
  | llmqtype400_85
  | llmqtype100_67
  | llmqtype60_75
  | llmqtype25_67
  | llmqtypeTest
  | llmqtypeDevnet
  | llmqtypeTestV17
  | llmqtypeTestDIP0024
  | llmqtypeTestInstantSend
  | llmqtypeDevnetDIP0024
  | llmqtypeTestnetPlatform
  | llmqtypeDevnetPlatform
  deriving DecidableEq, Repr

namespace LLMQType

/-- The enum's discriminant. -/
def toU8 : LLMQType → Nat
  | llmqtypeUnknown => 0
  | llmqtype50_60 => 1
  | llmqtype400_60 => 2
  | llmqtype400_85 => 3
  | llmqtype100_67 => 4
  | llmqtype60_75 => 5
  | llmqtype25_67 => 6
  | llmqtypeTest => 100
  | llmqtypeDevnet => 101
  | llmqtypeTestV17 => 102
  | llmqtypeTestDIP0024 => 103
  | llmqtypeTestInstantSend => 104
  | llmqtypeDevnetDIP0024 => 105
  | llmqtypeTestnetPlatform => 106
  | llmqtypeDevnetPlatform => 107

theorem toU8_injective : Function.Injective toU8 := by
  intro a b h
  cases a <;> cases b <;> first | rfl | cases h

/-- The derived order of the enum is the order of the discriminants. -/
instance : LinearOrder LLMQType := LinearOrder.lift' toU8 toU8_injective

/-- `signing_active_quorum_count` of the type's parameters. -/
def activeQuorumCount : LLMQType → Nat
  | llmqtype50_60 => 24
  | llmqtype400_60 => 4
  | llmqtype400_85 => 4
  | llmqtype100_67 => 24
  | llmqtype60_75 => 32
  | llmqtype25_67 => 24
  | llmqtypeTest => 2
  | llmqtypeDevnet => 4
  | llmqtypeTestV17 => 2
  | llmqtypeTestDIP0024 => 2
  | llmqtypeTestInstantSend => 2
  | llmqtypeDevnetDIP0024 => 2
  | llmqtypeTestnetPlatform => 2
  | llmqtypeDevnetPlatform => 4
  | llmqtypeUnknown => 4

end LLMQType

/-- The quorum type that signs ChainLocks. -/
def Network.chainLocksType : Network → LLMQType
  | mainnet => .llmqtype400_60
  | testnet => .llmqtype50_60
  | devnet => .llmqtypeDevnet
  | regtest => .llmqtypeTest

/-- The rotating quorum type that signs InstantSend locks. -/
def Network.isdLlmqType : Network → LLMQType
  | mainnet => .llmqtype60_75
  | testnet => .llmqtype60_75
  | devnet => .llmqtypeDevnetDIP0024
  | regtest => .llmqtypeTestDIP0024

/-- Errors of masternode-list processing that a quorum status can carry. -/
inductive SmlError
  | baseBlockNotGenesis (blockHash : BlockHash)
  | blockHashLookupFailed (blockHash : BlockHash)
  | incompleteMnListDiff
  | missingStartMasternodeList (blockHash : BlockHash)
  | baseBlockHashMismatch (expected found : BlockHash)
  | unknownError
  | corruptedCodeExecution (message : String)
  | featureNotTurnedOn (message : String)
  | invalidIndexInSignatureSet (index : Nat)
  | incompleteSignatureSet
  deriving DecidableEq

/-- Why a quorum entry failed validation. -/
inductive QuorumValidationError
  | requiredBlockNotPresent (blockHash : BlockHash) (message : String)
  | requiredBlockHeightNotPresent (height : Nat)
  | verifyingMasternodeListNotPresent (height : Nat)
  | requiredMasternodeListNotPresent (height : Nat)
  | requiredChainLockNotPresent (height : Nat) (blockHash : BlockHash)
  | requiredRotatedChainLockSigNotPresent (offset : Nat) (blockHash : BlockHash)
  | requiredRotatedChainLockSigsNotPresent (blockHash : BlockHash)
  | insufficientSigners (required found : Nat)
  | insufficientValidMembers (required found : Nat)
  | mismatchedBitsetLengths (signersLen validMembersLen : Nat)
  | invalidQuorumPublicKey
  | invalidBLSPublicKey (message : String)
  | invalidBLSSignature (message : String)
  | invalidQuorumSignature
  | invalidFinalSignature
  | allCommitmentAggregatedSignatureNotValid (message : String)
  | thresholdSignatureNotValid (message : String)
  | commitmentHashNotPresent
  | requiredSnapshotNotPresent (blockHash : BlockHash)
  | smlError (error : SmlError)
  | requiredQuorumIndexNotPresent (quorumHash : QuorumHash)
  | invalidQuorumIndex (quorumHash : QuorumHash) (index : Int)
  | corruptedCodeExecution (message : String)
  | expectedOnlyRotatedQuorums (quorumHash : QuorumHash) (llmqType : LLMQType)
  | featureNotTurnedOn (message : String)
  deriving DecidableEq

/-- Why the validation of a quorum entry was put off. -/
inductive LLMQEntryVerificationSkipStatus
  | notMarkedForVerification
  | missedList (height : Nat)
  | unknownBlock (blockHash : BlockHash)
  | missingSnapshot (blockHash : BlockHash)
  | missingChainLock (height : Nat) (blockHash : BlockHash)
  | missingRotationChainLockSigs (quorumHash : QuorumHash)
  | missingRotationChainLockSig (offset : Nat) (blockHash : BlockHash)
  | otherContext (message : String)
  deriving DecidableEq

/-- The validation status of a quorum entry. -/
inductive LLMQEntryVerificationStatus
  | unknown
  | verified
  | skipped (reason : LLMQEntryVerificationSkipStatus)
  | invalid (error : QuorumValidationError)
  deriving DecidableEq

/-- A final commitment of a quorum. -/
structure QuorumEntry where
  version : Nat
  llmqType : LLMQType
  quorumHash : QuorumHash
  quorumIndex : Option Int
  signers : List Bool
  validMembers : List Bool
  quorumPublicKey : BLSPublicKey
  quorumVvecHash : Hash256
  thresholdSig : BLSSignature
  allCommitmentAggregatedSignature : BLSSignature
  deriving DecidableEq

/-- The ChainLock signatures a quorum entry is checked against. -/
inductive VerifyingChainLockSignaturesType
  | rotating (sig0 sig1 sig2 sig3 : BLSSignature)
  | nonRotating (sig : BLSSignature)
  deriving DecidableEq

/-- A quorum entry with its validation status and computed hashes. -/
structure QualifiedQuorumEntry where
  quorumEntry : QuorumEntry
  verified : LLMQEntryVerificationStatus
  commitmentHash : Hash256
  entryHash : Hash256
  verifyingChainLockSignature : Option VerifyingChainLockSignaturesType
  deriving DecidableEq

/-- Why a signed message was not accepted. -/
inductive MessageVerificationError
  | cycleHashNotPresent (cycleHash : CycleHash)
  | cycleHashEmpty (cycleHash : CycleHash)
  | quorumIndexNotFound (index : Nat) (cycleHash : CycleHash)
  | noMasternodeLists
  | masternodeListHasNoQuorums (height : Nat)
  | thresholdSignatureNotValid (signature : BLSSignature) (digest : Hash256)
      (publicKey : BLSPublicKey) (quorumHash : QuorumHash) (llmqType : LLMQType) (error : String)
  | generic (message : String)
  | invalidBLSPublicKey (message : String)
  | invalidBLSSignature (message : String)
  deriving DecidableEq

/-- One hexadecimal digit. -/
def hexDigit (n : Nat) : Char := Char.ofNat (if n < 10 then 48 + n else 87 + n)

/-- `hex::encode` of a byte string. -/
def hexEncode (bytes : List UInt8) : String :=
  String.ofList (bytes.flatMap fun b => [hexDigit (b.toNat / 16), hexDigit (b.toNat % 16)])

/-- The hash by which quorums compete for a signing request. -/
def QuorumOrderingHash.create (crypto : Crypto) (quorum : QuorumEntry) (requestId : Hash256) :
    Hash256 :=
  crypto.sha256d
    (leBytes 1 quorum.llmqType.toU8 ++ toByteArray quorum.quorumHash ++ toByteArray requestId)

/-- Check a threshold signature on a digest under the quorum's public key. -/
def QualifiedQuorumEntry.verifyMessageDigest (crypto : Crypto) (quorum : QualifiedQuorumEntry)
    (messageDigest : Hash256) (signature : BLSSignature) :
    Except MessageVerificationError Unit :=
  match crypto.publicKeyTryFrom quorum.quorumEntry.quorumPublicKey with
  | .error e => .error (.invalidBLSPublicKey e)
  | .ok publicKey =>
    match crypto.signatureFromCompressed signature with
    | none => .error (.invalidBLSSignature (hexEncode signature.toList))
    | some blsSignature =>
      match crypto.verify blsSignature publicKey (toByteArray messageDigest) with
      | .ok () => .ok ()
      | .error e =>
        .error (.thresholdSignatureNotValid signature messageDigest
          quorum.quorumEntry.quorumPublicKey quorum.quorumEntry.quorumHash
          quorum.quorumEntry.llmqType e)

end Dashcore
