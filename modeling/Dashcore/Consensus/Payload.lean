import Dashcore.Consensus.QuorumEntry
import Dashcore.Transaction

/-!
# Special transaction payloads on the wire

Transaction parts and the payloads of the special transactions with the field widths of the
wire, their encoders and their decoders. All but two of the payload decoders accept only what
the encoder writes: a registration carries a service address and a quorum commitment a quorum
entry.
-/

namespace Dashcore

open Decoder Dec Option

namespace Wire

/-! ### Parts of transactions -/

/-- A 20-byte hash. -/
abbrev PubkeyHash := Vector UInt8 20

structure OutPoint where
  txid : Txid
  vout : UInt32
  deriving DecidableEq

variable {used : List UInt8}

namespace OutPoint

def consensusEncode (o : OutPoint) : List UInt8 := toByteArray o.txid ++ leBytes 4 o.vout.toNat

def consensusDecode : Dec OutPoint := do
  let txid ← hash256
  let vout ← u32
  pure { txid, vout }

@[simp] theorem decodes_iff {o : OutPoint} :
    consensusDecode.Decodes used o ↔ used = o.consensusEncode := by
  simp [consensusDecode, consensusEncode]
  constructor
  · rintro ⟨txid, vout, rfl, rfl⟩
    rfl
  · rintro rfl
    exact ⟨o.txid, o.vout, rfl, rfl⟩

end OutPoint

/-- Consensus encoding of a script. -/
def encodeScript (script : ScriptBuf) : List UInt8 := varInt script.bytes.length ++ script.bytes

/-- A script, from a finite reader. -/
def decodeScript : Dec ScriptBuf := ScriptBuf.mk <$> byteVec

@[simp] theorem decodes_decodeScript {script : ScriptBuf} : decodeScript.Decodes used script ↔
      script.bytes.length < 2 ^ 64 ∧ used = encodeScript script := by
  simp only [decodeScript, decodes_map, decodes_byteVec, encodeScript]
  constructor
  · rintro ⟨bytes, ⟨hlen, rfl⟩, rfl⟩
    exact ⟨hlen, rfl⟩
  · rintro ⟨hlen, rfl⟩
    exact ⟨script.bytes, ⟨hlen, rfl⟩, rfl⟩

theorem eq_of_decodes_script_take {script : ScriptBuf}
    (h : decodeScript.take.Decodes used script) : used = encodeScript script :=
  (decodes_decodeScript.mp (decodes_take.mp h).1).2

theorem eq_of_decodes_byteVec_take {v : List UInt8} (h : byteVec.take.Decodes used v) :
    used = varInt v.length ++ v :=
  (decodes_byteVec.mp (decodes_take.mp h).1).2

/-- An output. -/
structure TxOut where
  value : UInt64
  scriptPubkey : ScriptBuf
  deriving DecidableEq

namespace TxOut

def consensusEncode (o : TxOut) : List UInt8 :=
  leBytes 8 o.value.toNat ++ encodeScript o.scriptPubkey

def consensusDecode : Dec TxOut := do
  let value ← u64
  let scriptPubkey ← decodeScript
  pure { value, scriptPubkey }

theorem eq_of_decodes {o : TxOut} (h : consensusDecode.Decodes used o) :
    used = o.consensusEncode := by
  simp [consensusDecode] at h
  obtain ⟨value, script, rfl, -, rfl⟩ := h
  simp [consensusEncode]

end TxOut

/-! ### Payloads -/

/-- The masternode type in a registration. -/
inductive ProviderMasternodeType
  | regular
  | highPerformance
  deriving DecidableEq

namespace ProviderMasternodeType

def toU16 : ProviderMasternodeType → UInt16
  | regular => 0
  | highPerformance => 1

def consensusDecode : Dec ProviderMasternodeType := do
  let variant ← u16
  if variant = 0 then pure regular
  else if variant = 1 then pure highPerformance
  else Decoder.fail (.invalidEnumValue 1 variant "Invalid MasternodeType variant")

theorem eq_of_decodes {t : ProviderMasternodeType} (h : consensusDecode.Decodes used t) :
    used = leBytes 2 t.toU16.toNat := by
  simp only [consensusDecode, decodes_bind, decodes_u16, decodes_ite, decodes_pure,
    decodes_fail] at h
  obtain ⟨variant, _, _, rfl, rfl, h⟩ := h
  split_ifs at h with h0 h1
  · obtain ⟨rfl, rfl⟩ := h
    rw [h0, List.append_nil]
    rfl
  · obtain ⟨rfl, rfl⟩ := h
    rw [h1, List.append_nil]
    rfl

end ProviderMasternodeType

/-- The platform fields that evolution masternodes add. -/
structure PlatformFields where
  nodeId : Option PubkeyHash
  p2pPort : Option UInt16
  httpPort : Option UInt16
  deriving DecidableEq

namespace PlatformFields

def consensusEncode (f : PlatformFields) : List UInt8 :=
  (f.nodeId.getD (Vector.replicate 20 0)).toList ++ leBytes 2 (f.p2pPort.getD 0).toNat
    ++ leBytes 2 (f.httpPort.getD 0).toNat

/-- The fields, if they are announced. -/
def consensusDecode (present : Bool) : Dec PlatformFields :=
  if present then do
    let nodeId ← Dec.bytes 20
    let p2pPort ← u16
    let httpPort ← u16
    pure ⟨some nodeId, some p2pPort, some httpPort⟩
  else pure ⟨none, none, none⟩

theorem eq_of_decodes {present : Bool} {f : PlatformFields}
    (h : (consensusDecode present).Decodes used f) :
    used = if present then f.consensusEncode else [] := by
  cases present with
  | true =>
    simp [consensusDecode] at h
    obtain ⟨nodeId, p2pPort, httpPort, rfl, rfl⟩ := h
    simp [consensusEncode]
  | false =>
    simp only [consensusDecode, Bool.false_eq_true, if_false, decodes_pure] at h
    exact h.1

end PlatformFields

/-- Registration of a masternode. -/
structure ProviderRegistrationPayload where
  version : UInt16
  masternodeType : ProviderMasternodeType
  masternodeMode : UInt16
  collateralOutpoint : OutPoint
  serviceAddress : SocketAddr
  ownerKeyHash : PubkeyHash
  operatorPublicKey : BLSPublicKey
  votingKeyHash : PubkeyHash
  operatorReward : UInt16
  scriptPayout : ScriptBuf
  inputsHash : Hash256
  signature : List UInt8
  platform : PlatformFields
  deriving DecidableEq

namespace ProviderRegistrationPayload

/-- Whether the platform fields are on the wire. -/
def hasPlatform (version : UInt16) (masternodeType : ProviderMasternodeType) : Bool :=
  2 ≤ version ∧ masternodeType = .highPerformance

/-- The encoding around the 16 bytes of the service address. -/
def layout (p : ProviderRegistrationPayload) (ip : List UInt8) : List UInt8 :=
  leBytes 2 p.version.toNat ++ leBytes 2 p.masternodeType.toU16.toNat
    ++ leBytes 2 p.masternodeMode.toNat ++ p.collateralOutpoint.consensusEncode
    ++ (ip ++ leBytes 2 (swapBytes p.serviceAddress.port).toNat)
    ++ p.ownerKeyHash.toList ++ p.operatorPublicKey.toList ++ p.votingKeyHash.toList
    ++ leBytes 2 p.operatorReward.toNat ++ encodeScript p.scriptPayout
    ++ toByteArray p.inputsHash
    ++ (if hasPlatform p.version p.masternodeType then p.platform.consensusEncode else [])
    ++ (varInt p.signature.length ++ p.signature)

def consensusEncode (p : ProviderRegistrationPayload) : List UInt8 :=
  p.layout p.serviceAddress.ipBytes

def consensusDecode : Dec ProviderRegistrationPayload := do
  let version ← u16
  let masternodeType ← ProviderMasternodeType.consensusDecode
  let masternodeMode ← u16
  let collateralOutpoint ← OutPoint.consensusDecode
  let serviceAddress ← SocketAddr.consensusDecode
  let ownerKeyHash ← Dec.bytes 20
  let operatorPublicKey ← Dec.bytes 48
  let votingKeyHash ← Dec.bytes 20
  let operatorReward ← u16
  let scriptPayout ← decodeScript.take
  let inputsHash ← hash256
  let platform ← PlatformFields.consensusDecode (hasPlatform version masternodeType)
  let signature ← byteVec.take
  pure { version, masternodeType, masternodeMode, collateralOutpoint, serviceAddress,
         ownerKeyHash, operatorPublicKey, votingKeyHash, operatorReward, scriptPayout,
         inputsHash, signature, platform }

/-- The service address is the one part that is read from more bytes than are written. -/
theorem decodes_layout {p : ProviderRegistrationPayload} (h : consensusDecode.Decodes used p) :
    ∃ ip : Vector UInt8 16, p.serviceAddress = .ofBytes ip p.serviceAddress.port ∧
      used = p.layout ip.toList ∧
      ∀ ip' : Vector UInt8 16, p.serviceAddress = .ofBytes ip' p.serviceAddress.port →
        consensusDecode.Decodes (p.layout ip'.toList) p := by
  simp only [consensusDecode, decodes_bind, decodes_u16, OutPoint.decodes_iff,
    SocketAddr.decodes_iff, Dec.decodes_bytes, decodes_hash256, decodes_pure, existsAndEq,
    true_and, and_true, List.append_nil] at h
  obtain ⟨version, masternodeType, _, masternodeMode, collateralOutpoint, serviceAddress,
    ownerKeyHash, operatorPublicKey, votingKeyHash, operatorReward, scriptPayout, _, inputsHash,
    platform, _, _, ip, rfl, htype, haddr, hscript, hplatform, signature, hsig, rfl⟩ := h
  obtain rfl := ProviderMasternodeType.eq_of_decodes htype
  obtain rfl := eq_of_decodes_script_take hscript
  obtain rfl := PlatformFields.eq_of_decodes hplatform
  obtain rfl := eq_of_decodes_byteVec_take hsig
  refine ⟨ip, haddr, by simp [layout], fun ip' hip' => ?_⟩
  simp only [layout, List.append_assoc]
  refine .bind (decodes_u16.mpr rfl) (.bind htype (.bind (decodes_u16.mpr rfl)
    (.bind (OutPoint.decodes_iff.mpr rfl) ?_)))
  rw [← List.append_assoc ip'.toList]
  refine .bind (SocketAddr.decodes_iff.mpr ⟨ip', hip', rfl⟩) ?_
  refine .bind (Dec.decodes_bytes.mpr rfl) (.bind (Dec.decodes_bytes.mpr rfl)
    (.bind (Dec.decodes_bytes.mpr rfl) (.bind (decodes_u16.mpr rfl) ?_)))
  exact .bind hscript (.bind (decodes_hash256.mpr rfl) (.bind hplatform (.bind_pure hsig)))

end ProviderRegistrationPayload

/-- Update of a masternode's service. -/
structure ProviderUpdateServicePayload where
  version : UInt16
  mnType : Option UInt16
  proTxHash : Txid
  ipAddress : BitVec 128
  port : UInt16
  scriptPayout : ScriptBuf
  inputsHash : Hash256
  platform : PlatformFields
  payloadSig : BLSSignature
  deriving DecidableEq

namespace ProviderUpdateServicePayload

def consensusEncode (p : ProviderUpdateServicePayload) : List UInt8 :=
  leBytes 2 p.version.toNat
    ++ (if 2 ≤ p.version then leBytes 2 (p.mnType.getD 0).toNat else [])
    ++ toByteArray p.proTxHash ++ leBytes 16 p.ipAddress.toNat
    ++ leBytes 2 (swapBytes p.port).toNat ++ encodeScript p.scriptPayout
    ++ toByteArray p.inputsHash
    ++ (if 2 ≤ p.version ∧ p.mnType = some 1 then p.platform.consensusEncode else [])
    ++ p.payloadSig.toList

def consensusDecode : Dec ProviderUpdateServicePayload := do
  let version ← u16
  Dec.ensure (version ≠ 0 ∧ version ≤ 2) (.parseFailed "unsupported ProUpServTx version")
  let mnType ← option (version = 2) u16
  let proTxHash ← hash256
  let ipAddress ← Dec.u128
  let port ← swapBytes <$> u16
  let scriptPayout ← decodeScript.take
  let inputsHash ← hash256
  let platform ← PlatformFields.consensusDecode (version = 2 ∧ mnType = some 1)
  let payloadSig ← Dec.bytes 96
  pure { version, mnType, proTxHash, ipAddress, port, scriptPayout, inputsHash, platform,
         payloadSig }

theorem eq_of_decodes {p : ProviderUpdateServicePayload} (h : consensusDecode.Decodes used p) :
    used = p.consensusEncode := by
  simp only [consensusDecode, decodes_bind, decodes_u16, Dec.decodes_ensure,
    decodes_option_of_exact fun _ _ => decodes_u16, decodes_hash256, Dec.decodes_u128,
    decodes_map, Dec.decodes_bytes, decodes_pure, existsAndEq, true_and, and_true, List.append_nil,
    List.nil_append] at h
  obtain ⟨version, -, mnType, proTxHash, ipAddress, scriptPayout, _, inputsHash, platform, _,
    payloadSig, port, rfl, hver, hmnType, hscript, hplatform, rfl⟩ := h
  obtain rfl := eq_of_decodes_script_take hscript
  obtain rfl := PlatformFields.eq_of_decodes hplatform
  -- the encoder asks for versions from 2 on; the decoder lets no later one pass
  have htwo : version = 2 ↔ 2 ≤ version := by
    constructor
    · rintro rfl
      exact UInt16.le_refl 2
    · exact fun hle => UInt16.le_antisymm hver.2 hle
  have hfield : encodeOption (fun v : UInt16 => leBytes 2 v.toNat) mnType =
      if 2 ≤ version then leBytes 2 (mnType.getD 0).toNat else [] := by
    cases mnType with
    | none =>
      rw [if_neg (fun hle => by simp [htwo.mpr hle] at hmnType)]
      rfl
    | some mnType =>
      rw [if_pos (htwo.mp (by simpa using hmnType))]
      rfl
  simp [consensusEncode, hfield, htwo]

end ProviderUpdateServicePayload

/-- Update of a masternode's keys. -/
structure ProviderUpdateRegistrarPayload where
  version : UInt16
  proTxHash : Txid
  providerMode : UInt16
  operatorPublicKey : BLSPublicKey
  votingKeyHash : PubkeyHash
  scriptPayout : ScriptBuf
  inputsHash : Hash256
  payloadSig : List UInt8
  deriving DecidableEq

namespace ProviderUpdateRegistrarPayload

def consensusEncode (p : ProviderUpdateRegistrarPayload) : List UInt8 :=
  leBytes 2 p.version.toNat ++ toByteArray p.proTxHash ++ leBytes 2 p.providerMode.toNat
    ++ p.operatorPublicKey.toList ++ p.votingKeyHash.toList ++ encodeScript p.scriptPayout
    ++ toByteArray p.inputsHash ++ (varInt p.payloadSig.length ++ p.payloadSig)

def consensusDecode : Dec ProviderUpdateRegistrarPayload := do
  let version ← u16
  let proTxHash ← hash256
  let providerMode ← u16
  let operatorPublicKey ← Dec.bytes 48
  let votingKeyHash ← Dec.bytes 20
  let scriptPayout ← decodeScript.take
  let inputsHash ← hash256
  let payloadSig ← byteVec.take
  pure { version, proTxHash, providerMode, operatorPublicKey, votingKeyHash, scriptPayout,
         inputsHash, payloadSig }

theorem eq_of_decodes {p : ProviderUpdateRegistrarPayload} (h : consensusDecode.Decodes used p) :
    used = p.consensusEncode := by
  simp [consensusDecode, decodes_take] at h
  obtain ⟨version, proTxHash, providerMode, operatorPublicKey, votingKeyHash, scriptPayout,
    inputsHash, payloadSig, rfl, -, -, rfl⟩ := h
  simp [consensusEncode]

end ProviderUpdateRegistrarPayload

/-- Revocation of a masternode's service. -/
structure ProviderUpdateRevocationPayload where
  version : UInt16
  proTxHash : Txid
  reason : UInt16
  inputsHash : Hash256
  payloadSig : BLSSignature
  deriving DecidableEq

namespace ProviderUpdateRevocationPayload

def consensusEncode (p : ProviderUpdateRevocationPayload) : List UInt8 :=
  leBytes 2 p.version.toNat ++ toByteArray p.proTxHash ++ leBytes 2 p.reason.toNat
    ++ toByteArray p.inputsHash ++ p.payloadSig.toList

def consensusDecode : Dec ProviderUpdateRevocationPayload := do
  let version ← u16
  let proTxHash ← hash256
  let reason ← u16
  let inputsHash ← hash256
  let payloadSig ← Dec.bytes 96
  pure { version, proTxHash, reason, inputsHash, payloadSig }

theorem eq_of_decodes {p : ProviderUpdateRevocationPayload} (h : consensusDecode.Decodes used p) :
    used = p.consensusEncode := by
  simp [consensusDecode] at h
  obtain ⟨version, proTxHash, reason, inputsHash, payloadSig, rfl, rfl⟩ := h
  simp [consensusEncode]

end ProviderUpdateRevocationPayload

/-- Payload of a coinbase transaction. -/
structure CoinbasePayload where
  version : UInt16
  height : UInt32
  merkleRootMasternodeList : Hash256
  merkleRootQuorums : Hash256
  bestClHeight : Option UInt32
  bestClSignature : Option BLSSignature
  assetLockedAmount : Option UInt64
  deriving DecidableEq

namespace CoinbasePayload

/-- The encoding; there is none if a field that version 3 needs is not set. -/
def consensusEncode (p : CoinbasePayload) : Option (List UInt8) :=
  let head := leBytes 2 p.version.toNat ++ leBytes 4 p.height.toNat
    ++ toByteArray p.merkleRootMasternodeList
    ++ (if 2 ≤ p.version then toByteArray p.merkleRootQuorums else [])
  if 3 ≤ p.version then do
    let bestClHeight ← p.bestClHeight
    let bestClSignature ← p.bestClSignature
    let assetLockedAmount ← p.assetLockedAmount
    pure (head ++ writeCompactSize bestClHeight.toNat ++ bestClSignature.toList
      ++ leBytes 8 assetLockedAmount.toNat)
  else some head

/-- A 32-bit number in the compact form. -/
def decodeHeight : Dec UInt32 := UInt32.ofNat <$> Dec.readCompactSize

def consensusDecode : Dec CoinbasePayload := do
  let version ← u16
  let height ← u32
  let merkleRootMasternodeList ← hash256
  let merkleRootQuorums ← option (2 ≤ version) hash256
  let bestClHeight ← option (3 ≤ version) decodeHeight
  let bestClSignature ← option (3 ≤ version) (Dec.bytes 96)
  let assetLockedAmount ← option (3 ≤ version) u64
  pure { version, height, merkleRootMasternodeList,
         merkleRootQuorums := merkleRootQuorums.getD 0, bestClHeight, bestClSignature,
         assetLockedAmount }

theorem decodes_decodeHeight {height : UInt32} :
    decodeHeight.Decodes used height ↔ used = writeCompactSize height.toNat := by
  rw [decodeHeight, decodes_map]
  constructor
  · rintro ⟨n, hn, rfl⟩
    obtain ⟨hlt, rfl⟩ := decodes_readCompactSize.mp hn
    rw [UInt32.toNat_ofNat_of_lt' hlt]
  · rintro rfl
    exact ⟨height.toNat, decodes_readCompactSize.mpr ⟨height.toNat_lt, rfl⟩,
      UInt32.ofNat_toNat.symm⟩

theorem eq_of_decodes {p : CoinbasePayload} (h : consensusDecode.Decodes used p) :
    p.consensusEncode = some used := by
  simp [consensusDecode, decodes_option_of_exact fun _ _ => decodes_hash256,
    decodes_option_of_exact fun _ _ => decodes_decodeHeight,
    decodes_option_of_exact fun _ _ => Dec.decodes_bytes,
    decodes_option_of_exact fun _ _ => decodes_u64] at h
  obtain ⟨version, height, rootList, rootQuorums, bestHeight, sig, amount, rfl, hroot, hheight,
    hsig, hamount, rfl⟩ := h
  have hquorums : encodeOption toByteArray rootQuorums =
      if 2 ≤ version then toByteArray (rootQuorums.getD 0) else [] := by
    cases rootQuorums with
    | none => rw [if_neg (by simpa using hroot)]; rfl
    | some root => rw [if_pos (by simpa using hroot)]; rfl
  rw [hquorums]
  -- the three fields of version 3 come together
  by_cases hthree : 3 ≤ version
  · rw [decide_eq_true hthree] at hheight hsig hamount
    obtain ⟨bestHeight, rfl⟩ := isSome_iff_exists.mp hheight
    obtain ⟨sig, rfl⟩ := isSome_iff_exists.mp hsig
    obtain ⟨amount, rfl⟩ := isSome_iff_exists.mp hamount
    simp [consensusEncode, hthree, encodeOption]
  · rw [decide_eq_false hthree] at hheight hsig hamount
    obtain rfl := not_isSome_iff_eq_none.mp (by simpa using hheight)
    obtain rfl := not_isSome_iff_eq_none.mp (by simpa using hsig)
    obtain rfl := not_isSome_iff_eq_none.mp (by simpa using hamount)
    simp [consensusEncode, hthree, encodeOption]

end CoinbasePayload

/-- A commitment of a quorum. -/
structure QuorumCommitmentPayload where
  version : UInt16
  height : UInt32
  finalizationCommitment : QuorumEntry
  deriving DecidableEq

namespace QuorumCommitmentPayload

def consensusEncode (p : QuorumCommitmentPayload) : Option (List UInt8) := do
  let entry ← p.finalizationCommitment.consensusEncode
  pure (leBytes 2 p.version.toNat ++ leBytes 4 p.height.toNat ++ entry)

def consensusDecode : Dec QuorumCommitmentPayload := do
  let version ← u16
  let height ← u32
  let finalizationCommitment ← QuorumEntry.consensusDecode
  pure { version, height, finalizationCommitment }

theorem decodes_iff {p : QuorumCommitmentPayload} : consensusDecode.Decodes used p ↔
      ∃ entry, used = leBytes 2 p.version.toNat ++ leBytes 4 p.height.toNat ++ entry ∧
        QuorumEntry.consensusDecode.Decodes entry p.finalizationCommitment := by
  simp [consensusDecode]
  constructor
  · rintro ⟨version, height, entry, rfl, commitment, hentry, rfl⟩
    exact ⟨entry, by simp, hentry⟩
  · rintro ⟨entry, rfl, hentry⟩
    exact ⟨p.version, p.height, entry, by simp, p.finalizationCommitment, hentry, rfl⟩

end QuorumCommitmentPayload

/-- Signal for a hard fork. -/
structure MnhfSignalPayload where
  version : UInt8
  versionBit : UInt8
  quorumHash : QuorumHash
  sig : BLSSignature
  deriving DecidableEq

namespace MnhfSignalPayload

def consensusEncode (p : MnhfSignalPayload) : List UInt8 :=
  leBytes 1 p.version.toNat ++ leBytes 1 p.versionBit.toNat ++ toByteArray p.quorumHash
    ++ p.sig.toList

def consensusDecode : Dec MnhfSignalPayload := do
  let version ← u8
  let versionBit ← u8
  let quorumHash ← hash256
  let sig ← Dec.bytes 96
  pure { version, versionBit, quorumHash, sig }

theorem eq_of_decodes {p : MnhfSignalPayload} (h : consensusDecode.Decodes used p) :
    used = p.consensusEncode := by
  simp [consensusDecode] at h
  obtain ⟨version, versionBit, quorumHash, sig, rfl, rfl⟩ := h
  simp [consensusEncode]

end MnhfSignalPayload

/-- Transfer of credits to the platform. -/
structure AssetLockPayload where
  version : UInt8
  creditOutputs : List TxOut
  deriving DecidableEq

namespace AssetLockPayload

def consensusEncode (p : AssetLockPayload) : List UInt8 :=
  leBytes 1 p.version.toNat
    ++ (varInt p.creditOutputs.length ++ p.creditOutputs.flatMap TxOut.consensusEncode)

def consensusDecode : Dec AssetLockPayload := do
  let version ← u8
  let creditOutputs ← (Dec.vec TxOut.consensusDecode).take
  pure { version, creditOutputs }

theorem eq_of_decodes {p : AssetLockPayload} (h : consensusDecode.Decodes used p) :
    used = p.consensusEncode := by
  simp [consensusDecode, decodes_take] at h
  obtain ⟨version, _, rfl, creditOutputs, ⟨houtputs, -⟩, rfl⟩ := h
  obtain rfl := Dec.eq_of_decodes_vec (fun _ _ => TxOut.eq_of_decodes) houtputs
  simp [consensusEncode]

end AssetLockPayload

/-- Withdrawal of credits from the platform. -/
structure AssetUnlockPayload where
  version : UInt8
  index : UInt64
  fee : UInt32
  requestHeight : UInt32
  quorumHash : QuorumHash
  quorumSig : BLSSignature
  deriving DecidableEq

namespace AssetUnlockPayload

def consensusEncode (p : AssetUnlockPayload) : List UInt8 :=
  leBytes 1 p.version.toNat ++ leBytes 8 p.index.toNat ++ leBytes 4 p.fee.toNat
    ++ leBytes 4 p.requestHeight.toNat ++ toByteArray p.quorumHash ++ p.quorumSig.toList

def consensusDecode : Dec AssetUnlockPayload := do
  let version ← u8
  let index ← u64
  let fee ← u32
  let requestHeight ← u32
  let quorumHash ← hash256
  let quorumSig ← Dec.bytes 96
  pure { version, index, fee, requestHeight, quorumHash, quorumSig }

theorem eq_of_decodes {p : AssetUnlockPayload} (h : consensusDecode.Decodes used p) :
    used = p.consensusEncode := by
  simp [consensusDecode] at h
  obtain ⟨version, index, fee, requestHeight, quorumHash, quorumSig, rfl, rfl⟩ := h
  simp [consensusEncode]

end AssetUnlockPayload

/-! ### All payloads -/

/-- The payload of a special transaction. -/
inductive TransactionPayload
  | providerRegistration (payload : ProviderRegistrationPayload)
  | providerUpdateService (payload : ProviderUpdateServicePayload)
  | providerUpdateRegistrar (payload : ProviderUpdateRegistrarPayload)
  | providerUpdateRevocation (payload : ProviderUpdateRevocationPayload)
  | coinbase (payload : CoinbasePayload)
  | quorumCommitment (payload : QuorumCommitmentPayload)
  | mnhfSignal (payload : MnhfSignalPayload)
  | assetLock (payload : AssetLockPayload)
  | assetUnlock (payload : AssetUnlockPayload)
  /-- Stray type bytes of a transaction from before special transactions. -/
  | classicalWithNonStandardVersionTypeBytes (raw : UInt16)
  deriving DecidableEq

/-- The type of a transaction. -/
inductive TransactionType
  | classic
  | providerRegistration
  | providerUpdateService
  | providerUpdateRegistrar
  | providerUpdateRevocation
  | coinbase
  | quorumCommitment
  | mnhfSignal
  | assetLock
  | assetUnlock
  | classicalWithNonStandardVersionTypeBytes (raw : UInt16)
  deriving DecidableEq

namespace TransactionPayload

def getType : TransactionPayload → TransactionType
  | providerRegistration _ => .providerRegistration
  | providerUpdateService _ => .providerUpdateService
  | providerUpdateRegistrar _ => .providerUpdateRegistrar
  | providerUpdateRevocation _ => .providerUpdateRevocation
  | coinbase _ => .coinbase
  | quorumCommitment _ => .quorumCommitment
  | mnhfSignal _ => .mnhfSignal
  | assetLock _ => .assetLock
  | assetUnlock _ => .assetUnlock
  | classicalWithNonStandardVersionTypeBytes raw => .classicalWithNonStandardVersionTypeBytes raw

def consensusEncode : TransactionPayload → Option (List UInt8)
  | providerRegistration p => some p.consensusEncode
  | providerUpdateService p => some p.consensusEncode
  | providerUpdateRegistrar p => some p.consensusEncode
  | providerUpdateRevocation p => some p.consensusEncode
  | coinbase p => p.consensusEncode
  | quorumCommitment p => p.consensusEncode
  | mnhfSignal p => some p.consensusEncode
  | assetLock p => some p.consensusEncode
  | assetUnlock p => some p.consensusEncode
  | classicalWithNonStandardVersionTypeBytes _ => some []

end TransactionPayload

namespace TransactionType

/-- The type of a transaction with this payload, or without one. -/
def fromOptionalPayload : Option TransactionPayload → TransactionType
  | none => classic
  | some payload => payload.getType

def toU16 : TransactionType → UInt16
  | classic => 0
  | providerRegistration => 1
  | providerUpdateService => 2
  | providerUpdateRegistrar => 3
  | providerUpdateRevocation => 4
  | coinbase => 5
  | quorumCommitment => 6
  | mnhfSignal => 7
  | assetLock => 8
  | assetUnlock => 9
  | classicalWithNonStandardVersionTypeBytes raw => raw

/-- The type of a number on the wire. -/
def tryFrom (value : UInt16) : Except EncodeError TransactionType :=
  match value.toNat with
  | 0 => .ok classic
  | 1 => .ok providerRegistration
  | 2 => .ok providerUpdateService
  | 3 => .ok providerUpdateRegistrar
  | 4 => .ok providerUpdateRevocation
  | 5 => .ok coinbase
  | 6 => .ok quorumCommitment
  | 7 => .ok mnhfSignal
  | 8 => .ok assetLock
  | 9 => .ok assetUnlock
  | _ => .error (.unknownSpecialTransactionType value)

/-- The bytes of a payload after its length. -/
def decodePayloadBody : TransactionType → Dec (Option TransactionPayload)
  | classic => pure none
  | classicalWithNonStandardVersionTypeBytes raw =>
    pure (some (.classicalWithNonStandardVersionTypeBytes raw))
  | providerRegistration =>
    (some ∘ .providerRegistration) <$> ProviderRegistrationPayload.consensusDecode
  | providerUpdateService =>
    (some ∘ .providerUpdateService) <$> ProviderUpdateServicePayload.consensusDecode
  | providerUpdateRegistrar =>
    (some ∘ .providerUpdateRegistrar) <$> ProviderUpdateRegistrarPayload.consensusDecode
  | providerUpdateRevocation =>
    (some ∘ .providerUpdateRevocation) <$> ProviderUpdateRevocationPayload.consensusDecode
  | coinbase => (some ∘ .coinbase) <$> CoinbasePayload.consensusDecode
  | quorumCommitment => (some ∘ .quorumCommitment) <$> QuorumCommitmentPayload.consensusDecode
  | mnhfSignal => (some ∘ .mnhfSignal) <$> MnhfSignalPayload.consensusDecode
  | assetLock => (some ∘ .assetLock) <$> AssetLockPayload.consensusDecode
  | assetUnlock => (some ∘ .assetUnlock) <$> AssetUnlockPayload.consensusDecode

/-- Whether there is a payload section on the wire. -/
def hasPayload : TransactionType → Bool
  | classic | classicalWithNonStandardVersionTypeBytes _ => false
  | _ => true

/-- The payload section. Its length is read and not used. -/
def consensusDecode (t : TransactionType) : Dec (Option TransactionPayload) := do
  let _len ← if t.hasPayload then Dec.varInt else pure 0
  t.decodePayloadBody

/-- The payload bytes that are written back as they were read: the service address of a
registration (at byte 42) is not IPv4-compatible, and the quorum entry of a commitment (at
byte 6) is canonical. -/
def CanonicalPayload (t : TransactionType) (payload : List UInt8) : Prop :=
  match t with
  | providerRegistration => ¬ IsIpv4Compatible ((payload.drop 42).take 16)
  | quorumCommitment => QuorumEntry.Canonical (payload.drop 6)
  | _ => True

end TransactionType

/-- The address stands after 42 bytes of a registration. -/
theorem ProviderRegistrationPayload.layout_eq (p : ProviderRegistrationPayload) :
    ∃ front back, front.length = 42 ∧ ∀ ip, p.layout ip = front ++ (ip ++ back) := by
  refine ⟨leBytes 2 p.version.toNat ++ leBytes 2 p.masternodeType.toU16.toNat
      ++ leBytes 2 p.masternodeMode.toNat ++ p.collateralOutpoint.consensusEncode,
    leBytes 2 (swapBytes p.serviceAddress.port).toNat
      ++ p.ownerKeyHash.toList ++ p.operatorPublicKey.toList ++ p.votingKeyHash.toList
      ++ leBytes 2 p.operatorReward.toNat ++ encodeScript p.scriptPayout
      ++ toByteArray p.inputsHash
      ++ (if hasPlatform p.version p.masternodeType then p.platform.consensusEncode else [])
      ++ (varInt p.signature.length ++ p.signature),
    by simp [OutPoint.consensusEncode], fun ip => ?_⟩
  simp only [layout, List.append_assoc]

/-- What there is to know of a payload read from some bytes: its encoding is as long, reads as
it, and is those bytes just when they are canonical. -/
structure PayloadRead (t : TransactionType) (used : List UInt8) (p : TransactionPayload) :
    Prop where
  getType : p.getType = t
  encodes : ∃ bytes, p.consensusEncode = some bytes ∧ bytes.length = used.length ∧
    t.decodePayloadBody.Decodes bytes (some p)
  canonical : p.consensusEncode = some used ↔ t.CanonicalPayload used

variable {p : TransactionPayload} {t : TransactionType}

/-- A payload of a type that is read only as it is written. -/
theorem PayloadRead.of_exact (htype : p.getType = t) (h : t.decodePayloadBody.Decodes used (some p))
    (hexact : p.consensusEncode = some used) (hcanonical : t.CanonicalPayload used) :
    PayloadRead t used p :=
  ⟨htype, ⟨used, hexact, rfl, h⟩, iff_of_true hexact hcanonical⟩

/-- A payload whose decoder reads it only as it is written. -/
theorem PayloadRead.of_map {α : Type} {d : Dec α}
    {c : α → TransactionPayload} (h : t.decodePayloadBody.Decodes used (some p))
    (hbody : t.decodePayloadBody = (some ∘ c) <$> d)
    (hread : ∀ payload, d.Decodes used payload → PayloadRead t used (c payload)) :
    PayloadRead t used p := by
  rw [hbody] at h
  obtain ⟨payload, hpay, hp⟩ := decodes_map.mp h
  rw [some_inj.mp hp]
  exact hread payload hpay

theorem payloadRead_providerRegistration {p : ProviderRegistrationPayload}
    (h : ProviderRegistrationPayload.consensusDecode.Decodes used p) :
    PayloadRead .providerRegistration used (.providerRegistration p) := by
  obtain ⟨ip, haddress, rfl, hread⟩ := ProviderRegistrationPayload.decodes_layout h
  obtain ⟨front, back, hfront, hlayout⟩ := p.layout_eq
  have hlen : p.serviceAddress.ipBytes.length = ip.toList.length := by
    rw [SocketAddr.length_ipBytes, Vector.length_toList]
  refine ⟨rfl, ⟨_, rfl, ?_, ?_⟩, ?_⟩
  · simp only [ProviderRegistrationPayload.consensusEncode, hlayout, List.length_append, hlen]
  · let written : Vector UInt8 16 :=
      ⟨p.serviceAddress.ipBytes.toArray, by simp [SocketAddr.length_ipBytes]⟩
    have hwritten : written.toList = p.serviceAddress.ipBytes := by simp [written]
    refine decodes_map.mpr ⟨p, ?_, rfl⟩
    refine hread written ?_
    conv_lhs => rw [haddress]
    exact (SocketAddr.ofBytes_ipBytes_ofBytes ip written _ (by rw [hwritten, ← haddress])).symm
  · -- both sides speak of the 16 bytes after the first 42
    have haddr : ((p.layout ip.toList).drop 42).take 16 = ip.toList := by
      rw [hlayout, List.drop_left' hfront, List.take_left' Vector.length_toList]
    rw [TransactionType.CanonicalPayload, haddr, ← SocketAddr.ipBytes_ofBytes_iff ip,
      ← haddress, TransactionPayload.consensusEncode, some_inj,
      ProviderRegistrationPayload.consensusEncode, hlayout, hlayout]
    constructor
    · intro heq
      exact (List.append_inj (List.append_cancel_left heq) hlen).1
    · intro heq
      rw [heq]

theorem payloadRead_quorumCommitment {p : QuorumCommitmentPayload}
    (h : QuorumCommitmentPayload.consensusDecode.Decodes used p) :
    PayloadRead .quorumCommitment used (.quorumCommitment p) := by
  obtain ⟨entry, rfl, hentry⟩ := QuorumCommitmentPayload.decodes_iff.mp h
  obtain ⟨bytes, hbytes, hread, hlen⟩ := QuorumEntry.decodes_consensusEncode hentry
  have hencode : (TransactionPayload.quorumCommitment p).consensusEncode =
      some (leBytes 2 p.version.toNat ++ leBytes 4 p.height.toNat ++ bytes) := by
    simp [TransactionPayload.consensusEncode, QuorumCommitmentPayload.consensusEncode, hbytes]
  refine ⟨rfl, ⟨_, hencode, ?_, ?_⟩, ?_⟩
  · simp [hlen]
  · exact decodes_map.mpr ⟨p, QuorumCommitmentPayload.decodes_iff.mpr ⟨bytes, rfl, hread⟩, rfl⟩
  · have hdrop : (leBytes 2 p.version.toNat ++ leBytes 4 p.height.toNat ++ entry).drop 6 = entry :=
      List.drop_left' (by simp)
    rw [TransactionType.CanonicalPayload, hdrop, ← QuorumEntry.consensusEncode_iff_canonical hentry,
      hencode, hbytes, some_inj, some_inj]
    exact List.append_right_inj _

/-- Every payload decoder accepts what the encoder writes, and only a registration's address
and a commitment's entry may be written back differently. -/
theorem TransactionType.payloadRead (h : t.decodePayloadBody.Decodes used (some p)) :
    PayloadRead t used p := by
  cases t with
  | classic => simp [decodePayloadBody] at h
  | classicalWithNonStandardVersionTypeBytes raw =>
    obtain ⟨rfl, hp⟩ := decodes_pure.mp h
    cases hp
    exact .of_exact rfl h rfl trivial
  | providerRegistration => exact .of_map h rfl fun _ => payloadRead_providerRegistration
  | quorumCommitment => exact .of_map h rfl fun _ => payloadRead_quorumCommitment
  | providerUpdateService =>
    exact .of_map h rfl fun _ hp => .of_exact rfl (decodes_map.mpr ⟨_, hp, rfl⟩)
      (congrArg some (ProviderUpdateServicePayload.eq_of_decodes hp).symm) trivial
  | providerUpdateRegistrar =>
    exact .of_map h rfl fun _ hp => .of_exact rfl (decodes_map.mpr ⟨_, hp, rfl⟩)
      (congrArg some (ProviderUpdateRegistrarPayload.eq_of_decodes hp).symm) trivial
  | providerUpdateRevocation =>
    exact .of_map h rfl fun _ hp => .of_exact rfl (decodes_map.mpr ⟨_, hp, rfl⟩)
      (congrArg some (ProviderUpdateRevocationPayload.eq_of_decodes hp).symm) trivial
  | coinbase =>
    exact .of_map h rfl fun _ hp => .of_exact rfl (decodes_map.mpr ⟨_, hp, rfl⟩)
      (CoinbasePayload.eq_of_decodes hp) trivial
  | mnhfSignal =>
    exact .of_map h rfl fun _ hp => .of_exact rfl (decodes_map.mpr ⟨_, hp, rfl⟩)
      (congrArg some (MnhfSignalPayload.eq_of_decodes hp).symm) trivial
  | assetLock =>
    exact .of_map h rfl fun _ hp => .of_exact rfl (decodes_map.mpr ⟨_, hp, rfl⟩)
      (congrArg some (AssetLockPayload.eq_of_decodes hp).symm) trivial
  | assetUnlock =>
    exact .of_map h rfl fun _ hp => .of_exact rfl (decodes_map.mpr ⟨_, hp, rfl⟩)
      (congrArg some (AssetUnlockPayload.eq_of_decodes hp).symm) trivial

set_option synthInstance.maxSize 1000 in
/-- Payloads are short: what they hold is of a fixed size, a bit set or read under a limit. -/
theorem TransactionType.atMost_decodePayloadBody (t : TransactionType) :
    t.decodePayloadBody.AtMost 10000000 := by
  have hbounded : ∃ n ≤ 10000000, Bounded t.decodePayloadBody n := by
    cases t
    all_goals
      simp only [decodePayloadBody, OutPoint.consensusDecode, SocketAddr.consensusDecode,
        ProviderMasternodeType.consensusDecode, PlatformFields.consensusDecode,
        ProviderRegistrationPayload.consensusDecode, ProviderUpdateServicePayload.consensusDecode,
        ProviderUpdateRegistrarPayload.consensusDecode,
        ProviderUpdateRevocationPayload.consensusDecode, CoinbasePayload.consensusDecode,
        CoinbasePayload.decodeHeight, QuorumCommitmentPayload.consensusDecode,
        QuorumEntry.consensusDecode, MnhfSignalPayload.consensusDecode,
        AssetLockPayload.consensusDecode, AssetUnlockPayload.consensusDecode]
      exact ⟨_, by decide, inferInstance⟩
  obtain ⟨n, hn, hbounded⟩ := hbounded
  exact hbounded.atMost.mono hn

end Wire

end Dashcore
