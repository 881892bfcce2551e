import Dashcore.Consensus.Transaction

/-!
# The legacy signature hash

A signature commits to a copy of the transaction in which the signed input carries the script
code and the sighash type says which of the other inputs and which outputs are kept. For the
type `SINGLE` with no output at the index of the input, the network signs the constant one
instead of a hash, also when the flag `ANYONECANPAY` is set.

The code tests this exception on the whole type, flag included. So for `SINGLE` with the flag
it hashes a transaction that the network does not.
-/

namespace Dashcore.Wire

open List

/-! ### Sighash types -/

inductive EcdsaSighashType where
  | all
  | none
  | single
  | allPlusAnyoneCanPay
  | nonePlusAnyoneCanPay
  | singlePlusAnyoneCanPay
  deriving DecidableEq, Repr

namespace EcdsaSighashType

/-- The type without the flag, and whether the flag is set. -/
def splitAnyonecanpayFlag : EcdsaSighashType → EcdsaSighashType × Bool
  | all => (all, false)
  | none => (none, false)
  | single => (single, false)
  | allPlusAnyoneCanPay => (all, true)
  | nonePlusAnyoneCanPay => (none, true)
  | singlePlusAnyoneCanPay => (single, true)

variable (n : UInt32)

/-- The type of a number. Every number has one. -/
def fromConsensus : EcdsaSighashType :=
  match n &&& (0x1f ||| 0x80) with
  | 0x01 => all
  | 0x02 => none
  | 0x03 => single
  | 0x81 => allPlusAnyoneCanPay
  | 0x82 => nonePlusAnyoneCanPay
  | 0x83 => singlePlusAnyoneCanPay
  | x => if x &&& 0x80 = 0x80 then allPlusAnyoneCanPay else all

/-- The three types without flag, by the low five bits of the number. -/
def ofBase (base : UInt32) : EcdsaSighashType :=
  if base = 2 then none else if base = 3 then single else all

/-- The bits that the type depends on are the low five and the flag. -/
theorem splitAnyonecanpayFlag_fromConsensus : (fromConsensus n).splitAnyonecanpayFlag =
      (ofBase (n &&& 0x1f), decide (n &&& 0x80 ≠ 0)) := by
  have hbase : n &&& 0x1f = (n &&& 0x9f) &&& 0x1f := by
    rw [UInt32.and_assoc]
    rfl
  have hflag : n &&& 0x80 = (n &&& 0x9f) &&& 0x80 := by
    rw [UInt32.and_assoc]
    rfl
  have hlt : (n &&& 0x9f).toNat < 160 := by
    exact Nat.lt_of_le_of_lt Nat.and_le_right (by decide)
  -- what is left are the numbers below 160
  have hall : ∀ k : Fin 160, (fromConsensus (.ofNat k)).splitAnyonecanpayFlag =
      (ofBase (.ofNat k &&& 0x1f), decide ((.ofNat k : UInt32) &&& 0x80 ≠ 0)) := by
    decide +kernel
  have hmasked : fromConsensus n = fromConsensus (n &&& 0x9f) := by
    unfold fromConsensus
    rw [UInt32.and_assoc]
    rfl
  rw [hbase, hflag, hmasked]
  have hk := hall ⟨_, hlt⟩
  rwa [UInt32.ofNat_toNat] at hk

/-- The type is plain `SINGLE` when the low bits say so and the flag is not set. -/
theorem fromConsensus_eq_single_iff :
    fromConsensus n = single ↔ n &&& 0x1f = 3 ∧ n &&& 0x80 = 0 := by
  have hsplit := splitAnyonecanpayFlag_fromConsensus n
  constructor
  · intro h
    rw [h] at hsplit
    simp only [splitAnyonecanpayFlag, Prod.mk.injEq, ofBase] at hsplit
    obtain ⟨hbase, hflag⟩ := hsplit
    refine ⟨?_, by simpa using hflag⟩
    split_ifs at hbase with h₂ h₃
    exact h₃
  · rintro ⟨hbase, hflag⟩
    rw [hbase, hflag] at hsplit
    cases hn : fromConsensus n <;> rw [hn] at hsplit <;>
      simp [splitAnyonecanpayFlag, ofBase] at hsplit

end EcdsaSighashType

/-- The number one as the network writes it, least significant byte first. -/
def UINT256_ONE : Hash256 := ⟨256 ^ 31, by decide⟩

example : toByteArray UINT256_ONE = 1 :: replicate 31 0 := by decide +kernel

/-- The error type of the signature hashes, as far as this one uses it. -/
inductive SighashError where
  | indexOutOfInputsBounds (index inputsSize : Nat)
  /-- The copy of the transaction has no encoding. -/
  | io
  /-- An arm that the code declares unreachable. -/
  | panic
  deriving DecidableEq, Repr

inductive EncodeSigningDataResult where
  | sighashSingleBug
  | writeResult (written : Except SighashError (List UInt8))

/-- The blank output. -/
def TxOut.default : TxOut := { value := 0xffffffffffffffff, scriptPubkey := ⟨[]⟩ }

def isInvalidUseOfSighashSingle (sighash : UInt32) (inputIndex outputLen : Nat) : Bool :=
  EcdsaSighashType.fromConsensus sighash = .single && outputLen ≤ inputIndex

/-- An input in the place of one that the signature is not for. -/
def TxIn.blanked (base : UInt32) (input : TxIn) : TxIn :=
  { input with scriptSig := ⟨[]⟩, witness := [],
               sequence := if base = 2 ∨ base = 3 then 0 else input.sequence }

namespace Transaction

/-! ### The code -/

variable (tx : Transaction)

section

variable (inputIndex : Nat) (scriptPubkey : ScriptBuf)

/-- The inputs of the copy. -/
def sighashInputs (sighash : EcdsaSighashType) (anyoneCanPay : Bool) : List TxIn :=
  if anyoneCanPay then
    match tx.input[inputIndex]? with
    | some input =>
      [{ previousOutput := input.previousOutput, scriptSig := scriptPubkey,
         sequence := input.sequence, witness := [] }]
    | none => []
  else
    tx.input.mapIdx fun n input =>
      { previousOutput := input.previousOutput
        scriptSig := if n = inputIndex then scriptPubkey else ⟨[]⟩
        sequence :=
          if n ≠ inputIndex ∧ (sighash = .single ∨ sighash = .none) then 0 else input.sequence
        witness := [] }

/-- The outputs of the copy. -/
def sighashOutputs : EcdsaSighashType → Except SighashError (List TxOut)
  | .all => .ok tx.output
  | .single =>
    .ok ((tx.output.take (inputIndex + 1)).mapIdx fun n out =>
      if n = inputIndex then out else TxOut.default)
  | .none => .ok []
  | _ => .error .panic

variable (sighashType : UInt32)

def encodeSigningDataToInner : Except SighashError (List UInt8) := do
  let (sighash, anyoneCanPay) :=
    (EcdsaSighashType.fromConsensus sighashType).splitAnyonecanpayFlag
  let output ← tx.sighashOutputs inputIndex sighash
  let copy : Transaction :=
    { version := tx.version, lockTime := tx.lockTime,
      input := tx.sighashInputs inputIndex scriptPubkey sighash anyoneCanPay,
      output, specialTransactionPayload := tx.specialTransactionPayload }
  match copy.consensusEncode with
  | some bytes => .ok (bytes ++ leBytes 4 sighashType.toNat)
  | none => .error .io

def legacyEncodeSigningDataTo : EncodeSigningDataResult :=
  if tx.input.length ≤ inputIndex then
    .writeResult (.error (.indexOutOfInputsBounds inputIndex tx.input.length))
  else if isInvalidUseOfSighashSingle sighashType inputIndex tx.output.length then
    .sighashSingleBug
  else .writeResult (tx.encodeSigningDataToInner inputIndex scriptPubkey sighashType)

end

def legacySignatureHash (crypto : Crypto) (tx : Transaction) (inputIndex : Nat)
    (scriptPubkey : ScriptBuf) (sighashType : UInt32) : Except SighashError Hash256 :=
  match tx.legacyEncodeSigningDataTo inputIndex scriptPubkey sighashType with
  | .sighashSingleBug => .ok UINT256_ONE
  | .writeResult written => written.map crypto.sha256d

/-! ### The network -/

/-- The inputs a signature commits to. -/
def signedInputs (index : Nat) (scriptCode : ScriptBuf)
    (base : UInt32) (acp : Prop) [Decidable acp] : List TxIn :=
  let signed := (tx.input[index]?).toList.map fun input =>
    { input with scriptSig := scriptCode, witness := [] }
  if acp then signed
  else
    (tx.input.take index).map (TxIn.blanked base) ++ signed
      ++ (tx.input.drop (index + 1)).map (TxIn.blanked base)

/-- The outputs a signature commits to. -/
def signedOutputs (index : Nat) (base : UInt32) : List TxOut :=
  if base = 2 then []
  else if base = 3 then replicate index TxOut.default ++ (tx.output[index]?).toList
  else tx.output

/-- What the network hashes: the transaction with these inputs and outputs, in the form
without witnesses, and the type. There is nothing to hash if the payload has no encoding. -/
def signedBytes (index : Nat) (scriptCode : ScriptBuf) (ty : UInt32) : Option (List UInt8) :=
  (encodePayload tx.specialTransactionPayload).map fun payload =>
    leBytes 2 tx.version.toNat ++ leBytes 2 tx.txType.toU16.toNat
      ++ encodeInputs (tx.signedInputs index scriptCode (ty &&& 0x1f) (ty &&& 0x80 ≠ 0))
      ++ encodeOutputs (tx.signedOutputs index (ty &&& 0x1f))
      ++ leBytes 4 tx.lockTime.toNat ++ payload ++ leBytes 4 ty.toNat

/-- The signature hash of the network. -/
def networkSignatureHash (crypto : Crypto) (tx : Transaction) (index : Nat)
    (scriptCode : ScriptBuf) (ty : UInt32) : Option Hash256 :=
  if ty &&& 0x1f = 3 ∧ tx.output.length ≤ index then some UINT256_ONE
  else (tx.signedBytes index scriptCode ty).map crypto.sha256d

/-! ### The code against the network -/

/-- A function of the position that differs from `g` at one position only. -/
theorem mapIdx_eq_of_ne {α β : Type} {f : Nat → α → β} {g : α → β} {l : List α} {i : Nat}
    (hi : i < l.length) (hf : ∀ n, n ≠ i → f n = g) :
    l.mapIdx f = (l.take i).map g ++ f i l[i] :: (l.drop (i + 1)).map g := by
  induction l generalizing f i with
  | nil => cases hi
  | cons a l ih =>
    rw [mapIdx_cons]
    cases i with
    | zero =>
      -- all later positions differ from `0`
      have htail : l.mapIdx (fun n => f (n + 1)) = l.map g := by
        rw [show (fun n => f (n + 1)) = fun _ => g from funext fun n => hf (n + 1) (by omega)]
        exact mapIdx_eq_iff.mpr fun n => by simp
      simp [htail]
    | succ i =>
      have hlt : i < l.length := by simpa using hi
      rw [ih hlt fun n hn => hf (n + 1) (by omega), hf 0 (by omega)]
      simp

variable {index : Nat}

theorem sighashInputs_eq_signedInputs
    (hindex : index < tx.input.length) (scriptCode : ScriptBuf) (ty : UInt32) :
    tx.sighashInputs index scriptCode (.ofBase (ty &&& 0x1f)) (decide (ty &&& 0x80 ≠ 0)) =
      tx.signedInputs index scriptCode (ty &&& 0x1f) (ty &&& 0x80 ≠ 0) := by
  have hbase : EcdsaSighashType.ofBase (ty &&& 0x1f) = .single ∨
      EcdsaSighashType.ofBase (ty &&& 0x1f) = .none ↔ ty &&& 0x1f = 2 ∨ ty &&& 0x1f = 3 := by
    unfold EcdsaSighashType.ofBase
    split_ifs with h₂ h₃ <;> simp [*]
  unfold sighashInputs signedInputs
  simp only [decide_eq_true_eq, getElem?_eq_getElem hindex, hbase]
  by_cases hacp : ty &&& 0x80 ≠ 0
  · rw [if_pos hacp, if_pos hacp]
    rfl
  · have hothers (n : Nat) (hn : n ≠ index) : (fun input : TxIn =>
        { previousOutput := input.previousOutput
          scriptSig := if n = index then scriptCode else ⟨[]⟩
          sequence := if n ≠ index ∧ (ty &&& 0x1f = 2 ∨ ty &&& 0x1f = 3) then 0
            else input.sequence
          witness := [] }) = TxIn.blanked (ty &&& 0x1f) := by
      funext input
      simp [hn, TxIn.blanked]
    rw [if_neg hacp, if_neg hacp, mapIdx_eq_of_ne hindex hothers]
    simp

theorem sighashOutputs_single (hindex : index < tx.output.length) :
    (tx.output.take (index + 1)).mapIdx (fun n out => if n = index then out else TxOut.default) =
      replicate index TxOut.default ++ (tx.output[index]?).toList := by
  have hlt : index < (tx.output.take (index + 1)).length := by
    rw [length_take]
    omega
  rw [mapIdx_eq_of_ne hlt (fun n hn => funext fun _ => if_neg hn), map_const']
  simp [hindex, hindex.le]

theorem sighashOutputs_eq_signedOutputs {base : UInt32}
    (hmatch : ¬ (base = 3 ∧ tx.output.length ≤ index)) :
    tx.sighashOutputs index (.ofBase base) = .ok (tx.signedOutputs index base) := by
  unfold EcdsaSighashType.ofBase signedOutputs
  split_ifs with h₂ h₃
  · rfl
  · have hindex : index < tx.output.length := Nat.lt_of_not_le fun hle => hmatch ⟨h₃, hle⟩
    rw [← tx.sighashOutputs_single hindex]
    rfl
  · rfl

/-- The copy always has inputs and never a witness, so the form without witnesses is written. -/
theorem haveWitness_of_signedInputs (copy : Transaction) {tx : Transaction}
    (hindex : index < tx.input.length) {scriptCode : ScriptBuf} {base : UInt32} {acp : Prop}
    [Decidable acp] (hinput : copy.input = tx.signedInputs index scriptCode base acp) :
    copy.haveWitness = false := by
  have hnonempty : copy.input ≠ [] := by
    rw [hinput]
    unfold signedInputs
    split_ifs <;> simp [getElem?_eq_getElem hindex]
  have hplain : ∀ i ∈ copy.input, i.witness = [] := by
    rw [hinput]
    unfold signedInputs
    intro i hi
    split_ifs at hi <;> simp [getElem?_eq_getElem hindex] at hi <;> grind [TxIn.blanked]
  unfold haveWitness
  rw [isEmpty_eq_false_iff.mpr hnonempty]
  simpa using fun i hi hw => absurd (hplain i hi) hw

/-- Away from the exception the code hashes what the network hashes. -/
theorem encodeSigningDataToInner_eq
    (hindex : index < tx.input.length) (scriptCode : ScriptBuf) {ty : UInt32}
    (hmatch : ¬ (ty &&& 0x1f = 3 ∧ tx.output.length ≤ index)) :
    tx.encodeSigningDataToInner index scriptCode ty =
      (tx.signedBytes index scriptCode ty).elim (.error .io) .ok := by
  unfold encodeSigningDataToInner signedBytes
  rw [EcdsaSighashType.splitAnyonecanpayFlag_fromConsensus]
  simp only [tx.sighashOutputs_eq_signedOutputs hmatch, tx.sighashInputs_eq_signedInputs hindex]
  cases hpay : encodePayload tx.specialTransactionPayload with
  | none => simp [consensusEncode, hpay, bind, Except.bind]
  | some payload =>
    have hplain := haveWitness_of_signedInputs
      { version := tx.version, lockTime := tx.lockTime,
        input := tx.signedInputs index scriptCode (ty &&& 0x1f) (ty &&& 0x80 ≠ 0),
        output := tx.signedOutputs index (ty &&& 0x1f),
        specialTransactionPayload := tx.specialTransactionPayload } hindex rfl
    simp [consensusEncode, hpay, bind, Except.bind, encodeBody, hplain, txType]

theorem isInvalidUseOfSighashSingle_iff (ty : UInt32) (index outputLen : Nat) :
    isInvalidUseOfSighashSingle ty index outputLen = true ↔
      (ty &&& 0x1f = 3 ∧ ty &&& 0x80 = 0) ∧ outputLen ≤ index := by
  simp [isInvalidUseOfSighashSingle, EcdsaSighashType.fromConsensus_eq_single_iff]

/-- The hash for an input that exists. -/
theorem legacySignatureHash_of_lt (crypto : Crypto) (tx : Transaction)
    (hindex : index < tx.input.length) (scriptCode : ScriptBuf) (ty : UInt32) :
    tx.legacySignatureHash crypto index scriptCode ty =
      if isInvalidUseOfSighashSingle ty index tx.output.length then .ok UINT256_ONE
      else (tx.encodeSigningDataToInner index scriptCode ty).map crypto.sha256d := by
  unfold legacySignatureHash legacyEncodeSigningDataTo
  rw [if_neg (Nat.not_le.mpr hindex)]
  split_ifs <;> rfl

/-- A hash that is always zero. -/
def zeroHash : Crypto := { lengthHash with sha256d := fun _ => 0 }

/-- The code and the network agree unless the type is `SINGLE` with the flag `ANYONECANPAY`
and the input has no output at its index. -/
theorem legacySignatureHash_eq_network_iff (tx : Transaction) {index : Nat}
    (hindex : index < tx.input.length) (scriptCode : ScriptBuf) (ty : UInt32) :
    (∀ crypto : Crypto, tx.legacySignatureHash crypto index scriptCode ty =
      (tx.networkSignatureHash crypto index scriptCode ty).elim (.error .io) .ok) ↔
    ¬ (ty &&& 0x1f = 3 ∧ ty &&& 0x80 ≠ 0 ∧ tx.output.length ≤ index) := by
  constructor
  · rintro hagree ⟨hbase, hflag, hmissing⟩
    -- the code hashes here, and a hash that is never one tells it apart
    have hzero := hagree zeroHash
    have hvalid : ¬ isInvalidUseOfSighashSingle ty index tx.output.length = true :=
      fun h => hflag ((isInvalidUseOfSighashSingle_iff ..).mp h).1.2
    rw [legacySignatureHash_of_lt zeroHash tx hindex, if_neg hvalid, networkSignatureHash,
      if_pos ⟨hbase, hmissing⟩] at hzero
    cases hinner : tx.encodeSigningDataToInner index scriptCode ty with
    | error e =>
      rw [hinner] at hzero
      cases hzero
    | ok bytes =>
      rw [hinner] at hzero
      have hone : (0 : Hash256) = UINT256_ONE := Except.ok.inj hzero
      exact absurd hone (by decide)
  · intro hcond crypto
    rw [legacySignatureHash_of_lt crypto tx hindex, networkSignatureHash]
    by_cases hexcept : ty &&& 0x1f = 3 ∧ tx.output.length ≤ index
    · have hflag : ty &&& 0x80 = 0 :=
        by_contra fun hflag => hcond ⟨hexcept.1, hflag, hexcept.2⟩
      rw [if_pos ((isInvalidUseOfSighashSingle_iff ..).mpr ⟨⟨hexcept.1, hflag⟩, hexcept.2⟩),
        if_pos hexcept]
      rfl
    · have hvalid : ¬ isInvalidUseOfSighashSingle ty index tx.output.length = true := fun h =>
        hexcept ((isInvalidUseOfSighashSingle_iff ..).mp h |>.imp_left And.left)
      rw [if_neg hvalid, if_neg hexcept, tx.encodeSigningDataToInner_eq hindex _ hexcept]
      cases tx.signedBytes index scriptCode ty <;> rfl

/-- A transaction with one input and no outputs. -/
def oneInput : Transaction where
  version := 1
  lockTime := 0
  input := [{ previousOutput := { txid := 0, vout := 0 }, scriptSig := ⟨[]⟩, sequence := 0,
              witness := [] }]
  output := []
  specialTransactionPayload := none

/-- Plain `SINGLE` without a matching output is within the condition. -/
theorem legacySignatureHash_oneInput_single : 0 < oneInput.input.length ∧
    ((∀ crypto : Crypto, oneInput.legacySignatureHash crypto 0 ⟨[0x51]⟩ 3 =
      (oneInput.networkSignatureHash crypto 0 ⟨[0x51]⟩ 3).elim (.error .io) .ok) ↔
    ¬ ((3 : UInt32) &&& 0x1f = 3 ∧ (3 : UInt32) &&& 0x80 ≠ 0 ∧ oneInput.output.length ≤ 0)) :=
  ⟨by decide, legacySignatureHash_eq_network_iff oneInput (by decide) ⟨[0x51]⟩ 3⟩

/-- With the flag set the code returns a hash of 56 bytes, and the network one. -/
theorem legacySignatureHash_oneInput_singlePlusAnyoneCanPay :
    oneInput.legacySignatureHash lengthHash 0 ⟨[0x51]⟩ 0x83 = .ok 56 ∧
      oneInput.networkSignatureHash lengthHash 0 ⟨[0x51]⟩ 0x83 = some UINT256_ONE ∧
      (56 : Hash256) ≠ UINT256_ONE := by
  decide +kernel

end Transaction

end Dashcore.Wire
