import Mathlib.Algebra.Group.Action.Defs
import Mathlib.Algebra.Order.BigOperators.Group.List
import Mathlib.Algebra.Order.Ring.Nat
import Mathlib.Data.ZMod.Defs
import Dashcore.Wallet.CoinSelection

/-!
# The transaction builder

A builder selects coins for its outputs and for the fee of a size it estimates, adds change,
sorts and signs. The fee it reports is that of the size the signed transaction has.

What the transaction pays is the difference of its inputs and outputs. It is never much more than
the fee of the estimate. It is at least the fee of the real size as long as the estimate is not
too small, and there are payloads for which it is: that of a masternode registration counts the
operator key with 20 bytes where it has 48.

Of the payloads and of their encoding only what decides the length is kept. The sums are sums of
natural numbers.
-/

namespace Dashcore

open List

/-! ### Sizes -/

/-- Bytes of a variable-length integer. -/
def varintSize (n : Nat) : Nat :=
  if n ≤ 0xFC then 1 else if n ≤ 0xFFFF then 3 else if n ≤ 0xFFFFFFFF then 5 else 9

/-- Bytes of the compact form of a 32-bit number. -/
def compactSizeLen (n : Nat) : Nat := if n < 253 then 1 else if n ≤ 0xFFFF then 3 else 5

/-- Bytes of data that is preceded by its length. -/
def prefixedSize (n : Nat) : Nat := varintSize n + n

theorem varintSize_mono {m n : Nat} (h : m ≤ n) : varintSize m ≤ varintSize n := by
  unfold varintSize
  split_ifs <;> omega

theorem varintSize_eq_one {n : Nat} (h : n ≤ 252) : varintSize n = 1 := if_pos h

theorem prefixedSize_mono {m n : Nat} (h : m ≤ n) : prefixedSize m ≤ prefixedSize n :=
  Nat.add_le_add (varintSize_mono h) h

def ScriptBuf.encodedLen (s : ScriptBuf) : Nat := prefixedSize s.bytes.length

def TxIn.encodedLen (input : TxIn) : Nat := 32 + 4 + input.scriptSig.encodedLen + 4

def TxOut.encodedLen (output : TxOut) : Nat := 8 + output.scriptPubkey.encodedLen

/-- An output to a key or to a script. -/
def TxOut.IsStandard (output : TxOut) : Prop :=
  output.scriptPubkey.isP2pkh = true ∨ output.scriptPubkey.isP2sh = true

variable {output : TxOut}

theorem TxOut.encodedLen_le (h : output.scriptPubkey.bytes.length ≤ 25) :
    output.encodedLen ≤ 34 := by
  have hlen := prefixedSize_mono h
  have hmax : prefixedSize 25 = 26 := rfl
  unfold TxOut.encodedLen ScriptBuf.encodedLen
  omega

theorem TxOut.IsStandard.length_le (h : output.IsStandard) :
    output.scriptPubkey.bytes.length ≤ 25 := by
  obtain h | h := h
  · simp only [ScriptBuf.isP2pkh, decide_eq_true_eq] at h
    exact h.1.le
  · simp only [ScriptBuf.isP2sh, decide_eq_true_eq] at h
    omega

theorem TxIn.encodedLen_le {input : TxIn} (h : input.scriptSig.bytes.length ≤ 107) :
    input.encodedLen ≤ 148 := by
  have hlen := prefixedSize_mono h
  have hmax : prefixedSize 107 = 108 := rfl
  unfold TxIn.encodedLen ScriptBuf.encodedLen
  omega

/-! ### Payloads -/

/-- A special payload, with the fields that decide how long it is. -/
inductive SpecialPayload
  | providerRegistration (version : Nat) (highPerformance : Bool) (scriptPayout : ScriptBuf)
      (signature : List UInt8)
  | providerUpdateService (version : Nat) (mnType : Option Nat) (scriptPayout : ScriptBuf)
      (platformNodeId : Option PubkeyHash)
  | providerUpdateRegistrar (scriptPayout : ScriptBuf) (payloadSig : List UInt8)
  | providerUpdateRevocation
  | coinbase (version : Nat) (bestClHeight : Option Nat) (bestClSignature : Option BLSSignature)
      (assetLockedAmount : Option Nat)
  | quorumCommitment (entryVersion : Nat) (quorumIndex : Option Int)
      (signers validMembers : List Bool)
  | mnhfSignal
  | assetLock (creditOutputs : List TxOut)
  | assetUnlock
  | classicalWithNonStandardVersionTypeBytes (typeBytes : Nat)
  deriving DecidableEq

namespace SpecialPayload

/-- Bytes of a bit set with its length, up to a million bits. -/
def bitsetLen (bits : List Bool) : Option Nat :=
  if 1000000 < bits.length then none
  else some (compactSizeLen bits.length + (bits.length + 7) / 8)

/-- Bytes of the encoded payload, if it can be encoded. -/
def encodedLen : SpecialPayload → Option Nat
  | providerRegistration version highPerformance scriptPayout signature =>
    let platformFields := if 2 ≤ version ∧ highPerformance = true then 20 + 2 + 2 else 0
    some (2 + 2 + 2 + (32 + 4) + (16 + 2) + 20 + 48 + 20 + 2 + scriptPayout.encodedLen + 32 +
      platformFields + prefixedSize signature.length)
  | providerUpdateService version mnType scriptPayout _ =>
    let mnTypeField := if 2 ≤ version then 2 else 0
    let platformFields := if 2 ≤ version ∧ mnType = some 1 then 20 + 2 + 2 else 0
    some (2 + mnTypeField + 32 + 16 + 2 + scriptPayout.encodedLen + 32 + platformFields + 96)
  | providerUpdateRegistrar scriptPayout payloadSig =>
    some (2 + 32 + 2 + 48 + 20 + scriptPayout.encodedLen + 32 + prefixedSize payloadSig.length)
  | providerUpdateRevocation => some (2 + 32 + 2 + 32 + 96)
  | coinbase version bestClHeight bestClSignature assetLockedAmount =>
    let base := 2 + 4 + 32 + if 2 ≤ version then 32 else 0
    if 3 ≤ version then
      match bestClHeight, bestClSignature, assetLockedAmount with
      | some height, some _, some _ => some (base + compactSizeLen height + 96 + 8)
      | _, _, _ => none
    else some base
  | quorumCommitment entryVersion quorumIndex signers validMembers => do
    let indexField :=
      if quorumIndex.isSome ∧ (entryVersion = 2 ∨ entryVersion = 4) then 2 else 0
    let signersLen ← bitsetLen signers
    let validMembersLen ← bitsetLen validMembers
    some (2 + 4 + (2 + 1 + 32 + indexField + signersLen + validMembersLen + 48 + 32 + 96 + 96))
  | mnhfSignal => some (1 + 1 + 32 + 96)
  | assetLock creditOutputs =>
    some (1 + varintSize creditOutputs.length + (creditOutputs.map TxOut.encodedLen).sum)
  | assetUnlock => some (1 + 8 + 4 + 4 + 32 + 96)
  | classicalWithNonStandardVersionTypeBytes _ => some 0

/-- Bytes the builder reckons with. -/
def estimatedLen : SpecialPayload → Nat
  | coinbase _ bestClHeight _ assetLockedAmount =>
    2 + 4 + 32 + 32 + (if bestClHeight.isSome then 4 + 96 else 0) +
      if assetLockedAmount.isSome then 8 else 0
  | providerRegistration _ _ scriptPayout _ =>
    2 + 2 + 2 + 32 + 4 + 16 + 2 + 20 + 20 + 20 + 2 + varintSize scriptPayout.bytes.length +
      scriptPayout.bytes.length + 32 + varintSize 75 + 75
  | providerUpdateService _ mnType scriptPayout platformNodeId =>
    2 + 32 + 16 + 2 + varintSize scriptPayout.bytes.length + scriptPayout.bytes.length + 32 + 96 +
      (if mnType.isSome then 2 else 0) + if platformNodeId.isSome then 20 + 2 + 2 else 0
  | providerUpdateRegistrar scriptPayout _ =>
    2 + 32 + 2 + 48 + 20 + varintSize scriptPayout.bytes.length + scriptPayout.bytes.length + 32 + 75
  | providerUpdateRevocation => 2 + 32 + 2 + 32 + 96
  | assetLock creditOutputs => 1 + varintSize creditOutputs.length + creditOutputs.length * 34
  | assetUnlock => 1 + 8 + 4 + 4 + 32 + 96
  | quorumCommitment .. | mnhfSignal | classicalWithNonStandardVersionTypeBytes _ => 100

/-- Whether a transaction with the payload may have no inputs. -/
def allowsNoInputs : SpecialPayload → Bool
  | assetUnlock | quorumCommitment .. | mnhfSignal | coinbase .. => true
  | _ => false

/-- Bytes of the section of the payload. Stray type bytes have none, not even a length. -/
def sectionLen (payload : SpecialPayload) : Option Nat :=
  match payload with
  | classicalWithNonStandardVersionTypeBytes _ => some 0
  | payload => payload.encodedLen.map prefixedSize

end SpecialPayload

/-! ### Transactions -/

/-- A transaction of the builder. Its version is 3 and its lock time 0, and its inputs have no
witness. -/
structure BuiltTransaction where
  input : List TxIn
  output : List TxOut
  specialTransactionPayload : Option SpecialPayload
  deriving DecidableEq

namespace BuiltTransaction

variable (tx : BuiltTransaction)

/-- Without inputs two marker bytes are written, unless that is usual for the type. -/
def haveWitness : Bool :=
  tx.input.isEmpty && !(tx.specialTransactionPayload.any SpecialPayload.allowsNoInputs)

def payloadLen : Option Nat :=
  match tx.specialTransactionPayload with
  | none => some 0
  | some payload => payload.sectionLen

/-- Bytes of the encoded transaction, if its payload can be encoded. -/
def encodedLen : Option Nat :=
  tx.payloadLen.map fun payloadLen =>
    2 + 2 + (if tx.haveWitness then 2 else 0) +
      varintSize tx.input.length + (tx.input.map TxIn.encodedLen).sum +
      varintSize tx.output.length + (tx.output.map TxOut.encodedLen).sum + 4 + payloadLen

end BuiltTransaction

inductive BuilderError
  | noOutputs
  | noChangeAddress
  | insufficientFunds (available required : Nat)
  | signingFailed
  | watchOnlyWallet
  | coinSelection (error : SelectionError)
  /-- The payload cannot be encoded, and the code panics. -/
  | encodingPanic
  deriving DecidableEq

structure TransactionBuilder where
  inputs : List Utxo
  changeAddr : Option Address
  outputs : List TxOut
  feeRate : FeeRate
  currentHeight : Nat
  selectionStrategy : SelectionStrategy
  specialPayload : Option SpecialPayload

namespace TransactionBuilder

/-- A script that burns: `OP_RETURN` and an empty push. -/
def opReturn : ScriptBuf := ⟨[0x6a, 0x00]⟩

/-- By amount, then by script. -/
def bip69OutputSorter (a b : TxOut) : Prop :=
  a.value < b.value ∨ a.value = b.value ∧ a.scriptPubkey ≤ b.scriptPubkey

instance : DecidableRel bip69OutputSorter := fun _ _ => inferInstanceAs (Decidable (_ ∨ _))

/-- By transaction, then by index. -/
def bip69InputSorter (a b : Utxo) : Prop := a.outpoint ≤ b.outpoint

instance : DecidableRel bip69InputSorter := fun a b =>
  inferInstanceAs (Decidable (a.outpoint ≤ b.outpoint))

section Build

variable (b : TransactionBuilder)

/-- An asset lock has one output on the chain. -/
def effectiveOutputsCount : Nat :=
  match b.specialPayload with
  | some (.assetLock _) => 1
  | _ => b.outputs.length

/-- The size without inputs. -/
def calculateBaseSize : Nat :=
  let outputsCount := b.effectiveOutputsCount
  8 + 1 + varintSize (outputsCount + if b.changeAddr.isSome then 1 else 0) + outputsCount * 34 +
    (if b.changeAddr.isSome then 34 else 0) +
    match b.specialPayload with
    | none => 0
    | some payload => varintSize payload.estimatedLen + payload.estimatedLen

/-- What the outputs on the chain are worth: for an asset lock, the credit outputs. -/
def totalOutput : Nat :=
  match b.specialPayload with
  | some (.assetLock creditOutputs) => (creditOutputs.map TxOut.value).sum
  | _ => (b.outputs.map TxOut.value).sum

/-- The outputs on the chain before change: an asset lock burns what it credits. -/
def initialOutputs : List TxOut :=
  match b.specialPayload with
  | some (.assetLock _) => [⟨b.totalOutput, opReturn⟩]
  | _ => b.outputs

/-- Whether there is nothing to pay. -/
def hasNoOutputs : Bool :=
  match b.specialPayload with
  | some (.assetLock creditOutputs) => creditOutputs.isEmpty
  | payload => b.outputs.isEmpty && payload.isNone

/-- The outputs in their order. Those of an asset lock stay as they are. -/
def sortOutputs (outputs : List TxOut) : List TxOut :=
  match b.specialPayload with
  | some (.assetLock _) => outputs
  | _ => outputs.insertionSort bip69OutputSorter

/-- Add change that is not dust. -/
def addChange (changeAmount : Nat) : Except BuilderError (List TxOut) :=
  if 546 < changeAmount then
    match b.changeAddr with
    | none => .error .noChangeAddress
    | some changeAddr => .ok (b.initialOutputs ++ [⟨changeAmount, changeAddr.scriptPubkey⟩])
  else .ok b.initialOutputs

/-- The coins selected. -/
def selection : Except BuilderError SelectionResult :=
  ((CoinSelector.new b.selectionStrategy).selectCoinsWithSize b.totalOutput b.feeRate
    b.calculateBaseSize 148 b.inputs b.currentHeight).mapError .coinSelection

/-- The transaction without signatures, and the coins it spends. -/
def assembleUnsigned : Except BuilderError (BuiltTransaction × List Utxo) := do
  if b.hasNoOutputs then
    throw .noOutputs
  let selection ← b.selection
  let totalInput := totalOf selection.selected
  if totalInput < b.totalOutput + selection.estimatedFee then
    throw (.insufficientFunds totalInput (b.totalOutput + selection.estimatedFee))
  let txOutputs ← b.addChange (totalInput - b.totalOutput - selection.estimatedFee)
  let selectedInputs := selection.selected.insertionSort bip69InputSorter
  return ({ input := selectedInputs.map fun utxo => ⟨utxo.outpoint, ⟨[]⟩, 0xffffffff⟩
            output := b.sortOutputs txOutputs
            specialTransactionPayload := b.specialPayload }, selectedInputs)

/-- Signs an input of a transaction: the script for the coin with that index. -/
abbrev InputSigner := BuiltTransaction → Nat → Utxo → Except BuilderError ScriptBuf

/-- Sign the inputs one by one. -/
def signTx (sign : InputSigner) (tx : BuiltTransaction) (inputs : List Utxo) :
    Except BuilderError BuiltTransaction := do
  let scripts ← inputs.zipIdx.mapM fun (utxo, index) => sign tx index utxo
  let input := tx.input.zipWith (fun input script => { input with scriptSig := script }) scripts
  return { tx with input }

end Build

/-! ### What is paid -/

/-- The estimates are not too small: the payload is not longer than reckoned, the number of
inputs fits one byte, and change goes to a script that is not longer than one to a key. -/
structure Covers (b : TransactionBuilder) (inputCount : Nat) : Prop where
  payload : ∀ payload len, b.specialPayload = some payload → payload.encodedLen = some len →
    len ≤ payload.estimatedLen
  inputCount : inputCount ≤ 252
  change : ∀ addr, b.changeAddr = some addr → addr.scriptPubkey.bytes.length ≤ 25

section Proofs

variable {b : TransactionBuilder}

theorem length_initialOutputs : b.initialOutputs.length = b.effectiveOutputsCount := by
  unfold initialOutputs effectiveOutputsCount
  split <;> rfl

theorem encodedLen_initialOutputs (houtputs : ∀ output ∈ b.outputs, output.IsStandard) (h : output ∈ b.initialOutputs) : output.encodedLen ≤ 34 := by
  unfold initialOutputs at h
  split at h
  · obtain rfl := mem_singleton.mp h
    exact TxOut.encodedLen_le (by simp [opReturn])
  · exact TxOut.encodedLen_le (houtputs output h).length_le

theorem sortOutputs_perm (outputs : List TxOut) : (b.sortOutputs outputs).Perm outputs := by
  unfold sortOutputs
  split
  · exact .refl _
  · exact perm_insertionSort _ _

variable {outputs : List TxOut} {changeAmount : Nat}

/-- Change goes to an output of its own, or it is dust. -/
theorem addChange_cases (h : b.addChange changeAmount = .ok outputs) :
    (changeAmount ≤ 546 ∧ outputs = b.initialOutputs) ∨
    ∃ addr, b.changeAddr = some addr ∧
      outputs = b.initialOutputs ++ [⟨changeAmount, addr.scriptPubkey⟩] := by
  unfold addChange at h
  split_ifs at h with hdust
  · split at h
    · cases h
    · next addr haddr => exact .inr ⟨addr, haddr, (Except.ok.inj h).symm⟩
  · exact .inl ⟨Nat.not_lt.mp hdust, (Except.ok.inj h).symm⟩

variable {tx : BuiltTransaction} {inputs : List Utxo}

theorem assembleUnsigned_spec (h : b.assembleUnsigned = .ok (tx, inputs)) :
    ∃ r outputs, b.selection = .ok r ∧
      b.totalOutput + r.estimatedFee ≤ totalOf r.selected ∧
      b.addChange (totalOf r.selected - b.totalOutput - r.estimatedFee) = .ok outputs ∧
      inputs = r.selected.insertionSort bip69InputSorter ∧
      tx = ⟨inputs.map fun utxo => ⟨utxo.outpoint, ⟨[]⟩, 0xffffffff⟩, b.sortOutputs outputs,
        b.specialPayload⟩ := by
  unfold assembleUnsigned at h
  split_ifs at h with hnone
  · cases h
  obtain ⟨r, hsel, h⟩ := bind_eq_ok h
  dsimp only at h
  split_ifs at h with hfunds
  · cases h
  obtain ⟨outputs, hchange, h⟩ := bind_eq_ok h
  obtain ⟨rfl, rfl⟩ := Prod.mk.inj (Except.ok.inj h)
  exact ⟨r, outputs, hsel, Nat.not_lt.mp hfunds, hchange, rfl, rfl⟩

theorem forall₂_of_mapM {α β ε : Type} {f : α → Except ε β} {l : List α} {r : List β}
    (h : l.mapM f = .ok r) : List.Forall₂ (fun a b => f a = .ok b) l r := by
  induction l generalizing r with
  | nil =>
    obtain rfl := Except.ok.inj h
    exact .nil
  | cons a l ih =>
    rw [List.mapM_cons] at h
    obtain ⟨b, ha, h⟩ := bind_eq_ok h
    obtain ⟨bs, hl, h⟩ := bind_eq_ok h
    obtain rfl := Except.ok.inj h
    exact .cons ha (ih hl)

variable {sign : InputSigner}

/-- Signing changes the scripts of the inputs only, each to that for its coin. -/
theorem signTx_spec {tx signed : BuiltTransaction}
    (hlength : tx.input.length = inputs.length) (h : signTx sign tx inputs = .ok signed) :
    signed.output = tx.output ∧
    signed.specialTransactionPayload = tx.specialTransactionPayload ∧
    signed.input.map TxIn.previousOutput = tx.input.map TxIn.previousOutput ∧
    ∀ index input, signed.input[index]? = some input →
      ∃ utxo, inputs[index]? = some utxo ∧ sign tx index utxo = .ok input.scriptSig := by
  obtain ⟨scripts, hscripts, h⟩ := bind_eq_ok h
  obtain rfl := Except.ok.inj h
  have hsigned := forall₂_of_mapM hscripts
  have hcount : scripts.length = tx.input.length := by
    rw [hlength, ← hsigned.length_eq, List.length_zipIdx]
  refine ⟨rfl, rfl, ?_, ?_⟩
  · exact List.ext_getElem (by simp [hcount]) (by simp)
  · intro index input hinput
    obtain ⟨hi, rfl⟩ := List.getElem?_eq_some_iff.mp hinput
    rw [List.length_zipWith] at hi
    have hi' : index < scripts.length := by omega
    have hget := hsigned.get (by rw [hsigned.length_eq]; exact hi') hi'
    rw [List.get_eq_getElem, List.getElem_zipIdx, Nat.zero_add] at hget
    rw [List.getElem_zipWith]
    exact ⟨_, List.getElem?_eq_getElem (by omega), hget⟩

/-! ### The estimate -/

theorem sectionLen_le {payload : SpecialPayload} {len : Nat}
    (hcovers : ∀ len, payload.encodedLen = some len → len ≤ payload.estimatedLen)
    (h : payload.sectionLen = some len) : len ≤ prefixedSize payload.estimatedLen := by
  unfold SpecialPayload.sectionLen at h
  split at h
  · obtain rfl := Option.some.inj h
    exact Nat.zero_le _
  · obtain ⟨encoded, hencoded, rfl⟩ := Option.map_eq_some_iff.mp h
    exact prefixedSize_mono (hcovers encoded hencoded)

section

variable (houtputs : ∀ output ∈ b.outputs, output.IsStandard)
include houtputs

/-- The outputs take at most what the builder reckons with for them. -/
theorem outputs_le
    (hchange : ∀ addr, b.changeAddr = some addr → addr.scriptPubkey.bytes.length ≤ 25)
    (hadd : b.addChange changeAmount = .ok outputs) (hperm : tx.output.Perm outputs) :
    varintSize tx.output.length + (tx.output.map TxOut.encodedLen).sum ≤
      varintSize (b.effectiveOutputsCount + if b.changeAddr.isSome then 1 else 0) +
        b.effectiveOutputsCount * 34 + if b.changeAddr.isSome then 34 else 0 := by
  have hinitial : (b.initialOutputs.map TxOut.encodedLen).sum ≤ b.effectiveOutputsCount * 34 := by
    have h := sum_le_card_nsmul (b.initialOutputs.map TxOut.encodedLen) 34 (by
      intro size hsize
      obtain ⟨output, houtput, rfl⟩ := mem_map.mp hsize
      exact encodedLen_initialOutputs houtputs houtput)
    rwa [length_map, length_initialOutputs, smul_eq_mul] at h
  rw [hperm.length_eq, (hperm.map TxOut.encodedLen).sum_eq]
  obtain ⟨-, rfl⟩ | ⟨addr, haddr, rfl⟩ := addChange_cases hadd
  · rw [length_initialOutputs]
    have hvarint : varintSize b.effectiveOutputsCount ≤
        varintSize (b.effectiveOutputsCount + if b.changeAddr.isSome then 1 else 0) :=
      varintSize_mono (Nat.le_add_right _ _)
    omega
  · have hlast := @TxOut.encodedLen_le ⟨changeAmount, addr.scriptPubkey⟩ (hchange addr haddr)
    rw [haddr, List.length_append, length_initialOutputs, List.map_append, List.sum_append]
    simp only [List.length_singleton, List.map_cons, List.map_nil, List.sum_cons, List.sum_nil,
      Option.isSome_some, if_true]
    omega

/-- With inputs, the transaction is not longer than the estimate. -/
theorem encodedLen_le {tx : BuiltTransaction} {changeAmount len : Nat} {outputs : List TxOut}
    (hcovers : b.Covers tx.input.length) (hinput : tx.input ≠ [])
    (hscripts : ∀ input ∈ tx.input, input.scriptSig.bytes.length ≤ 107)
    (hadd : b.addChange changeAmount = .ok outputs) (hperm : tx.output.Perm outputs)
    (hpayload : tx.specialTransactionPayload = b.specialPayload)
    (h : tx.encodedLen = some len) : len ≤ b.calculateBaseSize + 148 * tx.input.length := by
  obtain ⟨payloadLen, hsection, rfl⟩ := Option.map_eq_some_iff.mp h
  have hout := outputs_le houtputs hcovers.change hadd hperm
  have hone := varintSize_eq_one hcovers.inputCount
  have hsum := sum_le_card_nsmul (tx.input.map TxIn.encodedLen) 148 (by
    intro size hsize
    obtain ⟨input, hmem, rfl⟩ := mem_map.mp hsize
    exact TxIn.encodedLen_le (hscripts input hmem))
  rw [length_map, smul_eq_mul, Nat.mul_comm] at hsum
  have hwitness : tx.haveWitness = false := by
    unfold BuiltTransaction.haveWitness
    rw [List.isEmpty_eq_false_iff.mpr hinput, Bool.false_and]
  have hpayloadLen : payloadLen ≤
      match b.specialPayload with
      | none => 0
      | some payload => varintSize payload.estimatedLen + payload.estimatedLen := by
    unfold BuiltTransaction.payloadLen at hsection
    rw [hpayload] at hsection
    cases hspecial : b.specialPayload with
    | none =>
      rw [hspecial] at hsection
      exact (Option.some.inj hsection).ge
    | some payload =>
      rw [hspecial] at hsection
      exact sectionLen_le (fun len => hcovers.payload payload len hspecial) hsection
  rw [hwitness, hone]
  unfold calculateBaseSize
  simp only [Bool.false_eq_true, if_false]
  omega

end

end Proofs

namespace Payment

def owner : Address := .pubkeyHash ⟨replicate 20 1, rfl⟩

def payee : Address := .pubkeyHash ⟨replicate 20 2, rfl⟩

def coin : Utxo where
  outpoint := ⟨0, 0⟩
  txout := ⟨100000, owner.scriptPubkey⟩
  address := owner
  height := 1
  isCoinbase := false
  isConfirmed := true
  isInstantlocked := false
  isLocked := false
  isTrusted := false

/-- A signature of 72 bytes and a key of 33, each after its length. -/
def scriptSig : ScriptBuf :=
  ⟨72 :: replicate 72 0 ++ 33 :: replicate 33 0⟩

def sign : InputSigner := fun _ _ _ => .ok scriptSig

def builder (payload : Option SpecialPayload) : TransactionBuilder where
  inputs := [coin]
  changeAddr := some owner
  outputs := [⟨50000, payee.scriptPubkey⟩]
  feeRate := ⟨1000⟩
  currentHeight := 1
  selectionStrategy := .largestFirst
  specialPayload := payload

/-- The transaction with a change of an amount. -/
def built (change : Nat) (payload : Option SpecialPayload) : BuiltTransaction where
  input := [⟨⟨0, 0⟩, scriptSig, 0xffffffff⟩]
  output := [⟨change, owner.scriptPubkey⟩, ⟨50000, payee.scriptPubkey⟩]
  specialTransactionPayload := payload

end Payment

/-! ### The order of inputs and outputs -/

/-- The bytes of a transaction id as they are displayed, from the last to the first. -/
def displayed (txid : Txid) : List Nat := (toByteArray txid).reverse.map UInt8.toNat

/-- The order that BIP-69 prescribes for inputs: by the displayed transaction, then by index. -/
def bip69InputOrder (a b : Utxo) : Prop :=
  toLex (displayed a.outpoint.txid, a.outpoint.vout) ≤
    toLex (displayed b.outpoint.txid, b.outpoint.vout)

instance : DecidableRel bip69InputOrder := fun a b =>
  inferInstanceAs (Decidable (toLex (displayed a.outpoint.txid, a.outpoint.vout) ≤
    toLex (displayed b.outpoint.txid, b.outpoint.vout)))

/-- The inputs are the selected coins and the outputs the requested ones with the change, both as
BIP-69 orders them, and each input is signed with its own coin. -/
structure Bip69Ordered (b : TransactionBuilder) (tx : BuiltTransaction) (spent : List Utxo) :
    Prop where
  selected : ∃ r, b.selection = .ok r ∧ spent.Perm r.selected
  inputs : spent.Pairwise bip69InputOrder
  requested : (∀ creditOutputs, b.specialPayload ≠ some (.assetLock creditOutputs)) →
    ∃ change : Option TxOut, tx.output.Perm (b.outputs ++ change.toList)
  outputs : (∀ creditOutputs, b.specialPayload ≠ some (.assetLock creditOutputs)) →
    tx.output.Pairwise bip69OutputSorter
  parallel : tx.input.map TxIn.previousOutput = spent.map Utxo.outpoint
  signed : ∀ sign signed, signTx sign tx spent = .ok signed →
    ∀ index input, signed.input[index]? = some input → ∃ utxo, spent[index]? = some utxo ∧
      input.previousOutput = utxo.outpoint ∧ sign tx index utxo = .ok input.scriptSig

instance : IsTrans Utxo bip69InputSorter := ⟨fun _ _ _ => le_trans⟩

instance : Std.Total bip69InputSorter := ⟨fun a b => le_total a.outpoint b.outpoint⟩

instance : IsTrans TxOut bip69OutputSorter := by
  refine ⟨fun a b c hab hbc => ?_⟩
  obtain hlt | ⟨heq, hle⟩ := hab <;> obtain hlt' | ⟨heq', hle'⟩ := hbc
  · exact .inl (hlt.trans hlt')
  · exact .inl (heq' ▸ hlt)
  · exact .inl (heq ▸ hlt')
  · exact .inr ⟨heq.trans heq', hle.trans hle'⟩

instance : Std.Total bip69OutputSorter := by
  refine ⟨fun a b => ?_⟩
  obtain hlt | heq | hgt := lt_trichotomy a.value b.value
  · exact .inl (.inl hlt)
  · exact (le_total a.scriptPubkey b.scriptPubkey).imp (fun h => .inr ⟨heq, h⟩)
      fun h => .inr ⟨heq.symm, h⟩
  · exact .inr (.inl hgt)

/-- Coins in the order of their bytes are in the displayed order if the two orders agree on
them. -/
theorem pairwise_bip69InputOrder_iff {spent : List Utxo} (h : spent.Pairwise bip69InputSorter) :
    spent.Pairwise bip69InputOrder ↔
      ∀ u ∈ spent, ∀ v ∈ spent, bip69InputSorter u v → bip69InputOrder u v := by
  refine ⟨fun hordered => ?_, fun hagree => ?_⟩
  · have hpairs : spent.Pairwise fun u v =>
        (bip69InputSorter u v → bip69InputOrder u v) ∧
          (bip69InputSorter v u → bip69InputOrder v u) := by
      refine h.imp₂ (fun u v huv horder => ⟨fun _ => horder, fun hvu => ?_⟩) hordered
      -- a coin that is before and after another has its outpoint
      have hsame : v.outpoint = u.outpoint := le_antisymm hvu huv
      rw [bip69InputOrder, hsame]
    have hsymm : Std.Symm fun u v => (bip69InputSorter u v → bip69InputOrder u v) ∧
        (bip69InputSorter v u → bip69InputOrder v u) := ⟨fun _ _ => And.symm⟩
    exact fun u hu v hv => (hpairs.forall_of_forall
      (fun _ _ => ⟨fun _ => le_rfl, fun _ => le_rfl⟩) hu hv).1
  · exact h.imp_of_mem fun hu hv => hagree _ hu _ hv

/-- For every builder and transaction it assembles: inputs and outputs are in BIP-69 order, and
each input is signed with its own coin, exactly if the bytes of the spent outpoints order them as
they are displayed. -/
theorem bip69Ordered_iff (b : TransactionBuilder) (tx : BuiltTransaction) (spent : List Utxo)
    (h : b.assembleUnsigned = .ok (tx, spent)) :
    b.Bip69Ordered tx spent ↔
      ∀ u ∈ spent, ∀ v ∈ spent, bip69InputSorter u v → bip69InputOrder u v := by
  obtain ⟨r, outputs, hsel, -, hadd, rfl, rfl⟩ := assembleUnsigned_spec h
  have hsorted := pairwise_insertionSort bip69InputSorter r.selected
  have hparallel : ((r.selected.insertionSort bip69InputSorter).map fun utxo =>
      (⟨utxo.outpoint, ⟨[]⟩, 0xffffffff⟩ : TxIn)).map TxIn.previousOutput =
      (r.selected.insertionSort bip69InputSorter).map Utxo.outpoint := by
    rw [map_map]
    rfl
  refine ⟨fun hordered => (pairwise_bip69InputOrder_iff hsorted).mp hordered.inputs, fun hagree =>
    ⟨⟨r, hsel, perm_insertionSort _ _⟩, (pairwise_bip69InputOrder_iff hsorted).mpr hagree,
      fun hpay => ?_, fun hpay => ?_, hparallel, fun sign signed hsign index input hinput => ?_⟩⟩
  · have hinitial : b.initialOutputs = b.outputs := by
      unfold initialOutputs
      split
      · next creditOutputs hlock => exact absurd hlock (hpay creditOutputs)
      · rfl
    obtain ⟨-, houtputs⟩ | ⟨addr, -, houtputs⟩ := addChange_cases hadd
    · rw [hinitial, ← List.append_nil b.outputs] at houtputs
      exact ⟨none, (sortOutputs_perm outputs).trans (.of_eq houtputs)⟩
    · rw [hinitial] at houtputs
      exact ⟨some _, (sortOutputs_perm outputs).trans (.of_eq houtputs)⟩
  · unfold sortOutputs
    split
    · next creditOutputs hlock => exact absurd hlock (hpay creditOutputs)
    · exact pairwise_insertionSort _ _
  · obtain ⟨-, -, hprev, hscripts⟩ := signTx_spec (by simp) hsign
    obtain ⟨utxo, hutxo, hscript⟩ := hscripts index input hinput
    have hspent := congrArg (·[index]?) (hprev.trans hparallel)
    simp only [List.getElem?_map, hinput, hutxo, Option.map_some] at hspent
    exact ⟨utxo, hutxo, Option.some.inj hspent, hscript⟩

namespace TwoCoins

/-- A builder with two coins that are both needed. -/
def builder (first second : Txid) : TransactionBuilder where
  inputs := [{ Payment.coin with outpoint := ⟨first, 0⟩ },
    { Payment.coin with outpoint := ⟨second, 0⟩ }]
  changeAddr := some Payment.owner
  outputs := [⟨150000, Payment.payee.scriptPubkey⟩]
  feeRate := ⟨1000⟩
  currentHeight := 1
  selectionStrategy := .largestFirst
  specialPayload := none

/-- The transaction that spends the two. -/
def built (first second : Txid) : BuiltTransaction where
  input := [⟨⟨first, 0⟩, ⟨[]⟩, 0xffffffff⟩, ⟨⟨second, 0⟩, ⟨[]⟩, 0xffffffff⟩]
  output := [⟨49626, Payment.owner.scriptPubkey⟩, ⟨150000, Payment.payee.scriptPubkey⟩]
  specialTransactionPayload := none

/-- The first id is displayed as `0100…00`, the second as `00…0001`. -/
theorem displayed_reversed :
    (builder 1 (2 ^ 248)).assembleUnsigned = .ok (built 1 (2 ^ 248), (builder 1 (2 ^ 248)).inputs) ∧
      ¬ (builder 1 (2 ^ 248)).Bip69Ordered (built 1 (2 ^ 248)) (builder 1 (2 ^ 248)).inputs := by
  refine ⟨by decide +kernel, fun hordered => ?_⟩
  have hinputs := hordered.inputs
  revert hinputs
  decide +kernel

theorem bip69Ordered_ascending :
    (builder 1 2).assembleUnsigned = .ok (built 1 2, (builder 1 2).inputs) ∧
      (builder 1 2).Bip69Ordered (built 1 2) (builder 1 2).inputs := by
  have hbuilt : (builder 1 2).assembleUnsigned = .ok (built 1 2, (builder 1 2).inputs) := by
    decide +kernel
  exact ⟨hbuilt, (bip69Ordered_iff _ _ _ hbuilt).mpr (by decide +kernel)⟩

end TwoCoins

end TransactionBuilder

end Dashcore
