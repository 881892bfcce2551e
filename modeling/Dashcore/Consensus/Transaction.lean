import Dashcore.Consensus.Payload

/-!
# Transactions on the wire

A transaction is its version and type, its inputs and outputs, a lock time and, for the special
types, a payload section: a length and the payload. Inputs may carry witnesses behind a marker,
a form that Dash does not use.

The decoder reads the length of the payload section and does not use it. So a section with
another length is accepted, and the transaction is written back, and its id computed, with the
true length.
-/

namespace Dashcore.Wire

open Decoder Dec TransactionType

/-! ### Inputs and witnesses -/

/-- The witness of an input: a stack of byte strings. -/
abbrev Witness := List (List UInt8)

variable {used : List UInt8} {w : Witness}

namespace Witness

def encodeElement (element : List UInt8) : List UInt8 := varInt element.length ++ element

def consensusEncode (witness : Witness) : List UInt8 :=
  varInt witness.length ++ witness.flatMap encodeElement

/-- Read `n` elements. `cursor` is the size of the buffer used so far, of which `indexSpace`
bytes are positions of elements; an overflowing sum is reported as the largest size. -/
def decodeElements (indexSpace : Nat) : Nat → Nat → Dec Witness
  | 0, _ => pure []
  | n + 1, cursor => do
    let size ← Dec.varInt
    let required := cursor + size + (varInt size).length
    ensure (required ≤ MAX_VEC_SIZE + indexSpace)
      (.oversizedVectorAllocation (min required (2 ^ 64 - 1)) MAX_VEC_SIZE)
    let element ← (fun v : Vector UInt8 size => v.toList) <$> Dec.bytes size
    let elements ← decodeElements indexSpace n required
    pure (element :: elements)

def consensusDecode : Dec Witness := do
  let count ← Dec.varInt
  ensure (count ≤ MAX_VEC_SIZE) (.oversizedVectorAllocation count MAX_VEC_SIZE)
  decodeElements (4 * count) count (4 * count)

theorem eq_of_decodes_elements {indexSpace n cursor : Nat}
    (h : (decodeElements indexSpace n cursor).Decodes used w) :
    w.length = n ∧ used = w.flatMap encodeElement := by
  induction n generalizing cursor used w with
  | zero =>
    obtain ⟨rfl, rfl⟩ := decodes_pure.mp h
    exact ⟨rfl, rfl⟩
  | succ n ih =>
    simp only [decodeElements, decodes_bind, decodes_varInt, decodes_ensure, decodes_map,
      Dec.decodes_bytes, decodes_pure, existsAndEq, true_and, and_true, List.append_nil, List.nil_append] at h
    obtain ⟨size, -, _, element, rfl, -, -, elements, hrest, rfl⟩ := h
    obtain ⟨hlen, rfl⟩ := ih hrest
    exact ⟨by simp [hlen], by simp [encodeElement]⟩

theorem eq_of_decodes (h : consensusDecode.Decodes used w) :
    used = w.consensusEncode := by
  simp only [consensusDecode, decodes_bind, decodes_varInt, decodes_ensure, existsAndEq,
    true_and, and_true, List.nil_append] at h
  obtain ⟨count, _, rfl, -, -, -, helements⟩ := h
  obtain ⟨rfl, rfl⟩ := eq_of_decodes_elements helements
  rfl

end Witness

/-- An input. -/
structure TxIn where
  previousOutput : OutPoint
  scriptSig : ScriptBuf
  sequence : UInt32
  witness : Witness
  deriving DecidableEq

namespace TxIn

/-- The encoding of an input, without its witness. -/
def consensusEncode (i : TxIn) : List UInt8 :=
  i.previousOutput.consensusEncode ++ encodeScript i.scriptSig ++ leBytes 4 i.sequence.toNat

def consensusDecode : Dec TxIn := do
  let previousOutput ← OutPoint.consensusDecode
  let scriptSig ← decodeScript
  let sequence ← u32
  pure { previousOutput, scriptSig, sequence, witness := [] }

theorem eq_of_decodes {i : TxIn} (h : consensusDecode.Decodes used i) :
    used = i.consensusEncode ∧ i.witness = [] := by
  simp [consensusDecode, OutPoint.decodes_iff] at h
  obtain ⟨previousOutput, scriptSig, sequence, rfl, -, rfl⟩ := h
  exact ⟨by simp [consensusEncode], rfl⟩

end TxIn

/-- The encoding of a list of inputs. -/
def encodeInputs (input : List TxIn) : List UInt8 :=
  varInt input.length ++ input.flatMap TxIn.consensusEncode

/-- The encoding of a list of outputs. -/
def encodeOutputs (output : List TxOut) : List UInt8 :=
  varInt output.length ++ output.flatMap TxOut.consensusEncode

variable {input : List TxIn}

theorem eq_of_decodes_inputs (h : (vec TxIn.consensusDecode).Decodes used input) :
    used = encodeInputs input ∧ ∀ i ∈ input, i.witness = [] := by
  refine ⟨eq_of_decodes_vec (fun _ _ hi => (TxIn.eq_of_decodes hi).1) h, ?_⟩
  obtain ⟨-, parts, -, hparts⟩ := decodes_vec.mp h
  intro i hi
  clear h
  induction hparts with
  | nil => cases hi
  | cons hv _ ih =>
    rcases List.mem_cons.mp hi with rfl | hi
    · exact (TxIn.eq_of_decodes hv).2
    · exact ih hi

theorem eq_of_decodes_outputs {output : List TxOut}
    (h : (vec TxOut.consensusDecode).Decodes used output) : used = encodeOutputs output :=
  eq_of_decodes_vec (fun _ _ => TxOut.eq_of_decodes) h

/-! ### Transactions -/

/-- A transaction. -/
structure Transaction where
  version : UInt16
  lockTime : UInt32
  input : List TxIn
  output : List TxOut
  specialTransactionPayload : Option TransactionPayload
  deriving DecidableEq

/-- The types that have no witnesses even when they have no inputs. -/
def TransactionType.neverWitness : TransactionType → Bool
  | assetUnlock | quorumCommitment | mnhfSignal | coinbase => true
  | _ => false

namespace Transaction

section

variable (tx : Transaction)

def txType : TransactionType :=
  .fromOptionalPayload tx.specialTransactionPayload

/-- Whether the form with witnesses is written. A transaction without inputs is written so
too. -/
def haveWitness : Bool :=
  (tx.input.isEmpty || tx.input.any fun i => !i.witness.isEmpty) && !tx.txType.neverWitness

/-- The payload section: the length of the payload and the payload. -/
def encodePayload : Option TransactionPayload → Option (List UInt8)
  | none => some []
  | some (.classicalWithNonStandardVersionTypeBytes _) => some []
  | some payload => payload.consensusEncode.map fun bytes => varInt bytes.length ++ bytes

/-- What the encoder writes before the payload section. -/
def encodeBody : List UInt8 :=
  leBytes 2 tx.version.toNat ++ leBytes 2 tx.txType.toU16.toNat
    ++ (if tx.haveWitness then
          [0, 1] ++ encodeInputs tx.input ++ encodeOutputs tx.output
            ++ tx.input.flatMap (fun i => Witness.consensusEncode i.witness)
        else encodeInputs tx.input ++ encodeOutputs tx.output)
    ++ leBytes 4 tx.lockTime.toNat

/-- The encoding; there is none if the payload has none. -/
def consensusEncode : Option (List UInt8) := do
  let payload ← encodePayload tx.specialTransactionPayload
  pure (tx.encodeBody ++ payload)

end

/-- The transaction id: the hash of the encoding without witnesses. -/
def txid (crypto : Crypto) (tx : Transaction) : Option Txid := do
  let payload ← encodePayload tx.specialTransactionPayload
  pure (crypto.sha256d (leBytes 2 tx.version.toNat ++ leBytes 2 tx.txType.toU16.toNat
    ++ encodeInputs tx.input ++ encodeOutputs tx.output ++ leBytes 4 tx.lockTime.toNat
    ++ payload))

/-- The type of a version and a type number. Version 0 is from before special transactions
and may have any bytes in the place of the type. -/
def decodeType (version raw : UInt16) : Dec TransactionType :=
  if version ≠ 0 then
    match tryFrom raw with
    | .ok t => pure t
    | .error e => Decoder.fail e
  else if raw = 0 then pure .classic
  else pure (.classicalWithNonStandardVersionTypeBytes raw)

/-- The rest of a transaction without marker, after its inputs. -/
def decodeUnmarked (version : UInt16) (t : TransactionType) (input : List TxIn) :
    Dec Transaction := do
  let output ← vec TxOut.consensusDecode
  let lockTime ← u32
  let specialTransactionPayload ← t.consensusDecode
  pure { version, lockTime, input, output, specialTransactionPayload }

/-- Read a witness for each input. -/
def decodeWitnesses : List TxIn → Dec (List TxIn)
  | [] => pure []
  | i :: is => do
    let witness ← Witness.consensusDecode
    let rest ← decodeWitnesses is
    pure ({ i with witness } :: rest)

/-- The rest of a transaction with witnesses, after its marker. -/
def decodeMarked (version : UInt16) (t : TransactionType) : Dec Transaction := do
  let flag ← Dec.u8
  if flag = 1 then
    let input ← vec TxIn.consensusDecode
    let output ← vec TxOut.consensusDecode
    let input ← decodeWitnesses input
    if !input.isEmpty && input.all (fun i => i.witness.isEmpty) then
      Decoder.fail (.parseFailed "witness flag set but no witnesses present")
    else
      let lockTime ← u32
      let specialTransactionPayload ← t.consensusDecode
      pure { version, lockTime, input, output, specialTransactionPayload }
  else Decoder.fail (.unsupportedSegwitFlag flag)

def consensusDecode : Dec Transaction := do
  let version ← u16
  let raw ← u16
  let t ← decodeType version raw
  let input ← vec TxIn.consensusDecode
  if input.isEmpty && !t.neverWitness then decodeMarked version t
  else decodeUnmarked version t input

/-- The version, the type number and what they stand for. -/
def decodeHead : Dec TransactionType := do
  let version ← u16
  let raw ← u16
  decodeType version raw

/-- The bytes are in the form with witnesses: the count of inputs is the marker 0. -/
def HasWitnessMarker (bytes : List UInt8) : Prop :=
  match decodeHead.run bytes with
  | .ok (t, rest) => rest.head? = some 0 ∧ t.neverWitness = false
  | .error _ => False

/-- A transaction without marker, up to its payload section. -/
def skipToPayload : Dec TransactionType := do
  let t ← decodeHead
  let _input ← vec TxIn.consensusDecode
  let _output ← vec TxOut.consensusDecode
  let _lockTime ← u32
  pure t

/-- The payload section, if the type has one, is the length of the payload and a payload that
is written back as it was read. -/
def CanonicalSection (t : TransactionType) (payloadSection : List UInt8) : Prop :=
  t.hasPayload →
    match Dec.varInt.run payloadSection with
    | .error _ => False
    | .ok (length, payload) => length = payload.length ∧ t.CanonicalPayload payload

/-- The bytes of a transaction without marker whose payload section is canonical. -/
def Canonical (bytes : List UInt8) : Prop :=
  match skipToPayload.run bytes with
  | .error _ => False
  | .ok (t, payloadSection) => CanonicalSection t payloadSection

/-! ### Reading a transaction back -/

variable {t : TransactionType}

theorem toU16_of_tryFrom {raw : UInt16}
    (h : tryFrom raw = .ok t) : t.toU16 = raw := by
  unfold tryFrom at h
  apply UInt16.toNat_inj.mp
  split at h <;> cases h
  all_goals
    next hraw =>
    rw [hraw]
    rfl

variable {used : List UInt8} {version raw : UInt16}

theorem decodes_decodeType
    (h : (decodeType version raw).Decodes used t) : used = [] ∧ t.toU16 = raw := by
  unfold decodeType at h
  split_ifs at h with hver hraw
  · split at h
    · next t' htype =>
      obtain ⟨rfl, rfl⟩ := decodes_pure.mp h
      exact ⟨rfl, toU16_of_tryFrom htype⟩
    · exact absurd h decodes_fail
  · obtain ⟨rfl, rfl⟩ := decodes_pure.mp h
    exact ⟨rfl, hraw.symm⟩
  · obtain ⟨rfl, rfl⟩ := decodes_pure.mp h
    exact ⟨rfl, rfl⟩

variable {payload : Option TransactionPayload} {payloadSection : List UInt8}

/-- Without a section the type alone decides the payload. -/
theorem decodes_of_not_hasPayload (ht : t.hasPayload = false)
    (h : t.consensusDecode.Decodes payloadSection payload) :
    payloadSection = [] ∧ encodePayload payload = some [] ∧
      .fromOptionalPayload payload = t := by
  rw [TransactionType.consensusDecode, ht] at h
  obtain ⟨_, _, used, rfl, dlen, hbody⟩ := decodes_bind.mp h
  obtain ⟨rfl, rfl⟩ := decodes_pure.mp dlen
  cases t with
  | classic | classicalWithNonStandardVersionTypeBytes =>
    obtain ⟨rfl, rfl⟩ := decodes_pure.mp hbody
    exact ⟨rfl, rfl, rfl⟩
  | _ => cases ht

/-- A section is a length, which can be any, and a payload. -/
theorem decodes_of_hasPayload (ht : t.hasPayload = true)
    (h : t.consensusDecode.Decodes payloadSection payload) :
    ∃ length used p, length < 2 ^ 64 ∧ payloadSection = varInt length ++ used ∧
      payload = some p ∧ t.decodePayloadBody.Decodes used (some p) := by
  rw [TransactionType.consensusDecode, ht] at h
  obtain ⟨length, _, used, rfl, dlen, hbody⟩ := decodes_bind.mp h
  obtain ⟨hlt, rfl⟩ := decodes_varInt.mp dlen
  cases payload with
  | none =>
    exfalso
    cases t with
    | classic => cases ht
    | classicalWithNonStandardVersionTypeBytes raw => cases ht
    | _ =>
      obtain ⟨_, -, hnone⟩ := decodes_map.mp hbody
      cases hnone
  | some p => exact ⟨length, used, p, hlt, rfl, rfl, hbody⟩

theorem encodePayload_some {p : TransactionPayload} (hp : p.getType.hasPayload = true) :
    encodePayload (some p) = p.consensusEncode.map fun bytes => varInt bytes.length ++ bytes := by
  cases p <;> first | rfl | cases hp

/-- A payload that was read from a section has its type, and it is written back as the section
just when that is canonical. -/
theorem encodePayload_iff_canonical (h : t.consensusDecode.Decodes payloadSection payload) :
    .fromOptionalPayload payload = t ∧
      ∃ written, encodePayload payload = some written ∧
        (written = payloadSection ↔ CanonicalSection t payloadSection) := by
  cases ht : t.hasPayload with
  | false =>
    obtain ⟨rfl, hencode, htype⟩ := decodes_of_not_hasPayload ht h
    refine ⟨htype, [], hencode, iff_of_true rfl fun hpay => ?_⟩
    rw [ht] at hpay
    cases hpay
  | true =>
    obtain ⟨length, used, p, hlt, rfl, rfl, hbody⟩ := decodes_of_hasPayload ht h
    have hread := payloadRead hbody
    obtain ⟨bytes, hbytes, hlen, -⟩ := hread.encodes
    refine ⟨hread.getType, varInt bytes.length ++ bytes, ?_, ?_⟩
    · rw [encodePayload_some (by rw [hread.getType, ht]), hbytes]
      rfl
    · have hrun : Dec.varInt.run (varInt length ++ used) = .ok (length, used) :=
        decodes_varInt.mpr ⟨hlt, rfl⟩ used
      simp only [CanonicalSection, ht, hrun, true_implies]
      rw [← hread.canonical, hbytes, Option.some_inj]
      constructor
      · -- both prefixes are read as their numbers, so the two sections split alike
        intro heq
        have hbound := t.atMost_decodePayloadBody _ _ hbody
        obtain ⟨-, hlength⟩ := Decodes.unique (decodes_varInt.mpr ⟨by omega, rfl⟩)
          (decodes_varInt.mpr ⟨hlt, rfl⟩) heq
        rw [hlength] at heq
        exact ⟨hlength.symm.trans hlen, List.append_cancel_left heq⟩
      · rintro ⟨rfl, rfl⟩
        rfl

/-- The witnesses are read into the inputs, which are otherwise unchanged. -/
theorem eq_of_decodes_witnesses {inputs inputs' : List TxIn}
    (h : (decodeWitnesses inputs).Decodes used inputs') :
    used = inputs'.flatMap (fun i => Witness.consensusEncode i.witness) ∧
      encodeInputs inputs' = encodeInputs inputs := by
  have hparts : used = inputs'.flatMap (fun i => Witness.consensusEncode i.witness) ∧
      inputs'.length = inputs.length ∧
      inputs'.flatMap TxIn.consensusEncode = inputs.flatMap TxIn.consensusEncode := by
    induction inputs generalizing inputs' used with
    | nil =>
      obtain ⟨rfl, rfl⟩ := decodes_pure.mp h
      exact ⟨rfl, rfl, rfl⟩
    | cons i inputs ih =>
      simp [decodeWitnesses] at h
      obtain ⟨witness, _, _, rfl, hwitness, rest, hrest, rfl⟩ := h
      obtain rfl := Witness.eq_of_decodes hwitness
      obtain ⟨rfl, hlen, hflat⟩ := ih hrest
      exact ⟨by simp, by simp [hlen], by simp [hflat, TxIn.consensusEncode]⟩
  obtain ⟨hused, hlen, hflat⟩ := hparts
  exact ⟨hused, by rw [encodeInputs, encodeInputs, hlen, hflat]⟩

/-- The bytes of the version and the type. -/
theorem decodes_decodeHead (h : (decodeType version raw).Decodes [] t) :
    decodeHead.Decodes (leBytes 2 version.toNat ++ leBytes 2 t.toU16.toNat) t := by
  have hraw := (decodes_decodeType h).2
  rw [hraw, ← List.append_nil (leBytes 2 raw.toNat)]
  exact .bind (decodes_u16.mpr rfl) (.bind (decodes_u16.mpr rfl) h)

/-- A transaction is read from what is written before the payload section and any section that
is read as its payload. Without marker, the reader of everything but the section stops
there. -/
structure Read (bytes : List UInt8) (tx : Transaction) (payloadSection : List UInt8) : Prop where
  bytes_eq : bytes = tx.encodeBody ++ payloadSection
  payload : tx.txType.consensusDecode.Decodes payloadSection tx.specialTransactionPayload
  replace : ∀ other, tx.txType.consensusDecode.Decodes other tx.specialTransactionPayload →
    consensusDecode.Decodes (tx.encodeBody ++ other) tx
  head : decodeHead.Decodes (leBytes 2 tx.version.toNat ++ leBytes 2 tx.txType.toU16.toNat)
    tx.txType
  skip : tx.haveWitness = false → skipToPayload.Decodes tx.encodeBody tx.txType

variable {tx : Transaction}

theorem read_unmarked (htype : (decodeType version raw).Decodes [] t)
    (hinput : (vec TxIn.consensusDecode).Decodes (encodeInputs input) input)
    (hnone : ∀ i ∈ input, i.witness = [])
    (hform : (input.isEmpty && !t.neverWitness) = false)
    (h : (decodeUnmarked version t input).Decodes used tx) :
    ∃ payloadSection, Read (leBytes 2 version.toNat ++ leBytes 2 raw.toNat
      ++ encodeInputs input ++ used) tx payloadSection ∧ tx.haveWitness = false := by
  simp [decodeUnmarked] at h
  obtain ⟨output, _, lockTime, payloadSection, rfl, houtput, payload, hpay, rfl⟩ := h
  obtain rfl := eq_of_decodes_outputs houtput
  have ht := (encodePayload_iff_canonical hpay).1
  have htx : txType ⟨version, lockTime, input, output, payload⟩ = t := ht
  have hraw : t.toU16 = raw := (decodes_decodeType htype).2
  have hwitness : haveWitness ⟨version, lockTime, input, output, payload⟩ = false := by
    have hany : (input.any fun i => !i.witness.isEmpty) = false := by
      rw [List.any_eq_false]
      intro i hi
      simp [hnone i hi]
    rw [haveWitness, htx, hany, Bool.or_false]
    exact hform
  have hbody : encodeBody ⟨version, lockTime, input, output, payload⟩ =
      leBytes 2 version.toNat ++ (leBytes 2 raw.toNat ++ (encodeInputs input ++
        (encodeOutputs output ++ leBytes 4 lockTime.toNat))) := by
    simp [encodeBody, hwitness, htx, hraw]
  have hhead := decodes_decodeHead htype
  refine ⟨payloadSection, ⟨?_, ?_, ?_, ?_, ?_⟩, hwitness⟩
  · simp [hbody]
  · rw [htx]
    exact hpay
  · intro other hother
    rw [htx] at hother
    rw [hbody]
    simp only [List.append_assoc]
    refine .bind (decodes_u16.mpr rfl) (.bind (decodes_u16.mpr rfl) ?_)
    refine .bind_nil htype (.bind hinput ?_)
    rw [hform, if_neg (by simp)]
    refine .bind houtput (.bind (decodes_u32.mpr rfl) ?_)
    exact .bind_pure hother
  · rw [htx]
    exact hhead
  · intro _
    rw [hbody, htx, ← List.append_assoc, ← hraw]
    exact .bind hhead (.bind hinput (.bind houtput (.bind_pure (decodes_u32.mpr rfl))))

theorem read_marked (htype : (decodeType version raw).Decodes [] t)
    (hform : t.neverWitness = false) (h : (decodeMarked version t).Decodes used tx) :
    ∃ payloadSection, Read (leBytes 2 version.toNat ++ leBytes 2 raw.toNat
      ++ encodeInputs [] ++ used) tx payloadSection ∧ tx.haveWitness = true := by
  simp only [decodeMarked, decodes_bind, decodes_ite, decodes_fail, decodes_u8, decodes_u32,
    decodes_pure, existsAndEq, true_and, List.append_nil] at h
  obtain ⟨flag, _, rfl, h⟩ := h
  split_ifs at h with hflag
  obtain ⟨plain, _, output, _, input, _, _, rfl, hinput, houtput, hwitnesses, h⟩ := h
  obtain ⟨rfl, -⟩ := eq_of_decodes_inputs hinput
  obtain rfl := eq_of_decodes_outputs houtput
  obtain ⟨rfl, hsame⟩ := eq_of_decodes_witnesses hwitnesses
  split_ifs at h with hempty
  obtain ⟨lockTime, payloadSection, rfl, payload, hpay, rfl⟩ := h
  have htx : txType ⟨version, lockTime, input, output, payload⟩ = t :=
    (encodePayload_iff_canonical hpay).1
  have hraw : t.toU16 = raw := (decodes_decodeType htype).2
  have hwitness : haveWitness ⟨version, lockTime, input, output, payload⟩ = true := by
    rw [haveWitness, htx, hform, Bool.not_false, Bool.and_true]
    rw [Bool.not_eq_true, Bool.and_eq_false_iff] at hempty
    rcases hempty with hnone | hsome
    · rw [Bool.not_eq_false'] at hnone
      rw [hnone, Bool.true_or]
    · rw [List.all_eq_not_any_not, Bool.not_eq_false'] at hsome
      rw [hsome, Bool.or_true]
  have hbody : encodeBody ⟨version, lockTime, input, output, payload⟩ =
      leBytes 2 version.toNat ++ (leBytes 2 raw.toNat ++ (encodeInputs [] ++ (leBytes 1 flag.toNat
        ++ (encodeInputs plain ++ (encodeOutputs output ++
          (input.flatMap (fun i => Witness.consensusEncode i.witness)
            ++ leBytes 4 lockTime.toNat)))))) := by
    have hzero : encodeInputs [] = [0] := by decide
    have hone : leBytes 1 flag.toNat = [1] := by rw [hflag]; decide
    simp [encodeBody, hwitness, htx, hraw, hsame, hzero, hone]
  refine ⟨payloadSection, ⟨?_, ?_, ?_, ?_, ?_⟩, hwitness⟩
  · simp [hbody]
  · rw [htx]
    exact hpay
  · intro other hother
    rw [htx] at hother
    rw [hbody]
    simp only [List.append_assoc]
    have hzero : (vec TxIn.consensusDecode).Decodes (encodeInputs []) [] :=
      decodes_vec.mpr ⟨by decide, [], by simp [encodeInputs], .nil⟩
    refine .bind (decodes_u16.mpr rfl) (.bind (decodes_u16.mpr rfl) ?_)
    refine .bind_nil htype (.bind hzero ?_)
    rw [hform, if_pos (by simp)]
    refine .bind (decodes_u8.mpr rfl) ?_
    rw [if_pos hflag]
    refine .bind hinput (.bind houtput (.bind hwitnesses ?_))
    rw [if_neg hempty]
    exact .bind (decodes_u32.mpr rfl) (.bind_pure hother)
  · rw [htx]
    exact decodes_decodeHead htype
  · intro hno
    rw [hwitness] at hno
    cases hno

/-- The form with witnesses is the one with the marker. -/
theorem hasWitnessMarker_iff (head : decodeHead.Decodes used t) (rest : List UInt8) :
    HasWitnessMarker (used ++ rest) ↔ rest.head? = some 0 ∧ t.neverWitness = false := by
  rw [HasWitnessMarker, head rest]

theorem head?_varInt (n : Nat) (rest : List UInt8) :
    (varInt n ++ rest).head? = some 0 ↔ n = 0 := by
  unfold varInt
  split_ifs with h1 h2 h3
  · rw [Dec.leBytes_one, List.cons_append, List.head?_cons, Option.some_inj, ← UInt8.toNat_inj,
      UInt8.toNat_ofNat_of_lt' (Nat.lt_of_le_of_lt h1 (by decide))]
    rfl
  all_goals
    rw [List.cons_append, List.head?_cons, Option.some_inj]
    exact iff_of_false (by decide) (by omega)

/-- How a transaction stands in the bytes it was read from. -/
theorem read_of_decodes {bytes : List UInt8}
    (h : consensusDecode.Decodes bytes tx) :
    ∃ payloadSection, Read bytes tx payloadSection ∧
      (HasWitnessMarker bytes ↔ tx.haveWitness = true) := by
  simp only [consensusDecode, decodes_bind, decodes_ite, decodes_u16, existsAndEq, true_and] at h
  obtain ⟨version, raw, t, _, input, _, used, rfl, htype, hinput, h⟩ := h
  obtain ⟨rfl, hraw⟩ := decodes_decodeType htype
  obtain ⟨rfl, hnone⟩ := eq_of_decodes_inputs hinput
  have hmarker := hasWitnessMarker_iff (decodes_decodeHead htype) (encodeInputs input ++ used)
  have hcount : (encodeInputs input ++ used).head? = some 0 ↔ input.isEmpty = true := by
    rw [encodeInputs, List.append_assoc, head?_varInt, List.length_eq_zero_iff, List.isEmpty_iff]
  rw [hcount, hraw, List.append_assoc] at hmarker
  rw [List.nil_append, hmarker]
  split_ifs at h with hform
  · rw [Bool.and_eq_true, Bool.not_eq_true'] at hform
    obtain rfl := List.isEmpty_iff.mp hform.1
    obtain ⟨payloadSection, hread, hwitness⟩ := read_marked htype hform.2 h
    exact ⟨payloadSection, by simpa using hread, iff_of_true hform hwitness⟩
  · rw [Bool.not_eq_true] at hform
    obtain ⟨payloadSection, hread, hwitness⟩ := read_unmarked htype hinput hnone hform h
    refine ⟨payloadSection, by simpa using hread, iff_of_false ?_ (by rw [hwitness]; decide)⟩
    rintro ⟨hempty, hnever⟩
    rw [hempty, hnever] at hform
    cases hform

/-- A transaction read from bytes without witness marker is written back as those bytes, and
its id is their hash, just when the payload section is canonical. -/
theorem keeps_bytes_iff_canonical (crypto : Crypto) {bytes : List UInt8} {tx : Transaction}
    (h : deserialize consensusDecode bytes = .ok tx) (hform : ¬ HasWitnessMarker bytes) :
    (tx.consensusEncode = some bytes ∧ tx.txid crypto = some (crypto.sha256d bytes)) ↔
      Canonical bytes := by
  obtain ⟨payloadSection, hread, hmarker⟩ := read_of_decodes (deserialize_eq_ok.mp h)
  have hwitness : tx.haveWitness = false := by
    rw [hmarker, Bool.not_eq_true] at hform
    exact hform
  obtain ⟨-, written, hwritten, hiff⟩ := encodePayload_iff_canonical hread.payload
  have hcanonical : Canonical bytes ↔ CanonicalSection tx.txType payloadSection := by
    rw [Canonical, hread.bytes_eq, hread.skip hwitness payloadSection]
  have hencode : tx.consensusEncode = some (tx.encodeBody ++ written) := by
    simp [consensusEncode, hwritten]
  have htxid : tx.txid crypto = some (crypto.sha256d (tx.encodeBody ++ written)) := by
    simp [txid, hwritten, encodeBody, hwitness]
  rw [hcanonical, ← hiff, hencode, htxid, hread.bytes_eq, Option.some_inj, List.append_right_inj]
  constructor
  · exact And.left
  · rintro rfl
    exact ⟨rfl, rfl⟩

instance (bytes : List UInt8) : Decidable (HasWitnessMarker bytes) :=
  match h : decodeHead.run bytes with
  | .ok (t, rest) =>
    decidable_of_iff (rest.head? = some 0 ∧ t.neverWitness = false)
      (by rw [HasWitnessMarker, h])
  | .error _ => isFalse (by rw [HasWitnessMarker, h]; exact id)

/-- A hash that tells byte strings apart by their length only. -/
def lengthHash : Crypto where
  sha256d bytes := Fin.ofNat (2 ^ 256) bytes.length
  PublicKey := Unit
  Signature := Unit
  publicKeyTryFrom _ := .ok ()
  signatureFromCompressed _ := some ()
  verify _ _ _ := .ok ()

/-- A coinbase transaction without inputs or outputs, byte by byte. -/
def plainCoinbase : List UInt8 :=
  [3, 0, 5, 0, 0, 0, 0, 0, 0, 0, 38, 1, 0] ++ List.replicate 36 0

/-- The transaction these bytes stand for. -/
def plainCoinbaseTx : Transaction where
  version := 3
  lockTime := 0
  input := []
  output := []
  specialTransactionPayload := some (.coinbase ⟨1, 0, 0, 0, none, none, none⟩)

theorem keeps_bytes_plainCoinbase :
    (deserialize consensusDecode plainCoinbase = .ok plainCoinbaseTx ∧
      ¬ HasWitnessMarker plainCoinbase) ∧
    ((plainCoinbaseTx.consensusEncode = some plainCoinbase ∧
      plainCoinbaseTx.txid lengthHash = some (lengthHash.sha256d plainCoinbase)) ↔
        Canonical plainCoinbase) := by
  have hread : deserialize consensusDecode plainCoinbase = .ok plainCoinbaseTx := by
    decide +kernel
  have hform : ¬ HasWitnessMarker plainCoinbase := by decide +kernel
  exact ⟨⟨hread, hform⟩, keeps_bytes_iff_canonical lengthHash hread hform⟩

/-- A registration of a masternode that has no service address yet: the address is all
zeros. -/
def unsetAddress : List UInt8 :=
  [3, 0, 1, 0, 1] ++ List.replicate 41 0 ++ [0, 0, 0, 0, 0, 184, 1, 0] ++ List.replicate 182 0

/-- The zero address is written back in the IPv4-mapped form. -/
theorem unsetAddress_loses_bytes :
    ∃ tx, deserialize consensusDecode unsetAddress = .ok tx ∧ ¬ HasWitnessMarker unsetAddress ∧
      tx.consensusEncode ≠ some unsetAddress := by
  have hchanged : (match deserialize consensusDecode unsetAddress with
      | .ok tx => tx.consensusEncode != some unsetAddress
      | .error _ => false) = true := by
    decide +kernel
  cases hread : deserialize consensusDecode unsetAddress with
  | ok tx =>
    rw [hread] at hchanged
    exact ⟨tx, rfl, by decide +kernel, by simpa using hchanged⟩
  | error e =>
    rw [hread] at hchanged
    cases hchanged

/-- A payload that was read from a section is written as one that is read as it. -/
theorem decodes_encodePayload (h : t.consensusDecode.Decodes payloadSection payload) :
    ∃ written, encodePayload payload = some written ∧
      t.consensusDecode.Decodes written payload := by
  cases ht : t.hasPayload with
  | false =>
    obtain ⟨rfl, hencode, -⟩ := decodes_of_not_hasPayload ht h
    exact ⟨[], hencode, h⟩
  | true =>
    obtain ⟨length, used, p, -, -, rfl, hbody⟩ := decodes_of_hasPayload ht h
    have hbound := t.atMost_decodePayloadBody _ _ hbody
    obtain ⟨htype, ⟨bytes, hbytes, hlen, hread⟩, -⟩ := payloadRead hbody
    refine ⟨varInt bytes.length ++ bytes, ?_, ?_⟩
    · rw [encodePayload_some (htype ▸ ht), hbytes]
      rfl
    · rw [TransactionType.consensusDecode, if_pos ht]
      exact .bind (decodes_varInt.mpr ⟨by omega, rfl⟩) hread

/-- Whatever bytes a transaction was read from, with witnesses or not, it is written as bytes
that are read as the same transaction. -/
theorem deserialize_consensusEncode {bytes : List UInt8} {tx : Transaction}
    (h : deserialize consensusDecode bytes = .ok tx) :
    ∃ written, tx.consensusEncode = some written ∧
      deserialize consensusDecode written = .ok tx := by
  obtain ⟨payloadSection, hread, -⟩ := read_of_decodes (deserialize_eq_ok.mp h)
  obtain ⟨written, hwritten, hdecodes⟩ := decodes_encodePayload hread.payload
  exact ⟨tx.encodeBody ++ written, by simp [consensusEncode, hwritten],
    deserialize_eq_ok.mpr (hread.replace written hdecodes)⟩

theorem deserialize_consensusEncode_plainCoinbase :
    ∃ written, plainCoinbaseTx.consensusEncode = some written ∧
      deserialize consensusDecode written = .ok plainCoinbaseTx :=
  deserialize_consensusEncode (by decide +kernel : deserialize _ plainCoinbase = _)

end Transaction

end Dashcore.Wire
