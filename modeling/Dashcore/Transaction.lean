import Mathlib.Data.List.Lex
import Dashcore.Primitives

/-!
# Transactions, scripts and addresses

Scripts are byte strings and addresses are parsed from them as the library does. A
wallet lives on one network, so an address is its payload. Fields that nothing reads
are kept together in serialized form, so that a transaction is all that its txid is
computed from; the txid itself is a function on transactions that every user of this
file takes as a parameter.
-/

namespace Dashcore

/-! ### Scripts -/

/-- A script, as its bytes. -/
structure ScriptBuf where
  bytes : List UInt8
  deriving DecidableEq

theorem map_toNat_injective : Function.Injective (List.map UInt8.toNat) :=
  List.map_injective_iff.mpr fun _ _ => UInt8.toNat_inj.mp

/-- Scripts compare byte by byte. -/
instance : LinearOrder ScriptBuf :=
  LinearOrder.lift' (fun s : ScriptBuf => s.bytes.map UInt8.toNat) fun a b h => by
    cases a
    cases b
    exact congrArg ScriptBuf.mk (map_toNat_injective h)

/-- A 20-byte hash of a public key or a script. -/
abbrev Hash160 := { bytes : List UInt8 // bytes.length = 20 }

abbrev PubkeyHash := Hash160

abbrev ScriptHash := Hash160

namespace ScriptBuf

/-- `OP_DUP OP_HASH160 <hash> OP_EQUALVERIFY OP_CHECKSIG`. -/
def newP2pkh (hash : PubkeyHash) : ScriptBuf :=
  ⟨[0x76, 0xa9, 0x14] ++ hash.1 ++ [0x88, 0xac]⟩

/-- `OP_HASH160 <hash> OP_EQUAL`. -/
def newP2sh (hash : ScriptHash) : ScriptBuf := ⟨[0xa9, 0x14] ++ hash.1 ++ [0x87]⟩

/-- The opcode of a witness version: `OP_0`, or `OP_1` to `OP_16`. -/
def versionOpcode (version : Nat) : UInt8 :=
  if version = 0 then 0 else UInt8.ofNat (0x50 + version)

/-- The witness version an opcode stands for. -/
def witnessVersion (opcode : UInt8) : Option Nat :=
  if opcode = 0 then some 0
  else if 0x51 ≤ opcode.toNat ∧ opcode.toNat ≤ 0x60 then some (opcode.toNat - 0x50)
  else none

/-- A version opcode and one push of the program. -/
def newWitnessProgram (version : Nat) (program : List UInt8) : ScriptBuf :=
  ⟨versionOpcode version :: UInt8.ofNat program.length :: program⟩

variable (s : ScriptBuf)

/-- Whether the script pays to a public key hash. -/
def isP2pkh : Bool :=
  s.bytes.length = 25 ∧ s.bytes.take 3 = [0x76, 0xa9, 0x14] ∧ s.bytes.drop 23 = [0x88, 0xac]

/-- Whether the script pays to a script hash. -/
def isP2sh : Bool :=
  s.bytes.length = 23 ∧ s.bytes.take 2 = [0xa9, 0x14] ∧ s.bytes.drop 22 = [0x87]

/-- The version and program of a witness program: a version opcode and a push of the 2 to 40
bytes that are left. -/
def witnessProgram : Option (Nat × List UInt8) :=
  match s.bytes with
  | opcode :: push :: program =>
    if 2 ≤ program.length ∧ program.length ≤ 40 ∧ program.length = push.toNat then
      (witnessVersion opcode).map fun version => (version, program)
    else none
  | _ => none

end ScriptBuf

/-! ### Addresses -/

/-- What an address pays to. -/
inductive Address
  | pubkeyHash (hash : PubkeyHash)
  | scriptHash (hash : ScriptHash)
  | witnessProgram (version : Nat) (program : List UInt8)
  deriving DecidableEq

namespace Address

/-- An address as numbers, its kind first. -/
def code : Address → List Nat
  | pubkeyHash hash => 0 :: hash.1.map UInt8.toNat
  | scriptHash hash => 1 :: hash.1.map UInt8.toNat
  | witnessProgram version program => 2 :: version :: program.map UInt8.toNat

theorem code_injective : Function.Injective code := by
  intro a b h
  cases a <;> cases b <;> simp only [code, List.cons.injEq] at h
  · exact congrArg pubkeyHash (Subtype.ext (map_toNat_injective h.2))
  · exact absurd h.1 (by decide)
  · exact absurd h.1 (by decide)
  · exact absurd h.1 (by decide)
  · exact congrArg scriptHash (Subtype.ext (map_toNat_injective h.2))
  · exact absurd h.1 (by decide)
  · exact absurd h.1 (by decide)
  · exact absurd h.1 (by decide)
  · exact congrArg₂ witnessProgram h.2.1 (map_toNat_injective h.2.2)

/-- Addresses compare by kind, then byte by byte. -/
instance : LinearOrder Address := LinearOrder.lift' code code_injective

/-- The output script that pays to an address. -/
def scriptPubkey : Address → ScriptBuf
  | pubkeyHash hash => .newP2pkh hash
  | scriptHash hash => .newP2sh hash
  | witnessProgram version program => .newWitnessProgram version program

/-- The address an output script pays to, if it has one of the known forms. A program of
witness version 0 must be 20 or 32 bytes long. -/
def fromScript (s : ScriptBuf) : Option Address :=
  if h : s.isP2pkh then
    some (.pubkeyHash ⟨(s.bytes.drop 3).take 20, by simp_all [ScriptBuf.isP2pkh]⟩)
  else if h : s.isP2sh then
    some (.scriptHash ⟨(s.bytes.drop 2).take 20, by simp_all [ScriptBuf.isP2sh]⟩)
  else
    match s.witnessProgram with
    | some (version, program) =>
      if version = 0 ∧ program.length ≠ 20 ∧ program.length ≠ 32 then none
      else some (.witnessProgram version program)
    | none => none

/-- A script that parses as a version opcode is written back as that opcode. -/
theorem versionOpcode_witnessVersion {opcode : UInt8} {version : Nat}
    (h : ScriptBuf.witnessVersion opcode = some version) :
    ScriptBuf.versionOpcode version = opcode := by
  rw [ScriptBuf.witnessVersion] at h
  split_ifs at h with hzero hrange
  · cases h
    exact hzero.symm
  · cases h
    have hpos : opcode.toNat - 0x50 ≠ 0 := by omega
    rw [ScriptBuf.versionOpcode, if_neg hpos, Nat.add_sub_cancel' (by omega)]
    exact UInt8.ofNat_toNat

theorem newWitnessProgram_of_witnessProgram {s : ScriptBuf} {version : Nat}
    {program : List UInt8} (h : s.witnessProgram = some (version, program)) :
    s = .newWitnessProgram version program := by
  obtain ⟨bytes⟩ := s
  match bytes with
  | [] | [_] => simp [ScriptBuf.witnessProgram] at h
  | opcode :: push :: rest =>
    simp only [ScriptBuf.witnessProgram] at h
    split_ifs at h with hlen
    obtain ⟨version', hver, heq⟩ := Option.map_eq_some_iff.mp h
    obtain ⟨rfl, rfl⟩ := Prod.mk.inj heq
    simp [ScriptBuf.newWitnessProgram, versionOpcode_witnessVersion hver, hlen.2.2]

/-- A byte string is its first `a`, its next `b` and its remaining bytes. -/
theorem bytes_split {α : Type*} (l : List α) (a b : Nat) :
    l = l.take a ++ (l.drop a).take b ++ l.drop (a + b) := by
  rw [← List.drop_drop, List.append_assoc, List.take_append_drop, List.take_append_drop]

/-- A script that parses as an address is the output script of that address. -/
theorem fromScript_eq_some {s : ScriptBuf} {a : Address} (h : fromScript s = some a) :
    s = a.scriptPubkey := by
  obtain ⟨bytes⟩ := s
  rw [fromScript] at h
  split_ifs at h with hp2pkh hp2sh
  · cases h
    simp only [ScriptBuf.isP2pkh, Bool.decide_and, Bool.and_eq_true, decide_eq_true_eq]
      at hp2pkh
    have hsplit := bytes_split bytes 3 20
    rw [hp2pkh.2.1, hp2pkh.2.2] at hsplit
    exact congrArg ScriptBuf.mk hsplit
  · cases h
    simp only [ScriptBuf.isP2sh, Bool.decide_and, Bool.and_eq_true, decide_eq_true_eq] at hp2sh
    have hsplit := bytes_split bytes 2 20
    rw [hp2sh.2.1, hp2sh.2.2] at hsplit
    exact congrArg ScriptBuf.mk hsplit
  · split at h
    · next version program hprogram =>
      split_ifs at h
      cases h
      exact newWitnessProgram_of_witnessProgram hprogram
    · cases h

end Address

/-! ### Transactions -/

/-- An input: the output it spends and the data that unlocks it. -/
structure TxIn where
  previousOutput : OutPoint
  scriptSig : ScriptBuf
  sequence : Nat
  deriving DecidableEq

/-- An output: an amount in duffs and the script that locks it. -/
structure TxOut where
  value : Nat
  scriptPubkey : ScriptBuf
  deriving DecidableEq

/-- The outpoint of a coinbase input. -/
def OutPoint.null : OutPoint := ⟨0, 2 ^ 32 - 1⟩

/-- Payload of a masternode registration. -/
structure ProviderRegistrationPayload where
  ownerKeyHash : PubkeyHash
  operatorPublicKey : BLSPublicKey
  votingKeyHash : PubkeyHash
  scriptPayout : ScriptBuf
  platformNodeId : Option PubkeyHash
  /-- The fields nothing reads, serialized. -/
  rest : List UInt8
  deriving DecidableEq

/-- Payload of a masternode registrar update. -/
structure ProviderUpdateRegistrarPayload where
  operatorPublicKey : BLSPublicKey
  votingKeyHash : PubkeyHash
  scriptPayout : ScriptBuf
  rest : List UInt8
  deriving DecidableEq

/-- Payload of a masternode service update. -/
structure ProviderUpdateServicePayload where
  scriptPayout : ScriptBuf
  rest : List UInt8
  deriving DecidableEq

/-- Payload of an asset lock: the outputs credited on the platform. -/
structure AssetLockPayload where
  creditOutputs : List TxOut
  rest : List UInt8
  deriving DecidableEq

/-- Payload of a special transaction. Those that nothing looks into are kept serialized. -/
inductive TransactionPayload
  | providerRegistration (payload : ProviderRegistrationPayload)
  | providerUpdateService (payload : ProviderUpdateServicePayload)
  | providerUpdateRegistrar (payload : ProviderUpdateRegistrarPayload)
  | providerUpdateRevocation (rest : List UInt8)
  | coinbase (rest : List UInt8)
  | quorumCommitment (rest : List UInt8)
  | mnhfSignal (rest : List UInt8)
  | assetLock (payload : AssetLockPayload)
  | assetUnlock (rest : List UInt8)
  /-- Stray type bytes of a transaction from before special transactions. -/
  | classicalWithNonStandardVersionTypeBytes (typeBytes : Nat)
  deriving DecidableEq

/-- A transaction. -/
structure Transaction where
  version : Nat
  lockTime : Nat
  input : List TxIn
  output : List TxOut
  specialTransactionPayload : Option TransactionPayload
  deriving DecidableEq

/-- Whether the transaction has a single input that spends nothing. -/
def Transaction.isCoinBase (tx : Transaction) : Bool :=
  match tx.input with
  | [input] => input.previousOutput = .null
  | _ => false

end Dashcore
