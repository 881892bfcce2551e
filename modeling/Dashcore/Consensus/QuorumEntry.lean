import Dashcore.Consensus.Encode
import Dashcore.Sml.Quorum

/-!
# Addresses and quorum entries on the wire

Two decoders accept more than the encoder writes. A service address in IPv4-compatible form
is read as an IPv4 address and written back in IPv4-mapped form. A quorum entry loses an
unknown quorum type and the padding bits of its two bit sets. In both cases the value that
was read is read back from its own encoding.
-/

namespace Dashcore

open Decoder Dec

/-! ### Socket addresses -/

/-- Exchange the two bytes of a number. -/
def swapBytes (n : UInt16) : UInt16 := UInt16.ofNat (n.toNat % 256 * 256 + n.toNat / 256)

theorem toNat_swapBytes (n : UInt16) :
    (swapBytes n).toNat = n.toNat % 256 * 256 + n.toNat / 256 := by
  have hn := n.toNat_lt
  exact UInt16.toNat_ofNat_of_lt' (show _ < 65536 by omega)

@[simp] theorem swapBytes_swapBytes (n : UInt16) : swapBytes (swapBytes n) = n := by
  have hn := n.toNat_lt
  apply UInt16.toNat_inj.mp
  rw [toNat_swapBytes, toNat_swapBytes]
  omega

variable {used : List UInt8}

namespace Wire

/-- An IP address and a port. -/
inductive SocketAddr
  | v4 (ip : Vector UInt8 4) (port : UInt16)
  | v6 (ip : Vector UInt8 16) (port : UInt16)
  deriving DecidableEq

namespace SocketAddr

def port : SocketAddr → UInt16
  | v4 _ port => port
  | v6 _ port => port

/-- The 16 bytes of the address; an IPv4 address in IPv4-mapped form. -/
def ipBytes : SocketAddr → List UInt8
  | v4 ip _ => List.replicate 10 0 ++ [0xFF, 0xFF] ++ ip.toList
  | v6 ip _ => ip.toList

def consensusEncode (address : SocketAddr) : List UInt8 :=
  address.ipBytes ++ leBytes 2 (swapBytes address.port).toNat

/-- The IPv4 address in an IPv4-compatible (`::a.b.c.d`) or IPv4-mapped
(`::ffff:a.b.c.d`) address. -/
def toIpv4 (ip : Vector UInt8 16) : Option (Vector UInt8 4) :=
  if ip.toList.take 12 = List.replicate 12 0 ∨
      ip.toList.take 12 = List.replicate 10 0 ++ [0xFF, 0xFF] then
    some ⟨(ip.toList.drop 12).toArray, by simp⟩
  else none

def ofBytes (ip : Vector UInt8 16) (port : UInt16) : SocketAddr :=
  match toIpv4 ip with
  | some ipv4 => v4 ipv4 port
  | none => v6 ip port

def consensusDecode : Dec SocketAddr := do
  let ip ← Dec.bytes 16
  let port ← swapBytes <$> Dec.u16
  pure (ofBytes ip port)

end SocketAddr

/-- The 16 bytes of an address are in the IPv4-compatible form. -/
def IsIpv4Compatible (ip : List UInt8) : Prop := ip.take 12 = List.replicate 12 0

instance (ip : List UInt8) : Decidable (IsIpv4Compatible ip) :=
  inferInstanceAs (Decidable (_ = _))

namespace SocketAddr

section

variable (ip : Vector UInt8 16) (port : UInt16)

@[simp] theorem port_ofBytes :
    (ofBytes ip port).port = port := by
  unfold ofBytes
  split <;> rfl

/-- What an address reads as: IPv4 when the bytes are of one of the two IPv4 forms. -/
theorem ipBytes_ofBytes :
    (ofBytes ip port).ipBytes =
      if ip.toList.take 12 = List.replicate 12 0 ∨
          ip.toList.take 12 = List.replicate 10 0 ++ [0xFF, 0xFF] then
        List.replicate 10 0 ++ [0xFF, 0xFF] ++ ip.toList.drop 12
      else ip.toList := by
  unfold ofBytes toIpv4
  split_ifs with h
  · simp [ipBytes]
  · rfl

/-- An address comes back as the bytes it was read from unless they are IPv4-compatible. -/
theorem ipBytes_ofBytes_iff :
    (ofBytes ip port).ipBytes = ip.toList ↔ ¬ IsIpv4Compatible ip.toList := by
  rw [ipBytes_ofBytes, IsIpv4Compatible]
  have hsplit : ip.toList = ip.toList.take 12 ++ ip.toList.drop 12 :=
    (List.take_append_drop 12 _).symm
  by_cases hcompat : ip.toList.take 12 = List.replicate 12 0
  · refine iff_of_false ?_ (fun hne => hne hcompat)
    intro heq
    have hstart := congrArg (List.take 12) heq
    rw [hcompat] at hstart
    simp at hstart
  · refine iff_of_true ?_ hcompat
    split_ifs with hform
    · rcases hform with h | hmapped
      · exact absurd h hcompat
      · rw [← hmapped, ← hsplit]
    · rfl

end

theorem length_ipBytes (address : SocketAddr) : address.ipBytes.length = 16 := by
  cases address <;> simp [ipBytes]

/-- The bytes that are written for an address that was read are read as that address. -/
theorem ofBytes_ipBytes_ofBytes (ip ip' : Vector UInt8 16) (port : UInt16)
    (h : ip'.toList = (ofBytes ip port).ipBytes) : ofBytes ip' port = ofBytes ip port := by
  rw [ipBytes_ofBytes] at h
  split_ifs at h with hform
  · have hmapped : ip'.toList.take 12 = List.replicate 10 0 ++ [0xFF, 0xFF] := by
      rw [h, List.take_left' (by simp)]
    have hlast : ip'.toList.drop 12 = ip.toList.drop 12 := by
      rw [h, List.drop_left' (by simp)]
    simp only [ofBytes, toIpv4, if_pos hform, if_pos (Or.inr hmapped), hlast]
  · rw [Vector.toList_inj.mp h]

variable {address : SocketAddr}

theorem decodes_iff :
    consensusDecode.Decodes used address ↔
      ∃ ip : Vector UInt8 16, address = ofBytes ip address.port ∧
        used = ip.toList ++ leBytes 2 (swapBytes address.port).toNat := by
  simp only [consensusDecode, decodes_bind, Dec.decodes_bytes, decodes_map, Dec.decodes_u16,
    decodes_pure]
  constructor
  · rintro ⟨ip, _, _, rfl, rfl, _, _, _, rfl, ⟨port, rfl, rfl⟩, rfl, rfl⟩
    exact ⟨ip, by simp, by simp⟩
  · rintro ⟨ip, haddr, rfl⟩
    exact ⟨ip, _, _, rfl, rfl, address.port, _, [], by simp, ⟨swapBytes address.port, rfl, by simp⟩,
      rfl, haddr⟩

/-- The mapped form of an IPv4 address reads as that address. -/
theorem decodes_consensusEncode (h : consensusDecode.Decodes used address) :
    consensusDecode.Decodes address.consensusEncode address := by
  obtain ⟨ip, haddr, rfl⟩ := decodes_iff.mp h
  refine decodes_iff.mpr ⟨⟨address.ipBytes.toArray, by simp [length_ipBytes]⟩, ?_, by
    simp [consensusEncode]⟩
  rw [haddr, port_ofBytes]
  exact (ofBytes_ipBytes_ofBytes ip _ _ (by simp)).symm

end SocketAddr

end Wire

/-! ### Quorum entries -/

/-- The quorum type of a wire number. The devnet platform type has a number but no case here. -/
def LLMQType.ofU8 (n : UInt8) : LLMQType :=
  match n.toNat with
  | 1 => .llmqtype50_60
  | 2 => .llmqtype400_60
  | 3 => .llmqtype400_85
  | 4 => .llmqtype100_67
  | 5 => .llmqtype60_75
  | 6 => .llmqtype25_67
  | 100 => .llmqtypeTest
  | 101 => .llmqtypeDevnet
  | 102 => .llmqtypeTestV17
  | 103 => .llmqtypeTestDIP0024
  | 104 => .llmqtypeTestInstantSend
  | 105 => .llmqtypeDevnetDIP0024
  | 106 => .llmqtypeTestnetPlatform
  | _ => .llmqtypeUnknown

namespace LLMQType

theorem toU8_lt (t : LLMQType) : t.toU8 < 256 := by
  cases t <;> decide

theorem ofU8_ne_llmqtypeDevnetPlatform (n : UInt8) : ofU8 n ≠ llmqtypeDevnetPlatform := by
  unfold ofU8
  split <;> simp

/-- A type that was read from some number is read from its own number. -/
theorem ofU8_toU8_ofU8 (n : UInt8) : ofU8 (UInt8.ofNat (ofU8 n).toU8) = ofU8 n := by
  have hread : ∀ t, t ≠ llmqtypeDevnetPlatform → ofU8 (UInt8.ofNat t.toU8) = t := by
    intro t ht
    cases t <;> first | rfl | exact absurd rfl ht
  exact hread _ (ofU8_ne_llmqtypeDevnetPlatform n)

end LLMQType

namespace QuorumEntry

/-- The versions in which the quorum index is on the wire. -/
def Indexed (version : Nat) : Prop := version = 2 ∨ version = 4

instance (version : Nat) : Decidable (Indexed version) :=
  inferInstanceAs (Decidable (_ ∨ _))

/-- The encoding of an entry around a type byte and the bytes of its two bit sets. -/
def layout (e : QuorumEntry) (llmqType : UInt8) (signers validMembers : List UInt8) :
    List UInt8 :=
  leBytes 2 e.version ++ leBytes 1 llmqType.toNat ++ toByteArray e.quorumHash
    ++ (match e.quorumIndex with
        | some index => if Indexed e.version then leBytes 2 (Int16.ofInt index).toUInt16.toNat else []
        | none => [])
    ++ writeCompactSize e.signers.length ++ signers
    ++ writeCompactSize e.validMembers.length ++ validMembers
    ++ e.quorumPublicKey.toList ++ toByteArray e.quorumVvecHash ++ e.thresholdSig.toList
    ++ e.allCommitmentAggregatedSignature.toList

/-- The encoding of an entry; there is none if a bit set is too large. -/
def consensusEncode (e : QuorumEntry) : Option (List UInt8) := do
  let signers ← writeFixedBitset e.signers
  let validMembers ← writeFixedBitset e.validMembers
  pure (e.layout (UInt8.ofNat e.llmqType.toU8) signers validMembers)

/-- The quorum index, if the version has it. -/
def decodeIndex (version : Nat) : Dec (Option Int) :=
  if Indexed version then (fun index => some index.toInt) <$> i16 else pure none

def consensusDecode : Dec QuorumEntry := do
  let version ← Dec.uintLE 2
  let llmqType ← LLMQType.ofU8 <$> Dec.u8
  let quorumHash ← hash256
  let quorumIndex ← decodeIndex version
  let signersCount ← readCompactSize
  let signers ← readFixedBitset signersCount
  let validMembersCount ← readCompactSize
  let validMembers ← readFixedBitset validMembersCount
  let quorumPublicKey ← Dec.bytes 48
  let quorumVvecHash ← hash256
  let thresholdSig ← Dec.bytes 96
  let allCommitmentAggregatedSignature ← Dec.bytes 96
  pure { version, llmqType, quorumHash, quorumIndex, signers, validMembers, quorumPublicKey,
         quorumVvecHash, thresholdSig, allCommitmentAggregatedSignature }

variable {used : List UInt8}

/-- The bytes of the quorum index. -/
theorem decodes_decodeIndex {version : Nat} {index : Option Int} :
    (decodeIndex version).Decodes used index ↔
      (if Indexed version then ∃ i : Int16, index = some i.toInt else index = none) ∧
        used = (match index with
          | some index => if Indexed version then leBytes 2 (Int16.ofInt index).toUInt16.toNat else []
          | none => []) := by
  unfold decodeIndex
  split_ifs with h
  · simp only [decodes_map, Dec.decodes_i16]
    constructor
    · rintro ⟨i, rfl, rfl⟩
      exact ⟨⟨i, rfl⟩, by simp⟩
    · rintro ⟨⟨i, rfl⟩, rfl⟩
      exact ⟨i, by simp, rfl⟩
  · rw [decodes_pure]
    constructor
    · rintro ⟨rfl, rfl⟩
      exact ⟨rfl, rfl⟩
    · rintro ⟨rfl, rfl⟩
      exact ⟨rfl, rfl⟩

/-- What the decoder guarantees of an entry whatever its type byte and bit sets were. -/
structure Decoded (e : QuorumEntry) : Prop where
  version_lt : e.version < 256 ^ 2
  index : if Indexed e.version then ∃ i : Int16, e.quorumIndex = some i.toInt
    else e.quorumIndex = none

variable {e : QuorumEntry}

/-- The byte strings that are read as an entry: its layout around any type byte and any two
bit sets that read as its own. -/
theorem decodes_iff :
    consensusDecode.Decodes used e ↔
      e.Decoded ∧ ∃ llmqType signers validMembers,
        LLMQType.ofU8 llmqType = e.llmqType ∧
        (readFixedBitset e.signers.length).Decodes signers e.signers ∧
        (readFixedBitset e.validMembers.length).Decodes validMembers e.validMembers ∧
        used = e.layout llmqType signers validMembers := by
  simp only [consensusDecode, decodes_bind, decodes_map, decodes_pure, Dec.decodes_uintLE,
    Dec.decodes_u8, Dec.decodes_hash256, Dec.decodes_bytes, decodes_readCompactSize,
    decodes_decodeIndex, existsAndEq, true_and, and_true, List.append_nil]
  constructor
  · rintro ⟨version, quorumHash, quorumIndex, n, signers, usedSigners, m, validMembers, usedMembers,
      quorumPublicKey, quorumVvecHash, thresholdSig, sig, llmqType, rfl, hver, hindex, -,
      hsigners, -, hmembers, rfl⟩
    obtain ⟨rfl, -⟩ := Dec.Decodes.writeFixedBitset_iff hsigners
    obtain ⟨rfl, -⟩ := Dec.Decodes.writeFixedBitset_iff hmembers
    refine ⟨⟨hver, hindex⟩, llmqType, usedSigners, usedMembers, rfl, hsigners, hmembers, ?_⟩
    simp [layout]
  · rintro ⟨he, llmqType, signers, validMembers, htype, hsigners, hmembers, rfl⟩
    have hcount : ∀ {size : Nat} {used bits}, (readFixedBitset size).Decodes used bits →
        size < 2 ^ 32 := by
      intro size used bits h
      have hmax : MAX_BITSET_SIZE < 2 ^ 32 := by decide
      have hsize := (decodes_readFixedBitset.mp h).1
      omega
    refine ⟨e.version, e.quorumHash, e.quorumIndex, _, e.signers, signers, _, e.validMembers,
      validMembers, e.quorumPublicKey, e.quorumVvecHash, e.thresholdSig,
      e.allCommitmentAggregatedSignature, llmqType, ?_, he.version_lt, he.index, hcount hsigners,
      hsigners, hcount hmembers, hmembers, ?_⟩
    · simp [layout]
    · rw [htype]

instance (version : Nat) : Bounded (decodeIndex version) 2 :=
  inferInstanceAs (Bounded (if Indexed version then _ <$> i16 else pure none) (max 2 0))

/-- An entry that was read has an encoding. -/
theorem consensusEncode_of_decodes (h : consensusDecode.Decodes used e) :
    e.consensusEncode = some
      (e.layout (UInt8.ofNat e.llmqType.toU8) (packBits e.signers) (packBits e.validMembers)) := by
  obtain ⟨-, _, _, _, -, hsigners, hmembers, -⟩ := decodes_iff.mp h
  obtain ⟨-, hsigners, -⟩ := Dec.Decodes.writeFixedBitset_iff hsigners
  obtain ⟨-, hmembers, -⟩ := Dec.Decodes.writeFixedBitset_iff hmembers
  simp [consensusEncode, hsigners, hmembers]

theorem length_layout (e : QuorumEntry) (t t' : UInt8) {s s' v v' : List UInt8}
    (hs : s.length = s'.length) (hv : v.length = v'.length) :
    (e.layout t s v).length = (e.layout t' s' v').length := by
  simp only [layout, List.length_append, length_leBytes, hs, hv]

/-- An entry that was read from some bytes is read from its own encoding, which is as long. -/
theorem decodes_consensusEncode {e : QuorumEntry}
    (h : consensusDecode.Decodes used e) :
    ∃ bytes, e.consensusEncode = some bytes ∧ consensusDecode.Decodes bytes e ∧
      bytes.length = used.length := by
  refine ⟨_, consensusEncode_of_decodes h, ?_⟩
  obtain ⟨he, t, s, v, htype, hsigners, hmembers, rfl⟩ := decodes_iff.mp h
  have hback : ∀ {used bits}, (readFixedBitset bits.length).Decodes used bits →
      (readFixedBitset bits.length).Decodes (packBits bits) bits := by
    intro used bits hbits
    obtain ⟨hsize, -, -⟩ := decodes_readFixedBitset.mp hbits
    exact decodes_readFixedBitset.mpr
      ⟨hsize, length_packBits bits, (unpackBits_packBits bits).symm⟩
  refine ⟨decodes_iff.mpr ⟨he, _, _, _, ?_, hback hsigners, hback hmembers, rfl⟩, ?_⟩
  · rw [← htype, LLMQType.ofU8_toU8_ofU8]
  · exact length_layout e _ _ (Dec.Decodes.writeFixedBitset_iff hsigners).2.2.2
      (Dec.Decodes.writeFixedBitset_iff hmembers).2.2.2

/-- The bytes of an entry whose type byte is known and whose bit sets are padded with zeros.
The type byte is the third; the first bit set follows the quorum hash and the index. -/
def Canonical (bytes : List UInt8) : Prop :=
  (∀ t ∈ bytes[2]?, (LLMQType.ofU8 t).toU8 = t.toNat) ∧
    match readCompactSize.run
      (bytes.drop (if Indexed (fromLeBytes (bytes.take 2)) then 37 else 35)) with
    | .error _ => False
    | .ok (n, rest) =>
      ZeroPadded n (rest.take ((n + 7) / 8)) ∧
        match readCompactSize.run (rest.drop ((n + 7) / 8)) with
        | .error _ => False
        | .ok (m, rest) => ZeroPadded m (rest.take ((m + 7) / 8))

/-- The layout around the parts that are not read exactly. -/
theorem layout_eq (he : e.Decoded) :
    ∃ head hash tail, head.length = 2 ∧ fromLeBytes head = e.version ∧
      (∀ t : UInt8, (head ++ [t] ++ hash).length = if Indexed e.version then 37 else 35) ∧
      ∀ t s v, e.layout t s v = (head ++ [t] ++ hash) ++ (writeCompactSize e.signers.length ++
        (s ++ (writeCompactSize e.validMembers.length ++ (v ++ tail)))) := by
  refine ⟨leBytes 2 e.version, toByteArray e.quorumHash ++ (match e.quorumIndex with
      | some index => if Indexed e.version then leBytes 2 (Int16.ofInt index).toUInt16.toNat else []
      | none => []),
    e.quorumPublicKey.toList ++ toByteArray e.quorumVvecHash ++ e.thresholdSig.toList
      ++ e.allCommitmentAggregatedSignature.toList, length_leBytes _ _,
    fromLeBytes_leBytes he.version_lt, ?_, ?_⟩
  · intro t
    have hindex := he.index
    split_ifs at hindex with hver
    · obtain ⟨i, hi⟩ := hindex
      simp [hi, hver]
    · simp [hindex, hver]
  · intro t s v
    simp [layout, Dec.leBytes_one]

/-- Only known types and zero padding are written back as they were read. -/
theorem consensusEncode_iff_canonical (h : consensusDecode.Decodes used e) :
    e.consensusEncode = some used ↔ Canonical used := by
  rw [consensusEncode_of_decodes h, Option.some_inj]
  obtain ⟨he, t, s, v, htype, hsigners, hmembers, rfl⟩ := decodes_iff.mp h
  obtain ⟨-, -, hpack, hlen⟩ := Dec.Decodes.writeFixedBitset_iff hsigners
  obtain ⟨-, -, hpack', hlen'⟩ := Dec.Decodes.writeFixedBitset_iff hmembers
  obtain ⟨hn, hs, -⟩ := decodes_readFixedBitset.mp hsigners
  obtain ⟨hm, hv, -⟩ := decodes_readFixedBitset.mp hmembers
  obtain ⟨head, hash, tail, hhead, hver, hstart, hlayout⟩ := layout_eq he
  have hmax : MAX_BITSET_SIZE < 2 ^ 32 := by decide
  have hcount : ∀ {n : Nat} (rest), n ≤ MAX_BITSET_SIZE →
      readCompactSize.run (writeCompactSize n ++ rest) = .ok (n, rest) :=
    fun rest hn => decodes_readCompactSize.mpr ⟨by omega, rfl⟩ rest
  -- the positions that are checked are those of the type byte and of the two bit sets
  have hcanonical : Canonical (e.layout t s v) ↔
      (LLMQType.ofU8 t).toU8 = t.toNat ∧ ZeroPadded e.signers.length s ∧
        ZeroPadded e.validMembers.length v := by
    rw [Canonical, hlayout]
    have hbyte : (head ++ [t] ++ hash ++ (writeCompactSize e.signers.length ++
        (s ++ (writeCompactSize e.validMembers.length ++ (v ++ tail)))))[2]? = some t := by
      simp [hhead]
    have htake : (head ++ [t] ++ hash ++ (writeCompactSize e.signers.length ++
        (s ++ (writeCompactSize e.validMembers.length ++ (v ++ tail))))).take 2 = head := by
      simp only [List.append_assoc]
      exact List.take_left' hhead
    rw [hbyte, htake, hver, ← hstart t, List.drop_left, hcount _ hn]
    dsimp only
    rw [← hs, List.take_left, List.drop_left, hcount _ hm]
    dsimp only
    rw [← hv, List.take_left]
    simp
  rw [hcanonical, hlayout, hlayout, ← hpack, ← hpack']
  constructor
  · intro heq
    obtain ⟨hfront, hrest⟩ := List.append_inj heq (by simp)
    obtain ⟨hs', hrest⟩ := List.append_inj (List.append_cancel_left hrest) hlen
    obtain ⟨hv', -⟩ := List.append_inj (List.append_cancel_left hrest) hlen'
    have ht : UInt8.ofNat e.llmqType.toU8 = t := by
      simpa using hfront
    refine ⟨?_, hs', hv'⟩
    rw [htype, ← ht, UInt8.toNat_ofNat_of_lt' e.llmqType.toU8_lt]
  · rintro ⟨ht, hs', hv'⟩
    rw [htype] at ht
    rw [hs', hv', ht, UInt8.ofNat_toNat]

end QuorumEntry

end Dashcore
