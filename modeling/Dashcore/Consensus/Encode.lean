import Dashcore.Primitives
import Dashcore.Lib.BitPacking
import Dashcore.Lib.Decoder

/-!
# Consensus encoding of the primitive types

Integers are little-endian, counts are variable-length integers in their shortest form,
and a vector is its count and its elements. Each decoder is described by one equivalence:
the bytes it reads as a value are those the encoder writes for it.
-/

namespace Dashcore

/-- Errors of a reader. -/
inductive IoError
  | unexpectedEof
  | invalidData (message : String)
  | invalidInput (message : String)
  | other (message : String)
  deriving DecidableEq

/-- Why a byte string does not decode. -/
inductive EncodeError
  | io (error : IoError)
  | oversizedVectorAllocation (requested max : Nat)
  | nonMinimalVarInt
  | parseFailed (message : String)
  | unsupportedSegwitFlag (flag : UInt8)
  | unknownSpecialTransactionType (value : UInt16)
  | invalidVectorSize (expected actual : Nat)
  | invalidEnumValue (max received : UInt16) (message : String)
  deriving DecidableEq

/-- Decoders of the consensus encoding. -/
abbrev Dec := Decoder EncodeError

/-! ### Little-endian and big-endian numbers -/

theorem leBytes_succ (width n : Nat) :
    leBytes (width + 1) n = UInt8.ofNat n :: leBytes width (n / 256) := by
  rw [leBytes, leBytes, List.range_succ_eq_map, List.map_cons, List.map_map]
  refine congrArg₂ List.cons (by rw [Nat.pow_zero, Nat.div_one]) (List.map_congr_left ?_)
  intro i _
  show UInt8.ofNat (n / 256 ^ (i + 1)) = UInt8.ofNat (n / 256 / 256 ^ i)
  rw [Nat.pow_succ', Nat.div_div_eq_div_mul]

@[simp] theorem length_leBytes (width n : Nat) : (leBytes width n).length = width := by
  simp [leBytes]

theorem fromLeBytes_lt (bytes : List UInt8) : fromLeBytes bytes < 256 ^ bytes.length := by
  induction bytes with
  | nil => simp [fromLeBytes]
  | cons b bs ih =>
    have hb := b.toNat_lt
    rw [fromLeBytes, List.length_cons, Nat.pow_succ]
    omega

theorem leBytes_fromLeBytes (bytes : List UInt8) :
    leBytes bytes.length (fromLeBytes bytes) = bytes := by
  induction bytes with
  | nil => rfl
  | cons b bs ih =>
    have hb := b.toNat_lt
    have hdiv : fromLeBytes (b :: bs) / 256 = fromLeBytes bs := by
      rw [fromLeBytes]
      omega
    have hmod : UInt8.ofNat (fromLeBytes (b :: bs)) = b := by
      apply UInt8.toNat_inj.mp
      rw [fromLeBytes, UInt8.toNat_ofNat']
      omega
    rw [List.length_cons, leBytes_succ, hdiv, ih, hmod]

theorem fromLeBytes_leBytes {width n : Nat} (h : n < 256 ^ width) :
    fromLeBytes (leBytes width n) = n := by
  induction width generalizing n with
  | zero =>
    have hzero : n = 0 := by simpa using h
    rw [hzero]
    rfl
  | succ width ih =>
    rw [leBytes_succ, fromLeBytes, ih (by omega), UInt8.toNat_ofNat']
    omega

/-- Big-endian bytes are little-endian bytes read backwards. -/
theorem beBytes_eq_reverse (width n : Nat) : beBytes width n = (leBytes width n).reverse := by
  apply List.ext_getElem
  · simp [beBytes]
  · intro i h₁ h₂
    simp [beBytes, leBytes, List.getElem_reverse]

@[simp] theorem length_toByteArray (h : Hash256) : (toByteArray h).length = 32 := by
  simp [toByteArray, beBytes]

variable {used : List UInt8} {n : Nat} {α : Type} {d : Dec α} {e : EncodeError}
  {enc : α → List UInt8} {v : α} {vs : List α} {width : Nat}

namespace Dec

open Decoder

/-! ### Fields of a fixed size -/

/-- Read `n` bytes. -/
def bytes (n : Nat) : Dec (Vector UInt8 n) := Decoder.bytes (.io .unexpectedEof) n

@[simp] theorem decodes_bytes {v : Vector UInt8 n} :
    (bytes n).Decodes used v ↔ used = v.toList := Decoder.decodes_bytes

/-- Read a little-endian number of `width` bytes. -/
def uintLE (width : Nat) : Dec Nat := (fun v => fromLeBytes v.toList) <$> bytes width

theorem decodes_uintLE :
    (uintLE width).Decodes used n ↔ n < 256 ^ width ∧ used = leBytes width n := by
  rw [uintLE, decodes_map]
  constructor
  · rintro ⟨v, hused, rfl⟩
    rw [decodes_bytes] at hused
    have hlen : v.toList.length = width := Vector.length_toList
    have hlt := fromLeBytes_lt v.toList
    have hbytes := leBytes_fromLeBytes v.toList
    rw [hlen] at hlt hbytes
    exact ⟨hlt, hused.trans hbytes.symm⟩
  · rintro ⟨hlt, rfl⟩
    refine ⟨⟨(leBytes width n).toArray, by simp⟩, ?_, ?_⟩
    · simp
    · simpa using (fromLeBytes_leBytes hlt).symm

/-- A number of `width` bytes under a type of that width. -/
theorem decodes_map_uintLE {ofNat : Nat → α} {toNat : α → Nat}
    (hlt : ∀ v, toNat v < 256 ^ width) (hof : ∀ v, ofNat (toNat v) = v)
    (hto : ∀ n < 256 ^ width, toNat (ofNat n) = n) :
    (ofNat <$> uintLE width).Decodes used v ↔ used = leBytes width (toNat v) := by
  rw [decodes_map]
  constructor
  · rintro ⟨n, hn, rfl⟩
    obtain ⟨hlt, rfl⟩ := decodes_uintLE.mp hn
    rw [hto n hlt]
  · rintro rfl
    exact ⟨toNat v, decodes_uintLE.mpr ⟨hlt v, rfl⟩, (hof v).symm⟩

def u8 : Dec UInt8 := UInt8.ofNat <$> uintLE 1

def u16 : Dec UInt16 := UInt16.ofNat <$> uintLE 2

def u32 : Dec UInt32 := UInt32.ofNat <$> uintLE 4

def u64 : Dec UInt64 := UInt64.ofNat <$> uintLE 8

def u128 : Dec (BitVec 128) := BitVec.ofNat 128 <$> uintLE 16

def i16 : Dec Int16 := UInt16.toInt16 <$> u16

def i32 : Dec Int32 := UInt32.toInt32 <$> u32

/-- A hash, its bytes in the order of its big-endian number. -/
def hash256 : Dec Hash256 :=
  (fun v : Vector UInt8 32 => Fin.ofNat (2 ^ 256) (fromLeBytes v.toList.reverse)) <$> bytes 32

/-- Any byte but zero is read as true. -/
def bool : Dec Bool := (fun b => b != 0) <$> u8

@[simp] theorem decodes_u8 {v : UInt8} : u8.Decodes used v ↔ used = leBytes 1 v.toNat :=
  decodes_map_uintLE (fun v => v.toNat_lt) (fun _ => UInt8.ofNat_toNat)
    fun _ hn => UInt8.toNat_ofNat_of_lt' hn

@[simp] theorem decodes_u16 {v : UInt16} : u16.Decodes used v ↔ used = leBytes 2 v.toNat :=
  decodes_map_uintLE (fun v => v.toNat_lt) (fun _ => UInt16.ofNat_toNat)
    fun _ hn => UInt16.toNat_ofNat_of_lt' hn

@[simp] theorem decodes_u32 {v : UInt32} : u32.Decodes used v ↔ used = leBytes 4 v.toNat :=
  decodes_map_uintLE (fun v => v.toNat_lt) (fun _ => UInt32.ofNat_toNat)
    fun _ hn => UInt32.toNat_ofNat_of_lt' hn

@[simp] theorem decodes_u64 {v : UInt64} : u64.Decodes used v ↔ used = leBytes 8 v.toNat :=
  decodes_map_uintLE (fun v => v.toNat_lt) (fun _ => UInt64.ofNat_toNat)
    fun _ hn => UInt64.toNat_ofNat_of_lt' hn

@[simp] theorem decodes_u128 {v : BitVec 128} : u128.Decodes used v ↔ used = leBytes 16 v.toNat :=
  decodes_map_uintLE (fun v => v.isLt) (fun _ => by simp)
    fun _ hn => BitVec.toNat_ofNat _ _ |>.trans (Nat.mod_eq_of_lt hn)

@[simp] theorem decodes_i16 {v : Int16} : i16.Decodes used v ↔ used = leBytes 2 v.toUInt16.toNat := by
  rw [i16, decodes_map]
  constructor
  · rintro ⟨w, hw, rfl⟩
    exact decodes_u16.mp hw
  · intro h
    exact ⟨v.toUInt16, decodes_u16.mpr h, rfl⟩

@[simp] theorem decodes_i32 {v : Int32} : i32.Decodes used v ↔ used = leBytes 4 v.toUInt32.toNat := by
  rw [i32, decodes_map]
  constructor
  · rintro ⟨w, hw, rfl⟩
    exact decodes_u32.mp hw
  · intro h
    exact ⟨v.toUInt32, decodes_u32.mpr h, rfl⟩

@[simp] theorem decodes_hash256 {h : Hash256} : hash256.Decodes used h ↔ used = toByteArray h := by
  rw [hash256, decodes_map]
  constructor
  · rintro ⟨v, hused, rfl⟩
    rw [decodes_bytes] at hused
    have hlen : v.toList.reverse.length = 32 := by simp
    have hlt := fromLeBytes_lt v.toList.reverse
    have hbytes := leBytes_fromLeBytes v.toList.reverse
    rw [hlen] at hlt hbytes
    have hmod : fromLeBytes v.toList.reverse % 2 ^ 256 = fromLeBytes v.toList.reverse :=
      Nat.mod_eq_of_lt hlt
    rw [toByteArray, beBytes_eq_reverse, Fin.val_ofNat, hmod, hbytes, List.reverse_reverse, hused]
  · rintro rfl
    have hlt : (h : Nat) < 256 ^ 32 := h.isLt
    refine ⟨⟨(toByteArray h).toArray, by simp⟩, by rw [decodes_bytes]; simp, ?_⟩
    apply Fin.ext
    have hback : fromLeBytes (toByteArray h).reverse = h := by
      rw [toByteArray, beBytes_eq_reverse, List.reverse_reverse, fromLeBytes_leBytes hlt]
    simp [hback]

/-! ### Counts and vectors -/

/-- Fail unless a condition holds. -/
def ensure (c : Prop) [Decidable c] (e : EncodeError) : Dec Unit :=
  if c then pure () else Decoder.fail e

@[simp] theorem decodes_ensure {c : Prop} [Decidable c] {v : Unit} :
    (ensure c e).Decodes used v ↔ c ∧ used = [] := by
  unfold ensure
  split <;> simp_all

/-- A number of `width` bytes that would not fit a shorter form. -/
def minimal (e : EncodeError) (width least : Nat) : Dec Nat := do
  let x ← uintLE width
  ensure (least ≤ x) e
  pure x

/-- A number behind a marker byte; `wide` reads what follows the marker of the longest form. -/
def marked (e : EncodeError) (wide : Dec Nat) : Dec Nat := do
  let n ← u8
  if n = 0xFF then wide
  else if n = 0xFE then minimal e 4 0x10000
  else if n = 0xFD then minimal e 2 0xFD
  else pure n.toNat

/-- A variable-length integer in its shortest form. -/
def varInt : Dec Nat := marked .nonMinimalVarInt (minimal .nonMinimalVarInt 8 0x100000000)

/-- A variable-length integer of 32 bits in its shortest form. -/
def readCompactSize : Dec Nat :=
  marked (.io (.invalidData "Non-minimal compact size encoding"))
    (Decoder.fail (.io (.invalidData "CompactSize value exceeds u32::MAX")))

theorem decodes_minimal {width least : Nat} :
    (minimal e width least).Decodes used n ↔
      least ≤ n ∧ n < 256 ^ width ∧ used = leBytes width n := by
  simp only [minimal, decodes_bind, decodes_uintLE, decodes_ensure, decodes_pure]
  constructor
  · rintro ⟨n, _, _, rfl, ⟨hlt, rfl⟩, -, _, _, rfl, ⟨hle, rfl⟩, rfl, rfl⟩
    exact ⟨hle, hlt, by simp⟩
  · rintro ⟨hle, hlt, rfl⟩
    exact ⟨n, _, [], by simp, ⟨hlt, rfl⟩, (), [], [], rfl, ⟨hle, rfl⟩, rfl, rfl⟩

theorem leBytes_one (n : Nat) : leBytes 1 n = [UInt8.ofNat n] := by
  rw [leBytes_succ]
  rfl

/-- The marker byte decides the range of the number, and with it the form that is written. -/
theorem decodes_marked {wide : Dec Nat} :
    (marked e wide).Decodes used n ↔
      (n < 2 ^ 32 ∧ used = Dashcore.varInt n) ∨ ∃ rest, used = 0xFF :: rest ∧
        wide.Decodes rest n := by
  simp only [marked, decodes_bind, decodes_u8, leBytes_one, UInt8.ofNat_toNat, decodes_ite,
    decodes_minimal, decodes_pure]
  constructor
  · rintro ⟨b, _, used₂, rfl, rfl, h⟩
    have hb := b.toNat_lt
    split_ifs at h with hff hfe hfd
    · exact .inr ⟨used₂, by rw [hff]; rfl, h⟩
    · obtain ⟨hle, hlt, rfl⟩ := h
      refine .inl ⟨by omega, ?_⟩
      rw [hfe, Dashcore.varInt, if_neg (by omega), if_neg (by omega), if_pos (by omega)]
      rfl
    · obtain ⟨hle, hlt, rfl⟩ := h
      refine .inl ⟨by omega, ?_⟩
      rw [hfd, Dashcore.varInt, if_neg (by omega), if_pos (by omega)]
      rfl
    · obtain ⟨rfl, rfl⟩ := h
      have hsmall : b.toNat ≤ 0xFC := by
        rw [← UInt8.toNat_inj] at hff hfe hfd
        simp only [UInt8.reduceToNat] at hff hfe hfd
        omega
      refine .inl ⟨by omega, ?_⟩
      rw [Dashcore.varInt, if_pos hsmall, leBytes_one, UInt8.ofNat_toNat]
      rfl
  · rintro (⟨hlt, rfl⟩ | ⟨rest, rfl, hwide⟩)
    · unfold Dashcore.varInt
      split_ifs with h1 h2 h3
      · refine ⟨UInt8.ofNat n, [UInt8.ofNat n], [], leBytes_one n, rfl, ?_⟩
        have hn : (UInt8.ofNat n).toNat = n :=
          UInt8.toNat_ofNat_of_lt' (Nat.lt_of_le_of_lt h1 (by decide))
        have hne : ∀ m : UInt8, 0xFC < m.toNat → UInt8.ofNat n ≠ m := by
          rintro m hm rfl
          omega
        rw [if_neg (hne 0xFF (by decide)), if_neg (hne 0xFE (by decide)),
          if_neg (hne 0xFD (by decide))]
        exact ⟨rfl, hn.symm⟩
      · refine ⟨0xFD, [0xFD], leBytes 2 n, rfl, rfl, ?_⟩
        rw [if_neg (by decide), if_neg (by decide), if_pos rfl]
        exact ⟨by omega, by omega, rfl⟩
      · refine ⟨0xFE, [0xFE], leBytes 4 n, rfl, rfl, ?_⟩
        rw [if_neg (by decide), if_pos rfl]
        exact ⟨by omega, by omega, rfl⟩
      · omega
    · exact ⟨0xFF, [0xFF], rest, rfl, rfl, by rwa [if_pos rfl]⟩

/-- Every variable-length integer has one encoding. -/
@[simp] theorem decodes_varInt :
    varInt.Decodes used n ↔ n < 2 ^ 64 ∧ used = Dashcore.varInt n := by
  rw [varInt, decodes_marked]
  constructor
  · rintro (⟨hlt, rfl⟩ | ⟨rest, rfl, hwide⟩)
    · exact ⟨by omega, rfl⟩
    · obtain ⟨hle, hlt, rfl⟩ := decodes_minimal.mp hwide
      refine ⟨hlt, ?_⟩
      rw [Dashcore.varInt, if_neg (by omega), if_neg (by omega), if_neg (by omega)]
  · rintro ⟨hlt, rfl⟩
    by_cases h32 : n < 2 ^ 32
    · exact .inl ⟨h32, rfl⟩
    · refine .inr ⟨leBytes 8 n, ?_, decodes_minimal.mpr ⟨by omega, hlt, rfl⟩⟩
      rw [Dashcore.varInt, if_neg (by omega), if_neg (by omega), if_neg (by omega)]

/-- A count and that many elements. -/
def vec {α : Type} (d : Dec α) : Dec (List α) := do
  let n ← varInt
  d.replicate n

/-- A count and that many bytes. -/
def byteVec : Dec (List UInt8) := do
  let n ← varInt
  (fun v : Vector UInt8 n => v.toList) <$> bytes n

theorem decodes_vec :
    (vec d).Decodes used vs ↔ vs.length < 2 ^ 64 ∧
      ∃ parts, used = Dashcore.varInt vs.length ++ parts.flatten ∧
        List.Forall₂ d.Decodes parts vs := by
  simp only [vec, decodes_bind, decodes_varInt, decodes_replicate]
  constructor
  · rintro ⟨_, _, _, rfl, ⟨hlt, rfl⟩, rfl, parts, rfl, hparts⟩
    exact ⟨hlt, parts, rfl, hparts⟩
  · rintro ⟨hlt, parts, rfl, hparts⟩
    exact ⟨vs.length, _, _, rfl, ⟨hlt, rfl⟩, rfl, parts, rfl, hparts⟩

/-- A vector of elements that are read only as the encoder writes them is so itself. -/
theorem eq_of_decodes_vec (hexact : ∀ used v, d.Decodes used v → used = enc v)
    (h : (vec d).Decodes used vs) : used = Dashcore.varInt vs.length ++ vs.flatMap enc := by
  obtain ⟨-, parts, rfl, hparts⟩ := decodes_vec.mp h
  have hmap : parts = vs.map enc := by
    clear h
    induction hparts with
    | nil => rfl
    | cons hv _ ih => rw [List.map_cons, ← ih, hexact _ _ hv]
  rw [hmap]
  rfl

@[simp] theorem decodes_byteVec {v : List UInt8} :
    byteVec.Decodes used v ↔ v.length < 2 ^ 64 ∧ used = Dashcore.varInt v.length ++ v := by
  simp only [byteVec, decodes_bind, decodes_varInt, decodes_map, decodes_bytes]
  constructor
  · rintro ⟨n, _, _, rfl, ⟨hlt, rfl⟩, w, rfl, rfl⟩
    rw [Vector.length_toList]
    exact ⟨hlt, rfl⟩
  · rintro ⟨hlt, rfl⟩
    exact ⟨v.length, _, v, rfl, ⟨hlt, rfl⟩, ⟨v.toArray, by simp⟩, by simp, by simp⟩

end Dec

/-! ### Optional fields -/

/-- Encode a field if it is there. -/
def encodeOption {α : Type} (enc : α → List UInt8) (field : Option α) : List UInt8 :=
  (field.map enc).getD []

/-- Decode a field if it is announced. -/
def Dec.option {α : Type} (present : Bool) (d : Dec α) : Dec (Option α) :=
  if present then some <$> d else pure none

theorem Dec.decodes_option_of_exact
    (hexact : ∀ used v, d.Decodes used v ↔ used = enc v) {present : Bool} {field : Option α} :
    (Dec.option present d).Decodes used field ↔
      field.isSome = present ∧ used = encodeOption enc field := by
  cases present <;> cases field <;> simp [Dec.option, encodeOption, hexact]

/-! ### Compact sizes -/

/-- Consensus encoding of a 32-bit variable-length integer. -/
def writeCompactSize (n : Nat) : List UInt8 :=
  if n < 253 then leBytes 1 n
  else if n ≤ 0xFFFF then 0xFD :: leBytes 2 n
  else 0xFE :: leBytes 4 n

theorem writeCompactSize_eq_varInt (h : n < 2 ^ 32) :
    writeCompactSize n = varInt n := by
  unfold writeCompactSize varInt
  split_ifs <;> first | rfl | omega

@[simp] theorem Dec.decodes_readCompactSize :
    Dec.readCompactSize.Decodes used n ↔ n < 2 ^ 32 ∧ used = writeCompactSize n := by
  rw [Dec.readCompactSize, Dec.decodes_marked]
  constructor
  · rintro (⟨hlt, rfl⟩ | ⟨rest, rfl, hwide⟩)
    · exact ⟨hlt, (writeCompactSize_eq_varInt hlt).symm⟩
    · exact absurd hwide Decoder.decodes_fail
  · rintro ⟨hlt, rfl⟩
    exact .inl ⟨hlt, writeCompactSize_eq_varInt hlt⟩

/-! ### Bit sets -/

/-- Largest number of bits in a bit set. -/
def MAX_BITSET_SIZE : Nat := 1000000

/-- A bit set of a known size. The padding of the last byte is not looked at. -/
def Dec.readFixedBitset (size : Nat) : Dec (List Bool) := do
  Dec.ensure (size ≤ MAX_BITSET_SIZE)
    (.io (.invalidInput "Bitset size exceeds maximum allowed value"))
  (fun v : Vector UInt8 ((size + 7) / 8) => unpackBits size v.toList) <$> Dec.bytes _

/-- The bytes of a bit set; there are none for one that is too large. -/
def writeFixedBitset (bits : List Bool) : Option (List UInt8) :=
  if bits.length ≤ MAX_BITSET_SIZE then some (packBits bits) else none

/-- The bits that fill up the last byte of a bit set are zero. -/
def ZeroPadded (size : Nat) (bytes : List UInt8) : Prop :=
  ∀ p < 8 * bytes.length, size ≤ p → bitAt bytes p = false

instance (size : Nat) (bytes : List UInt8) : Decidable (ZeroPadded size bytes) :=
  inferInstanceAs (Decidable (∀ p < 8 * bytes.length, size ≤ p → bitAt bytes p = false))

variable {bits : List Bool} {size : Nat}

theorem Dec.decodes_readFixedBitset :
    (Dec.readFixedBitset size).Decodes used bits ↔
      size ≤ MAX_BITSET_SIZE ∧ used.length = (size + 7) / 8 ∧ bits = unpackBits size used := by
  simp only [Dec.readFixedBitset, Decoder.decodes_bind, Dec.decodes_ensure, Decoder.decodes_map,
    Dec.decodes_bytes]
  constructor
  · rintro ⟨-, _, _, rfl, ⟨hsize, rfl⟩, v, rfl, rfl⟩
    exact ⟨hsize, by simp, rfl⟩
  · rintro ⟨hsize, hlen, rfl⟩
    exact ⟨(), [], used, rfl, ⟨hsize, rfl⟩, ⟨used.toArray, by simpa using hlen⟩, by simp, by simp⟩

/-- What a bit set reads as has the size asked for and is written back unless padding bits
are set. -/
theorem Dec.Decodes.writeFixedBitset_iff (h : (Dec.readFixedBitset size).Decodes used bits) :
    bits.length = size ∧ writeFixedBitset bits = some (packBits bits) ∧
      (packBits bits = used ↔ ZeroPadded size used) ∧ (packBits bits).length = used.length := by
  obtain ⟨hsize, hlen, rfl⟩ := Dec.decodes_readFixedBitset.mp h
  refine ⟨by simp, ?_, ?_, by simp [hlen]⟩
  · rw [writeFixedBitset, if_pos (by simpa using hsize)]
  · rw [packBits_unpackBits_iff hlen]
    exact ⟨fun hz p hp hsize => hz p hsize hp, fun hz p hsize hp => hz p hp hsize⟩

/-! ### Limits and whole byte strings -/

/-- Maximum size, in bytes, of a vector we are allowed to decode. -/
def MAX_VEC_SIZE : Nat := 4000000

/-- `consensus_decode` of a type that overrides the decoder for finite readers: the same
decoder on at most `MAX_VEC_SIZE` bytes of the input. -/
def Dec.take {α : Type} (d : Dec α) : Dec α := d.limit MAX_VEC_SIZE

@[simp] theorem Dec.decodes_take :
    d.take.Decodes used v ↔ d.Decodes used v ∧ used.length ≤ MAX_VEC_SIZE :=
  Decoder.decodes_limit

/-! ### Sizes -/

namespace Dec

open Decoder

instance (n : Nat) : Bounded (bytes n) n := inferInstanceAs (Bounded (Decoder.bytes _ n) n)

instance (width : Nat) : Bounded (uintLE width) width := inferInstanceAs (Bounded (_ <$> _) _)

instance : Bounded u8 1 := inferInstanceAs (Bounded (_ <$> uintLE 1) 1)

instance : Bounded u16 2 := inferInstanceAs (Bounded (_ <$> uintLE 2) 2)

instance : Bounded u32 4 := inferInstanceAs (Bounded (_ <$> uintLE 4) 4)

instance : Bounded u64 8 := inferInstanceAs (Bounded (_ <$> uintLE 8) 8)

instance : Bounded u128 16 := inferInstanceAs (Bounded (_ <$> uintLE 16) 16)

instance : Bounded i16 2 := inferInstanceAs (Bounded (_ <$> u16) 2)

instance : Bounded hash256 32 := inferInstanceAs (Bounded (_ <$> bytes 32) 32)

instance (c : Prop) [Decidable c] (e : EncodeError) : Bounded (ensure c e) 0 :=
  inferInstanceAs (Bounded (if c then pure () else Decoder.fail e) (max 0 0))

instance {α : Type} {d : Dec α} {n : Nat} [Bounded d n] (present : Bool) :
    Bounded (option present d) (max n 0) :=
  inferInstanceAs (Bounded (if present then some <$> d else pure none) (max n 0))

instance {α : Type} (d : Dec α) : Bounded d.take MAX_VEC_SIZE :=
  inferInstanceAs (Bounded (d.limit MAX_VEC_SIZE) MAX_VEC_SIZE)

instance : Bounded readCompactSize 5 where
  atMost used n h := by
    obtain ⟨-, rfl⟩ := decodes_readCompactSize.mp h
    unfold writeCompactSize
    split_ifs <;> simp

instance (size : Nat) : Bounded (readFixedBitset size) 125000 where
  atMost used bits h := by
    obtain ⟨hsize, hlen, -⟩ := decodes_readFixedBitset.mp h
    have hmax : MAX_BITSET_SIZE = 1000000 := rfl
    omega

end Dec

/-- A value from all of a byte string. -/
def deserialize {α : Type} (d : Dec α) (bytes : List UInt8) : Except EncodeError α :=
  match d.run bytes with
  | .ok (v, []) => .ok v
  | .ok (_, _ :: _) =>
    .error (.parseFailed "data not consumed entirely when explicitly deserializing")
  | .error e => .error e

theorem deserialize_eq_ok {bytes : List UInt8} :
    deserialize d bytes = .ok v ↔ d.Decodes bytes v := by
  rw [Decoder.decodes_iff_run, deserialize]
  constructor
  · intro h
    split at h
    · next hrun =>
      cases h
      exact hrun
    · cases h
    · cases h
  · intro h
    rw [h]

end Dashcore
