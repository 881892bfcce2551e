import Dashcore.Consensus.Payload

/-!
# Bloom filters

A wallet sends its peers a filter of its addresses and outpoints. An element sets some bits of
the filter, and the filter contains what has all its bits set, so it never misses an element.
A filter without bits contains everything but cannot take an element: the index of a bit is
computed modulo the number of bits.

The hash is an arbitrary function of the data and a seed, and the floating-point formulas for the
size of a filter and its number of hashes are arbitrary functions, too.
-/

namespace Dashcore

open List

def MAX_BLOOM_FILTER_SIZE : Nat := 36000

def MAX_HASH_FUNCS : Nat := 50

inductive BloomFlags
  | none
  | all
  | pubkeyOnly
  deriving DecidableEq

inductive BloomError
  | invalidElementCount (elements : UInt32)
  | invalidFalsePositiveRate
  | filterTooLarge (size : Nat)
  | tooManyHashFuncs (count : Nat)
  deriving DecidableEq

/-- The formulas of a filter's size, over a type of false-positive rates. -/
structure BloomSizing (Rate : Type) where
  /-- The rate lies strictly between 0 and 1. -/
  inRange : Rate → Bool
  filterBits : UInt32 → Rate → Nat
  hashFuncs : Nat → UInt32 → Nat

/-- Set the bits at some indexes. -/
def setAll (bits : List Bool) (ps : List Nat) : List Bool :=
  ps.foldl (fun bits p => bits.set p true) bits

theorem length_setAll (bits : List Bool) (ps : List Nat) : (setAll bits ps).length = bits.length := by
  induction ps generalizing bits with
  | nil => rfl
  | cons p ps ih => exact (ih _).trans length_set

theorem getD_setAll {bits : List Bool} {p : Nat} (hp : p < bits.length) (ps : List Nat) :
    (setAll bits ps).getD p false = (bits.getD p false || decide (p ∈ ps)) := by
  induction ps generalizing bits with
  | nil => simp [setAll]
  | cons q ps ih =>
    have hset := @ih (bits.set q true) (by simpa using hp)
    refine hset.trans ?_
    by_cases hq : q = p
    · simp [hq, hp]
    · simp [hq, Ne.symm hq]

/-- The bits of a filter fill whole bytes. -/
structure BloomFilter where
  filter : List Bool
  hashFuncs : UInt32
  tweak : UInt32
  flags : BloomFlags
  aligned : 8 ∣ filter.length
  size_le : filter.length ≤ 8 * MAX_BLOOM_FILTER_SIZE
  hashFuncs_le : hashFuncs.toNat ≤ MAX_HASH_FUNCS

namespace BloomFilter

def new {Rate : Type} (sizing : BloomSizing Rate) (elements : UInt32) (rate : Rate)
    (tweak : UInt32) (flags : BloomFlags) : Except BloomError BloomFilter :=
  if elements = 0 then .error (.invalidElementCount elements)
  else if sizing.inRange rate = false then .error .invalidFalsePositiveRate
  else
    let filterBytes := min (sizing.filterBits elements rate) (MAX_BLOOM_FILTER_SIZE * 8) / 8
    let hashFuncs := max 1 (min (sizing.hashFuncs (filterBytes * 8) elements) MAX_HASH_FUNCS)
    have hfuncs : hashFuncs ≤ MAX_HASH_FUNCS := max_le (by decide) (min_le_right _ _)
    if hsize : MAX_BLOOM_FILTER_SIZE < filterBytes then .error (.filterTooLarge filterBytes)
    else .ok
      { filter := .replicate (filterBytes * 8) false
        hashFuncs := UInt32.ofNat hashFuncs
        tweak, flags
        aligned := by simp
        size_le := by
          rw [length_replicate]
          omega
        hashFuncs_le := (UInt32.toNat_ofNat_of_lt' (hfuncs.trans_lt (by decide))).trans_le hfuncs }

def fromBytes (data : List UInt8) (hashFuncs tweak : UInt32) (flags : BloomFlags) :
    Except BloomError BloomFilter :=
  if hsize : MAX_BLOOM_FILTER_SIZE < data.length then .error (.filterTooLarge data.length)
  else if hfuncs : MAX_HASH_FUNCS < hashFuncs.toNat then
    .error (.tooManyHashFuncs hashFuncs.toNat)
  else .ok
    { filter := unpackBits (8 * data.length) data
      hashFuncs, tweak, flags
      aligned := by simp
      size_le := by
        rw [length_unpackBits]
        omega
      hashFuncs_le := Nat.not_lt.mp hfuncs }

def setBits (f : BloomFilter) (ps : List Nat) : BloomFilter :=
  { f with
    filter := setAll f.filter ps
    aligned := (length_setAll _ _).symm ▸ f.aligned
    size_le := (length_setAll _ _).trans_le f.size_le }

variable (murmur3 : List UInt8 → UInt32 → UInt32) (f : BloomFilter) (data : List UInt8)

/-- The bits of an element. -/
def indexes : List Nat :=
  (range f.hashFuncs.toNat).map fun i =>
    (murmur3 data (UInt32.ofNat i * 0xfba4c795 + f.tweak)).toNat % f.filter.length

/-- Without bits, the first index is a remainder of a division by zero, which panics. -/
def insert : Option BloomFilter :=
  if f.hashFuncs ≠ 0 ∧ f.filter.length = 0 then none else some (f.setBits (f.indexes murmur3 data))

def insertAll (datas : List (List UInt8)) : Option BloomFilter := datas.foldlM (insert murmur3) f

/-- A filter without bits contains everything. -/
def contains : Bool :=
  f.filter.length = 0 || (f.indexes murmur3 data).all fun p => f.filter.getD p false

def toBytes : List UInt8 := packBits f.filter

end BloomFilter

/-! ### The message -/

namespace BloomFlags

def consensusEncode : BloomFlags → List UInt8
  | none => [0]
  | all => [1]
  | pubkeyOnly => [2]

def consensusDecode : Dec BloomFlags := do
  let flag ← Dec.u8
  if flag = 0 then pure none
  else if flag = 1 then pure all
  else if flag = 2 then pure pubkeyOnly
  else Decoder.fail (.parseFailed "unknown bloom flag")

end BloomFlags

structure FilterLoad where
  filter : List UInt8
  hashFuncs : UInt32
  tweak : UInt32
  flags : BloomFlags

namespace FilterLoad

def fromBloomFilter (f : BloomFilter) : FilterLoad where
  filter := f.toBytes
  hashFuncs := f.hashFuncs
  tweak := f.tweak
  flags := f.flags

variable (load : FilterLoad)

def toBloomFilter : Except BloomError BloomFilter :=
  BloomFilter.fromBytes load.filter load.hashFuncs load.tweak load.flags

def consensusEncode : List UInt8 :=
  (varInt load.filter.length ++ load.filter) ++ leBytes 4 load.hashFuncs.toNat ++
    leBytes 4 load.tweak.toNat ++ load.flags.consensusEncode

def consensusDecode : Dec FilterLoad := do
  let filter ← Dec.byteVec
  let hashFuncs ← Dec.u32
  let tweak ← Dec.u32
  let flags ← BloomFlags.consensusDecode
  pure { filter, hashFuncs, tweak, flags }

end FilterLoad

/-- What an address puts into a filter. -/
def addressPayloadBytes : Address → Option (List UInt8)
  | .pubkeyHash hash => some hash.1
  | .scriptHash hash => some hash.1
  | .witnessProgram _ _ => none

/-- The filter of a wallet; `none` is a panic. -/
def buildWalletBloomFilter {Rate : Type} (sizing : BloomSizing Rate)
    (murmur3 : List UInt8 → UInt32 → UInt32) (addresses : List Address)
    (outpoints : List Wire.OutPoint) (rate : Rate) (tweak : UInt32) :
    Option (Except BloomError FilterLoad) :=
  let elements := addresses.length + outpoints.length
  if elements = 0 then some ((BloomFilter.new sizing 1 rate tweak .all).map .fromBloomFilter)
  else
    match BloomFilter.new sizing (UInt32.ofNat elements) rate tweak .all with
    | .error e => some (.error e)
    | .ok filter =>
      (filter.insertAll murmur3 (addresses.filterMap addressPayloadBytes ++
        outpoints.map Wire.OutPoint.consensusEncode)).map fun filter =>
          .ok (.fromBloomFilter filter)

namespace BloomFilter

variable {murmur3 : List UInt8 → UInt32 → UInt32} {f f' : BloomFilter} {data : List UInt8}
  {datas : List (List UInt8)} {ps : List Nat}

/-! ### Insertions -/

@[simp] theorem length_setBits : (f.setBits ps).filter.length = f.filter.length :=
  length_setAll _ _

@[simp] theorem indexes_setBits : (f.setBits ps).indexes murmur3 = f.indexes murmur3 := by
  funext data
  simp only [indexes, length_setBits]
  rfl

theorem setBits_append (ps ps' : List Nat) : (f.setBits ps).setBits ps' = f.setBits (ps ++ ps') := by
  simp only [setBits, setAll, foldl_append]

/-- The filter has bits to set, or nothing to set them for. -/
def Takes (f : BloomFilter) : Prop := f.hashFuncs = 0 ∨ f.filter.length ≠ 0

theorem insertAll_eq (h : f.Takes) :
    f.insertAll murmur3 datas = some (f.setBits (datas.flatMap (f.indexes murmur3))) := by
  induction datas generalizing f with
  | nil => rfl
  | cons data datas ih =>
    have htakes : (f.setBits (f.indexes murmur3 data)).Takes :=
      h.imp_right length_setBits.trans_ne
    rw [insertAll, foldlM_cons, insert, if_neg fun hnot => h.elim hnot.1 (· hnot.2)]
    refine (ih htakes).trans ?_
    simp [setBits_append]

theorem insertAll_eq_none (h : ¬ f.Takes) (hne : datas ≠ []) : f.insertAll murmur3 datas = none := by
  obtain ⟨data, rest, rfl⟩ := exists_cons_of_ne_nil hne
  obtain ⟨hfuncs, hempty⟩ := not_or.mp h
  rw [insertAll, foldlM_cons, insert, if_pos ⟨hfuncs, not_not.mp hempty⟩]
  rfl

theorem contains_of_insertAll (h : f.insertAll murmur3 datas = some f') {x : List UInt8}
    (hx : x ∈ datas) : f'.contains murmur3 x = true := by
  by_cases htakes : f.Takes
  · rw [insertAll_eq htakes] at h
    obtain rfl := Option.some.inj h
    rw [contains, Bool.or_eq_true, decide_eq_true_eq, all_eq_true, indexes_setBits,
      length_setBits]
    refine or_iff_not_imp_left.mpr fun hne p hp => ?_
    have hlt : p < f.filter.length := by
      obtain ⟨i, -, rfl⟩ := mem_map.mp hp
      exact Nat.mod_lt _ (Nat.pos_of_ne_zero hne)
    refine (getD_setAll hlt _).trans ?_
    rw [decide_eq_true (mem_flatMap.mpr ⟨x, hx, hp⟩), Bool.or_true]
  · rw [insertAll_eq_none htakes (ne_nil_of_mem hx)] at h
    cases h

/-! ### Over the wire -/

theorem toBloomFilter_fromBloomFilter (f : BloomFilter) :
    (FilterLoad.fromBloomFilter f).toBloomFilter = .ok f := by
  obtain ⟨filter, hashFuncs, tweak, flags, ⟨size, hsize⟩, hle, hfuncs⟩ := f
  have hbytes : (packBits filter).length = size := by
    rw [length_packBits, hsize]
    omega
  simp only [FilterLoad.toBloomFilter, FilterLoad.fromBloomFilter, fromBytes, toBytes, hbytes]
  rw [dif_neg (by omega), dif_neg (Nat.not_lt.mpr hfuncs)]
  simp only [← hsize, unpackBits_packBits]

theorem decodes_flags (flags : BloomFlags) :
    BloomFlags.consensusDecode.Decodes flags.consensusEncode flags := by
  cases flags <;> simp [BloomFlags.consensusDecode, BloomFlags.consensusEncode, Dec.leBytes_one]

theorem deserialize_fromBloomFilter (f : BloomFilter) : deserialize FilterLoad.consensusDecode
    (FilterLoad.fromBloomFilter f).consensusEncode = .ok (.fromBloomFilter f) := by
  rw [deserialize_eq_ok]
  have hsize : f.toBytes.length < 2 ^ 64 := by
    have hle := f.size_le
    rw [toBytes, length_packBits]
    unfold MAX_BLOOM_FILTER_SIZE at hle
    omega
  simp only [FilterLoad.consensusEncode, append_assoc]
  rw [← append_assoc (varInt _)]
  exact (Dec.decodes_byteVec.mpr ⟨hsize, rfl⟩).bind ((Dec.decodes_u32.mpr rfl).bind
    ((Dec.decodes_u32.mpr rfl).bind (decodes_flags f.flags).bind_pure))

/-- The filter of a wallet has taken all its elements. -/
theorem exists_insertAll_of_build {Rate : Type} {sizing : BloomSizing Rate}
    {addresses : List Address} {outpoints : List Wire.OutPoint} {rate : Rate} {tweak : UInt32}
    {load : FilterLoad} (h : buildWalletBloomFilter sizing murmur3 addresses outpoints rate tweak =
      some (.ok load)) :
    ∃ (f f' : BloomFilter), f.insertAll murmur3 (addresses.filterMap addressPayloadBytes ++
        outpoints.map Wire.OutPoint.consensusEncode) = some f' ∧ load = .fromBloomFilter f' := by
  unfold buildWalletBloomFilter at h
  dsimp only at h
  split_ifs at h with hempty
  · obtain ⟨rfl, rfl⟩ : addresses = [] ∧ outpoints = [] := by simpa using hempty
    cases hnew : new sizing 1 rate tweak .all with
    | error e => simp [hnew, Except.map] at h
    | ok f => exact ⟨f, f, rfl, by simpa [hnew, Except.map, eq_comm] using h⟩
  · split at h
    · cases h
    · next f _ =>
      obtain ⟨f', hins, heq⟩ := Option.map_eq_some_iff.mp h
      exact ⟨f, f', hins, (Except.ok.inj heq).symm⟩

/-- Insertions do not panic, and the filter contains what was inserted, here and after its way
over the wire. -/
def MissesNothing (murmur3 : List UInt8 → UInt32 → UInt32) (f : BloomFilter)
    (datas : List (List UInt8)) : Prop :=
  ∃ f' load received, f.insertAll murmur3 datas = some f' ∧
    deserialize FilterLoad.consensusDecode (FilterLoad.fromBloomFilter f').consensusEncode =
      .ok load ∧ load.toBloomFilter = .ok received ∧
    ∀ x ∈ datas, f'.contains murmur3 x = true ∧ received.contains murmur3 x = true

/-- A filter misses nothing exactly if it takes what is inserted, and the filter of a wallet
contains all its addresses and outpoints. -/
theorem missesNothing_iff {Rate : Type} (sizing : BloomSizing Rate)
    (murmur3 : List UInt8 → UInt32 → UInt32) :
    (∀ f datas, MissesNothing murmur3 f datas ↔ datas = [] ∨ f.Takes) ∧
      ∀ addresses outpoints rate tweak load,
        buildWalletBloomFilter sizing murmur3 addresses outpoints rate tweak = some (.ok load) →
        ∃ f, load.toBloomFilter = .ok f ∧
          (∀ address ∈ addresses, ∀ payload ∈ addressPayloadBytes address,
            f.contains murmur3 payload = true) ∧
          ∀ outpoint ∈ outpoints, f.contains murmur3 outpoint.consensusEncode = true := by
  refine ⟨fun f datas => ⟨?_, fun h => ?_⟩, ?_⟩
  · rintro ⟨f', load, received, hins, -⟩
    by_contra hnot
    obtain ⟨hne, htakes⟩ := not_or.mp hnot
    rw [insertAll_eq_none htakes hne] at hins
    cases hins
  · obtain ⟨f', hins⟩ : ∃ f', f.insertAll murmur3 datas = some f' := by
      rcases h with rfl | htakes
      · exact ⟨f, rfl⟩
      · exact ⟨_, insertAll_eq htakes⟩
    refine ⟨f', _, f', hins, deserialize_fromBloomFilter f',
      toBloomFilter_fromBloomFilter f', fun x hx => ?_⟩
    exact ⟨contains_of_insertAll hins hx, contains_of_insertAll hins hx⟩
  · intro addresses outpoints rate tweak load hbuilt
    obtain ⟨f, f', hins, rfl⟩ := exists_insertAll_of_build hbuilt
    refine ⟨f', toBloomFilter_fromBloomFilter f', fun address haddr payload hpay => ?_,
      fun outpoint hout => ?_⟩
    · exact contains_of_insertAll hins (mem_append_left _
        (mem_filterMap.mpr ⟨address, haddr, hpay⟩))
    · exact contains_of_insertAll hins (mem_append_right _
        (mem_map_of_mem hout))

/-- A filter of no bytes is accepted, and panics at the first element. -/
theorem emptyFilter_panics : ∃ f, fromBytes [] 1 0 .none = .ok f ∧
    ∀ murmur3 data, f.insert murmur3 data = none ∧ ¬ MissesNothing murmur3 f [data] := by
  refine ⟨_, rfl, fun murmur3 data => ⟨rfl, ?_⟩⟩
  rintro ⟨f', load, received, hins, -⟩
  cases hins

end BloomFilter

end Dashcore
