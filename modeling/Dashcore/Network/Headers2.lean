import Mathlib.Data.List.Nodup
import Mathlib.Data.List.Perm.Basic
import Dashcore.Consensus.Encode

/-!
# Compressed block headers

A headers2 message leaves out of each header what the receiver can restore from the headers
before it: the version when one of the last seven had it, the previous hash when the header
follows its predecessor, the upper half of the time stamp when it is close, and an unchanged
target. Both ends keep a `CompressionState`: the versions seen, most recent first, and the
header before.

The header hash is a parameter: nothing is assumed about it.
-/

namespace Dashcore

open Dec

/-- A block header with the field widths of the wire. -/
structure BlockHeader where
  version : Int32
  prevBlockhash : BlockHash
  merkleRoot : Hash256
  time : UInt32
  bits : UInt32
  nonce : UInt32
  deriving DecidableEq

/-- A vector: its length fits a machine word. -/
abbrev Vec (α : Type) := { l : List α // l.length < 2 ^ 64 }

/-! ### Compressed headers on the wire -/

/-- Bit field of a compressed header. -/
structure CompressionFlags where
  bits : UInt8
  deriving DecidableEq

namespace CompressionFlags

def VERSION_BITS_MASK : UInt8 := 0b00000111

def PREV_BLOCK_HASH : UInt8 := 0b00001000

def TIMESTAMP : UInt8 := 0b00010000

def NBITS : UInt8 := 0b00100000

variable (flags : CompressionFlags)

/-- The version offset (0 to 7). -/
def versionOffset : UInt8 := flags.bits &&& VERSION_BITS_MASK

/-- Whether the previous block hash is included. -/
def hasPrevBlockHash : Bool := flags.bits &&& PREV_BLOCK_HASH != 0

/-- Whether the full time stamp is included. -/
def hasFullTimestamp : Bool := flags.bits &&& TIMESTAMP != 0

/-- Whether the target is included. -/
def hasNbits : Bool := flags.bits &&& NBITS != 0

end CompressionFlags

/-- Compressed representation of a block header. -/
structure CompressedHeader where
  flags : CompressionFlags
  version : Option Int32
  prevBlockhash : Option BlockHash
  merkleRoot : Hash256
  timeOffset : Option Int16
  timeFull : Option UInt32
  bits : Option UInt32
  nonce : UInt32
  deriving DecidableEq

namespace CompressedHeader

def consensusEncode (c : CompressedHeader) : List UInt8 :=
  leBytes 1 c.flags.bits.toNat
    ++ encodeOption (fun v : Int32 => leBytes 4 v.toUInt32.toNat) c.version
    ++ encodeOption toByteArray c.prevBlockhash
    ++ toByteArray c.merkleRoot
    ++ (match c.timeOffset with
        | some offset => leBytes 2 offset.toUInt16.toNat
        | none => encodeOption (fun t : UInt32 => leBytes 4 t.toNat) c.timeFull)
    ++ encodeOption (fun b : UInt32 => leBytes 4 b.toNat) c.bits
    ++ leBytes 4 c.nonce.toNat

/-- The time stamp: in full, or as an offset from the header before. -/
def decodeTime (full : Bool) : Dec (Option Int16 × Option UInt32) :=
  if full then (fun t => (none, some t)) <$> u32 else (fun t => (some t, none)) <$> i16

def consensusDecode : Dec CompressedHeader := do
  let flags ← CompressionFlags.mk <$> u8
  let version ← option (flags.versionOffset == 0) i32
  let prevBlockhash ← option flags.hasPrevBlockHash hash256
  let merkleRoot ← hash256
  let (timeOffset, timeFull) ← decodeTime flags.hasFullTimestamp
  let bits ← option flags.hasNbits u32
  let nonce ← u32
  pure { flags, version, prevBlockhash, merkleRoot, timeOffset, timeFull, bits, nonce }

/-- The flags announce exactly the fields that are there. -/
structure Announced (c : CompressedHeader) : Prop where
  version : c.version.isSome = (c.flags.versionOffset == 0)
  prevBlockhash : c.prevBlockhash.isSome = c.flags.hasPrevBlockHash
  timeOffset : c.timeOffset.isSome = !c.flags.hasFullTimestamp
  timeFull : c.timeFull.isSome = c.flags.hasFullTimestamp
  bits : c.bits.isSome = c.flags.hasNbits

theorem decodes_decodeTime {full : Bool} {used : List UInt8} {offset : Option Int16}
    {time : Option UInt32} :
    (decodeTime full).Decodes used (offset, time) ↔
      offset.isSome = !full ∧ time.isSome = full ∧
        used = (match offset with
          | some offset => leBytes 2 offset.toUInt16.toNat
          | none => encodeOption (fun t : UInt32 => leBytes 4 t.toNat) time) := by
  cases full <;> cases offset <;> cases time <;>
    simp [decodeTime, encodeOption]

/-- The bytes read as a compressed header are those written for it. -/
theorem decodes_iff {used : List UInt8} {c : CompressedHeader} :
    consensusDecode.Decodes used c ↔ c.Announced ∧ used = c.consensusEncode := by
  simp only [consensusDecode, Decoder.decodes_bind, Decoder.decodes_map, decodes_u8,
    decodes_option_of_exact fun _ _ => decodes_i32,
    decodes_option_of_exact fun _ _ => decodes_hash256, decodes_hash256,
    decodes_option_of_exact fun _ _ => decodes_u32, decodes_u32,
    Decoder.decodes_pure, existsAndEq, true_and, and_true, List.append_nil]
  constructor
  · rintro ⟨version, prevBlockhash, merkleRoot, ⟨timeOffset, timeFull⟩, _, bits, nonce, flags, rfl,
      hver, hprev, htime, hbits, rfl⟩
    obtain ⟨hoffset, hfull, rfl⟩ := decodes_decodeTime.mp htime
    refine ⟨⟨hver, hprev, hoffset, hfull, hbits⟩, ?_⟩
    simp [consensusEncode]
  · rintro ⟨hc, rfl⟩
    refine ⟨c.version, c.prevBlockhash, c.merkleRoot, ⟨c.timeOffset, c.timeFull⟩, _, c.bits, c.nonce,
      c.flags.bits, ?_, hc.version, hc.prevBlockhash,
      decodes_decodeTime.mpr ⟨hc.timeOffset, hc.timeFull, rfl⟩, hc.bits, rfl⟩
    simp [consensusEncode]

end CompressedHeader

/-- A message of compressed headers. -/
structure Headers2Message where
  headers : List CompressedHeader
  deriving DecidableEq

namespace Headers2Message

def consensusEncode (message : Headers2Message) : List UInt8 :=
  varInt message.headers.length ++ message.headers.flatMap CompressedHeader.consensusEncode

def consensusDecode : Dec Headers2Message := do
  let count ← Dec.varInt
  let headers ← CompressedHeader.consensusDecode.replicate count
  pure ⟨headers⟩

/-- A message whose headers announce their fields is read back. -/
theorem decodes_consensusEncode {message : Headers2Message}
    (hcount : message.headers.length < 2 ^ 64) (hheaders : ∀ c ∈ message.headers, c.Announced) :
    consensusDecode.Decodes message.consensusEncode message := by
  have hparts : List.Forall₂ CompressedHeader.consensusDecode.Decodes
      (message.headers.map CompressedHeader.consensusEncode) message.headers := by
    rw [List.forall₂_map_left_iff, List.forall₂_same]
    exact fun c hc => CompressedHeader.decodes_iff.mpr ⟨hheaders c hc, rfl⟩
  refine .bind (decodes_varInt.mpr ⟨hcount, rfl⟩) (.bind_pure ?_)
  exact Decoder.decodes_replicate.mpr ⟨rfl, _, rfl, hparts⟩

end Headers2Message

/-! ### Compression -/

/-- Why a header cannot be restored. -/
inductive DecompressionError
  | invalidVersionOffset
  | missingPreviousHeader
  | missingTimestamp
  | missingVersion
  deriving DecidableEq

/-- Maximum number of versions to remember. -/
def MAX_VERSION_CACHE_SIZE : Nat := 7

/-- What both ends of a connection remember of the headers sent. -/
structure CompressionState where
  /-- The versions seen, most recently used first. -/
  versionCache : List Int32
  prevHeader : Option BlockHeader
  deriving DecidableEq

namespace CompressionState

def new : CompressionState := ⟨[], none⟩

/-- Position of a version in the cache. -/
def findVersionPosition (cache : List Int32) (version : Int32) : Option Nat :=
  cache.findIdx? (· == version)

/-- Move the version at a position to the front. -/
def markVersionAsMru (cache : List Int32) (position : Nat) : List Int32 :=
  if 0 < position then
    match cache[position]? with
    | some version => version :: cache.eraseIdx position
    | none => cache
  else cache

/-- Put a new version in front; the last one is dropped when the cache is full. -/
def saveVersionAsMru (cache : List Int32) (version : Int32) : List Int32 :=
  let cache := version :: cache
  if MAX_VERSION_CACHE_SIZE < cache.length then cache.dropLast else cache

variable (blockHash : BlockHeader → BlockHash)

/-- Whether a hash is that of the previous header. -/
def isSequential (state : CompressionState) (prevHash : BlockHash) : Bool :=
  match state.prevHeader with
  | some prev => blockHash prev == prevHash
  | none => false

/-- The offset, the version field and the cache for a version: one-based position of a cached
version, or 0 and the version itself. -/
def compressVersion (cache : List Int32) (version : Int32) :
    UInt8 × Option Int32 × List Int32 :=
  match findVersionPosition cache version with
  | some position =>
    (UInt8.ofNat (position + 1), none, markVersionAsMru cache position)
  | none => (0, some version, saveVersionAsMru cache version)

section

variable (prev : Option BlockHeader)

/-- The time stamp of a header: an offset from the previous header if it fits 16 bits. -/
def compressTime (header : BlockHeader) :
    Option Int16 × Option UInt32 :=
  match prev with
  | some prev =>
    let delta : Int := header.time.toNat - prev.time.toNat
    if -2 ^ 15 ≤ delta ∧ delta ≤ 2 ^ 15 - 1 then (some (Int16.ofInt delta), none)
    else (none, some header.time)
  | none => (none, some header.time)

/-- The target of a header if it is not that of the previous one. -/
def compressBits (header : BlockHeader) : Option UInt32 :=
  match prev with
  | some prev => if prev.bits = header.bits then none else some header.bits
  | none => some header.bits

/-- Compress a header and remember it. -/
def compress (state : CompressionState) (header : BlockHeader) :
    CompressedHeader × CompressionState :=
  let (offset, version, versionCache) := compressVersion state.versionCache header.version
  let prevBlockhash :=
    if state.isSequential blockHash header.prevBlockhash then none else some header.prevBlockhash
  let (timeOffset, timeFull) := compressTime state.prevHeader header
  let bits := compressBits state.prevHeader header
  let flags := offset
    ||| (if prevBlockhash.isSome then CompressionFlags.PREV_BLOCK_HASH else 0)
    ||| (if timeFull.isSome then CompressionFlags.TIMESTAMP else 0)
    ||| (if bits.isSome then CompressionFlags.NBITS else 0)
  ({ flags := ⟨flags⟩, version, prevBlockhash, merkleRoot := header.merkleRoot, timeOffset,
     timeFull, bits, nonce := header.nonce },
   { versionCache, prevHeader := some header })

/-- The version of a compressed header, and the cache after it. -/
def decompressVersion (cache : List Int32) (c : CompressedHeader) :
    Except DecompressionError (Int32 × List Int32) :=
  if c.flags.versionOffset = 0 then
    match c.version with
    | some version => .ok (version, saveVersionAsMru cache version)
    | none => .error .missingVersion
  else
    let position := c.flags.versionOffset.toNat - 1
    match cache[position]? with
    | some version => .ok (version, markVersionAsMru cache position)
    | none => .error .invalidVersionOffset

/-- A field that is left out is taken from the previous header. -/
def orPrevious {α : Type} (field : Option α)
    (restore : BlockHeader → α) : Except DecompressionError α :=
  match field with
  | some v => .ok v
  | none =>
    match prev with
    | some prev => .ok (restore prev)
    | none => .error .missingPreviousHeader

/-- The time stamp of a compressed header; the sum is truncated to 32 bits. -/
def decompressTime (c : CompressedHeader) :
    Except DecompressionError UInt32 :=
  match c.timeOffset with
  | some offset =>
    match prev with
    | some prev => .ok (UInt32.ofInt (prev.time.toNat + offset.toInt))
    | none => .error .missingPreviousHeader
  | none =>
    match c.timeFull with
    | some time => .ok time
    | none => .error .missingTimestamp

end

/-- Restore a header and remember it. A failure keeps what was done to the cache. -/
def decompress (state : CompressionState) (c : CompressedHeader) :
    Except DecompressionError BlockHeader × CompressionState :=
  match decompressVersion state.versionCache c with
  | .error e => (.error e, state)
  | .ok (version, versionCache) =>
    let fields : Except DecompressionError BlockHeader := do
      let prevBlockhash ← orPrevious state.prevHeader c.prevBlockhash blockHash
      let time ← decompressTime state.prevHeader c
      let bits ← orPrevious state.prevHeader c.bits BlockHeader.bits
      pure { version, prevBlockhash, merkleRoot := c.merkleRoot, time, bits, nonce := c.nonce }
    match fields with
    | .error e => (.error e, { state with versionCache })
    | .ok header => (.ok header, { versionCache, prevHeader := some header })

/-- At most seven versions, each once. -/
structure Bounded (state : CompressionState) : Prop where
  length_le : state.versionCache.length ≤ MAX_VERSION_CACHE_SIZE
  nodup : state.versionCache.Nodup

/-! ### One header -/

theorem bounded_new : new.Bounded := ⟨Nat.zero_le _, List.nodup_nil⟩

theorem markVersionAsMru_perm (cache : List Int32) (position : Nat) :
    (markVersionAsMru cache position).Perm cache := by
  unfold markVersionAsMru
  split
  · split
    · next version hver =>
      obtain ⟨hlt, rfl⟩ := List.getElem?_eq_some_iff.mp hver
      exact List.getElem_cons_eraseIdx_perm hlt
    · exact .refl _
  · exact .refl _

variable {cache : List Int32} {version : Int32}

theorem saveVersionAsMru_bounded
    (hlen : cache.length ≤ MAX_VERSION_CACHE_SIZE) (hnodup : cache.Nodup)
    (hnew : version ∉ cache) :
    (saveVersionAsMru cache version).length ≤ MAX_VERSION_CACHE_SIZE ∧
      (saveVersionAsMru cache version).Nodup := by
  have hcons : (version :: cache).Nodup := List.nodup_cons.mpr ⟨hnew, hnodup⟩
  unfold saveVersionAsMru
  dsimp only
  split
  · refine ⟨?_, hcons.sublist (List.dropLast_sublist _)⟩
    rw [List.length_dropLast, List.length_cons]
    exact hlen
  · next hshort => exact ⟨Nat.le_of_not_lt hshort, hcons⟩

/-- A version that is found stands at its position, which is one of the seven. -/
theorem findVersionPosition_some {position : Nat}
    (h : findVersionPosition cache version = some position) :
    cache[position]? = some version ∧ position < cache.length := by
  obtain ⟨hlt, hver, -⟩ := List.findIdx?_eq_some_iff_getElem.mp h
  exact ⟨List.getElem?_eq_some_iff.mpr ⟨hlt, by simpa using hver⟩, hlt⟩

theorem findVersionPosition_none
    (h : findVersionPosition cache version = none) : version ∉ cache := by
  intro hmem
  have hne := List.findIdx?_eq_none_iff.mp h version hmem
  simp at hne

/-- The flag bits do not overlap: each reader gets what was put in. -/
theorem flags_read (offset : UInt8) (hoffset : offset.toNat ≤ 7) (prev time bits : Bool) :
    let flags : CompressionFlags := ⟨offset
      ||| (if prev then CompressionFlags.PREV_BLOCK_HASH else 0)
      ||| (if time then CompressionFlags.TIMESTAMP else 0)
      ||| (if bits then CompressionFlags.NBITS else 0)⟩
    flags.versionOffset = offset ∧ flags.hasPrevBlockHash = prev ∧
      flags.hasFullTimestamp = time ∧ flags.hasNbits = bits := by
  obtain ⟨n, rfl⟩ : ∃ n : Fin 8, offset = UInt8.ofNat n :=
    ⟨⟨offset.toNat, by omega⟩, UInt8.ofNat_toNat.symm⟩
  revert n prev time bits
  decide

/-- The version offset fits its three bits, it is 0 exactly when the version is sent along,
and the receiver's cache gives the version back and ends as the sender's. -/
theorem compressVersion_spec (version : Int32)
    (hlen : cache.length ≤ MAX_VERSION_CACHE_SIZE) (hnodup : cache.Nodup) :
    let (offset, field, cache') := compressVersion cache version
    offset.toNat ≤ 7 ∧ (field.isSome = (offset == 0)) ∧
      (cache'.length ≤ MAX_VERSION_CACHE_SIZE ∧ cache'.Nodup) ∧
      ∀ c : CompressedHeader, c.flags.versionOffset = offset → c.version = field →
        decompressVersion cache c = .ok (version, cache') := by
  cases hposition : findVersionPosition cache version with
  | some position =>
    simp only [compressVersion, hposition]
    obtain ⟨hget, hlt⟩ := findVersionPosition_some hposition
    have hseven : position + 1 ≤ 7 := Nat.le_trans hlt hlen
    have hoffset : (UInt8.ofNat (position + 1)).toNat = position + 1 :=
      UInt8.toNat_ofNat_of_lt' (Nat.lt_of_le_of_lt hseven (by decide))
    have hne : UInt8.ofNat (position + 1) ≠ 0 := by
      intro hzero
      rw [hzero] at hoffset
      exact absurd hoffset (by simp)
    have hperm := markVersionAsMru_perm cache position
    refine ⟨by omega, by simpa using hne, ⟨by rw [hperm.length_eq]; exact hlen,
      hperm.nodup_iff.mpr hnodup⟩, fun c hc _ => ?_⟩
    rw [decompressVersion, if_neg (by rw [hc]; exact hne), hc, hoffset, Nat.add_sub_cancel]
    dsimp only
    rw [hget]
  | none =>
    simp only [compressVersion, hposition]
    have hnew := findVersionPosition_none hposition
    refine ⟨by decide, rfl, saveVersionAsMru_bounded hlen hnodup hnew, fun c hc hfield => ?_⟩
    rw [decompressVersion, if_pos hc, hfield]

/-- The sender chooses one of the two forms of the time stamp, and the receiver restores it. -/
theorem compressTime_spec (prev : Option BlockHeader) (header : BlockHeader) :
    let (offset, full) := compressTime prev header
    (offset.isSome = !full.isSome) ∧
      ∀ c : CompressedHeader, c.timeOffset = offset → c.timeFull = full →
        decompressTime prev c = .ok header.time := by
  cases prev with
  | none => exact ⟨rfl, fun c hoffset hfull => by rw [decompressTime, hoffset, hfull]⟩
  | some prev =>
    by_cases hfits : -2 ^ 15 ≤ (header.time.toNat : Int) - prev.time.toNat ∧
        (header.time.toNat : Int) - prev.time.toNat ≤ 2 ^ 15 - 1
    · simp only [compressTime, if_pos hfits]
      refine ⟨rfl, fun c hoffset _ => ?_⟩
      have hdelta : (Int16.ofInt (header.time.toNat - prev.time.toNat)).toInt =
          header.time.toNat - prev.time.toNat := Int16.toInt_ofInt_of_le hfits.1 (by omega)
      rw [decompressTime, hoffset]
      dsimp only
      -- the sum is the time itself, which the truncation to 32 bits leaves alone
      have hmod : ((header.time.toNat : Int) % 2 ^ 32).toNat = header.time.toNat := by
        have hlt := header.time.toNat_lt
        omega
      rw [hdelta, Int.add_comm, Int.sub_add_cancel, UInt32.ofInt, hmod, UInt32.ofNat_toNat]
    · simp only [compressTime, if_neg hfits]
      exact ⟨rfl, fun c hoffset hfull => by rw [decompressTime, hoffset, hfull]⟩

theorem orPrevious_compressBits (prev : Option BlockHeader) (header : BlockHeader) :
    orPrevious prev (compressBits prev header) BlockHeader.bits = .ok header.bits := by
  unfold compressBits
  split
  · split
    · next hsame => rw [← hsame, orPrevious]
    · rfl
  · rfl

/-- The previous hash is left out only when the receiver can compute it. -/
theorem orPrevious_prevBlockhash (state : CompressionState) (hash : BlockHash) :
    orPrevious state.prevHeader (if state.isSequential blockHash hash then none else some hash)
      blockHash = .ok hash := by
  split
  · next hseq =>
    unfold isSequential at hseq
    split at hseq
    · next prev hprev =>
      rw [hprev, orPrevious]
      simpa using hseq
    · cases hseq
  · rfl

/-- A header comes back as it was sent, and the two ends agree on what they remember. -/
theorem decompress_compress {state : CompressionState} (hstate : state.Bounded)
    (header : BlockHeader) :
    decompress blockHash state (compress blockHash state header).1 =
        (.ok header, (compress blockHash state header).2) ∧
      (compress blockHash state header).1.Announced ∧
      (compress blockHash state header).2.Bounded := by
  have hver := compressVersion_spec header.version hstate.length_le hstate.nodup
  have htime := compressTime_spec state.prevHeader header
  have hbits := orPrevious_compressBits state.prevHeader header
  have hprev := orPrevious_prevBlockhash blockHash state header.prevBlockhash
  unfold compress
  generalize compressVersion state.versionCache header.version = v at hver ⊢
  generalize compressTime state.prevHeader header = t at htime ⊢
  generalize compressBits state.prevHeader header = b at hbits ⊢
  generalize (if state.isSequential blockHash header.prevBlockhash then none
    else some header.prevBlockhash) = p at hprev ⊢
  obtain ⟨offset, version, versionCache⟩ := v
  obtain ⟨timeOffset, timeFull⟩ := t
  obtain ⟨hoffset, hpresent, hbounded, hver⟩ := hver
  obtain ⟨hforms, htime⟩ := htime
  obtain ⟨hread, hreadPrev, hreadTime, hreadBits⟩ :=
    flags_read offset hoffset p.isSome timeFull.isSome b.isSome
  refine ⟨?_, ⟨?_, ?_, ?_, ?_, ?_⟩, ⟨hbounded.1, hbounded.2⟩⟩
  · rw [decompress, hver _ hread rfl]
    rw [hprev, htime _ rfl rfl, hbits]
    rfl
  · exact hpresent.trans (by rw [hread])
  · exact hreadPrev.symm
  · exact hforms.trans (by rw [hreadTime])
  · exact hreadTime.symm
  · exact hreadBits.symm

end CompressionState

/-! ### Messages -/

section Connection

variable (blockHash : BlockHeader → BlockHash)

open CompressionState

/-- Compress headers one after the other. -/
def compressHeaders (state : CompressionState) :
    List BlockHeader → List CompressedHeader × CompressionState
  | [] => ([], state)
  | header :: headers =>
    let (c, state) := state.compress blockHash header
    let (cs, state) := compressHeaders state headers
    (c :: cs, state)

/-- Errors of processing a message. -/
inductive ProcessError
  | firstHeaderNotFull
  | decompressionError (index : Nat) (error : DecompressionError)
  deriving DecidableEq

/-- Restore the headers of a message that start at an index, up to the first that fails. -/
def processHeadersFrom (index : Nat) (state : CompressionState) :
    List CompressedHeader → Except ProcessError (List BlockHeader) × CompressionState
  | [] => (.ok [], state)
  | c :: cs =>
    match state.decompress blockHash c with
    | (.error e, state) => (.error (.decompressionError index e), state)
    | (.ok header, state) =>
      match processHeadersFrom (index + 1) state cs with
      | (.error e, state) => (.error e, state)
      | (.ok headers, state) => (.ok (header :: headers), state)

def processHeaders (state : CompressionState) (headers : List CompressedHeader) :
    Except ProcessError (List BlockHeader) × CompressionState :=
  processHeadersFrom blockHash 0 state headers

/-- Compress and encode a sequence of messages with one state. -/
def sendMessages (state : CompressionState) :
    List (Vec BlockHeader) → List (List UInt8) × CompressionState
  | [] => ([], state)
  | message :: messages =>
    let (cs, state) := compressHeaders blockHash state message.1
    let (sent, state) := sendMessages state messages
    (Headers2Message.consensusEncode ⟨cs⟩ :: sent, state)

/-- Why a received message gives no headers. -/
inductive ReceiveError
  | encode (error : EncodeError)
  | process (error : ProcessError)
  deriving DecidableEq

/-- Decode a message and restore its headers. -/
def receiveMessage (state : CompressionState) (bytes : List UInt8) :
    Except ReceiveError (List BlockHeader) × CompressionState :=
  match deserialize Headers2Message.consensusDecode bytes with
  | .error e => (.error (.encode e), state)
  | .ok message =>
    match processHeaders blockHash state message.headers with
    | (.error e, state) => (.error (.process e), state)
    | (.ok headers, state) => (.ok headers, state)

/-- Decode and restore a sequence of messages with one state. -/
def receiveMessages (state : CompressionState) :
    List (List UInt8) → List (Except ReceiveError (List BlockHeader)) × CompressionState
  | [] => ([], state)
  | bytes :: rest =>
    let (received, state) := receiveMessage blockHash state bytes
    let (more, state) := receiveMessages state rest
    (received :: more, state)

variable {blockHash}

theorem length_compressHeaders (state : CompressionState) (headers : List BlockHeader) :
    (compressHeaders blockHash state headers).1.length = headers.length := by
  induction headers generalizing state with
  | nil => rfl
  | cons header headers ih => simp [compressHeaders, ih]

/-- The first headers of a message are compressed the same without the others. -/
theorem compressHeaders_take (state : CompressionState) (headers : List BlockHeader) (k : Nat) :
    (compressHeaders blockHash state (headers.take k)).1 =
      (compressHeaders blockHash state headers).1.take k := by
  induction headers generalizing state k with
  | nil => simp [compressHeaders]
  | cons header headers ih =>
    cases k with
    | zero => rfl
    | succ k => simp [compressHeaders, ih]

variable {state : CompressionState}

/-- The receiver restores a list of compressed headers and ends as the sender did. -/
theorem processHeadersFrom_compressHeaders (hstate : state.Bounded)
    (headers : List BlockHeader) (index : Nat) :
    processHeadersFrom blockHash index state (compressHeaders blockHash state headers).1 =
        (.ok headers, (compressHeaders blockHash state headers).2) ∧
      (∀ c ∈ (compressHeaders blockHash state headers).1, c.Announced) ∧
      (compressHeaders blockHash state headers).2.Bounded := by
  induction headers generalizing state index with
  | nil => exact ⟨rfl, by simp [compressHeaders], hstate⟩
  | cons header headers ih =>
    obtain ⟨hone, hannounced, hnext⟩ := decompress_compress blockHash hstate header
    obtain ⟨hmore, hannounced', hlast⟩ := ih hnext (index + 1)
    refine ⟨?_, ?_, hlast⟩
    · simp only [compressHeaders, processHeadersFrom, hone, hmore]
    · intro c hc
      rcases List.mem_cons.mp hc with rfl | hc
      · exact hannounced
      · exact hannounced' c hc

/-- One message arrives as it was sent. -/
theorem receiveMessage_compressHeaders (hstate : state.Bounded)
    (message : Vec BlockHeader) :
    deserialize Headers2Message.consensusDecode
        (Headers2Message.consensusEncode ⟨(compressHeaders blockHash state message.1).1⟩) =
          .ok ⟨(compressHeaders blockHash state message.1).1⟩ ∧
      receiveMessage blockHash state
        (Headers2Message.consensusEncode ⟨(compressHeaders blockHash state message.1).1⟩) =
          (.ok message.1, (compressHeaders blockHash state message.1).2) := by
  obtain ⟨hprocess, hannounced, -⟩ := processHeadersFrom_compressHeaders hstate message.1 0
  have hcount : (compressHeaders blockHash state message.1).1.length < 2 ^ 64 := by
    rw [length_compressHeaders]
    exact message.2
  have hdecode := deserialize_eq_ok.mpr
    (@Headers2Message.decodes_consensusEncode ⟨_⟩ hcount hannounced)
  refine ⟨hdecode, ?_⟩
  simp only [receiveMessage, hdecode, processHeaders, hprocess]

/-- A sequence of messages arrives as it was sent. -/
theorem receiveMessages_sendMessages (hstate : state.Bounded)
    (messages : List (Vec BlockHeader)) :
    receiveMessages blockHash state (sendMessages blockHash state messages).1 =
        (messages.map fun message => .ok message.1, (sendMessages blockHash state messages).2) ∧
      (sendMessages blockHash state messages).2.Bounded := by
  induction messages generalizing state with
  | nil => exact ⟨rfl, hstate⟩
  | cons message messages ih =>
    obtain ⟨-, hone⟩ := @receiveMessage_compressHeaders blockHash _ hstate message
    obtain ⟨-, -, hnext⟩ := processHeadersFrom_compressHeaders hstate message.1 0
    obtain ⟨hmore, hlast⟩ := ih hnext
    refine ⟨?_, hlast⟩
    simp only [sendMessages, receiveMessages, hone, hmore, List.map_cons]

variable (blockHash)

/-- Headers sent in any sequence of messages, compressed with one state and decompressed with
another, arrive unchanged. In the middle of a further message, after any `k` of its headers,
both ends have the same state, and its cache holds at most seven versions, each once. -/
theorem headers2_lossless (messages : List (Vec BlockHeader)) (next : Vec BlockHeader) (k : Nat) :
    let sent := sendMessages blockHash .new messages
    let received := receiveMessages blockHash .new sent.1
    let compressed := (compressHeaders blockHash sent.2 next.1).1
    let sender := (compressHeaders blockHash sent.2 (next.1.take k)).2
    let receiver := (processHeaders blockHash received.2 (compressed.take k)).2
    received.1 = messages.map (fun message => .ok message.1) ∧
      deserialize Headers2Message.consensusDecode (Headers2Message.consensusEncode ⟨compressed⟩) =
        .ok ⟨compressed⟩ ∧
      receiver = sender ∧
      sender.versionCache.length ≤ MAX_VERSION_CACHE_SIZE ∧ sender.versionCache.Nodup := by
  obtain ⟨hrecv, hsent⟩ :=
    @receiveMessages_sendMessages blockHash _ bounded_new messages
  obtain ⟨hdecode, -⟩ := @receiveMessage_compressHeaders blockHash _ hsent next
  obtain ⟨hprocess, -, hbounded⟩ :=
    @processHeadersFrom_compressHeaders blockHash _ hsent (next.1.take k) 0
  dsimp only
  rw [hrecv]
  refine ⟨rfl, hdecode, ?_, hbounded.length_le, hbounded.nodup⟩
  rw [← compressHeaders_take, processHeaders, hprocess]

end Connection

end Dashcore
