import Dashcore.Primitives

/-!
# Extended keys

An extended key derives children by number. A private key derives all of them. A public key
derives those that are not hardened, which lets a wallet without secrets watch the addresses
that the seed can spend. The two derivations are separate functions, and have to agree.

The curve is a group with a homomorphism from scalars to points; the hashes, the encodings and
the reading of a scalar from bytes are arbitrary functions. A secret key is a scalar and a public
key a point other than zero. Depths are 8-bit numbers.
-/

namespace Dashcore

/-- The curve and the hashes of key derivation. -/
structure KeyCrypto (Scalar Point : Type) [AddCommGroup Scalar] [AddCommGroup Point] where
  /-- Multiples of the generator. -/
  mulGenerator : Scalar →+ Point
  injective : Function.Injective mulGenerator
  /-- The scalar that 32 bytes spell, unless it is zero or too large. -/
  fromSlice : List UInt8 → Option { a : Scalar // a ≠ 0 }
  secretBytes : { a : Scalar // a ≠ 0 } → List UInt8
  serialize : { p : Point // p ≠ 0 } → List UInt8
  /-- HMAC-SHA512 of a key and data. -/
  hmac : List UInt8 → List UInt8 → List UInt8
  hash160 : List UInt8 → List UInt8

/-- The number of a child key. -/
inductive ChildNumber
  | normal (index : Nat)
  | hardened (index : Nat)
  | normal256 (index : Vector UInt8 32)
  | hardened256 (index : Vector UInt8 32)
  deriving DecidableEq

def ChildNumber.isHardened : ChildNumber → Bool
  | .hardened _ | .hardened256 _ => true
  | .normal _ | .normal256 _ => false

inductive Bip32Error
  | cannotDeriveFromHardenedKey
  | secp256k1
  /-- The code expects a tweak to be valid, and panics. -/
  | invalidTweak
  deriving DecidableEq

section Keys

variable {Scalar Point : Type} [AddCommGroup Scalar] [AddCommGroup Point]

structure ExtendedPrivKey (Scalar : Type) [AddCommGroup Scalar] where
  network : Network
  depth : Nat
  parentFingerprint : List UInt8
  childNumber : ChildNumber
  privateKey : { a : Scalar // a ≠ 0 }
  chainCode : List UInt8

structure ExtendedPubKey (Point : Type) [AddCommGroup Point] where
  network : Network
  depth : Nat
  parentFingerprint : List UInt8
  childNumber : ChildNumber
  publicKey : { p : Point // p ≠ 0 }
  chainCode : List UInt8

variable (crypto : KeyCrypto Scalar Point)

namespace KeyCrypto

/-- The public key of a secret key. -/
def publicKey (secret : { a : Scalar // a ≠ 0 }) : { p : Point // p ≠ 0 } :=
  ⟨crypto.mulGenerator secret.1, fun h => secret.2 (crypto.injective (h.trans (map_zero _).symm))⟩

/-- The sum of two secret keys, unless it is zero. -/
def addTweak [DecidableEq Scalar] (secret tweak : { a : Scalar // a ≠ 0 }) :
    Option { a : Scalar // a ≠ 0 } :=
  if h : secret.1 + tweak.1 ≠ 0 then some ⟨secret.1 + tweak.1, h⟩ else none

/-- A point plus a multiple of the generator, unless it is zero. -/
def addExpTweak [DecidableEq Point] (key : { p : Point // p ≠ 0 })
    (tweak : { a : Scalar // a ≠ 0 }) : Option { p : Point // p ≠ 0 } :=
  if h : key.1 + crypto.mulGenerator tweak.1 ≠ 0 then some ⟨key.1 + crypto.mulGenerator tweak.1, h⟩
  else none

/-- Adding to a public key is adding to the secret key. -/
theorem addExpTweak_publicKey [DecidableEq Scalar] [DecidableEq Point]
    {secret tweak tweaked : { a : Scalar // a ≠ 0 }} (h : addTweak tweak secret = some tweaked) :
    crypto.addExpTweak (crypto.publicKey secret) tweak = some (crypto.publicKey tweaked) := by
  unfold addTweak at h
  split_ifs at h with hsum
  obtain rfl := Option.some.inj h
  have hpoint : crypto.mulGenerator secret.1 + crypto.mulGenerator tweak.1 =
      crypto.mulGenerator (tweak.1 + secret.1) := by
    rw [map_add, add_comm]
  have hne : (crypto.publicKey secret).1 + crypto.mulGenerator tweak.1 ≠ 0 := by
    intro hzero
    exact (crypto.publicKey ⟨_, hsum⟩).2 (hpoint.symm.trans hzero)
  unfold addExpTweak
  rw [dif_pos hne]
  exact congrArg some (Subtype.ext hpoint)

/-- The first four bytes of the hash of a public key. -/
def fingerprint (key : { p : Point // p ≠ 0 }) : List UInt8 :=
  (crypto.hash160 (crypto.serialize key)).take 4

end KeyCrypto

namespace ExtendedPrivKey

/-- What is hashed for a child: public data, or for a hardened one secret data. -/
def childData (key : ExtendedPrivKey Scalar) : ChildNumber → List UInt8
  | .normal index => crypto.serialize (crypto.publicKey key.privateKey) ++ beBytes 4 index
  | .hardened index => [0] ++ crypto.secretBytes key.privateKey ++ beBytes 4 (index ||| 2 ^ 31)
  | .normal256 index => crypto.serialize (crypto.publicKey key.privateKey) ++ index.toList
  | .hardened256 index => [0] ++ crypto.secretBytes key.privateKey ++ index.toList

/-- The private child of a private key. -/
def ckdPriv [DecidableEq Scalar] (key : ExtendedPrivKey Scalar) (i : ChildNumber) :
    Except Bip32Error (ExtendedPrivKey Scalar) :=
  let hmacResult := crypto.hmac key.chainCode (key.childData crypto i)
  match crypto.fromSlice (hmacResult.take 32) with
  | none => .error .invalidTweak
  | some sk =>
    match KeyCrypto.addTweak sk key.privateKey with
    | none => .error .invalidTweak
    | some tweaked =>
      .ok {
        network := key.network
        depth := (key.depth + 1) % 256
        parentFingerprint := crypto.fingerprint (crypto.publicKey key.privateKey)
        childNumber := i
        privateKey := tweaked
        chainCode := hmacResult.drop 32 }

/-- The private key at the end of a path. -/
def derivePriv [DecidableEq Scalar] (key : ExtendedPrivKey Scalar) :
    List ChildNumber → Except Bip32Error (ExtendedPrivKey Scalar)
  | [] => .ok key
  | i :: path => do
    let child ← key.ckdPriv crypto i
    child.derivePriv path

end ExtendedPrivKey

namespace ExtendedPubKey

/-- The public key of a private key. -/
def fromPriv (key : ExtendedPrivKey Scalar) : ExtendedPubKey Point where
  network := key.network
  depth := key.depth
  parentFingerprint := key.parentFingerprint
  childNumber := key.childNumber
  publicKey := crypto.publicKey key.privateKey
  chainCode := key.chainCode

/-- The tweak and the chain code from the hash of public data. -/
def tweakOf (key : ExtendedPubKey Point) (index : List UInt8) :
    Except Bip32Error ({ a : Scalar // a ≠ 0 } × List UInt8) :=
  let hmacResult := crypto.hmac key.chainCode (crypto.serialize key.publicKey ++ index)
  match crypto.fromSlice (hmacResult.take 32) with
  | none => .error .secp256k1
  | some tweak => .ok (tweak, hmacResult.drop 32)

/-- The tweak that gives a child, and its chain code. -/
def ckdPubTweak (key : ExtendedPubKey Point) :
    ChildNumber → Except Bip32Error ({ a : Scalar // a ≠ 0 } × List UInt8)
  | .hardened _ | .hardened256 _ => .error .cannotDeriveFromHardenedKey
  | .normal index => key.tweakOf crypto (beBytes 4 index)
  | .normal256 index => key.tweakOf crypto index.toList

/-- The public child of a public key. -/
def ckdPub [DecidableEq Point] (key : ExtendedPubKey Point) (i : ChildNumber) :
    Except Bip32Error (ExtendedPubKey Point) := do
  let (sk, chainCode) ← key.ckdPubTweak crypto i
  match crypto.addExpTweak key.publicKey sk with
  | none => .error .secp256k1
  | some tweaked =>
    .ok {
      network := key.network
      depth := (key.depth + 1) % 256
      parentFingerprint := crypto.fingerprint key.publicKey
      childNumber := i
      publicKey := tweaked
      chainCode }

/-- The public key at the end of a path. -/
def derivePub [DecidableEq Point] (key : ExtendedPubKey Point) :
    List ChildNumber → Except Bip32Error (ExtendedPubKey Point)
  | [] => .ok key
  | i :: path => do
    let child ← key.ckdPub crypto i
    child.derivePub path

end ExtendedPubKey

/-! ### The two derivations agree -/

section Agreement

variable {crypto} {key : ExtendedPrivKey Scalar} {i : ChildNumber} {child : ExtendedPrivKey Scalar}

theorem ExtendedPrivKey.ckdPriv_spec [DecidableEq Scalar]
    (h : key.ckdPriv crypto i = .ok child) :
    ∃ sk tweaked,
      crypto.fromSlice ((crypto.hmac key.chainCode (key.childData crypto i)).take 32) = some sk ∧
      KeyCrypto.addTweak sk key.privateKey = some tweaked ∧
      child =
        { network := key.network
          depth := (key.depth + 1) % 256
          parentFingerprint := crypto.fingerprint (crypto.publicKey key.privateKey)
          childNumber := i
          privateKey := tweaked
          chainCode := (crypto.hmac key.chainCode (key.childData crypto i)).drop 32 } := by
  unfold ckdPriv at h
  dsimp only at h
  split at h
  · cases h
  next sk hslice =>
    split at h
    · cases h
    next tweaked htweak => exact ⟨sk, tweaked, hslice, htweak, (Except.ok.inj h).symm⟩

/-- The hash for a child that is not hardened needs the public key only. -/
theorem ExtendedPubKey.ckdPubTweak_fromPriv (hnormal : i.isHardened = false)
    {sk : { a : Scalar // a ≠ 0 }}
    (hslice : crypto.fromSlice ((crypto.hmac key.chainCode (key.childData crypto i)).take 32) =
      some sk) :
    (fromPriv crypto key).ckdPubTweak crypto i =
      .ok (sk, (crypto.hmac key.chainCode (key.childData crypto i)).drop 32) := by
  have htweak {index : List UInt8}
      (hdata : key.childData crypto i =
        crypto.serialize (crypto.publicKey key.privateKey) ++ index) :
      (fromPriv crypto key).tweakOf crypto index =
        .ok (sk, (crypto.hmac key.chainCode (key.childData crypto i)).drop 32) := by
    unfold tweakOf
    rw [hdata] at hslice ⊢
    dsimp only [fromPriv]
    rw [hslice]
  cases i with
  | normal | normal256 => exact htweak rfl
  | hardened index => cases hnormal
  | hardened256 index => cases hnormal

/-- One child: public after private, or private after public. -/
theorem ExtendedPubKey.ckdPub_fromPriv [DecidableEq Scalar] [DecidableEq Point] (hnormal : i.isHardened = false)
    (h : key.ckdPriv crypto i = .ok child) :
    (fromPriv crypto key).ckdPub crypto i = .ok (fromPriv crypto child) := by
  obtain ⟨sk, tweaked, hslice, htweak, rfl⟩ := ExtendedPrivKey.ckdPriv_spec h
  have hpoint : crypto.addExpTweak (fromPriv crypto key).publicKey sk =
      some (crypto.publicKey tweaked) :=
    crypto.addExpTweak_publicKey htweak
  unfold ckdPub
  rw [ckdPubTweak_fromPriv hnormal hslice]
  simp only [bind, Except.bind, hpoint]
  rfl

variable {final : ExtendedPrivKey Scalar}

theorem ExtendedPrivKey.derivePriv_append [DecidableEq Scalar]
    {p q : List ChildNumber} (h : key.derivePriv crypto (p ++ q) = .ok final) :
    ∃ middle, key.derivePriv crypto p = .ok middle ∧ middle.derivePriv crypto q = .ok final := by
  induction p generalizing key with
  | nil => exact ⟨key, rfl, h⟩
  | cons i p ih =>
    obtain ⟨child, hchild, hrest⟩ := bind_eq_ok h
    obtain ⟨middle, hp, hq⟩ := ih hrest
    refine ⟨middle, ?_, hq⟩
    rw [derivePriv, hchild]
    exact hp

variable {q : List ChildNumber}

/-- A path without hardened numbers. -/
theorem ExtendedPubKey.derivePub_normal [DecidableEq Scalar] [DecidableEq Point]
    (hnormal : ∀ i ∈ q, i.isHardened = false) (h : key.derivePriv crypto q = .ok final) :
    (fromPriv crypto key).derivePub crypto q = .ok (fromPriv crypto final) := by
  induction q generalizing key with
  | nil =>
    obtain rfl := Except.ok.inj h
    rfl
  | cons i q ih =>
    obtain ⟨child, hchild, hrest⟩ := bind_eq_ok h
    rw [derivePub, ckdPub_fromPriv (hnormal i List.mem_cons_self) hchild]
    exact ih (fun j hj => hnormal j (List.mem_cons_of_mem i hj)) hrest

theorem ExtendedPubKey.ckdPub_hardened
    [DecidableEq Point] {key child : ExtendedPubKey Point} (h : key.ckdPub crypto i = .ok child) : i.isHardened = false := by
  obtain ⟨tweak, htweak, -⟩ := bind_eq_ok h
  cases i with
  | normal index => rfl
  | normal256 index => rfl
  | hardened index => cases htweak
  | hardened256 index => cases htweak

theorem ExtendedPubKey.isHardened_of_derivePub [DecidableEq Point]
    {key final : ExtendedPubKey Point} (h : key.derivePub crypto q = .ok final) :
    ∀ i ∈ q, i.isHardened = false := by
  induction q generalizing key with
  | nil => exact fun i hi => absurd hi List.not_mem_nil
  | cons i q ih =>
    obtain ⟨child, hchild, hrest⟩ := bind_eq_ok h
    intro j hj
    rcases List.mem_cons.mp hj with rfl | hj
    · exact ckdPub_hardened hchild
    · exact ih hrest j hj

end Agreement

/-- For every private key, every path, and every path of numbers that are not hardened: if the
private derivation along both meets no invalid tweak, then the public key after the first path
derives along the second the public key of the private key at the end. No public key derives
along a path with a hardened number. -/
theorem derivePub_fromPriv [DecidableEq Scalar] [DecidableEq Point]
    (crypto : KeyCrypto Scalar Point) :
    (∀ (m final : ExtendedPrivKey Scalar) (p q : List ChildNumber),
      (∀ i ∈ q, i.isHardened = false) → m.derivePriv crypto (p ++ q) = .ok final →
      ∃ account, m.derivePriv crypto p = .ok account ∧
        (ExtendedPubKey.fromPriv crypto account).derivePub crypto q =
          .ok (ExtendedPubKey.fromPriv crypto final)) ∧
    ∀ (key : ExtendedPubKey Point) (q : List ChildNumber), (∃ i ∈ q, i.isHardened = true) →
      ∃ e, key.derivePub crypto q = .error e := by
  constructor
  · intro m final p q hnormal h
    obtain ⟨account, hp, hq⟩ := ExtendedPrivKey.derivePriv_append h
    exact ⟨account, hp, ExtendedPubKey.derivePub_normal hnormal hq⟩
  · rintro key q ⟨i, hi, hhardened⟩
    cases hderive : key.derivePub crypto q with
    | error e => exact ⟨e, rfl⟩
    | ok final =>
      have hnormal := ExtendedPubKey.isHardened_of_derivePub hderive i hi
      rw [hhardened] at hnormal
      cases hnormal

end Keys

/-! ### A toy curve -/

namespace ToyCurve

/-- The integers are both scalars and points. -/
def crypto : KeyCrypto ℤ ℤ where
  mulGenerator := AddMonoidHom.id ℤ
  injective := fun _ _ h => h
  fromSlice bytes := some ⟨bytes.length + 1, by omega⟩
  secretBytes a := [UInt8.ofNat a.1.natAbs]
  serialize p := [2, UInt8.ofNat p.1.natAbs]
  hmac key data := key ++ data
  hash160 bytes := bytes

def master : ExtendedPrivKey ℤ where
  network := .mainnet
  depth := 0
  parentFingerprint := [0, 0, 0, 0]
  childNumber := .normal 0
  privateKey := ⟨5, by decide⟩
  chainCode := List.replicate 32 7

/-- An account is derived with secrets, and an address of it without. -/
theorem watch_only_address :
    ∃ account final, master.derivePriv crypto [.hardened 5] = .ok account ∧
      master.derivePriv crypto ([.hardened 5] ++ [.normal 0, .normal256 (.replicate 32 1)]) =
        .ok final ∧
      (ExtendedPubKey.fromPriv crypto account).derivePub crypto
        [.normal 0, .normal256 (.replicate 32 1)] = .ok (ExtendedPubKey.fromPriv crypto final) := by
  have hderives : ∃ final, master.derivePriv crypto
      ([.hardened 5] ++ [.normal 0, .normal256 (.replicate 32 1)]) = .ok final := ⟨_, rfl⟩
  obtain ⟨final, hfinal⟩ := hderives
  obtain ⟨account, haccount, hpub⟩ := (derivePub_fromPriv crypto).1 master final [.hardened 5]
    [.normal 0, .normal256 (.replicate 32 1)] (by decide) hfinal
  exact ⟨account, final, haccount, hfinal, hpub⟩

end ToyCurve

end Dashcore
