import Dashcore.Lib.SortedMap
import Dashcore.Transaction

/-!
# Address pools

A pool derives addresses of one branch of an account in index order and keeps a gap of
unused addresses ahead of the highest used one. Lookups go through two indices, by
address and by output script.

Key derivation is not translated: a key source is an arbitrary function from branch and
index to a public key and its hash, which may fail.
-/

namespace Dashcore

open SortedMap

/-- The branch of an account that a pool derives. -/
inductive AddressPoolType
  | external
  | internal
  | absent
  | absentHardened
  deriving DecidableEq

/-- The public key behind an address. -/
inductive PublicKeyType
  | ecdsa (bytes : List UInt8)
  | eddsa (bytes : List UInt8)
  | bls (bytes : List UInt8)
  deriving DecidableEq

/-- What a pool knows about one of its addresses. -/
structure AddressInfo where
  address : Address
  scriptPubkey : ScriptBuf
  publicKey : Option PublicKeyType
  index : Nat
  used : Bool
  deriving DecidableEq

/-- Key derivation: the hash and the public key at an index of a branch. -/
abbrev KeySource := AddressPoolType → Nat → Option (PubkeyHash × PublicKeyType)

/-- A pool of derived addresses. -/
structure AddressPool where
  poolType : AddressPoolType
  gapLimit : Nat
  addresses : SortedMap Nat AddressInfo
  addressIndex : SortedMap Address Nat
  scriptPubkeyIndex : SortedMap ScriptBuf Nat
  usedIndices : List Nat
  highestGenerated : Option Nat
  highestUsed : Option Nat
  deriving DecidableEq

namespace AddressPool

/-- A pool without addresses. -/
def newWithoutGeneration (poolType : AddressPoolType) (gapLimit : Nat) : AddressPool where
  poolType := poolType
  gapLimit := gapLimit
  addresses := ∅
  addressIndex := ∅
  scriptPubkeyIndex := ∅
  usedIndices := []
  highestGenerated := none
  highestUsed := none

variable (p : AddressPool)

def isInternal : Bool := p.poolType = .internal

def containsAddress (address : Address) : Bool := p.addressIndex.contains address

def containsScriptPubkey (script : ScriptBuf) : Bool :=
  p.scriptPubkeyIndex.contains script

def addressInfo (address : Address) : Option AddressInfo :=
  (p.addressIndex.get? address).bind p.addresses.get?

/-- Store a derived key at an index. -/
def addDerived (index : Nat) (hash : PubkeyHash) (key : PublicKeyType) : AddressPool :=
  let address := Address.pubkeyHash hash
  { p with
    addresses := p.addresses.insert index
      { address, scriptPubkey := address.scriptPubkey, publicKey := some key, index, used := false }
    addressIndex := p.addressIndex.insert address index
    scriptPubkeyIndex := p.scriptPubkeyIndex.insert address.scriptPubkey index
    highestGenerated := some (max index (p.highestGenerated.getD index)) }

/-- Derive the address at an index unless it is there; `none` if the derivation fails. -/
def generateAddressAtIndex (keySource : KeySource) (index : Nat) : Option AddressPool :=
  if p.addresses.contains index then some p
  else (keySource p.poolType index).map fun (hash, key) => p.addDerived index hash key

/-- A pool with its first `gapLimit` addresses; `none` if a derivation fails. -/
def new (poolType : AddressPoolType) (gapLimit : Nat) (keySource : KeySource) :
    Option AddressPool :=
  (List.range gapLimit).foldlM (fun p index => p.generateAddressAtIndex keySource index)
    (newWithoutGeneration poolType gapLimit)

/-- Mark an address as used; the result says whether that is news. -/
def markUsed (address : Address) : AddressPool × Bool :=
  match p.addressIndex.get? address with
  | none => (p, false)
  | some index =>
    match p.addresses.get? index with
    | none => (p, false)
    | some info =>
      if info.used then (p, false)
      else
        ({ p with
            addresses := p.addresses.insert index { info with used := true }
            usedIndices := index :: p.usedIndices
            highestUsed := some (max index (p.highestUsed.getD index)) }, true)

/-- The loop of `maintainGapLimit`. Each round raises the highest generated index, so the
target bounds the rounds. -/
def maintainLoop (keySource : KeySource) (target : Nat) :
    Nat → AddressPool → List AddressInfo → AddressPool × Option (List AddressInfo)
  | 0, p, infos => (p, some infos)
  | fuel + 1, p, infos =>
    if p.highestGenerated.getD 0 < target then
      let next := match p.highestGenerated with
        | some highest => highest + 1
        | none => 0
      match p.generateAddressAtIndex keySource next with
      | none => (p, none)
      | some p =>
        match p.addresses.get? next with
        | some info => maintainLoop keySource target fuel p (infos ++ [info])
        | none => (p, none)
    else (p, some infos)

/-- Derive addresses until a gap of unused ones follows the highest used one. The result is
the new entries, or `none` if a derivation failed; what was derived before stays. -/
def maintainGapLimit (keySource : KeySource) : AddressPool × Option (List AddressInfo) :=
  let target := match p.highestUsed with
    | none => p.gapLimit - 1
    | some highest => highest + p.gapLimit
  maintainLoop keySource target (target + 1) p []

/-! ### Consistency -/

/-- Every indexed address leads to its entry and is found by its script, and no entry lies
above the highest generated index. -/
structure Consistent (p : AddressPool) : Prop where
  entry : ∀ a i, p.addressIndex.get? a = some i →
    ∃ info, p.addresses.get? i = some info ∧ info.address = a
  script : ∀ a i, p.addressIndex.get? a = some i → p.scriptPubkeyIndex.contains a.scriptPubkey = true
  bounded : ∀ i info, p.addresses.get? i = some info →
    ∃ highest, p.highestGenerated = some highest ∧ i ≤ highest

variable {p : AddressPool}

theorem consistent_newWithoutGeneration (poolType : AddressPoolType) (gapLimit : Nat) :
    (newWithoutGeneration poolType gapLimit).Consistent where
  entry := fun _ _ h => by cases h
  script := fun _ _ h => by cases h
  bounded := fun _ _ h => by cases h

variable {index : Nat}

/-- A new index can be filled without disturbing the entries of other addresses. -/
theorem Consistent.addDerived (h : p.Consistent)
    (hfresh : p.addresses.contains index = false) (hash : PubkeyHash) (key : PublicKeyType) :
    (p.addDerived index hash key).Consistent where
  entry := by
    intro a i hi
    simp only [AddressPool.addDerived, get?_insert] at hi ⊢
    split_ifs at hi with ha
    · cases hi
      exact ⟨_, if_pos rfl, ha⟩
    · obtain ⟨info, hinfo, haddr⟩ := h.entry a i hi
      have hne : index ≠ i := by
        rintro rfl
        simp [contains, hinfo] at hfresh
      exact ⟨info, by rw [if_neg hne, hinfo], haddr⟩
  script := by
    intro a i hi
    simp only [AddressPool.addDerived, get?_insert] at hi
    simp only [AddressPool.addDerived, contains, get?_insert]
    split_ifs at hi with ha
    · simp [← ha]
    · split_ifs
      · rfl
      · exact h.script a i hi
  bounded := by
    intro i info hi
    refine ⟨_, rfl, ?_⟩
    obtain ⟨rfl, -⟩ | ⟨-, hi⟩ := of_get?_insert hi
    · exact le_max_left _ _
    · obtain ⟨highest, hhighest, hle⟩ := h.bounded i info hi
      exact hle.trans (by simp [hhighest])

variable {keySource : KeySource} {p' : AddressPool}

theorem Consistent.generateAddressAtIndex (h : p.Consistent) (hp' : p.generateAddressAtIndex keySource index = some p') : p'.Consistent := by
  rw [AddressPool.generateAddressAtIndex] at hp'
  split_ifs at hp' with hthere
  · cases hp'
    exact h
  · obtain ⟨⟨hash, key⟩, -, rfl⟩ := Option.map_eq_some_iff.mp hp'
    exact h.addDerived (Bool.eq_false_iff.mpr hthere) hash key

/-- A new pool is consistent: the fold derives one index after the other. -/
theorem Consistent.foldlM_generate (h : p.Consistent) {indices : List Nat}
    (hp' : indices.foldlM (fun p index => p.generateAddressAtIndex keySource index) p = some p') :
    p'.Consistent := by
  induction indices generalizing p with
  | nil =>
    cases hp'
    exact h
  | cons index indices ih =>
    obtain ⟨q, hq, hrest⟩ := Option.bind_eq_some_iff.mp hp'
    exact ih (h.generateAddressAtIndex hq) hrest

theorem Consistent.markUsed (h : p.Consistent) (address : Address) :
    (p.markUsed address).1.Consistent := by
  rw [AddressPool.markUsed]
  split
  · exact h
  · next index hindex =>
    split
    · exact h
    · next info hinfo =>
      split_ifs
      · exact h
      · refine ⟨fun a i hi => ?_, h.script, fun i info' hi => ?_⟩
        -- the rewritten entry keeps its address
        · obtain ⟨info', hinfo', haddr⟩ := h.entry a i hi
          simp only [get?_insert]
          split_ifs with heq
          · cases heq
            cases hinfo.symm.trans hinfo'
            exact ⟨_, rfl, haddr⟩
          · exact ⟨info', hinfo', haddr⟩
        · obtain ⟨rfl, -⟩ | ⟨-, hi⟩ := of_get?_insert hi
          · exact h.bounded _ info hinfo
          · exact h.bounded i info' hi

/-- Deriving keeps the pool type and every address. -/
structure Grows (p p' : AddressPool) : Prop where
  poolType : p'.poolType = p.poolType
  address : ∀ a, p.containsAddress a = true → p'.containsAddress a = true

theorem Grows.refl (p : AddressPool) : Grows p p := ⟨rfl, fun _ h => h⟩

theorem Grows.trans {p p' p'' : AddressPool} (h : Grows p p') (h' : Grows p' p'') : Grows p p'' :=
  ⟨h'.poolType.trans h.poolType, fun a ha => h'.address a (h.address a ha)⟩

theorem grows_generateAddressAtIndex
    (hp' : p.generateAddressAtIndex keySource index = some p') : Grows p p' := by
  rw [generateAddressAtIndex] at hp'
  split_ifs at hp' with hthere
  · cases hp'
    exact .refl p
  · obtain ⟨⟨hash, key⟩, -, rfl⟩ := Option.map_eq_some_iff.mp hp'
    refine ⟨rfl, fun a ha => ?_⟩
    simp only [containsAddress, contains, addDerived, get?_insert]
    split_ifs
    · rfl
    · exact ha

theorem markUsed_containsAddress (p : AddressPool) (address a : Address) :
    (p.markUsed address).1.containsAddress a = p.containsAddress a := by
  rw [markUsed]
  split
  · rfl
  · split
    · rfl
    · split_ifs <;> rfl

/-- What every derivation keeps, the loop keeps. -/
theorem maintainLoop_induction {P : AddressPool → Prop}
    (hP : ∀ p index p', P p → p.generateAddressAtIndex keySource index = some p' → P p')
    (target fuel : Nat) {p : AddressPool} (infos : List AddressInfo) (h : P p) :
    P (maintainLoop keySource target fuel p infos).1 := by
  induction fuel generalizing p infos with
  | zero => exact h
  | succ fuel ih =>
    rw [maintainLoop]
    split_ifs
    · dsimp only
      split
      · exact h
      · next p' hp' =>
        have hnext : P p' := hP p _ p' h hp'
        split
        · exact ih _ hnext
        · exact hnext
    · exact h

theorem Consistent.maintainGapLimit (h : p.Consistent) (keySource : KeySource) :
    (p.maintainGapLimit keySource).1.Consistent :=
  maintainLoop_induction (fun _ _ _ hp hp' => hp.generateAddressAtIndex hp') _ _ [] h

theorem grows_maintainGapLimit (p : AddressPool) (keySource : KeySource) :
    Grows p (p.maintainGapLimit keySource).1 :=
  maintainLoop_induction (fun _ _ _ hp hp' => hp.trans (grows_generateAddressAtIndex hp')) _ _ []
    (.refl p)

end AddressPool

/-- A pool whose indices lead to its entries. -/
abbrev ConsistentPool := { p : AddressPool // p.Consistent }

namespace ConsistentPool

/-- A new pool with its first `gapLimit` addresses. -/
def new (poolType : AddressPoolType) (gapLimit : Nat) (keySource : KeySource) :
    Option ConsistentPool :=
  match h : AddressPool.new poolType gapLimit keySource with
  | none => none
  | some p =>
    some ⟨p, (AddressPool.consistent_newWithoutGeneration poolType gapLimit).foldlM_generate h⟩

def markUsed (p : ConsistentPool) (address : Address) : ConsistentPool × Bool :=
  (⟨(p.1.markUsed address).1, p.2.markUsed address⟩, (p.1.markUsed address).2)

def maintainGapLimit (p : ConsistentPool) (keySource : KeySource) :
    ConsistentPool × Option (List AddressInfo) :=
  (⟨(p.1.maintainGapLimit keySource).1, p.2.maintainGapLimit keySource⟩,
    (p.1.maintainGapLimit keySource).2)

/-- An address of the pool is found by its script, with its entry. -/
theorem found {p : ConsistentPool} {a : Address} (h : p.1.containsAddress a = true) :
    p.1.containsScriptPubkey a.scriptPubkey = true ∧
      ∃ info, p.1.addressInfo a = some info ∧ info.address = a := by
  obtain ⟨i, hi⟩ := contains_iff.mp h
  obtain ⟨info, hinfo, haddr⟩ := p.2.entry a i hi
  exact ⟨p.2.script a i hi, info, by rw [AddressPool.addressInfo, hi, Option.bind_some, hinfo],
    haddr⟩

end ConsistentPool

end Dashcore
