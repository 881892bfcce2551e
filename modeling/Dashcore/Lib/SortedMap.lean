import Mathlib.Data.List.Sigma
import Mathlib.Data.List.Sort

/-!
# Finite maps as key-sorted entry lists

An ordered map is the list of its entries, strictly sorted by key. Sortedness is a
field of the map, so two maps with the same lookups are equal, iteration goes in
key order, and every operation evaluates by structural recursion.
-/

universe u v w

/-- A finite map, kept as its entries in strictly increasing key order. -/
structure SortedMap (K : Type u) (V : Type v) [LinearOrder K] where
  /-- The entries in key order. -/
  entries : List ((_ : K) × V)
  /-- Keys strictly increase along the list. -/
  sorted : entries.Pairwise fun a b => a.1 < b.1
  deriving DecidableEq

namespace SortedMap

variable {K : Type u} {V : Type v} {W : Type w} [LinearOrder K]

/-! ### Operations -/

/-- The map without entries. -/
def empty : SortedMap K V := ⟨[], List.Pairwise.nil⟩

instance : EmptyCollection (SortedMap K V) := ⟨empty⟩

instance : Inhabited (SortedMap K V) := ⟨∅⟩

section

variable (m : SortedMap K V)

/-- The value stored under a key. -/
def get? (k : K) : Option V := m.entries.dlookup k

/-- Whether a key has an entry. -/
def contains (k : K) : Bool := (m.get? k).isSome

/-- Number of entries. -/
def size : Nat := m.entries.length

/-- The keys in increasing order. -/
def keys : List K := m.entries.map Sigma.fst

/-- The values in key order. -/
def values : List V := m.entries.map Sigma.snd

end

/-- Place an entry in a sorted list, replacing the entry of an equal key. -/
def insertEntry (k : K) (v : V) : List ((_ : K) × V) → List ((_ : K) × V)
  | [] => [⟨k, v⟩]
  | e :: rest =>
    if k < e.1 then ⟨k, v⟩ :: e :: rest
    else if e.1 < k then e :: insertEntry k v rest
    else ⟨k, v⟩ :: rest

variable {m : SortedMap K V} {k : K} {v : V} {l : List ((_ : K) × V)} {e : (_ : K) × V}

theorem mem_insertEntry (h : e ∈ insertEntry k v l) : e = ⟨k, v⟩ ∨ e ∈ l := by
  induction l with
  | nil => simpa [insertEntry] using h
  | cons x rest ih =>
    rw [insertEntry] at h
    split_ifs at h <;> grind

theorem insertEntry_pairwise (k : K) (v : V)
    (h : l.Pairwise fun a b => a.1 < b.1) :
    (insertEntry k v l).Pairwise fun a b => a.1 < b.1 := by
  induction l with
  | nil => simp [insertEntry]
  | cons x rest ih =>
    obtain ⟨hx, hrest⟩ := List.pairwise_cons.mp h
    rw [insertEntry]
    split_ifs with hlt hgt
    · refine List.pairwise_cons.mpr ⟨fun e he => ?_, h⟩
      rcases List.mem_cons.mp he with rfl | he
      · exact hlt
      · exact hlt.trans (hx e he)
    · refine List.pairwise_cons.mpr ⟨fun e he => ?_, ih hrest⟩
      rcases mem_insertEntry he with rfl | he
      · exact hgt
      · exact hx e he
    · have hk : k = x.1 := le_antisymm (not_lt.mp hgt) (not_lt.mp hlt)
      exact List.pairwise_cons.mpr ⟨fun e he => hk ▸ hx e he, hrest⟩

theorem insertEntry_of_lt (h : ∀ e ∈ l, e.1 < k) : insertEntry k v l = l ++ [⟨k, v⟩] := by
  induction l with
  | nil => rfl
  | cons e rest ih =>
    obtain ⟨he, hrest⟩ := List.forall_mem_cons.mp h
    rw [insertEntry, if_neg he.not_gt, if_pos he, ih hrest, List.cons_append]

section

variable (m : SortedMap K V)

/-- Store a value under a key. -/
def insert (k : K) (v : V) : SortedMap K V :=
  ⟨insertEntry k v m.entries, insertEntry_pairwise k v m.sorted⟩

/-- Keep the entries that satisfy a test. -/
def filter (p : K → V → Bool) : SortedMap K V :=
  ⟨m.entries.filter fun e => p e.1 e.2, m.sorted.filter _⟩

/-- Drop the entry of a key. -/
def erase (k : K) : SortedMap K V := m.filter fun k' _ => k' ≠ k

/-- Rewrite every value, seeing its key. -/
def mapVal (f : K → V → W) : SortedMap K W :=
  ⟨m.entries.map fun e => ⟨e.1, f e.1 e.2⟩, m.sorted.map _ fun _ _ h => h⟩

/-- Rewrite the values that a function maps, and drop the others. -/
def filterMap (f : K → V → Option W) : SortedMap K W :=
  ⟨m.entries.filterMap fun e => (f e.1 e.2).map fun w => ⟨e.1, w⟩, by
    refine List.Pairwise.filterMap _ (fun e e' hlt x hx x' hx' => ?_) m.sorted
    obtain ⟨w, -, rfl⟩ := Option.map_eq_some_iff.mp hx
    obtain ⟨w', -, rfl⟩ := Option.map_eq_some_iff.mp hx'
    exact hlt⟩

/-- Store all entries of a second map, replacing those of equal keys. -/
def union (m m' : SortedMap K V) : SortedMap K V :=
  m'.entries.foldl (fun acc e => acc.insert e.1 e.2) m

/-- The last entry whose key is at most `k`. -/
def lastLE (k : K) : Option V :=
  ((m.entries.filter fun e => decide (e.1 ≤ k)).getLast?).map Sigma.snd

/-- The first entry whose key is at least `k`. -/
def firstGE (k : K) : Option V :=
  (m.entries.find? fun e => decide (k ≤ e.1)).map Sigma.snd

/-! ### Lookup -/

theorem nodupKeys : m.entries.NodupKeys :=
  List.nodupKeys_iff_pairwise.mpr (m.sorted.imp ne_of_lt)

end

theorem mem_entries_iff : (⟨k, v⟩ : (_ : K) × V) ∈ m.entries ↔ m.get? k = some v :=
  (List.mem_dlookup_iff m.nodupKeys).symm

theorem contains_iff : m.contains k = true ↔ ∃ v, m.get? k = some v := by
  simp [contains, Option.isSome_iff_exists]

theorem mem_values_iff : v ∈ m.values ↔ ∃ k, m.get? k = some v := by
  constructor
  · intro h
    obtain ⟨⟨k, v'⟩, he, rfl⟩ := List.mem_map.mp h
    exact ⟨k, mem_entries_iff.mp he⟩
  · rintro ⟨k, h⟩
    exact List.mem_map.mpr ⟨⟨k, v⟩, mem_entries_iff.mpr h, rfl⟩

theorem mem_keys_iff : k ∈ m.keys ↔ ∃ v, m.get? k = some v := by
  constructor
  · intro h
    obtain ⟨⟨k', v⟩, he, rfl⟩ := List.mem_map.mp h
    exact ⟨v, mem_entries_iff.mp he⟩
  · rintro ⟨v, h⟩
    exact List.mem_map.mpr ⟨⟨k, v⟩, mem_entries_iff.mpr h, rfl⟩

theorem nodup_keys (m : SortedMap K V) : m.keys.Nodup := m.nodupKeys

/-- A map is determined by its lookups. -/
@[ext]
theorem ext_get? {m' : SortedMap K V} (h : ∀ k, m.get? k = m'.get? k) : m = m' := by
  have hperm := List.lookup_ext m.nodupKeys m'.nodupKeys fun k v => by
    rw [show m.entries.dlookup k = m'.entries.dlookup k from h k]
  have hentries : m.entries = m'.entries :=
    hperm.eq_of_pairwise (fun _ _ _ _ hab hba => absurd hab hba.asymm) m.sorted m'.sorted
  cases m
  cases m'
  simpa using hentries

@[simp, grind =]
theorem get?_empty (k : K) : (∅ : SortedMap K V).get? k = none := rfl

theorem dlookup_insertEntry (k k' : K) (v : V) (l : List ((_ : K) × V)) :
    (insertEntry k v l).dlookup k' = if k = k' then some v else l.dlookup k' := by
  induction l with
  | nil => by_cases h : k = k' <;> simp [insertEntry, h, Ne.symm]
  | cons x rest ih =>
    obtain ⟨kx, vx⟩ := x
    rw [insertEntry]
    by_cases hkey : k' = kx <;> split_ifs <;> grind

@[simp, grind =]
theorem get?_insert (m : SortedMap K V) (k k' : K) (v : V) :
    (m.insert k v).get? k' = if k = k' then some v else m.get? k' :=
  dlookup_insertEntry k k' v m.entries

@[simp, grind =]
theorem get?_filter (m : SortedMap K V) (p : K → V → Bool) (k : K) :
    (m.filter p).get? k = (m.get? k).filter (p k) := by
  ext v
  rw [← mem_entries_iff, Option.filter_eq_some_iff, ← mem_entries_iff]
  simp [filter]

variable {p : K → V → Bool}

theorem get?_of_filter (h : (m.filter p).get? k = some v) :
    m.get? k = some v := by
  rw [get?_filter] at h
  exact (Option.filter_eq_some_iff.mp h).1

/-- Filtering by key keeps exactly the keys that pass. -/
theorem contains_filter_key (m : SortedMap K V) (p : K → Bool) (k : K) :
    (m.filter fun key _ => p key).contains k = true ↔ m.contains k = true ∧ p k = true := by
  rw [contains, get?_filter, contains]
  cases m.get? k <;> simp [Option.filter]

@[simp, grind =]
theorem get?_erase (m : SortedMap K V) (k k' : K) :
    (m.erase k).get? k' = if k = k' then none else m.get? k' := by
  rw [erase, get?_filter]
  split_ifs with h
  · subst h
    cases m.get? k <;> simp
  · cases m.get? k' <;> simp [Ne.symm h]

theorem get?_insert_self : (m.insert k v).get? k = some v := by
  rw [get?_insert, if_pos rfl]

variable {k' : K}

theorem contains_insert :
    (m.insert k v).contains k' = true ↔ k' = k ∨ m.contains k' = true := by
  rw [contains, contains, get?_insert]
  by_cases hk : k = k'
  · simp [hk]
  · simp [hk, Ne.symm hk]

/-- An entry beside a new one is the new one or an old one. -/
theorem of_get?_insert {w : V} (h : (m.insert k v).get? k' = some w) :
    k = k' ∧ v = w ∨ k ≠ k' ∧ m.get? k' = some w := by
  rw [get?_insert] at h
  split_ifs at h with hk
  · exact .inl ⟨hk, Option.some.inj h⟩
  · exact .inr ⟨hk, h⟩

theorem of_get?_erase (h : (m.erase k).get? k' = some v) :
    k ≠ k' ∧ m.get? k' = some v := by
  rw [get?_erase] at h
  split_ifs at h with hk
  exact ⟨hk, h⟩

/-- What holds of all entries and of a new one holds of all with the new one. -/
theorem forall_get?_insert {P : K → V → Prop} (h : ∀ k v, m.get? k = some v → P k v)
    (hnew : P k v) (k' : K) (w : V) (hget : (m.insert k v).get? k' = some w) : P k' w := by
  obtain ⟨rfl, rfl⟩ | ⟨-, hold⟩ := of_get?_insert hget
  · exact hnew
  · exact h k' w hold

theorem size_eq_zero_iff : m.size = 0 ↔ ∀ k, m.get? k = none := by
  constructor
  · intro h k
    have hnil : m.entries = [] := List.length_eq_zero_iff.mp h
    rw [get?, hnil, List.dlookup_nil]
  · intro h
    have hempty : m = ∅ := by
      ext k
      rw [h k, get?_empty]
    rw [hempty]
    rfl

/-- Dropping an entry makes a map smaller. -/
theorem size_erase_lt (h : m.get? k = some v) : (m.erase k).size < m.size := by
  unfold size erase filter
  rw [List.length_filter_lt_length_iff_exists]
  exact ⟨⟨k, v⟩, mem_entries_iff.mpr h, by simp⟩

/-- An entry can be moved to the front of the others. -/
theorem perm_erase (h : m.get? k = some v) : m.entries.Perm (⟨k, v⟩ :: (m.erase k).entries) := by
  have hnotin : (⟨k, v⟩ : (_ : K) × V) ∉ (m.erase k).entries := by
    rw [mem_entries_iff, get?_erase, if_pos rfl]
    simp
  refine (List.perm_ext_iff_of_nodup m.nodupKeys.nodup
    (List.nodup_cons.mpr ⟨hnotin, (m.erase k).nodupKeys.nodup⟩)).mpr fun e => ?_
  obtain ⟨k', v'⟩ := e
  rw [List.mem_cons, mem_entries_iff, mem_entries_iff, get?_erase]
  by_cases hk : k = k'
  · subst hk
    rw [if_pos rfl, h]
    simp [eq_comm]
  · rw [if_neg hk]
    simp [Ne.symm hk]

theorem erase_insert_of_none (h : m.get? k = none) (v : V) : (m.insert k v).erase k = m := by
  refine ext_get? fun k' => ?_
  rw [get?_erase, get?_insert]
  split_ifs with hk
  · rw [← hk, h]
  · rfl

theorem erase_insert (m : SortedMap K V) (k : K) (v : V) : (m.insert k v).erase k = m.erase k := by
  refine ext_get? fun k' => ?_
  rw [get?_erase, get?_insert, get?_erase]
  split_ifs <;> rfl

/-- A new entry joins the others. -/
theorem perm_insert (h : m.get? k = none) (v : V) :
    (m.insert k v).entries.Perm (⟨k, v⟩ :: m.entries) := by
  have hperm := perm_erase (show (m.insert k v).get? k = some v by simp)
  rwa [erase_insert_of_none h] at hperm

@[simp, grind =]
theorem get?_mapVal (m : SortedMap K V) (f : K → V → W) (k : K) :
    (m.mapVal f).get? k = (m.get? k).map (f k) := by
  ext w
  rw [← mem_entries_iff, Option.map_eq_some_iff]
  constructor
  · intro h
    obtain ⟨⟨k', v⟩, he, heq⟩ := List.mem_map.mp h
    obtain ⟨rfl, hw⟩ := Sigma.mk.inj heq
    exact ⟨v, mem_entries_iff.mp he, eq_of_heq hw⟩
  · rintro ⟨v, hv, rfl⟩
    exact List.mem_map.mpr ⟨⟨k, v⟩, mem_entries_iff.mpr hv, rfl⟩

@[simp, grind =]
theorem get?_filterMap (m : SortedMap K V) (f : K → V → Option W) (k : K) :
    (m.filterMap f).get? k = (m.get? k).bind (f k) := by
  ext w
  rw [← mem_entries_iff, Option.bind_eq_some_iff]
  constructor
  · intro h
    obtain ⟨⟨k', v⟩, he, heq⟩ := List.mem_filterMap.mp h
    obtain ⟨w', hw', heq⟩ := Option.map_eq_some_iff.mp heq
    obtain ⟨rfl, hw⟩ := Sigma.mk.inj heq
    cases eq_of_heq hw
    exact ⟨v, mem_entries_iff.mp he, hw'⟩
  · rintro ⟨v, hv, hw⟩
    exact List.mem_filterMap.mpr ⟨⟨k, v⟩, mem_entries_iff.mpr hv, by simp [hw]⟩

theorem get?_foldl_insert (entries : List ((_ : K) × V)) (m : SortedMap K V) (k : K)
    (hsorted : entries.Pairwise fun a b => a.1 < b.1) :
    (entries.foldl (fun acc e => acc.insert e.1 e.2) m).get? k =
      (entries.dlookup k).or (m.get? k) := by
  induction entries generalizing m with
  | nil => rfl
  | cons e rest ih =>
    obtain ⟨ke, ve⟩ := e
    obtain ⟨hlt, hrest⟩ := List.pairwise_cons.mp hsorted
    rw [List.foldl_cons, ih _ hrest, get?_insert]
    split_ifs with hk
    · -- the keys after `k` are greater, so none of them is `k` again
      subst hk
      have hnone : rest.dlookup ke = none :=
        List.dlookup_eq_none.mpr fun hmem => by
          obtain ⟨e, he, heq⟩ := List.mem_map.mp hmem
          exact (hlt e he).ne heq.symm
      rw [hnone, List.dlookup_cons_eq]
      rfl
    · rw [List.dlookup_cons_ne _ _ (Ne.symm hk)]

@[simp, grind =]
theorem get?_union (m m' : SortedMap K V) (k : K) :
    (m.union m').get? k = (m'.get? k).or (m.get? k) :=
  get?_foldl_insert m'.entries m k m'.sorted

/-- Maps with entries for the same keys list them alike. -/
theorem keys_eq_of_contains {m' : SortedMap K W} (h : ∀ k, m'.contains k = m.contains k) :
    m'.keys = m.keys := by
  -- without their values the two maps are equal
  have hunit : m'.mapVal (fun _ _ => ()) = m.mapVal fun _ _ => () := by
    ext1 k
    have hk := h k
    rw [contains, contains] at hk
    cases hm' : m'.get? k <;> cases hm : m.get? k <;> simp [hm, hm'] at hk ⊢
  have hkeys := congrArg SortedMap.keys hunit
  simpa [keys, mapVal, Function.comp_def] using hkeys

theorem mem_values_insert {v w : V} (h : w ∈ (m.insert k v).values) : w = v ∨ w ∈ m.values := by
  obtain ⟨k', hk'⟩ := mem_values_iff.mp h
  exact (of_get?_insert hk').imp (fun hnew => hnew.2.symm)
    fun hold => mem_values_iff.mpr ⟨k', hold.2⟩

theorem mem_values_filter {w : V} (h : w ∈ (m.filter p).values) :
    w ∈ m.values := by
  obtain ⟨k', hk'⟩ := mem_values_iff.mp h
  rw [get?_filter, Option.filter_eq_some_iff] at hk'
  exact mem_values_iff.mpr ⟨k', hk'.1⟩

theorem mem_values_erase {w : V} (h : w ∈ (m.erase k).values) : w ∈ m.values :=
  mem_values_filter h

/-! ### Maps with related values -/

variable {R : V → W → Prop} {x : Option V} {y : Option W}

theorem exists_of_optionRel_left
    (h : Option.Rel R x y) (hx : x = some v) : ∃ w, y = some w ∧ R v w := by
  subst hx
  cases h with
  | some hR => exact ⟨_, rfl, hR⟩

theorem exists_of_optionRel_right {w : W}
    (h : Option.Rel R x y) (hy : y = some w) : ∃ v, x = some v ∧ R v w := by
  subst hy
  cases h with
  | some hR => exact ⟨_, rfl, hR⟩

/-- Two maps have the same keys, and the values of each key are related. -/
def Rel (R : V → W → Prop) (m : SortedMap K V) (m' : SortedMap K W) : Prop :=
  ∀ k, Option.Rel R (m.get? k) (m'.get? k)

theorem rel_refl {R : V → V → Prop} (hR : ∀ v, R v v) (m : SortedMap K V) : m.Rel R m := by
  intro k
  cases m.get? k with
  | none => exact .none
  | some v => exact .some (hR v)

theorem rel_mapVal {f : K → V → W}
    (hR : ∀ k v, m.get? k = some v → R v (f k v)) : m.Rel R (m.mapVal f) := by
  intro k
  rw [get?_mapVal]
  cases hk : m.get? k with
  | none => exact .none
  | some v => exact .some (hR k v hk)

namespace Rel

variable {R : V → W → Prop} {m' : SortedMap K W} (h : m.Rel R m')
include h

theorem of_get? {w : W} (hk : m'.get? k = some w) :
    ∃ v, m.get? k = some v ∧ R v w :=
  exists_of_optionRel_right (h k) hk

theorem get? {v : V} (hk : m.get? k = some v) :
    ∃ w, m'.get? k = some w ∧ R v w :=
  exists_of_optionRel_left (h k) hk

theorem mono {R' : V → W → Prop} (hR : ∀ v w, R v w → R' v w) :
    m.Rel R' m' := by
  intro k
  have hrel := h k
  generalize m.get? k = x, m'.get? k = y at hrel
  cases hrel with
  | none => exact .none
  | some hvw => exact .some (hR _ _ hvw)

theorem trans {U : Type*} {R' : W → U → Prop} {R'' : V → U → Prop} {m'' : SortedMap K U} (hR : ∀ u v w, R u v → R' v w → R'' u w) (h' : m'.Rel R' m'') :
    m.Rel R'' m'' := by
  intro k
  have hfirst := h k
  have hsecond := h' k
  generalize m.get? k = x, m'.get? k = y at hfirst hsecond
  cases hfirst with
  | none =>
    generalize m''.get? k = z at hsecond
    cases hsecond
    exact .none
  | some hxy =>
    generalize m''.get? k = z at hsecond
    cases hsecond with
    | some hyz => exact .some (hR _ _ _ hxy hyz)

end Rel

/-! ### Nearest entries -/

/-- The last entry of a sorted list is the one whose key no other entry exceeds. -/
theorem getLast?_eq_some_iff (h : l.Pairwise fun a b => a.1 < b.1) : l.getLast? = some e ↔ e ∈ l ∧ ∀ e' ∈ l, e'.1 ≤ e.1 := by
  rcases List.eq_nil_or_concat' l with rfl | ⟨init, last, rfl⟩
  · simp
  · obtain ⟨-, -, hlast⟩ := List.pairwise_append.mp h
    have hle : ∀ e' ∈ init ++ [last], e'.1 ≤ last.1 := fun e' he' => by
      rcases List.mem_append.mp he' with he' | he'
      · exact (hlast e' he' last (List.mem_singleton_self last)).le
      · exact (List.mem_singleton.mp he').symm ▸ le_rfl
    simp only [List.getLast?_concat, Option.some.injEq]
    constructor
    · rintro rfl
      exact ⟨by simp, hle⟩
    · rintro ⟨hmem, hmax⟩
      rcases List.mem_append.mp hmem with hmem | hmem
      · have hlt := hlast e hmem last (List.mem_singleton_self last)
        exact absurd (hmax last (by simp)) (not_le.mpr hlt)
      · exact (List.mem_singleton.mp hmem).symm

/-- The last value is the one under the greatest key. -/
theorem values_getLast?_eq_some (h : m.values.getLast? = some v) :
    ∃ k, m.get? k = some v ∧ ∀ k' v', m.get? k' = some v' → k' ≤ k := by
  rw [values, List.getLast?_map] at h
  obtain ⟨⟨k, v⟩, hlast, rfl⟩ := Option.map_eq_some_iff.mp h
  obtain ⟨hmem, hmax⟩ := (getLast?_eq_some_iff m.sorted).mp hlast
  refine ⟨k, mem_entries_iff.mp hmem, fun k' v' hget => ?_⟩
  exact hmax ⟨k', v'⟩ (mem_entries_iff.mpr hget)

/-- The first entry of a sorted list is the one whose key exceeds no other. -/
theorem head?_eq_some_iff (h : l.Pairwise fun a b => a.1 < b.1) : l.head? = some e ↔ e ∈ l ∧ ∀ e' ∈ l, e.1 ≤ e'.1 := by
  cases l with
  | nil => simp
  | cons first rest =>
    have hfirst := (List.pairwise_cons.mp h).1
    rw [List.head?_cons, Option.some.injEq]
    constructor
    · rintro rfl
      exact ⟨List.mem_cons_self, List.forall_mem_cons.mpr ⟨le_rfl, fun e' he' => (hfirst e' he').le⟩⟩
    · rintro ⟨hmem, hmin⟩
      rcases List.mem_cons.mp hmem with rfl | hmem
      · rfl
      · exact absurd (hmin first List.mem_cons_self) (not_le.mpr (hfirst e hmem))

/-- The first key is the least one. -/
theorem le_of_keys_head? (h : m.keys.head? = some k) {v' : V}
    (hget : m.get? k' = some v') : k ≤ k' := by
  rw [keys, List.head?_map] at h
  obtain ⟨first, hfirst, rfl⟩ := Option.map_eq_some_iff.mp h
  exact ((head?_eq_some_iff m.sorted).mp hfirst).2 ⟨k', v'⟩ (mem_entries_iff.mpr hget)

/-- `lastLE` finds the entry of the greatest key at or below `k`. -/
theorem lastLE_eq_some_iff : m.lastLE k = some v ↔
      ∃ k₀, m.get? k₀ = some v ∧ k₀ ≤ k ∧ ∀ k' ≤ k, m.contains k' = true → k' ≤ k₀ := by
  simp only [lastLE, Option.map_eq_some_iff, getLast?_eq_some_iff (m.sorted.filter _),
    List.mem_filter, decide_eq_true_eq, contains_iff]
  constructor
  · rintro ⟨⟨k₀, v'⟩, ⟨⟨hmem, hle⟩, hmax⟩, rfl⟩
    refine ⟨k₀, mem_entries_iff.mp hmem, hle, fun k' hk' ⟨w, hw⟩ => ?_⟩
    exact hmax ⟨k', w⟩ ⟨mem_entries_iff.mpr hw, hk'⟩
  · rintro ⟨k₀, hget, hle, hmax⟩
    refine ⟨⟨k₀, v⟩, ⟨⟨mem_entries_iff.mpr hget, hle⟩, fun e he => ?_⟩, rfl⟩
    exact hmax e.1 he.2 ⟨e.2, mem_entries_iff.mp he.1⟩

/-- `firstGE` finds the entry of the least key at or above `k`. -/
theorem firstGE_eq_some_iff : m.firstGE k = some v ↔
      ∃ k₀, m.get? k₀ = some v ∧ k ≤ k₀ ∧ ∀ k', k ≤ k' → m.contains k' = true → k₀ ≤ k' := by
  simp only [firstGE, ← List.head?_filter, Option.map_eq_some_iff,
    head?_eq_some_iff (m.sorted.filter _), List.mem_filter, decide_eq_true_eq, contains_iff]
  constructor
  · rintro ⟨⟨k₀, v'⟩, ⟨⟨hmem, hle⟩, hmin⟩, rfl⟩
    refine ⟨k₀, mem_entries_iff.mp hmem, hle, fun k' hk' ⟨w, hw⟩ => ?_⟩
    exact hmin ⟨k', w⟩ ⟨mem_entries_iff.mpr hw, hk'⟩
  · rintro ⟨k₀, hget, hle, hmin⟩
    refine ⟨⟨k₀, v⟩, ⟨⟨mem_entries_iff.mpr hget, hle⟩, fun e he => ?_⟩, rfl⟩
    exact hmin e.1 he.2 ⟨e.2, mem_entries_iff.mp he.1⟩

end SortedMap
