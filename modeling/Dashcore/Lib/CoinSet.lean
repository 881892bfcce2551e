import Dashcore.Lib.SortedMap

/-!
# Sets of unspent coins

A coin set holds the coins that were created and not spent, together with the keys known
to be spent, so that a coin that is spent before it is created never appears. That no
held coin is known to be spent is a field of the set.

Applying an entry, which creates some coins and then spends some keys, keeps the set. A
set built from a list of entries holds exactly the keys that some entry creates and none
spends, whatever the order of the list.
-/

universe u v

/-- Unspent coins, and the keys known to be spent. -/
structure CoinSet (K : Type u) (V : Type v) [LinearOrder K] where
  coins : SortedMap K V
  spent : List K
  /-- No coin is known to be spent. -/
  unspent : ∀ k v, coins.get? k = some v → k ∉ spent
  deriving DecidableEq

namespace CoinSet

variable {K : Type u} {V : Type v} [LinearOrder K]

/-- The set without coins. -/
def empty : CoinSet K V := ⟨∅, [], fun _ _ h => by cases h⟩

instance : EmptyCollection (CoinSet K V) := ⟨empty⟩

@[simp] theorem empty_spent : (∅ : CoinSet K V).spent = [] := rfl

section

variable (c : CoinSet K V)

/-- Add a coin, unless its key is known to be spent. -/
def create (entry : K × V) : CoinSet K V :=
  if hspent : entry.1 ∈ c.spent then c
  else ⟨c.coins.insert entry.1 entry.2, c.spent, fun k v hk => by
    obtain ⟨rfl, -⟩ | ⟨-, hold⟩ := SortedMap.of_get?_insert hk
    · exact hspent
    · exact c.unspent k v hold⟩

/-- Spend a key, whether or not its coin is here. -/
def spend (key : K) : CoinSet K V :=
  ⟨c.coins.erase key, key :: c.spent, fun k v hk => by
    obtain ⟨hne, hold⟩ := SortedMap.of_get?_erase hk
    exact List.not_mem_cons_of_ne_of_not_mem (Ne.symm hne) (c.unspent k v hold)⟩

/-- Take a coin away without spending it. -/
def discard (key : K) : CoinSet K V :=
  ⟨c.coins.erase key, c.spent, fun k v hk => c.unspent k v (SortedMap.of_get?_erase hk).2⟩

/-- Forget that a key was spent. -/
def release (key : K) : CoinSet K V :=
  ⟨c.coins, c.spent.filter (· ≠ key), fun k v hk hmem =>
    c.unspent k v hk (List.mem_of_mem_filter hmem)⟩

section

variable (f : K → V → V)

/-- Rewrite the coins. -/
def mapVal : CoinSet K V :=
  ⟨c.coins.mapVal f, c.spent, fun k v hk => by
    rw [SortedMap.get?_mapVal, Option.map_eq_some_iff] at hk
    obtain ⟨w, hw, -⟩ := hk
    exact c.unspent k w hw⟩

end

/-- Create coins, then spend keys. -/
def apply (created : List (K × V)) (inputs : List K) : CoinSet K V :=
  inputs.foldl spend (created.foldl create c)

end

/-- Apply entries one after the other, starting with nothing. -/
def build (entries : List (List (K × V) × List K)) : CoinSet K V :=
  entries.foldl (fun c entry => c.apply entry.1 entry.2) ∅

/-! ### One operation -/

variable {v : V}

section

variable (c : CoinSet K V)

@[simp] theorem create_spent (entry : K × V) : (c.create entry).spent = c.spent := by
  rw [create]
  split_ifs <;> rfl

theorem get?_create (entry : K × V) (k : K) :
    (c.create entry).coins.get? k =
      if entry.1 = k ∧ k ∉ c.spent then some entry.2 else c.coins.get? k := by
  rw [create]
  split_ifs with hspent hk hk <;> grind

@[simp] theorem get?_spend (key k : K) :
    (c.spend key).coins.get? k = if key = k then none else c.coins.get? k :=
  SortedMap.get?_erase c.coins key k

@[simp] theorem spend_spent (key : K) : (c.spend key).spent = key :: c.spent :=
  rfl

theorem get?_of_discard {c : CoinSet K V} {key k : K}
    (h : (c.discard key).coins.get? k = some v) : c.coins.get? k = some v :=
  SortedMap.get?_of_filter h

@[simp] theorem release_coins (key : K) : (c.release key).coins = c.coins := rfl

end

/-! ### Creating and spending lists -/

variable {c : CoinSet K V} {k : K}

theorem get?_of_foldl_discard {keys : List K}
    (h : (keys.foldl discard c).coins.get? k = some v) : c.coins.get? k = some v := by
  induction keys generalizing c with
  | nil => exact h
  | cons key keys ih => exact get?_of_discard (ih h)

theorem foldl_release_coins (keys : List K) (c : CoinSet K V) :
    (keys.foldl release c).coins = c.coins := by
  induction keys generalizing c with
  | nil => rfl
  | cons key keys ih => rw [List.foldl_cons, ih, release_coins]

theorem foldl_create_spent (created : List (K × V)) (c : CoinSet K V) :
    (created.foldl create c).spent = c.spent := by
  induction created generalizing c with
  | nil => rfl
  | cons entry created ih => rw [List.foldl_cons, ih, create_spent]

variable {created : List (K × V)}

/-- A coin found after creating was there before or is one of those created. -/
theorem of_get?_foldl_create (h : (created.foldl create c).coins.get? k = some v) :
    (k, v) ∈ created ∨ c.coins.get? k = some v := by
  induction created generalizing c with
  | nil => exact .inr h
  | cons entry created ih =>
    rcases ih h with hmem | hget
    · exact .inl (List.mem_cons_of_mem entry hmem)
    · rw [get?_create] at hget
      split_ifs at hget with hk
      · cases hget
        exact .inl (hk.1 ▸ List.mem_cons_self)
      · exact .inr hget

/-- Creating never takes a coin away. -/
theorem contains_foldl_create (hspent : k ∉ c.spent)
    (h : c.coins.contains k = true ∨ k ∈ created.map Prod.fst) :
    (created.foldl create c).coins.contains k = true := by
  induction created generalizing c with
  | nil => simpa using h
  | cons entry created ih =>
    apply ih (c.create_spent entry ▸ hspent)
    rw [SortedMap.contains, get?_create]
    split_ifs with hk
    · exact .inl rfl
    · rcases h with h | h
      · exact .inl h
      · rcases List.mem_cons.mp h with heq | h
        · exact absurd ⟨heq.symm, hspent⟩ hk
        · exact .inr h

/-- A coin whose key is created is one of those created, whatever was there before. -/
theorem of_get?_foldl_create_of_mem (hk : k ∈ created.map Prod.fst)
    (h : (created.foldl create c).coins.get? k = some v) :
    (k, v) ∈ created := by
  induction created generalizing c with
  | nil => cases hk
  | cons entry created ih =>
    rw [List.foldl_cons] at h
    rcases of_get?_foldl_create h with hmem | hget
    · exact List.mem_cons_of_mem entry hmem
    · -- a coin that later entries do not replace is the first entry, unless `k` is among them
      rw [get?_create] at hget
      split_ifs at hget with hfirst
      · cases hget
        exact hfirst.1 ▸ List.mem_cons_self
      · rcases List.mem_cons.mp hk with heq | hk
        · have hspent : k ∉ c.spent := c.unspent k v hget
          exact absurd ⟨heq.symm, hspent⟩ hfirst
        · exact List.mem_cons_of_mem entry (ih hk h)

theorem foldl_spend_spent (inputs : List K) (c : CoinSet K V) (k : K) :
    k ∈ (inputs.foldl spend c).spent ↔ k ∈ inputs ∨ k ∈ c.spent := by
  induction inputs generalizing c with
  | nil => simp
  | cons input inputs ih =>
    rw [List.foldl_cons, ih, spend_spent, List.mem_cons, List.mem_cons]
    tauto

theorem get?_foldl_spend (inputs : List K) (c : CoinSet K V) (k : K) :
    (inputs.foldl spend c).coins.get? k = if k ∈ inputs then none else c.coins.get? k := by
  induction inputs generalizing c with
  | nil => simp
  | cons input inputs ih =>
    rw [List.foldl_cons, ih, get?_spend]
    split_ifs with hmem hcons heq hcons hcons <;> grind

/-! ### One entry -/

variable {inputs : List K}

theorem mem_spent_apply : k ∈ (c.apply created inputs).spent ↔ k ∈ inputs ∨ k ∈ c.spent := by
  rw [apply, foldl_spend_spent, foldl_create_spent]

/-- A coin found after an entry is not spent by it, and was created by it or there before. -/
theorem of_get?_apply (h : (c.apply created inputs).coins.get? k = some v) :
    k ∉ inputs ∧ ((k, v) ∈ created ∨ c.coins.get? k = some v) := by
  rw [apply, get?_foldl_spend] at h
  split_ifs at h with hmem
  exact ⟨hmem, of_get?_foldl_create h⟩

/-- A coin whose key an entry creates is the one it creates. -/
theorem of_get?_apply_of_mem (hk : k ∈ created.map Prod.fst)
    (h : (c.apply created inputs).coins.get? k = some v) : (k, v) ∈ created := by
  rw [apply, get?_foldl_spend] at h
  split_ifs at h
  exact of_get?_foldl_create_of_mem hk h

/-- What was there or is created is there afterwards, unless it is spent. -/
theorem contains_apply (hspent : k ∉ (c.apply created inputs).spent)
    (h : c.coins.contains k = true ∨ k ∈ created.map Prod.fst) :
    (c.apply created inputs).coins.contains k = true := by
  rw [mem_spent_apply, not_or] at hspent
  rw [SortedMap.contains, apply, get?_foldl_spend, if_neg hspent.1]
  exact contains_foldl_create hspent.2 h

/-! ### Built sets -/

theorem mem_spent_foldl_apply (entries : List (List (K × V) × List K)) (c : CoinSet K V) (k : K) :
    k ∈ (entries.foldl (fun c entry => c.apply entry.1 entry.2) c).spent ↔
      (∃ entry ∈ entries, k ∈ entry.2) ∨ k ∈ c.spent := by
  induction entries generalizing c with
  | nil => simp
  | cons entry entries ih =>
    rw [List.foldl_cons, ih, mem_spent_apply, List.exists_mem_cons_iff, or_left_comm, or_assoc]

variable {entries : List (List (K × V) × List K)}

/-- Exactly the keys that entries spend are known to be spent. -/
theorem mem_spent_build :
    k ∈ (build entries).spent ↔ ∃ entry ∈ entries, k ∈ entry.2 := by
  rw [build, mem_spent_foldl_apply]
  simp

theorem of_get?_foldl_apply
    (h : (entries.foldl (fun c entry => c.apply entry.1 entry.2) c).coins.get? k = some v) :
    (∃ entry ∈ entries, (k, v) ∈ entry.1) ∨ c.coins.get? k = some v := by
  induction entries generalizing c with
  | nil => exact .inr h
  | cons entry entries ih =>
    rcases ih h with ⟨entry', hentry', hmem⟩ | hget
    · exact .inl ⟨entry', List.mem_cons_of_mem entry hentry', hmem⟩
    · rcases (of_get?_apply hget).2 with hmem | hget
      · exact .inl ⟨entry, List.mem_cons_self, hmem⟩
      · exact .inr hget

/-- A coin of a built set is one that an entry creates. -/
theorem of_get?_build
    (h : (build entries).coins.get? k = some v) : ∃ entry ∈ entries, (k, v) ∈ entry.1 := by
  rcases of_get?_foldl_apply h with hmem | hget
  · exact hmem
  · cases hget

theorem contains_foldl_apply
    (hspent : k ∉ (entries.foldl (fun c entry => c.apply entry.1 entry.2) c).spent)
    (h : c.coins.contains k = true ∨ ∃ entry ∈ entries, k ∈ entry.1.map Prod.fst) :
    (entries.foldl (fun c entry => c.apply entry.1 entry.2) c).coins.contains k = true := by
  induction entries generalizing c with
  | nil => simpa using h
  | cons entry entries ih =>
    apply ih hspent
    -- the first entry's effect is not undone by the later ones, since none of them spends `k`
    have hafter : k ∉ (c.apply entry.1 entry.2).spent := fun hmem =>
      hspent ((mem_spent_foldl_apply entries _ k).mpr (.inr hmem))
    rw [List.exists_mem_cons_iff] at h
    rcases h with h | h | h
    · exact .inl (contains_apply hafter (.inl h))
    · exact .inl (contains_apply hafter (.inr h))
    · exact .inr h

/-- A built set holds the keys that some entry creates and none spends. -/
theorem contains_build_iff :
    (build entries).coins.contains k = true ↔
      (∃ entry ∈ entries, k ∈ entry.1.map Prod.fst) ∧ ∀ entry ∈ entries, k ∉ entry.2 := by
  constructor
  · intro h
    obtain ⟨v, hv⟩ := SortedMap.contains_iff.mp h
    obtain ⟨entry, hentry, hmem⟩ := of_get?_build hv
    refine ⟨⟨entry, hentry, List.mem_map_of_mem hmem⟩, fun entry' hentry' hinput => ?_⟩
    exact (build entries).unspent k v hv (mem_spent_build.mpr ⟨entry', hentry', hinput⟩)
  · rintro ⟨hcreated, hunspent⟩
    refine contains_foldl_apply (fun hspent => ?_) (.inr hcreated)
    obtain ⟨entry, hentry, hinput⟩ := mem_spent_build.mp hspent
    exact hunspent entry hentry hinput

end CoinSet
