import Mathlib.Data.List.Perm.Basic
import Mathlib.Data.Set.Insert

/-!
# Tilings of an interval of natural numbers

Work on a range of positions is often cut into pieces that change hands: a piece waits, is
in progress, is finished, is removed from one end. A family of half-open intervals tiles a
range if every position of the range lies in exactly one member. Members have names, so that
a piece keeps its identity while its name changes.
-/

variable {ι κ : Type*}

/-- The intervals `[s, e)` with `R i s e` for some name `i` cut `[lo, hi)` into pieces. -/
structure Tiles (R : ι → ℕ → ℕ → Prop) (lo hi : ℕ) : Prop where
  le : lo ≤ hi
  functional : ∀ {i s e s' e'}, R i s e → R i s' e' → s = s' ∧ e = e'
  bounds : ∀ {i s e}, R i s e → lo ≤ s ∧ s < e ∧ e ≤ hi
  cover : ∀ {h}, lo ≤ h → h < hi → ∃ i s e, R i s e ∧ s ≤ h ∧ h < e
  unique : ∀ {i j s e s' e' h}, R i s e → R j s' e' → s ≤ h → h < e → s' ≤ h → h < e' → i = j

namespace Tiles

variable {R : ι → ℕ → ℕ → Prop} {lo hi : ℕ}

/-- The family without members tiles an empty range. -/
theorem of_isEmpty (hR : ∀ i s e, ¬ R i s e) (lo : ℕ) : Tiles R lo lo where
  le := le_rfl
  functional h := absurd h (hR _ _ _)
  bounds h := absurd h (hR _ _ _)
  cover hlo hhi := absurd (hlo.trans_lt hhi) (lt_irrefl _)
  unique h := absurd h (hR _ _ _)

variable (h : Tiles R lo hi)
include h

theorem congr {R' : ι → ℕ → ℕ → Prop} (hR : ∀ i s e, R' i s e ↔ R i s e) : Tiles R' lo hi := by
  have heq : R' = R := by
    funext i s e
    exact propext (hR i s e)
  exact heq ▸ h

/-- Two members whose starts agree are the same. -/
theorem eq_of_start {i j : ι} {s e e' : ℕ} (hi : R i s e) (hj : R j s e') : i = j :=
  h.unique hi hj le_rfl (h.bounds hi).2.1 le_rfl (h.bounds hj).2.1

/-- A piece with a new name is appended at the upper end. -/
theorem snoc {i : ι} (hnew : ∀ s e, ¬ R i s e) {hi' : ℕ} (hlt : hi < hi') :
    Tiles (fun j s e => R j s e ∨ (j = i ∧ s = hi ∧ e = hi')) lo hi' where
  le := h.le.trans hlt.le
  functional := by
    rintro j s e s' e' (hj | ⟨rfl, rfl, rfl⟩) (hj' | ⟨hij, rfl, rfl⟩)
    · exact h.functional hj hj'
    · exact absurd (hij ▸ hj) (hnew s e)
    · exact absurd hj' (hnew s' e')
    · exact ⟨rfl, rfl⟩
  bounds := by
    rintro j s e (hj | ⟨rfl, rfl, rfl⟩)
    · obtain ⟨hlo, hse, hle⟩ := h.bounds hj
      exact ⟨hlo, hse, hle.trans hlt.le⟩
    · exact ⟨h.le, hlt, le_rfl⟩
  cover := by
    intro p hlo hp
    rcases lt_or_ge p hi with hlow | hhigh
    · obtain ⟨j, s, e, hj, hs, he⟩ := h.cover hlo hlow
      exact ⟨j, s, e, .inl hj, hs, he⟩
    · exact ⟨i, hi, hi', .inr ⟨rfl, rfl, rfl⟩, hhigh, hp⟩
  unique := by
    rintro j k s e s' e' p (hj | ⟨rfl, rfl, rfl⟩) (hk | ⟨rfl, rfl, rfl⟩) hs he hs' he'
    · exact h.unique hj hk hs he hs' he'
    · exact absurd (he.trans_le (h.bounds hj).2.2) (not_lt.mpr hs')
    · exact absurd (he'.trans_le (h.bounds hk).2.2) (not_lt.mpr hs)
    · rfl

/-- The lowest piece is taken away. -/
theorem tail {i : ι} {e : ℕ} (hi' : R i lo e) :
    Tiles (fun j s e' => R j s e' ∧ j ≠ i) e hi where
  le := (h.bounds hi').2.2
  functional hj hj' := h.functional hj.1 hj'.1
  bounds := by
    rintro j s e' ⟨hj, hne⟩
    obtain ⟨hlo, hse, hle⟩ := h.bounds hj
    refine ⟨?_, hse, hle⟩
    by_contra hlt
    -- a piece that starts inside the lowest one is the lowest one
    exact hne (h.unique hj hi' le_rfl hse hlo (not_le.mp hlt))
  cover := by
    intro p hlo hp
    have hle := (h.bounds hi').2.1.le
    obtain ⟨j, s, e', hj, hs, he⟩ := h.cover (hle.trans hlo) hp
    refine ⟨j, s, e', ⟨hj, ?_⟩, hs, he⟩
    rintro rfl
    obtain ⟨-, rfl⟩ := h.functional hj hi'
    exact absurd he (not_lt.mpr hlo)
  unique hj hk := h.unique hj.1 hk.1

/-- Pieces change their names, different pieces to different names. -/
theorem map {f : ι → κ} (inj : ∀ {i j s e s' e'}, R i s e → R j s' e' → f i = f j → i = j) :
    Tiles (fun k s e => ∃ i, f i = k ∧ R i s e) lo hi where
  le := h.le
  functional := by
    rintro k s e s' e' ⟨i, rfl, hi⟩ ⟨j, hji, hj⟩
    obtain rfl := inj hj hi hji
    exact h.functional hi hj
  bounds := by
    rintro k s e ⟨i, -, hi⟩
    exact h.bounds hi
  cover := by
    intro p hlo hp
    obtain ⟨i, s, e, hi, hs, he⟩ := h.cover hlo hp
    exact ⟨f i, s, e, ⟨i, rfl, hi⟩, hs, he⟩
  unique := by
    rintro k l s e s' e' p ⟨i, rfl, hi⟩ ⟨j, rfl, hj⟩ hs he hs' he'
    rw [h.unique hi hj hs he hs' he']

/-- One piece gets a new name. -/
theorem rename [DecidableEq ι] (i : ι) {i' : ι} (hnew : ∀ s e, ¬ R i' s e) :
    Tiles (fun j s e => (R j s e ∧ j ≠ i) ∨ (j = i' ∧ R i s e)) lo hi := by
  have hmap : Tiles (fun k s e => ∃ j, Function.update id i i' j = k ∧ R j s e) lo hi := by
    refine h.map fun {j k s e s' e'} hj hk heq => ?_
    by_cases hji : j = i <;> by_cases hki : k = i
    · rw [hji, hki]
    · rw [hji, Function.update_self, Function.update_of_ne hki, id] at heq
      exact absurd (heq ▸ hk) (hnew _ _)
    · rw [hki, Function.update_self, Function.update_of_ne hji, id] at heq
      exact absurd (heq ▸ hj) (hnew _ _)
    · rwa [Function.update_of_ne hji, Function.update_of_ne hki] at heq
  refine hmap.congr fun k s e => ⟨?_, ?_⟩
  · rintro (⟨hk, hne⟩ | ⟨rfl, hk⟩)
    · exact ⟨k, Function.update_of_ne hne _ _, hk⟩
    · exact ⟨i, Function.update_self _ _ _, hk⟩
  · rintro ⟨j, rfl, hj⟩
    by_cases hji : j = i
    · subst hji
      rw [Function.update_self]
      exact .inr ⟨rfl, hj⟩
    · rw [Function.update_of_ne hji]
      exact .inl ⟨hj, hji⟩

end Tiles

/-! ### Lists of intervals -/

/-- The intervals `[s, e)` of a list cut `[lo, hi)` into pieces, none of them twice. -/
structure Partitions (l : List (ℕ × ℕ)) (lo hi : ℕ) : Prop where
  le : lo ≤ hi
  bounds : ∀ {piece}, piece ∈ l → lo ≤ piece.1 ∧ piece.1 < piece.2 ∧ piece.2 ≤ hi
  cover : ∀ {h}, lo ≤ h → h < hi → ∃ piece ∈ l, piece.1 ≤ h ∧ h < piece.2
  disjoint : l.Pairwise fun a b => a.2 ≤ b.1 ∨ b.2 ≤ a.1

namespace Partitions

variable {l l' : List (ℕ × ℕ)} {lo hi : ℕ}

theorem nil (lo : ℕ) : Partitions [] lo lo where
  le := le_rfl
  bounds h := absurd h List.not_mem_nil
  cover hlo hhi := absurd (hlo.trans_lt hhi) (lt_irrefl _)
  disjoint := List.Pairwise.nil

theorem perm (h : Partitions l lo hi) (hl : l.Perm l') : Partitions l' lo hi where
  le := h.le
  bounds hmem := h.bounds (hl.mem_iff.mpr hmem)
  cover hlo hhi := by
    obtain ⟨piece, hmem, hin⟩ := h.cover hlo hhi
    exact ⟨piece, hl.mem_iff.mp hmem, hin⟩
  disjoint := (hl.pairwise_iff fun hab => hab.symm).mp h.disjoint

/-- A piece is added at the upper end. -/
theorem cons (h : Partitions l lo hi) {hi' : ℕ} (hlt : hi < hi') :
    Partitions ((hi, hi') :: l) lo hi' where
  le := h.le.trans hlt.le
  bounds := by
    intro piece hmem
    rcases List.mem_cons.mp hmem with rfl | hmem
    · exact ⟨h.le, hlt, le_rfl⟩
    · obtain ⟨hlo, hse, hle⟩ := h.bounds hmem
      exact ⟨hlo, hse, hle.trans hlt.le⟩
  cover := by
    intro p hlo hp
    rcases lt_or_ge p hi with hlow | hhigh
    · obtain ⟨piece, hmem, hin⟩ := h.cover hlo hlow
      exact ⟨piece, List.mem_cons_of_mem _ hmem, hin⟩
    · exact ⟨(hi, hi'), List.mem_cons_self, hhigh, hp⟩
  disjoint := List.pairwise_cons.mpr
    ⟨fun piece hmem => .inr (h.bounds hmem).2.2, h.disjoint⟩

/-- Two pieces at different places of the list do not start at the same position. -/
theorem start_ne (h : Partitions (l ++ l') lo hi) {a b : ℕ × ℕ} (ha : a ∈ l) (hb : b ∈ l') :
    a.1 ≠ b.1 := by
  intro heq
  have hapos := (h.bounds (List.mem_append_left l' ha)).2.1
  have hbpos := (h.bounds (List.mem_append_right l hb)).2.1
  rcases (List.pairwise_append.mp h.disjoint).2.2 a ha b hb with hab | hba
  · omega
  · omega

end Partitions
