import Mathlib.Data.List.Forall2

/-!
# Decoders of byte strings

A decoder reads a value off the front of a byte string and returns the bytes it left.
Every decoder carries a proof of its locality: what it reads off does not depend on the
bytes after it. A decoder is then fully described by the relation `Decodes` between the
bytes it uses and the value it returns, and that relation is computed step by step: the
bytes of a sequence of decoders are the bytes of the parts, one after the other.
-/

/-- A decoder of byte strings: `run` returns the value and the bytes it left, and what it
does with the bytes it uses does not depend on those it leaves. -/
structure Decoder (ε α : Type) where
  run : List UInt8 → Except ε (α × List UInt8)
  frame : ∀ {bytes v rest}, run bytes = .ok (v, rest) →
    ∃ used, bytes = used ++ rest ∧ ∀ rest', run (used ++ rest') = .ok (v, rest')

namespace Decoder

variable {ε α β : Type}

/-- The byte string is read as `v`, to its last byte and whatever follows it. -/
def Decodes (d : Decoder ε α) (used : List UInt8) (v : α) : Prop :=
  ∀ rest, d.run (used ++ rest) = .ok (v, rest)

variable {d : Decoder ε α} {v : α}

theorem decodes_of_run {bytes rest : List UInt8}
    (h : d.run bytes = .ok (v, rest)) : ∃ used, bytes = used ++ rest ∧ d.Decodes used v :=
  d.frame h

variable {used : List UInt8}

theorem decodes_iff_run :
    d.Decodes used v ↔ d.run used = .ok (v, []) := by
  constructor
  · intro h
    simpa using h []
  · intro h
    obtain ⟨used', heq, hused⟩ := decodes_of_run h
    rw [List.append_nil] at heq
    exact heq ▸ hused

/-- What a decoder reads off the front of a byte string is determined by the string. -/
theorem Decodes.unique {used used' rest rest' : List UInt8} {v v' : α}
    (h : d.Decodes used v) (h' : d.Decodes used' v') (heq : used ++ rest = used' ++ rest') :
    used = used' ∧ v = v' := by
  have hrun := h rest
  rw [heq, h' rest'] at hrun
  injection hrun with hpair
  obtain ⟨rfl, rfl⟩ := Prod.mk.inj hpair
  exact ⟨List.append_cancel_right heq, rfl⟩

/-! ### Sequencing -/

/-- Return a value without reading. -/
protected def pure (v : α) : Decoder ε α where
  run bytes := .ok (v, bytes)
  frame := by
    rintro bytes v' rest h
    injection h with hpair
    obtain ⟨rfl, rfl⟩ := Prod.mk.inj hpair
    exact ⟨[], rfl, fun _ => rfl⟩

/-- Run two decoders one after the other. -/
protected def bind (d : Decoder ε α) (f : α → Decoder ε β) : Decoder ε β where
  run bytes :=
    match d.run bytes with
    | .ok (a, rest) => (f a).run rest
    | .error e => .error e
  frame := by
    intro bytes v rest h
    split at h
    · next a middle hfirst =>
      obtain ⟨used₁, rfl, h₁⟩ := d.frame hfirst
      obtain ⟨used₂, rfl, h₂⟩ := (f a).frame h
      refine ⟨used₁ ++ used₂, by rw [List.append_assoc], fun rest' => ?_⟩
      rw [List.append_assoc, h₁]
      exact h₂ rest'
    · cases h

instance : Monad (Decoder ε) where
  pure := Decoder.pure
  bind := Decoder.bind

/-- Fail with an error. -/
def fail (e : ε) : Decoder ε α where
  run _ := .error e
  frame h := by cases h

variable {used : List UInt8}

@[simp] theorem decodes_pure {v w : α} :
    (pure v : Decoder ε α).Decodes used w ↔ used = [] ∧ w = v := by
  rw [decodes_iff_run]
  constructor
  · intro h
    injection h with hpair
    obtain ⟨rfl, rfl⟩ := Prod.mk.inj hpair
    exact ⟨rfl, rfl⟩
  · rintro ⟨rfl, rfl⟩
    rfl

variable {d : Decoder ε α}

/-- The bytes of a sequence are the bytes of its parts, one after the other. -/
@[simp] theorem decodes_bind {f : α → Decoder ε β}
    {v : β} :
    (d >>= f).Decodes used v ↔
      ∃ a used₁ used₂, used = used₁ ++ used₂ ∧ d.Decodes used₁ a ∧ (f a).Decodes used₂ v := by
  constructor
  · intro h
    have hrun : (match d.run used with
        | .ok (a, rest) => (f a).run rest
        | .error e => .error e) = .ok (v, []) := decodes_iff_run.mp h
    split at hrun
    · next a middle hfirst =>
      obtain ⟨used₁, rfl, h₁⟩ := decodes_of_run hfirst
      exact ⟨a, used₁, middle, rfl, h₁, decodes_iff_run.mpr hrun⟩
    · cases hrun
  · rintro ⟨a, used₁, used₂, rfl, h₁, h₂⟩ rest
    show (match d.run (used₁ ++ used₂ ++ rest) with
        | .ok (a, rest) => (f a).run rest
        | .error e => .error e) = .ok (v, rest)
    rw [List.append_assoc, h₁]
    exact h₂ rest

variable {f : α → Decoder ε β} {a : α}

theorem Decodes.bind {used₁ used₂ : List UInt8}
    {v : β} (h₁ : d.Decodes used₁ a) (h₂ : (f a).Decodes used₂ v) :
    (d >>= f).Decodes (used₁ ++ used₂) v :=
  decodes_bind.mpr ⟨a, used₁, used₂, rfl, h₁, h₂⟩

/-- A step that reads nothing. -/
theorem Decodes.bind_nil
    {v : β} (h₁ : d.Decodes [] a) (h₂ : (f a).Decodes used v) : (d >>= f).Decodes used v :=
  decodes_bind.mpr ⟨a, [], used, rfl, h₁, h₂⟩

/-- The last field of a record. -/
theorem Decodes.bind_pure {f : α → β}
    (h : d.Decodes used a) : (d >>= fun a => pure (f a)).Decodes used (f a) :=
  decodes_bind.mpr ⟨a, used, [], (List.append_nil used).symm, h, decodes_pure.mpr ⟨rfl, rfl⟩⟩

@[simp] theorem decodes_map {f : α → β} {v : β} :
    (f <$> d).Decodes used v ↔ ∃ a, d.Decodes used a ∧ v = f a := by
  show (d >>= fun a => pure (f a)).Decodes used v ↔ _
  simp

@[simp] theorem decodes_fail {e : ε} :
    ¬ (fail e : Decoder ε α).Decodes used v := by
  intro h
  have := h []
  cases this

@[simp] theorem decodes_ite {c : Prop} [Decidable c] {d e : Decoder ε α} :
    (if c then d else e).Decodes used v ↔ if c then d.Decodes used v else e.Decodes used v := by
  split <;> rfl

/-! ### Fields of a fixed size -/

/-- Read exactly `n` bytes; `eof` is the error when there are fewer. -/
def bytes (eof : ε) (n : Nat) : Decoder ε (Vector UInt8 n) where
  run input :=
    if h : n ≤ input.length then .ok (⟨(input.take n).toArray, by simp [h]⟩, input.drop n)
    else .error eof
  frame := by
    intro input v rest h
    split at h
    · next hlen =>
      injection h with hpair
      obtain ⟨rfl, rfl⟩ := Prod.mk.inj hpair
      refine ⟨input.take n, (List.take_append_drop n input).symm, fun rest' => ?_⟩
      have htake : (input.take n).length = n := List.length_take_of_le hlen
      have htaken : (input.take n ++ rest').take n = input.take n := List.take_left' htake
      have hleft : (input.take n ++ rest').drop n = rest' := List.drop_left' htake
      rw [dif_pos (by rw [List.length_append]; omega)]
      simp only [htaken, hleft]
    · cases h

variable {n : Nat}

@[simp] theorem decodes_bytes {eof : ε} {v : Vector UInt8 n} :
    (bytes eof n).Decodes used v ↔ used = v.toList := by
  rw [decodes_iff_run]
  show (if h : n ≤ used.length then
      Except.ok ((⟨(used.take n).toArray, by simp [h]⟩ : Vector UInt8 n), used.drop n)
    else .error eof) = .ok (v, []) ↔ _
  constructor
  · intro h
    split at h
    · next hlen =>
      injection h with hpair
      obtain ⟨rfl, hdrop⟩ := Prod.mk.inj hpair
      have hall : used.take n = used :=
        List.take_of_length_le (List.drop_eq_nil_iff.mp hdrop)
      simp [hall]
    · cases h
  · rintro rfl
    rw [dif_pos (by simp)]
    have hall : v.toList.take n = v.toList := List.take_of_length_le (by simp)
    have hnone : v.toList.drop n = [] := List.drop_eq_nil_iff.mpr (by simp)
    simp only [hall, hnone]
    congr 2

/-! ### Repetition -/

/-- Run a decoder `n` times. -/
def replicate (d : Decoder ε α) : Nat → Decoder ε (List α)
  | 0 => pure []
  | n + 1 => do
    let v ← d
    let vs ← replicate d n
    pure (v :: vs)

/-- The bytes of a repetition are the bytes of its elements, one after the other. -/
theorem decodes_replicate {vs : List α} :
    (d.replicate n).Decodes used vs ↔
      vs.length = n ∧ ∃ parts, used = parts.flatten ∧ List.Forall₂ d.Decodes parts vs := by
  induction n generalizing used vs with
  | zero =>
    rw [replicate, decodes_pure]
    constructor
    · rintro ⟨rfl, rfl⟩
      exact ⟨rfl, [], rfl, .nil⟩
    · rintro ⟨hlen, parts, rfl, hparts⟩
      obtain rfl := List.eq_nil_of_length_eq_zero hlen
      obtain rfl := List.forall₂_nil_right_iff.mp hparts
      exact ⟨rfl, rfl⟩
  | succ n ih =>
    simp only [replicate, decodes_bind, decodes_pure, ih]
    constructor
    · rintro ⟨v, used₁, _, rfl, hv, vs', _, _, rfl, ⟨hlen, parts, rfl, hparts⟩, rfl, rfl⟩
      exact ⟨by simp [hlen], used₁ :: parts, by simp, .cons hv hparts⟩
    · rintro ⟨hlen, parts, rfl, hparts⟩
      cases hparts with
      | nil => simp at hlen
      | @cons used₁ v parts vs' hv hparts =>
        exact ⟨v, used₁, parts.flatten, by simp, hv, vs', parts.flatten, [], by simp,
          ⟨by simpa using hlen, parts, rfl, hparts⟩, rfl, rfl⟩

/-! ### Limited input -/

/-- Let a decoder see only the first `n` bytes. -/
def limit (n : Nat) (d : Decoder ε α) : Decoder ε α where
  run input :=
    match d.run (input.take n) with
    | .ok (v, rest) => .ok (v, rest ++ input.drop n)
    | .error e => .error e
  frame := by
    intro input v rest h
    split at h
    · next v' middle hrun =>
      injection h with hpair
      obtain ⟨rfl, rfl⟩ := Prod.mk.inj hpair
      obtain ⟨used, heq, hused⟩ := decodes_of_run hrun
      have hsplit : input = used ++ (middle ++ input.drop n) := by
        rw [← List.append_assoc, ← heq, List.take_append_drop]
      have hshort : used.length ≤ n := by
        have hlen := congrArg List.length heq
        rw [List.length_append, List.length_take] at hlen
        omega
      refine ⟨used, hsplit, fun rest' => ?_⟩
      rw [List.take_append, List.take_of_length_le hshort, hused, List.drop_append,
        List.drop_eq_nil_of_le hshort, List.nil_append]
      simp only [List.take_append_drop]
    · cases h

/-- A decoder under a limit reads what it reads without, if that fits. -/
@[simp] theorem decodes_limit :
    (d.limit n).Decodes used v ↔ d.Decodes used v ∧ used.length ≤ n := by
  constructor
  · intro h
    have hrun : (match d.run (used.take n) with
        | .ok (v, rest) => Except.ok (v, rest ++ used.drop n)
        | .error e => .error e) = .ok (v, []) := decodes_iff_run.mp h
    split at hrun
    · next v' middle htaken =>
      injection hrun with hpair
      obtain ⟨rfl, hnil⟩ := Prod.mk.inj hpair
      obtain ⟨rfl, hdrop⟩ := List.append_eq_nil_iff.mp hnil
      have hshort : used.length ≤ n := List.drop_eq_nil_iff.mp hdrop
      rw [List.take_of_length_le hshort] at htaken
      exact ⟨decodes_iff_run.mpr htaken, hshort⟩
    · cases hrun
  · rintro ⟨h, hshort⟩
    rw [decodes_iff_run]
    show (match d.run (used.take n) with
        | .ok (v, rest) => Except.ok (v, rest ++ used.drop n)
        | .error e => .error e) = .ok (v, [])
    rw [List.take_of_length_le hshort, decodes_iff_run.mp h, List.drop_eq_nil_of_le hshort]
    rfl

/-! ### Bounded decoders -/

/-- The decoder uses at most `n` bytes. -/
def AtMost (d : Decoder ε α) (n : Nat) : Prop := ∀ used v, d.Decodes used v → used.length ≤ n

theorem AtMost.mono {n m : Nat} (h : d.AtMost n) (hle : n ≤ m) : d.AtMost m :=
  fun used v hused => Nat.le_trans (h used v hused) hle

/-- A bound that is computed from the parts of the decoder. -/
class Bounded (d : Decoder ε α) (n : outParam Nat) : Prop where
  atMost : d.AtMost n

instance (v : α) : Bounded (pure v : Decoder ε α) 0 where
  atMost used w h := by
    rw [(decodes_pure.mp h).1]
    exact Nat.le_refl 0

instance (e : ε) : Bounded (fail e : Decoder ε α) 0 := ⟨fun _ _ h => absurd h decodes_fail⟩

instance (eof : ε) (n : Nat) : Bounded (bytes eof n) n where
  atMost used v h := by
    have hlength : used.length = n := by rw [decodes_bytes.mp h, Vector.length_toList]
    exact Nat.le_of_eq hlength

instance (n : Nat) (d : Decoder ε α) : Bounded (d.limit n) n :=
  ⟨fun _ _ h => (decodes_limit.mp h).2⟩

instance {n m : Nat} [Bounded d n] [∀ a, Bounded (f a) m] : Bounded (d >>= f) (n + m) where
  atMost used v hused := by
    obtain ⟨a, used₁, used₂, rfl, h₁, h₂⟩ := decodes_bind.mp hused
    rw [List.length_append]
    exact Nat.add_le_add (Bounded.atMost _ _ h₁) (Bounded.atMost _ _ h₂)

instance {f : α → β} {n : Nat} [Bounded d n] : Bounded (f <$> d) n where
  atMost used v hused := by
    obtain ⟨a, ha, -⟩ := decodes_map.mp hused
    exact Bounded.atMost _ _ ha

instance {c : Prop} [Decidable c] {d e : Decoder ε α} {n m : Nat} [Bounded d n] [Bounded e m] :
    Bounded (if c then d else e) (max n m) where
  atMost := by
    split
    · exact Bounded.atMost.mono (Nat.le_max_left n m)
    · exact Bounded.atMost.mono (Nat.le_max_right n m)

end Decoder
