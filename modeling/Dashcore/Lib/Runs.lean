import Mathlib.Data.List.Basic
import Mathlib.Logic.Relation

/-!
# Runs of a transition function

A system is a transition function from a state and an action to the next state; what
the environment decides (arrival order, failures, clock readings) travels in the
action. A run is the fold of the function over a list of actions, so every reachable
state is the end of a run. Safety over runs is proved once here: an invariant that one
step keeps whenever the step meets a condition holds at the end of every run all of
whose steps meet it.
-/

namespace Runs

variable {S A : Type*} (step : S → A → S)

/-- The state reached from `s` by a list of actions. -/
def run (s : S) : List A → S
  | [] => s
  | a :: as => run (step s a) as

/-- Each step of the run from `s` meets `C` in the state before it. -/
def Along (C : S → A → Prop) : S → List A → Prop
  | _, [] => True
  | s, a :: as => C s a ∧ Along C (step s a) as

instance decidableAlong (C : S → A → Prop) [∀ s a, Decidable (C s a)] :
    ∀ s as, Decidable (Along step C s as)
  | _, [] => .isTrue trivial
  | s, a :: as => @instDecidableAnd _ _ _ (decidableAlong C (step s a) as)

variable {step}

@[simp] theorem run_nil (s : S) : run step s [] = s := rfl

@[simp] theorem run_cons (s : S) (a : A) (as : List A) :
    run step s (a :: as) = run step (step s a) as := rfl

theorem run_append (s : S) (as bs : List A) :
    run step s (as ++ bs) = run step (run step s as) bs := by
  induction as generalizing s with
  | nil => rfl
  | cons a as ih => exact ih (step s a)

variable {C : S → A → Prop} {s : S}

theorem along_append {as bs : List A} :
    Along step C s (as ++ bs) ↔ Along step C s as ∧ Along step C (run step s as) bs := by
  induction as generalizing s with
  | nil => simp [Along]
  | cons a as ih => simp [Along, ih, and_assoc]

theorem along_of_forall (h : ∀ s a, C s a) (s : S) (as : List A) :
    Along step C s as := by
  induction as generalizing s with
  | nil => trivial
  | cons a as ih => exact ⟨h s a, ih (step s a)⟩

variable {as : List A}

/-- A condition on actions that all of them meet holds along the run. -/
theorem along_of_forall_mem {D : A → Prop} (hD : ∀ a ∈ as, D a) :
    Along step (fun _ a => D a) s as := by
  induction as generalizing s with
  | nil => trivial
  | cons a as ih =>
    obtain ⟨ha, has⟩ := List.forall_mem_cons.mp hD
    exact ⟨ha, ih has⟩

/-- Two conditions met along a run are met together. -/
theorem Along.and {C D : S → A → Prop} (hC : Along step C s as)
    (hD : Along step D s as) : Along step (fun s a => C s a ∧ D s a) s as := by
  induction as generalizing s with
  | nil => trivial
  | cons a as ih => exact ⟨⟨hC.1, hD.1⟩, ih hC.2 hD.2⟩

/-- A condition on actions that all of them meet joins a condition along the run. -/
theorem Along.and_of_forall_mem {D : A → Prop}
    (h : Along step C s as) (hD : ∀ a ∈ as, D a) :
    Along step (fun s a => C s a ∧ D a) s as :=
  h.and (along_of_forall_mem hD)

/-- A projection that commutes with the steps of two systems commutes with their runs. -/
theorem run_map {S' : Type*} {step' : S' → A → S'} {f : S → S'}
    (hstep : ∀ s a, f (step s a) = step' (f s) a) (s : S) (as : List A) :
    f (run step s as) = run step' (f s) as := by
  induction as generalizing s with
  | nil => rfl
  | cons a as ih => rw [run_cons, run_cons, ih, hstep]

variable {Inv : S → Prop}

/-- An invariant kept by every step that meets `C` holds at the end of every run whose
steps all meet `C`. -/
theorem invariant_run {C : S → A → Prop}
    (keep : ∀ s a, Inv s → C s a → Inv (step s a))
    {s : S} {as : List A} (start : Inv s) (along : Along step C s as) :
    Inv (run step s as) := by
  induction as generalizing s with
  | nil => exact start
  | cons a as ih => exact ih (keep s a start along.1) along.2

/-- An invariant kept by every step holds at the end of every run. -/
theorem invariant_of_step (keep : ∀ s a, Inv s → Inv (step s a)) {s : S}
    (start : Inv s) (as : List A) : Inv (run step s as) :=
  invariant_run (fun s a hs _ => keep s a hs) start
    (along_of_forall (fun _ _ => trivial : ∀ _ _, (fun (_ : S) (_ : A) => True) _ _) s as)

/-- Under an invariant kept by every step that meets `C`, and with which `C` implies `D`, the
steps of a run that meet `C` meet `D`. -/
theorem along_of_invariant {C D : S → A → Prop}
    (keep : ∀ s a, Inv s → C s a → Inv (step s a)) (holds : ∀ s a, Inv s → C s a → D s a)
    (start : Inv s) (along : Along step C s as) : Along step D s as := by
  induction as generalizing s with
  | nil => trivial
  | cons a as ih =>
    exact ⟨holds s a start along.1, ih (keep s a start along.1) along.2⟩

/-- Under an invariant kept by the steps that meet both `V` and `C`, and with which `V` makes
`C` and `D` equivalent, the steps of a run that meet `V` all meet `D` exactly if they all meet
`C`. -/
theorem along_iff_of_invariant {V C D : S → A → Prop}
    (keep : ∀ s a, Inv s → V s a → C s a → Inv (step s a))
    (equiv : ∀ s a, Inv s → V s a → (D s a ↔ C s a)) (start : Inv s) (valid : Along step V s as) :
    Along step D s as ↔ Along step C s as := by
  induction as generalizing s with
  | nil => exact Iff.rfl
  | cons a as ih =>
    have hstep := equiv s a start valid.1
    constructor
    · rintro ⟨hD, hrest⟩
      have hC := hstep.mp hD
      exact ⟨hC, (ih (keep s a start valid.1 hC) valid.2).mp hrest⟩
    · rintro ⟨hC, hrest⟩
      exact ⟨hstep.mpr hC, (ih (keep s a start valid.1 hC) valid.2).mpr hrest⟩

/-- A property of every state of a run is one of the first and of those its steps lead to. -/
theorem forall_take_iff {P : S → Prop} :
    (∀ k, P (run step s (as.take k))) ↔ P s ∧ Along step (fun s a => P (step s a)) s as := by
  induction as generalizing s with
  | nil => simp [Along]
  | cons a as ih =>
    constructor
    · intro hall
      exact ⟨hall 0, ih.mp fun k => hall (k + 1)⟩
    · rintro ⟨hs, hrest⟩ k
      cases k with
      | zero => exact hs
      | succ k => exact ih.mpr hrest k

/-- Under an invariant that implies `P` and is kept by conforming steps, `P` holds in every
state of a run of valid steps exactly if all of them meet `C`, provided no other step leads to
`P`. -/
theorem forall_take_iff_along_of_valid {Inv P : S → Prop} {V C : S → A → Prop}
    (holds : ∀ s, Inv s → P s) (keep : ∀ s a, Inv s → V s a → C s a → Inv (step s a))
    (need : ∀ s a, Inv s → V s a → P (step s a) → C s a) {s : S} {as : List A} (start : Inv s)
    (valid : Along step V s as) :
    (∀ k, P (run step s (as.take k))) ↔ Along step C s as := by
  rw [forall_take_iff, and_iff_right (holds s start)]
  exact along_iff_of_invariant keep (fun s a hs hV => ⟨need s a hs hV, fun hC =>
    holds _ (keep s a hs hV hC)⟩) start valid

theorem forall_take_iff_along {Inv P : S → Prop}
    (holds : ∀ s, Inv s → P s) (keep : ∀ s a, Inv s → C s a → Inv (step s a))
    (need : ∀ s a, Inv s → P (step s a) → C s a) (start : Inv s) :
    (∀ k, P (run step s (as.take k))) ↔ Along step C s as :=
  forall_take_iff_along_of_valid holds (fun s a hs _ => keep s a hs) (fun s a hs _ => need s a hs)
    start (along_of_forall (fun _ _ => trivial) s as)

/-- A fold each round of which goes in steps of a relation, as long as `P` holds, goes in steps
of it. -/
theorem reflTransGen_foldl {R : S → S → Prop} {P : S → Prop} {f : S → A → S}
    (round : ∀ s a, P s → Relation.ReflTransGen R s (f s a) ∧ P (f s a))
    (start : ∀ a ∈ as, P s) : Relation.ReflTransGen R s (as.foldl f s) := by
  induction as generalizing s with
  | nil => exact .refl
  | cons a as ih =>
    obtain ⟨hsteps, hnext⟩ := round s a (start a List.mem_cons_self)
    exact hsteps.trans (ih fun _ _ => hnext)

end Runs
