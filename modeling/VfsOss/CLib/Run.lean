import Mathlib.Tactic.Common
import Mathlib.Data.List.Basic

/-!
# Runs of a state machine

A machine is a function from a state and an action to the next state; a run is a list of actions.
Every prefix of a run is a run, so a property of the last state of every run is a property of every
state that is reached.
-/

namespace CLib

variable {S A : Type} (step : S → A → S)

/-- The last state of a run. -/
def run : S → List A → S
  | s, [] => s
  | s, a :: as => run (step s a) as

/-- Every step of a run meets a condition on the state before it and its action. -/
def RunOk (ok : S → A → Prop) : S → List A → Prop
  | _, [] => True
  | s, a :: as => ok s a ∧ RunOk ok (step s a) as

variable {step}

instance RunOk.decidable {ok : S → A → Prop} [∀ s a, Decidable (ok s a)] :
    ∀ (s : S) (as : List A), Decidable (RunOk step ok s as)
  | _, [] => .isTrue trivial
  | s, a :: as =>
    have : Decidable (RunOk step ok (step s a) as) := RunOk.decidable (step s a) as
    inferInstanceAs (Decidable (ok s a ∧ RunOk step ok (step s a) as))

theorem run_append (s : S) (as bs : List A) :
    run step s (as ++ bs) = run step (run step s as) bs := by
  induction as generalizing s with
  | nil => rfl
  | cons a as ih => exact ih (step s a)

theorem RunOk.append {ok : S → A → Prop} {s : S} {as bs : List A} :
    RunOk step ok s (as ++ bs) ↔ RunOk step ok s as ∧ RunOk step ok (run step s as) bs := by
  induction as generalizing s with
  | nil => simp [RunOk, run]
  | cons a as ih => simp [RunOk, run, ih, and_assoc]

/-- **Invariants.** What every step that meets the condition preserves holds after every run whose
steps all meet it. -/
theorem run_invariant {ok : S → A → Prop} (inv : S → Prop)
    (hstep : ∀ s a, inv s → ok s a → inv (step s a)) {s : S} {as : List A} (h0 : inv s)
    (hok : RunOk step ok s as) : inv (run step s as) := by
  induction as generalizing s with
  | nil => exact h0
  | cons a as ih => exact ih (hstep s a h0 hok.1) hok.2

/-- What every step preserves holds after every run. -/
theorem run_invariant_all (inv : S → Prop) (hstep : ∀ s a, inv s → inv (step s a)) {s : S}
    (h0 : inv s) (as : List A) : inv (run step s as) := by
  induction as generalizing s with
  | nil => exact h0
  | cons a as ih => exact ih (hstep s a h0)

/-- What an invariant and the condition give at each step, every step of the run has. -/
theorem RunOk.of_invariant {ok ok' : S → A → Prop} (inv : S → Prop)
    (hstep : ∀ s a, inv s → ok s a → inv (step s a)) (himp : ∀ s a, inv s → ok s a → ok' s a)
    {s : S} {as : List A} (h0 : inv s) (h : RunOk step ok s as) : RunOk step ok' s as := by
  induction as generalizing s with
  | nil => trivial
  | cons a as ih => exact ⟨himp s a h0 h.1, ih (hstep s a h0 h.1) h.2⟩

/-- Conditions that an invariant of every run makes the same are met by the same runs. -/
theorem RunOk.iff_of_invariant {ok ok' : S → A → Prop} (inv : S → Prop)
    (hstep : ∀ s a, inv s → inv (step s a)) (hiff : ∀ s a, inv s → (ok s a ↔ ok' s a)) {s : S}
    (h0 : inv s) (as : List A) : RunOk step ok s as ↔ RunOk step ok' s as := by
  induction as generalizing s with
  | nil => exact Iff.rfl
  | cons a as ih => exact and_congr (hiff s a h0) (ih (hstep s a h0))

section Map

variable {T : Type} {step' : T → A → T} {f : T → S}

/-- A machine that carries more beside the state of another one meets the conditions on that one in the same runs. -/
theorem RunOk.map_iff (ok : S → A → Prop) (hf : ∀ t a, f (step' t a) = step (f t) a) (t : T) (as : List A) :
    RunOk step' (fun t a => ok (f t) a) t as ↔ RunOk step ok (f t) as := by
  induction as generalizing t with
  | nil => exact Iff.rfl
  | cons a as ih =>
    rw [RunOk, RunOk, ih, hf]

end Map

/-- A condition weaker at every step is met by the same runs. -/
theorem RunOk.mono {ok ok' : S → A → Prop} {s : S} {as : List A} (h : RunOk step ok s as)
    (himp : ∀ s a, ok s a → ok' s a) : RunOk step ok' s as := by
  induction as generalizing s with
  | nil => trivial
  | cons a as ih => exact ⟨himp s a h.1, ih h.2⟩

/-- A run whose steps meet two conditions. -/
theorem RunOk.and {ok ok' : S → A → Prop} {s : S} {as : List A} (h : RunOk step ok s as)
    (h' : RunOk step ok' s as) : RunOk step (fun s a => ok s a ∧ ok' s a) s as := by
  induction as generalizing s with
  | nil => trivial
  | cons a as ih => exact ⟨⟨h.1, h'.1⟩, ih h.2 h'.2⟩

/-- A condition on the actions alone. -/
theorem RunOk.of_actions {ok : A → Prop} {as : List A} (h : ∀ a ∈ as, ok a) (s : S) :
    RunOk step (fun _ a => ok a) s as := by
  induction as generalizing s with
  | nil => trivial
  | cons a as ih => exact ⟨h a (List.mem_cons_self ..), ih (fun b hb => h b (List.mem_cons_of_mem _ hb)) _⟩

end CLib
