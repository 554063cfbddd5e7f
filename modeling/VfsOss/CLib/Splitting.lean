import Mathlib.Data.List.Basic
import Mathlib.Tactic.Common

/-!
# Lists with separators

Induction over a list from one separator to the next.
-/

namespace CLib

variable {α : Type} {p : α → Bool}

/-- A list is read from one separator to the next. -/
@[elab_as_elim]
theorem split_induction {motive : List α → Prop} (last : ∀ xs, (∀ x ∈ xs, p x = false) → motive xs)
    (cons : ∀ xs c rest, (∀ x ∈ xs, p x = false) → p c = true → motive rest → motive (xs ++ c :: rest))
    (xs : List α) : motive xs := by
  -- what was read since the last separator goes along
  suffices h : ∀ before : List α, (∀ x ∈ before, p x = false) → motive (before ++ xs) from
    h [] fun _ hx => absurd hx List.not_mem_nil
  induction xs with
  | nil =>
    intro before hbefore
    rw [List.append_nil]
    exact last before hbefore
  | cons x rest ih =>
    intro before hbefore
    cases hx : p x with
    | true => exact cons before x rest hbefore hx (ih [] fun _ hx => absurd hx List.not_mem_nil)
    | false =>
      rw [List.append_cons]
      refine ih (before ++ [x]) fun y hy => ?_
      rcases List.mem_append.mp hy with hy | hy
      · exact hbefore y hy
      · rw [List.mem_singleton.mp hy]
        exact hx

end CLib
