import VfsOss.CLib.Run

/-!
# Computations guarded by a condition

A computation that may fault beside a function that cannot: it gives the value of the function where a
condition holds, and faults elsewhere. Runs of such steps are runs of the functions, as far as every step
meets its condition.
-/

namespace CLib

variable {ε α β S A : Type} {p q : Prop} {x : α} {e : Except ε α}

/-- `e` gives `x` where `p` holds, and faults elsewhere. -/
structure Guarded (p : Prop) (e : Except ε α) (x : α) : Prop where
  ok : p → e = .ok x
  fault : ¬ p → ∃ err, e = .error err

namespace Guarded

theorem pure (x : α) : Guarded True (.ok x : Except ε α) x := ⟨fun _ => rfl, fun h => absurd trivial h⟩

theorem congr (h : Guarded p e x) (hpq : q ↔ p) : Guarded q e x :=
  ⟨fun hq => h.ok (hpq.mp hq), fun hq => h.fault fun hp => hq (hpq.mpr hp)⟩

/-- It gives no other value. -/
theorem eq_of_ok (h : Guarded p e x) {y : α} (he : e = .ok y) : p ∧ y = x := by
  by_cases hp : p
  · exact ⟨hp, Except.ok.inj (he.symm.trans (h.ok hp))⟩
  · obtain ⟨err, herr⟩ := h.fault hp
    exact nomatch he.symm.trans herr

theorem map (h : Guarded p e x) (f : α → β) : Guarded p (e >>= fun a => .ok (f a)) (f x) := by
  refine ⟨fun hp => by rw [h.ok hp]; rfl, fun hp => ?_⟩
  obtain ⟨err, herr⟩ := h.fault hp
  exact ⟨err, by rw [herr]; rfl⟩

/-- One computation behind another. -/
theorem bind {f : α → Except ε β} {y : β} (h : Guarded p e x) (hf : Guarded q (f x) y) :
    Guarded (p ∧ q) (e >>= f) y := by
  refine ⟨fun ⟨hp, hq⟩ => by rw [h.ok hp]; exact hf.ok hq, fun hpq => ?_⟩
  by_cases hp : p
  · rw [h.ok hp]
    exact hf.fault fun hq => hpq ⟨hp, hq⟩
  · obtain ⟨err, herr⟩ := h.fault hp
    exact ⟨err, by rw [herr]; rfl⟩

/-- A computation that is only asked whether it succeeds. -/
theorem of_exists (h : (∃ a, e = .ok a) ↔ p) (y : β) : Guarded p (e >>= fun _ => .ok y) y := by
  constructor
  · intro hp
    obtain ⟨a, rfl⟩ := h.mpr hp
    rfl
  · intro hp
    rcases e with err | a
    · exact ⟨err, rfl⟩
    · exact absurd (h.mp ⟨a, rfl⟩) hp

/-- The branches of a case. -/
theorem ite {c : Prop} [Decidable c] {e₁ e₂ : Except ε α} {x₁ x₂ : α} (h₁ : c → Guarded p e₁ x₁)
    (h₂ : ¬ c → Guarded q e₂ x₂) :
    Guarded ((c → p) ∧ (¬ c → q)) (if c then e₁ else e₂) (if c then x₁ else x₂) := by
  by_cases hc : c
  · rw [if_pos hc, if_pos hc]
    exact (h₁ hc).congr ⟨fun h => h.1 hc, fun h => ⟨fun _ => h, fun hn => absurd hc hn⟩⟩
  · rw [if_neg hc, if_neg hc]
    exact (h₂ hc).congr ⟨fun h => h.2 hc, fun h => ⟨fun hn => absurd hn hc, fun _ => h⟩⟩

end Guarded

/-- **Runs of guarded steps**: a run that does not fault is the run of the functions, and every step of it meets
its condition. -/
theorem guarded_run {f : S → A → Except ε S} {step : S → A → S} {ok : S → A → Prop}
    (h : ∀ s a, Guarded (ok s a) (f s a) (step s a)) (s : S) (as : List A) :
    Guarded (RunOk step ok s as) (as.foldlM f s) (run step s as) := by
  induction as generalizing s with
  | nil => exact .pure s
  | cons a as ih =>
    rw [List.foldlM_cons]
    exact (h s a).bind (ih (step s a))

end CLib
