import Mathlib.Tactic.Common
import Mathlib.Data.List.Basic

/-!
# Hash chains

A chain is searched from its head and the first entry that matches is the one that is used: it is
looked at (`List.find?`), removed (`List.eraseP`) or changed in place (`updFirst`).
-/

namespace CLib

variable {α : Type}

/-- The first matching entry changed in place. -/
def updFirst (p : α → Bool) (f : α → α) : List α → List α
  | [] => []
  | a :: l => if p a then f a :: l else a :: updFirst p f l

variable {p : α → Bool} {f : α → α} {l : List α} {a : α}

/-- An entry of the changed chain was there before, or is the changed one. -/
theorem mem_updFirst (h : a ∈ updFirst p f l) :
    a ∈ l ∨ ∃ b, l.find? p = some b ∧ a = f b := by
  induction l with
  | nil => exact absurd h (by simp [updFirst])
  | cons b l ih =>
    rw [updFirst] at h
    split at h
    · next hb =>
      rcases List.mem_cons.mp h with h | h
      · exact Or.inr ⟨b, by simp [hb], h⟩
      · exact Or.inl (by simp [h])
    · next hb =>
      rcases List.mem_cons.mp h with h | h
      · exact Or.inl (by simp [h])
      · rcases ih h with h | ⟨c, hc, rfl⟩
        · exact Or.inl (by simp [h])
        · exact Or.inr ⟨c, by simp [hb, hc], rfl⟩

/-- An entry that does not match stays. -/
theorem mem_updFirst_of_not (h : a ∈ l) (ha : p a = false) : a ∈ updFirst p f l := by
  induction l with
  | nil => exact absurd h (by simp)
  | cons b l ih =>
    rw [updFirst]
    rcases List.mem_cons.mp h with rfl | h
    · simp [ha]
    · split
      · simp [h]
      · exact List.mem_cons_of_mem _ (ih h)

/-- Every entry stays, or its changed version does. -/
theorem mem_updFirst_or (h : a ∈ l) : a ∈ updFirst p f l ∨ f a ∈ updFirst p f l := by
  induction l with
  | nil => exact absurd h (by simp)
  | cons b l ih =>
    rw [updFirst]
    rcases List.mem_cons.mp h with rfl | h
    · split <;> simp
    · split
      · simp [h]
      · rcases ih h with h | h
        · exact Or.inl (List.mem_cons_of_mem _ h)
        · exact Or.inr (List.mem_cons_of_mem _ h)

/-- An entry other than the first match stays. -/
theorem mem_updFirst_of_find?_ne (h : a ∈ l) (hf : l.find? p ≠ some a) : a ∈ updFirst p f l := by
  induction l with
  | nil => exact absurd h (by simp)
  | cons b l ih =>
    rw [updFirst]
    by_cases hb : p b
    · rw [if_pos hb]
      rw [List.find?_cons_of_pos hb] at hf
      rcases List.mem_cons.mp h with rfl | h
      · exact absurd rfl hf
      · exact List.mem_cons_of_mem _ h
    · rw [if_neg hb]
      rw [List.find?_cons_of_neg hb] at hf
      rcases List.mem_cons.mp h with rfl | h
      · exact List.mem_cons_self
      · exact List.mem_cons_of_mem _ (ih h hf)

/-- The first match after it has been changed, when the change keeps what is searched for. -/
theorem find?_updFirst_self (hp : ∀ a, p (f a) = p a) :
    (updFirst p f l).find? p = (l.find? p).map f := by
  induction l with
  | nil => rfl
  | cons b l ih =>
    rw [updFirst]
    by_cases hb : p b
    · rw [if_pos hb, List.find?_cons_of_pos (by rw [hp, hb]), List.find?_cons_of_pos hb]
      rfl
    · rw [if_neg hb, List.find?_cons_of_neg hb, List.find?_cons_of_neg hb, ih]

/-- A search for something else does not see the change. -/
theorem find?_updFirst_of_disjoint {q : α → Bool} (hpq : ∀ a, p a = true → q a = false)
    (hq : ∀ a, q (f a) = q a) : (updFirst p f l).find? q = l.find? q := by
  induction l with
  | nil => rfl
  | cons b l ih =>
    rw [updFirst]
    by_cases hb : p b
    · rw [if_pos hb, List.find?_cons_of_neg (by simp [hq, hpq b hb]),
        List.find?_cons_of_neg (by simp [hpq b hb])]
    · rw [if_neg hb, List.find?_cons, List.find?_cons, ih]

/-- A search for something else does not see the removal. -/
theorem find?_eraseP_of_disjoint {q : α → Bool} (hpq : ∀ a, p a = true → q a = false) :
    (l.eraseP p).find? q = l.find? q := by
  induction l with
  | nil => rfl
  | cons b l ih =>
    by_cases hb : p b
    · rw [List.eraseP_cons_of_pos hb, List.find?_cons_of_neg (by simp [hpq b hb])]
    · rw [List.eraseP_cons_of_neg hb, List.find?_cons, List.find?_cons, ih]

theorem map_updFirst {β : Type} {g : α → β} (h : ∀ a, g (f a) = g a) :
    (updFirst p f l).map g = l.map g := by
  induction l with
  | nil => rfl
  | cons b l ih =>
    rw [updFirst]
    split
    · simp [h]
    · simp [ih]

/-- The entry that matches first is the only one lost by removing the first match. -/
theorem mem_eraseP_or (h : a ∈ l) : l.find? p = some a ∨ a ∈ l.eraseP p := by
  induction l with
  | nil => exact absurd h (by simp)
  | cons b l ih =>
    by_cases hb : p b
    · rcases List.mem_cons.mp h with rfl | h
      · exact Or.inl (by simp [hb])
      · exact Or.inr (by simp [hb, h])
    · rcases List.mem_cons.mp h with rfl | h
      · exact Or.inr (by simp [hb])
      · rcases ih h with h | h
        · exact Or.inl (by simp [hb, h])
        · exact Or.inr (by simp [hb, h])

/-- Nothing that shares a key with the entry removed is left, when keys are unique. -/
theorem key_ne_of_mem_eraseP {β : Type} {g : α → β} {b : α} (hnd : (l.map g).Nodup)
    (hf : l.find? p = some a) (hb : b ∈ l.eraseP p) : g b ≠ g a := by
  induction l with
  | nil => exact absurd hb (by simp)
  | cons d l ih =>
    rw [List.map_cons, List.nodup_cons] at hnd
    by_cases hd : p d
    · rw [List.find?_cons_of_pos hd] at hf
      rw [List.eraseP_cons_of_pos hd] at hb
      obtain rfl := Option.some.inj hf
      intro he
      exact hnd.1 (he ▸ List.mem_map_of_mem hb)
    · rw [List.find?_cons_of_neg hd] at hf
      rw [List.eraseP_cons_of_neg hd] at hb
      rcases List.mem_cons.mp hb with rfl | hb
      · intro he
        exact hnd.1 (he ▸ List.mem_map_of_mem (List.mem_of_find?_eq_some hf))
      · exact ih hnd.2 hf hb

end CLib
