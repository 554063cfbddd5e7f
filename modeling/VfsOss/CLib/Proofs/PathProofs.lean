import VfsOss.CLib.Path

/-!
# Proofs: following a path

A path is followed in two parts at any of its slashes; its last component decides where it ends.
-/

namespace CLib

variable {dir place : List Bytes} {a b c : Bytes}

/-! ## The last separator -/

/-- Two texts that end in a part without the separator are equal part by part. -/
theorem append_sep_inj {α : Type} {sep : α} {a a' b b' : List α} (h : sep ∉ b) (h' : sep ∉ b') :
    a ++ sep :: b = a' ++ sep :: b' ↔ a = a' ∧ b = b' := by
  constructor
  · intro he
    have hlen : b.length = b'.length := by
      have key : ∀ {a a' b b' : List α}, sep ∉ b → a ++ sep :: b = a' ++ sep :: b' →
          b.length ≤ b'.length := by
        intro a a' b b' hb he
        by_contra hlt
        have hle : a.length < a'.length := by
          have := congrArg List.length he
          simp only [List.length_append, List.length_cons] at this
          omega
        -- the second separator would stand inside `b`
        have hget : (a ++ sep :: b)[a'.length]? = some sep := by rw [he]; simp
        rw [List.getElem?_append_right (Nat.le_of_lt hle)] at hget
        obtain ⟨k, hk⟩ : ∃ k, a'.length - a.length = k + 1 := ⟨a'.length - a.length - 1, by omega⟩
        rw [hk, List.getElem?_cons_succ] at hget
        exact hb (List.mem_of_getElem? hget)
      exact Nat.le_antisymm (key h he) (key h' he.symm)
    obtain ⟨rfl, hb⟩ := List.append_inj' he (by simp [hlen])
    exact ⟨rfl, (List.cons.inj hb).2⟩
  · rintro ⟨rfl, rfl⟩
    rfl

/-! ## Following -/

theorem components_append (a b : Bytes) :
    components (a ++ 47 :: b) = components a ++ components b := by
  unfold components
  exact List.splitOn_append_cons_self a b

theorem components_single (h : (47 : UInt8) ∉ c) : components c = [c] :=
  List.splitOn_eq_singleton h

theorem follow_append (dir : List Bytes) (a b : Bytes) :
    follow dir (a ++ 47 :: b) = follow (follow dir a) b := by
  rw [follow, components_append, List.foldl_append]
  rfl

theorem follow_single (h : (47 : UInt8) ∉ c) : follow dir c = enter dir c := by
  rw [follow, components_single h]
  rfl

theorem locate_append {cwd : List Bytes} (ha : a ≠ []) (b : Bytes) :
    locate cwd (a ++ 47 :: b) = follow (locate cwd a) b := by
  obtain ⟨x, a', rfl⟩ := List.exists_cons_of_ne_nil ha
  have hhead : (x :: a' ++ 47 :: b).head? = (x :: a').head? := rfl
  unfold locate
  rw [hhead, follow_append, follow_append]
  split <;> rfl

theorem enter_name (h : IsName c) : enter dir c = c :: dir := by
  obtain ⟨h1, h2, h3⟩ := h
  unfold enter
  rw [if_neg (by simp [h1, h2]), if_neg h3]

/-- Entries of a directory lie below what the directory is at or below. -/
theorem strictlyBelow_cons : StrictlyBelow dir (c :: place) ↔ AtOrBelow dir place := by
  constructor
  · rintro ⟨h, hne⟩
    rcases List.suffix_cons_iff.mp h with rfl | h
    · exact absurd rfl hne
    · exact h
  · intro h
    refine ⟨h.trans (List.suffix_cons c place), fun he => ?_⟩
    have hle := List.IsSuffix.length_le h
    rw [← he, List.length_cons] at hle
    omega

end CLib
