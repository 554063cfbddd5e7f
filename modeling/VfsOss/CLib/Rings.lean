import VfsOss.CLib.Proofs.ListHeadProofs
import Mathlib.Data.List.Perm.Subperm

/-!
# Families of doubly linked lists

Several lists over the same nodes: a node is the head of a list, in one list, or in none. A node that is deleted, or
moved to the end of a list, is taken from the list it is in, if it is in one; the other lists stay as they are.
-/

namespace CLib

variable {N K : Type} {l : ListHeads N} {head : K → N} {q q' : K → List N} {x : N} {k : K}

/-- Numbers below `n` that are all different are at most `n` many. -/
theorem length_le_of_nodup {l : List Nat} {n : Nat} (h : l.Nodup) (hlt : ∀ a ∈ l, a < n) : l.length ≤ n := by
  have hsub : l.Subperm (List.range n) := h.subperm fun a ha => List.mem_range.mpr (hlt a ha)
  have hle := hsub.length_le
  rwa [List.length_range] at hle

/-- The lists with these heads hold these nodes, and every other node is in none. -/
structure Rings (l : ListHeads N) (head : K → N) (q : K → List N) : Prop where
  ring : ∀ k, Ring l (head k) (q k)
  heads : ∀ {k k'}, head k = head k' → k = k'
  noHead : ∀ k k', head k ∉ q k'
  apart : ∀ {x k k'}, x ∈ q k → x ∈ q k' → k = k'
  alone : ∀ {x}, (∀ k, x ≠ head k ∧ x ∉ q k) → Ring l x []

namespace Rings

theorem nodup (h : Rings l head q) (k : K) : (q k).Nodup := (List.nodup_cons.mp (h.ring k).nodup).2

/-- Two lists have no node in common. -/
theorem disjoint (h : Rings l head q) {k k' : K} (hne : k' ≠ k) : ∀ u ∈ head k' :: q k', u ∉ head k :: q k := by
  intro u hu hmem
  rcases List.mem_cons.mp hu with rfl | hu
  · rcases List.mem_cons.mp hmem with heq | hmem
    · exact hne (h.heads heq)
    · exact h.noHead k' k hmem
  · rcases List.mem_cons.mp hmem with rfl | hmem
    · exact h.noHead k k' hu
    · exact hne (h.apart hu hmem)

/-- The same lists, written otherwise. -/
theorem congr (h : Rings l head q) (hq : ∀ k, q' k = q k) : Rings l head q' := (funext hq : q' = q) ▸ h

variable [DecidableEq N]

/-- **Deleting** takes a node out of the list it is in. -/
theorem listDelInit (h : Rings l head q) (hx : ∀ k, x ≠ head k) :
    Rings (listDelInit l x) head fun k => (q k).erase x := by
  by_cases hin : ∃ k, x ∈ q k
  · obtain ⟨k, hk⟩ := hin
    obtain ⟨pre, post, hq⟩ := List.append_of_mem hk
    have hring := h.ring k
    have hdisj : ∀ k', k' ≠ k → ∀ u ∈ head k' :: q k', u ∉ head k :: (pre ++ x :: post) :=
      fun k' hne => hq ▸ h.disjoint hne
    rw [hq] at hring
    refine ⟨fun k' => ?_, h.heads, fun k' k'' hmem => h.noHead k' k'' (List.mem_of_mem_erase hmem),
      fun h₁ h₂ => h.apart (List.mem_of_mem_erase h₁) (List.mem_of_mem_erase h₂), fun {y} hy => ?_⟩
    · by_cases hne : k' = k
      · subst hne
        have hpre : x ∉ pre := by
          have hnodup := h.nodup k'
          rw [hq, List.nodup_middle] at hnodup
          exact fun hmem => (List.nodup_cons.mp hnodup).1 (List.mem_append_left _ hmem)
        rw [hq, List.erase_append_right _ hpre, List.erase_cons_head]
        exact hring.listDelInit
      · rw [List.erase_of_not_mem fun hmem => hne (h.apart hmem hk)]
        exact hring.listDelInit_other (h.ring k') (hdisj k' hne)
    · by_cases hyx : y = x
      · subst hyx
        exact ring_listDelInit_self ..
      · have hout : ∀ k', y ≠ head k' ∧ y ∉ q k' := fun k' =>
          ⟨(hy k').1, fun hmem => (hy k').2 ((List.mem_erase_of_ne hyx).mpr hmem)⟩
        refine hring.listDelInit_other (h.alone hout) fun u hu => ?_
        rw [List.mem_singleton.mp hu, ← hq]
        exact List.not_mem_cons_of_ne_of_not_mem (hout k).1 (hout k).2
  · rw [not_exists] at hin
    rw [(h.alone fun k => ⟨hx k, hin k⟩).listDelInit_eq]
    exact h.congr fun k => List.erase_of_not_mem (hin k)

variable [DecidableEq K]

omit [DecidableEq N] in
/-- A node linked into one list, wherever it is put, is in that list; the others stay as they are. -/
theorem insert (h : Rings l head q) {l' : ListHeads N} (k : K) (hx : ∀ k, x ≠ head k ∧ x ∉ q k) {xs : List N}
    (hxs : ∀ u, u ∈ xs ↔ u ∈ q k ∨ u = x) (hring : Ring l' (head k) xs)
    (hother : ∀ {u zs}, Ring l u zs → (∀ v ∈ u :: zs, v ≠ x ∧ v ∉ head k :: q k) → Ring l' u zs) :
    Rings l' head (Function.update q k xs) := by
  have hmem : ∀ {u k'}, u ∈ Function.update q k xs k' ↔ u ∈ q k' ∨ k' = k ∧ u = x := by
    intro u k'
    by_cases hne : k' = k
    · subst hne
      simp [hxs]
    · simp [hne]
  refine ⟨fun k' => ?_, h.heads, fun k' k'' hin => ?_, fun {u k' k''} h₁ h₂ => ?_, fun {y} hy => ?_⟩
  · by_cases hne : k' = k
    · subst hne
      rw [Function.update_self]
      exact hring
    · rw [Function.update_of_ne hne]
      refine hother (h.ring k') fun u hu => ⟨?_, h.disjoint hne u hu⟩
      rintro rfl
      exact List.not_mem_cons_of_ne_of_not_mem (hx k').1 (hx k').2 hu
  · rcases hmem.mp hin with hin | ⟨-, heq⟩
    · exact h.noHead k' k'' hin
    · exact (hx k').1 heq.symm
  · rcases hmem.mp h₁ with hold₁ | ⟨hk₁, hux⟩
    · rcases hmem.mp h₂ with hold₂ | ⟨-, hux⟩
      · exact h.apart hold₁ hold₂
      · exact absurd (hux ▸ hold₁) (hx k').2
    · rcases hmem.mp h₂ with hold₂ | ⟨hk₂, -⟩
      · exact absurd (hux ▸ hold₂) (hx k'').2
      · exact hk₁.trans hk₂.symm
  · have hout : ∀ k', y ≠ head k' ∧ y ∉ q k' := fun k' => ⟨(hy k').1, fun hin => (hy k').2 (hmem.mpr (.inl hin))⟩
    refine hother (h.alone hout) fun u hu => ?_
    rw [List.mem_singleton.mp hu]
    refine ⟨?_, List.not_mem_cons_of_ne_of_not_mem (hout k).1 (hout k).2⟩
    rintro rfl
    exact (hy k).2 (hmem.mpr (.inr ⟨rfl, rfl⟩))

/-- **Adding** at the tail of a list puts a node behind the others. -/
theorem listAddTail (h : Rings l head q) (k : K) (hx : ∀ k, x ≠ head k ∧ x ∉ q k) :
    Rings (listAddTail l x (head k)) head (Function.update q k (q k ++ [x])) :=
  h.insert k hx (by simp) ((h.ring k).listAddTail (List.not_mem_cons_of_ne_of_not_mem (hx k).1 (hx k).2))
    (h.ring k).listAddTail_other

/-- **Adding** at the head of a list puts a node before the others. -/
theorem listAddHead (h : Rings l head q) (k : K) (hx : ∀ k, x ≠ head k ∧ x ∉ q k) :
    Rings (listAddHead l x (head k)) head (Function.update q k (x :: q k)) :=
  h.insert k hx (by simp [or_comm]) ((h.ring k).listAddHead (List.not_mem_cons_of_ne_of_not_mem (hx k).1 (hx k).2))
    (h.ring k).listAddHead_other

/-- **Moving** a node to the end of a list, from wherever it is. -/
theorem move (h : Rings l head q) (k : K) (hx : ∀ k, x ≠ head k) :
    Rings (CLib.listAddTail (CLib.listDelInit l x) x (head k)) head
      (Function.update (fun k => (q k).erase x) k ((q k).erase x ++ [x])) :=
  (h.listDelInit hx).listAddTail k fun k' => ⟨hx k', (h.nodup k').not_mem_erase⟩

/-- **Moving** a node to the start of a list, from wherever it is. -/
theorem moveHead (h : Rings l head q) (k : K) (hx : ∀ k, x ≠ head k) :
    Rings (CLib.listAddHead (CLib.listDelInit l x) x (head k)) head
      (Function.update (fun k => (q k).erase x) k (x :: (q k).erase x)) :=
  (h.listDelInit hx).listAddHead k fun k' => ⟨hx k', (h.nodup k').not_mem_erase⟩

end Rings

/-! ## Searching a list -/

section Search

variable [DecidableEq N] {R : Type}

/-- The loop of `list_for_each_entry_safe_l` when its body looks at a node and either goes on or breaks with a result:
at `pos`, with the node `n` behind it. The body gives nothing when its behaviour is undefined; the loop gives nothing
when it has not come back to `head` after `fuel` nodes. -/
def findSafe (l : ListHeads N) (head : N) (body : N → Option (Option R)) : Nat → N → N → Option (Option R)
  | 0, _, _ => none
  | fuel + 1, pos, n =>
    if pos = head then some none
    else
      match body pos with
      | none => none
      | some none => findSafe l head body fuel n (l.next n)
      | some (some r) => some (some r)

/-- **The rule for a search.** It ends with the result of the first node that has one. -/
theorem findSafe_spec {hd : N} {body : N → Option (Option R)} {f : N → Option R} {xs : List N}
    (hring : Ring l hd xs) (hbody : ∀ x ∈ xs, body x = some (f x)) {fuel : Nat} (hfuel : xs.length < fuel) :
    findSafe l hd body fuel (l.next hd) (l.next (l.next hd)) = some (xs.findSome? f) := by
  suffices h : ∀ (rest pre : List N), pre ++ rest = xs → ∀ fuel, rest.length < fuel →
      findSafe l hd body fuel (rest.head?.getD hd) (l.next (rest.head?.getD hd)) = some (rest.findSome? f) by
    rw [hring.next_head]
    exact h xs [] rfl fuel hfuel
  intro rest
  induction rest with
  | nil =>
    intro pre _ fuel hlen
    obtain ⟨fuel, rfl⟩ := Nat.exists_eq_succ_of_ne_zero (Nat.ne_of_gt hlen)
    rw [findSafe]
    exact if_pos rfl
  | cons x rest ih =>
    intro pre hpre fuel hlen
    obtain ⟨fuel, rfl⟩ := Nat.exists_eq_succ_of_ne_zero (Nat.ne_of_gt (Nat.zero_lt_of_lt hlen))
    have hmem : x ∈ xs := hpre ▸ List.mem_append_right _ List.mem_cons_self
    have hne : x ≠ hd := fun heq => (List.nodup_cons.mp hring.nodup).1 (heq ▸ hmem)
    have hnext : l.next x = rest.head?.getD hd := (hpre ▸ hring).next_of_append
    rw [List.head?_cons, Option.getD_some, findSafe, if_neg hne, hbody x hmem, hnext, List.findSome?_cons]
    cases f x with
    | none => exact ih (pre ++ [x]) (by rw [List.append_assoc]; exact hpre) fuel (Nat.lt_of_succ_lt_succ hlen)
    | some r => rfl

end Search

/-- Every node its own ring: the lists are empty. -/
theorem rings_empty (heads : ∀ {k k'}, head k = head k' → k = k') :
    Rings (⟨id, id⟩ : ListHeads N) head fun _ => [] :=
  ⟨fun _ => ⟨List.nodup_singleton _, rfl, rfl⟩, heads, fun _ _ => List.not_mem_nil,
    fun h => absurd h List.not_mem_nil, fun _ => ⟨List.nodup_singleton _, rfl, rfl⟩⟩

end CLib
