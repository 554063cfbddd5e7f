import VfsOss.CLib.ListHead
import Mathlib.Data.List.Nodup

/-!
# Proofs: doubly linked lists

Adding and deleting a node changes the ring it is added to or deleted from, and leaves every other ring
alone. A loop that is safe against deletion visits the nodes a ring had at its start.
-/

namespace CLib

variable {N : Type} {l l' : ListHeads N} {a b x new head : N} {xs ys : List N}

/-! ## Paths -/

theorem Linked.append : Linked l a (xs ++ x :: ys) b ↔ Linked l a xs x ∧ Linked l x ys b := by
  induction xs generalizing a with
  | nil => exact Iff.rfl
  | cons y xs ih =>
    show (_ ∧ Linked l y (xs ++ x :: ys) b) ↔ (_ ∧ Linked l y xs x) ∧ _
    rw [ih]
    exact and_assoc.symm

/-- A path reads `next` of all its nodes but the last and `prev` of all but the first. -/
theorem Linked.congr (h : Linked l a xs b) (hnext : ∀ u ∈ a :: xs, l'.next u = l.next u)
    (hprev : ∀ u ∈ xs ++ [b], l'.prev u = l.prev u) : Linked l' a xs b := by
  induction xs generalizing a with
  | nil =>
    obtain ⟨h1, h2⟩ := h
    exact ⟨(hnext a List.mem_cons_self).trans h1, (hprev b List.mem_cons_self).trans h2⟩
  | cons y xs ih =>
    obtain ⟨⟨h1, h2⟩, hrest⟩ := h
    refine ⟨⟨(hnext a List.mem_cons_self).trans h1, (hprev y List.mem_cons_self).trans h2⟩, ?_⟩
    apply ih hrest
    · exact fun u hu => hnext u (List.mem_cons_of_mem a hu)
    · exact fun u hu => hprev u (List.mem_cons_of_mem y hu)

/-- The node before the end of a path is on it. -/
theorem Linked.prev_mem (h : Linked l a xs b) : l.prev b ∈ a :: xs := by
  induction xs generalizing a with
  | nil =>
    rw [h.2]
    exact List.mem_cons_self
  | cons y xs ih => exact List.mem_cons_of_mem a (ih h.2)

/-- A path whose last step is turned to another node. -/
theorem Linked.retarget {n : N} (h : Linked l a xs x) (hnodup : (a :: xs).Nodup)
    (hnext : ∀ u ∈ a :: xs, u ≠ l.prev x → l'.next u = l.next u)
    (hprev : ∀ u ∈ xs, l'.prev u = l.prev u) (hn : l'.next (l.prev x) = n)
    (hp : l'.prev n = l.prev x) : Linked l' a xs n := by
  induction xs generalizing a with
  | nil =>
    obtain ⟨-, h2⟩ := h
    rw [h2] at hn hp
    exact ⟨hn, hp⟩
  | cons y xs ih =>
    obtain ⟨⟨h1, h2⟩, hrest⟩ := h
    rw [List.nodup_cons] at hnodup
    have hne : a ≠ l.prev x := by
      intro heq
      exact hnodup.1 (heq ▸ hrest.prev_mem)
    refine ⟨⟨(hnext a List.mem_cons_self hne).trans h1, (hprev y List.mem_cons_self).trans h2⟩, ?_⟩
    apply ih hrest hnodup.2
    · exact fun u hu => hnext u (List.mem_cons_of_mem a hu)
    · exact fun u hu => hprev u (List.mem_cons_of_mem y hu)

/-- A ring reads the pointers of its own nodes only. -/
theorem Ring.congr (h : Ring l head xs) (hnext : ∀ u ∈ head :: xs, l'.next u = l.next u)
    (hprev : ∀ u ∈ head :: xs, l'.prev u = l.prev u) : Ring l' head xs := by
  refine ⟨h.nodup, h.linked.congr hnext fun u hu => hprev u ?_⟩
  rw [List.mem_append, List.mem_singleton] at hu
  rw [List.mem_cons]
  exact hu.symm

/-- A node before or behind a node of a ring is one of the ring. -/
theorem Ring.prev_mem (h : Ring l head (xs ++ x :: ys)) : l.prev x ∈ head :: xs :=
  (Linked.append.mp h.linked).1.prev_mem

theorem Ring.next_mem (h : Ring l head (xs ++ x :: ys)) : l.next x ∈ head :: ys := by
  have hlinked := (Linked.append.mp h.linked).2
  cases ys with
  | nil =>
    rw [hlinked.1]
    exact List.mem_cons_self
  | cons y ys =>
    rw [hlinked.1.1]
    exact List.mem_cons_of_mem _ List.mem_cons_self

theorem Ring.next_head (h : Ring l head xs) : l.next head = xs.head?.getD head := by
  cases xs with
  | nil => exact h.linked.1
  | cons x xs => exact h.linked.1.1

/-- The node behind one of the nodes. -/
theorem Ring.next_of_append (h : Ring l head (xs ++ x :: ys)) : l.next x = ys.head?.getD head := by
  have hlinked := (Linked.append.mp h.linked).2
  cases ys with
  | nil => exact hlinked.1
  | cons y ys => exact hlinked.1.1

variable [DecidableEq N]

/-! ## What the functions do to the pointers -/

theorem next_listDelInit (u : N) : (listDelInit l x).next u =
    if u = x then x else if u = l.prev x then l.next x else l.next u := by
  simp only [listDelInit, initListHead, listDel, ListHeads.setNext, ListHeads.setPrev,
    Function.update_apply]

theorem prev_listDelInit (u : N) : (listDelInit l x).prev u =
    if u = x then x else if u = l.next x then l.prev x else l.prev u := by
  simp only [listDelInit, initListHead, listDel, ListHeads.setNext, ListHeads.setPrev,
    Function.update_apply]

theorem next_listAddTail (u : N) : (listAddTail l new head).next u =
    if u = l.prev head then new else if u = new then head else l.next u := by
  simp only [listAddTail, listAdd, ListHeads.setNext, ListHeads.setPrev, Function.update_apply]

theorem prev_listAddTail (u : N) : (listAddTail l new head).prev u =
    if u = new then l.prev head else if u = head then new else l.prev u := by
  simp only [listAddTail, listAdd, ListHeads.setNext, ListHeads.setPrev, Function.update_apply]

theorem next_listAddHead (u : N) : (listAddHead l new head).next u =
    if u = head then new else if u = new then l.next head else l.next u := by
  simp only [listAddHead, listAdd, ListHeads.setNext, ListHeads.setPrev, Function.update_apply]

theorem prev_listAddHead (u : N) : (listAddHead l new head).prev u =
    if u = new then head else if u = l.next head then new else l.prev u := by
  simp only [listAddHead, listAdd, ListHeads.setNext, ListHeads.setPrev, Function.update_apply]

/-! ## Rings -/

/-- An initialised node is a ring of its own. -/
theorem ring_initListHead (l : ListHeads N) (x : N) : Ring (initListHead l x) x [] :=
  ⟨List.nodup_singleton x, Function.update_self .., Function.update_self ..⟩

theorem Ring.initListHead_other (h : Ring l head xs) (hx : x ∉ head :: xs) :
    Ring (initListHead l x) head xs := by
  apply h.congr
  · exact fun u hu => Function.update_of_ne (ne_of_mem_of_not_mem hu hx) ..
  · exact fun u hu => Function.update_of_ne (ne_of_mem_of_not_mem hu hx) ..

/-- A node that is deleted is a ring of its own. -/
theorem ring_listDelInit_self (l : ListHeads N) (x : N) : Ring (listDelInit l x) x [] :=
  ring_initListHead ..

/-- Deleting a node that is in no list changes nothing. -/
theorem Ring.listDelInit_eq (h : Ring l x []) : listDelInit l x = l := by
  obtain ⟨hnext, hprev⟩ := h.linked
  have h1 : (listDelInit l x).next = l.next := by
    funext u
    rw [next_listDelInit, hprev, hnext]
    split
    · next hu => rw [hu, hnext]
    · rfl
  have h2 : (listDelInit l x).prev = l.prev := by
    funext u
    rw [prev_listDelInit, hprev, hnext]
    split
    · next hu => rw [hu, hprev]
    · rfl
  cases hl : listDelInit l x with
  | mk next prev =>
    rw [hl] at h1 h2
    cases l
    cases h1
    cases h2
    rfl

/-- **Deleting** takes a node out of its ring. -/
theorem Ring.listDelInit (h : Ring l head (xs ++ x :: ys)) :
    Ring (listDelInit l x) head (xs ++ ys) := by
  have hnodup := h.nodup
  have hsub : (head :: (xs ++ ys)).Sublist (head :: (xs ++ x :: ys)) :=
    List.Sublist.cons_cons _ ((List.sublist_cons_self x ys).append_left xs)
  have hx : x ∉ head :: (xs ++ ys) := by
    rw [← List.cons_append] at hnodup ⊢
    exact (List.nodup_middle.mp hnodup).notMem
  refine ⟨hnodup.sublist hsub, ?_⟩
  obtain ⟨hl, hr⟩ := Linked.append.mp h.linked
  have hp := h.prev_mem
  have hn := h.next_mem
  -- the nodes before and behind the deleted one
  have hleft : ∀ u ∈ xs, u ≠ x ∧ u ∉ head :: ys := by
    simp only [List.nodup_cons, List.nodup_append, List.mem_append, List.mem_cons] at hnodup ⊢
    grind
  have hhead : head ≠ x := fun heq => hx (heq ▸ List.mem_cons_self)
  have hright : ∀ u ∈ ys, u ≠ x ∧ u ∉ head :: xs := by
    simp only [List.nodup_cons, List.nodup_append, List.mem_append, List.mem_cons] at hnodup ⊢
    grind
  have hpx : l.prev x ≠ x := by
    intro heq
    rw [heq] at hp
    simp only [List.mem_cons, List.mem_append] at hx hp
    tauto
  have hnx : l.next x ≠ x := by
    intro heq
    rw [heq] at hn
    simp only [List.mem_cons, List.mem_append] at hx hn
    tauto
  have hto : Linked (CLib.listDelInit l x) head xs (l.next x) := by
    refine hl.retarget ?_ ?_ ?_ ?_ ?_
    · exact hnodup.sublist (List.Sublist.cons_cons _ (List.sublist_append_left ..))
    · intro u hu hup
      have hux : u ≠ x := by
        rcases List.mem_cons.mp hu with rfl | hu
        · exact hhead
        · exact (hleft u hu).1
      rw [next_listDelInit, if_neg hux, if_neg hup]
    · intro u hu
      rw [prev_listDelInit, if_neg (hleft u hu).1,
        if_neg (ne_of_mem_of_not_mem hn (hleft u hu).2).symm]
    · rw [next_listDelInit, if_neg hpx, if_pos rfl]
    · rw [prev_listDelInit, if_neg hnx, if_pos rfl]
  cases ys with
  | nil =>
    rw [List.append_nil]
    rwa [hr.1] at hto
  | cons y ys =>
    obtain ⟨⟨hy, -⟩, hrest⟩ := hr
    rw [hy] at hto
    apply Linked.append.mpr
    refine ⟨hto, hrest.congr ?_ ?_⟩
    · intro u hu
      rw [next_listDelInit, if_neg (hright u hu).1,
        if_neg (ne_of_mem_of_not_mem hp (hright u hu).2).symm]
    · intro u hu
      have hne : u ≠ x ∧ u ≠ y := by
        simp only [List.nodup_cons, List.nodup_append, List.mem_append, List.mem_cons] at hnodup hu ⊢
        grind
      rw [prev_listDelInit, if_neg hne.1, hy, if_neg hne.2]

/-- Deleting a node leaves the rings alone that it is not in. -/
theorem Ring.listDelInit_other {head' : N} {zs : List N} (h : Ring l head (xs ++ x :: ys))
    (h' : Ring l head' zs) (hdisj : ∀ u ∈ head' :: zs, u ∉ head :: (xs ++ x :: ys)) :
    Ring (CLib.listDelInit l x) head' zs := by
  have hp : l.prev x ∈ head :: (xs ++ x :: ys) := by
    have := h.prev_mem
    simp only [List.mem_cons, List.mem_append] at this ⊢
    tauto
  have hn : l.next x ∈ head :: (xs ++ x :: ys) := by
    have := h.next_mem
    simp only [List.mem_cons, List.mem_append] at this ⊢
    tauto
  have hx : x ∈ head :: (xs ++ x :: ys) := by simp
  apply h'.congr
  · intro u hu
    rw [next_listDelInit, if_neg (ne_of_mem_of_not_mem hx (hdisj u hu)).symm,
      if_neg (ne_of_mem_of_not_mem hp (hdisj u hu)).symm]
  · intro u hu
    rw [prev_listDelInit, if_neg (ne_of_mem_of_not_mem hx (hdisj u hu)).symm,
      if_neg (ne_of_mem_of_not_mem hn (hdisj u hu)).symm]

/-- **Adding** at the tail puts a node behind the others. -/
theorem Ring.listAddTail (h : Ring l head xs) (hnew : new ∉ head :: xs) :
    Ring (listAddTail l new head) head (xs ++ [new]) := by
  have hp := h.linked.prev_mem
  have hpn : l.prev head ≠ new := fun heq => hnew (heq ▸ hp)
  have hhn : head ≠ new := fun heq => hnew (heq ▸ List.mem_cons_self)
  have hhead := (List.nodup_cons.mp h.nodup).1
  constructor
  · rw [← List.cons_append]
    exact List.Nodup.append h.nodup (List.nodup_singleton new) (List.disjoint_singleton.mpr hnew)
  apply Linked.append.mpr
  constructor
  · refine h.linked.retarget h.nodup ?_ ?_ ?_ ?_
    · intro u hu hup
      rw [next_listAddTail, if_neg hup, if_neg (ne_of_mem_of_not_mem hu hnew)]
    · intro u hu
      rw [prev_listAddTail, if_neg (ne_of_mem_of_not_mem (List.mem_cons_of_mem head hu) hnew),
        if_neg (ne_of_mem_of_not_mem hu hhead)]
    · rw [next_listAddTail, if_pos rfl]
    · rw [prev_listAddTail, if_pos rfl]
  · constructor
    · rw [next_listAddTail, if_neg hpn.symm, if_pos rfl]
    · rw [prev_listAddTail, if_neg hhn, if_pos rfl]

/-- Adding a node to a ring leaves the rings alone that have neither. -/
theorem Ring.listAddTail_other {head' : N} {zs : List N} (h : Ring l head xs) (h' : Ring l head' zs)
    (hdisj : ∀ u ∈ head' :: zs, u ≠ new ∧ u ∉ head :: xs) :
    Ring (CLib.listAddTail l new head) head' zs := by
  have hp := h.linked.prev_mem
  apply h'.congr
  · intro u hu
    rw [next_listAddTail, if_neg (ne_of_mem_of_not_mem hp (hdisj u hu).2).symm, if_neg (hdisj u hu).1]
  · intro u hu
    rw [prev_listAddTail, if_neg (hdisj u hu).1,
      if_neg (ne_of_mem_of_not_mem List.mem_cons_self (hdisj u hu).2).symm]

/-- Adding at the head puts a node before the others. -/
theorem Ring.listAddHead (h : Ring l head xs) (hnew : new ∉ head :: xs) :
    Ring (listAddHead l new head) head (new :: xs) := by
  have hhn : head ≠ new := fun heq => hnew (heq ▸ List.mem_cons_self)
  have hnodup := h.nodup
  have hfirst : (CLib.listAddHead l new head).next head = new ∧
      (CLib.listAddHead l new head).prev new = head := by
    rw [next_listAddHead, if_pos rfl, prev_listAddHead, if_pos rfl]
    exact ⟨rfl, rfl⟩
  refine ⟨?_, hfirst, ?_⟩
  · simp only [List.nodup_cons, List.mem_cons] at hnodup hnew ⊢
    grind
  cases xs with
  | nil =>
    obtain ⟨hnext, hprev⟩ := h.linked
    constructor
    · rw [next_listAddHead, if_neg hhn.symm, if_pos rfl, hnext]
    · rw [prev_listAddHead, if_neg hhn, hnext, if_pos rfl]
  | cons y xs =>
    obtain ⟨⟨hnext, hprev⟩, hrest⟩ := h.linked
    have hyn : y ≠ new := fun heq => hnew (heq ▸ List.mem_cons_of_mem _ List.mem_cons_self)
    refine ⟨⟨?_, ?_⟩, hrest.congr ?_ ?_⟩
    · rw [next_listAddHead, if_neg hhn.symm, if_pos rfl, hnext]
    · rw [prev_listAddHead, if_neg hyn, hnext, if_pos rfl]
    · intro u hu
      have hne : u ≠ head ∧ u ≠ new := by
        simp only [List.nodup_cons, List.mem_cons] at hnodup hnew hu ⊢
        grind
      rw [next_listAddHead, if_neg hne.1, if_neg hne.2]
    · intro u hu
      have hne : u ≠ new ∧ u ≠ y := by
        simp only [List.nodup_cons, List.mem_cons, List.mem_append] at hnodup hnew hu ⊢
        grind
      rw [prev_listAddHead, if_neg hne.1, hnext, if_neg hne.2]

theorem Ring.listAddHead_other {head' : N} {zs : List N} (h : Ring l head xs) (h' : Ring l head' zs)
    (hdisj : ∀ u ∈ head' :: zs, u ≠ new ∧ u ∉ head :: xs) :
    Ring (CLib.listAddHead l new head) head' zs := by
  have hn : l.next head ∈ head :: xs := by
    rw [h.next_head]
    cases xs with
    | nil => exact List.mem_cons_self
    | cons y xs => exact List.mem_cons_of_mem _ List.mem_cons_self
  apply h'.congr
  · intro u hu
    rw [next_listAddHead, if_neg (ne_of_mem_of_not_mem List.mem_cons_self (hdisj u hu).2).symm,
      if_neg (hdisj u hu).1]
  · intro u hu
    rw [prev_listAddHead, if_neg (hdisj u hu).1, if_neg (ne_of_mem_of_not_mem hn (hdisj u hu).2).symm]

/-! ## The loop -/

/-- **The rule for the loop.** `inv` says what holds when some nodes are left to visit; these are the last
ones of the ring, whatever the body has made of the ring. -/
theorem forEachSafe_spec {S : Type} (links : S → ListHeads N) (head : N) (body : N → S → Option S)
    (inv : List N → S → Prop) (hring : ∀ {rest s}, inv rest s → ∃ pre, Ring (links s) head (pre ++ rest))
    (hbody : ∀ {x rest s}, inv (x :: rest) s → ∃ s', body x s = some s' ∧ inv rest s') :
    ∀ (fuel : Nat) (rest : List N) (s : S), rest.length < fuel → inv rest s →
      ∃ s', forEachSafe links head body fuel (rest.head?.getD head)
        ((links s).next (rest.head?.getD head)) s = some s' ∧ inv [] s' := by
  intro fuel
  induction fuel with
  | zero => exact fun rest s h _ => absurd h (Nat.not_lt_zero _)
  | succ fuel ih =>
    intro rest s hlen hinv
    rw [forEachSafe]
    cases rest with
    | nil => exact ⟨s, if_pos rfl, hinv⟩
    | cons x rest =>
      obtain ⟨pre, hr⟩ := hring hinv
      obtain ⟨s', hs', hinv'⟩ := hbody hinv
      have hne : x ≠ head := by
        have hnodup := hr.nodup
        simp only [List.nodup_cons, List.mem_append, List.mem_cons] at hnodup
        grind
      have hnext : (links s).next x = rest.head?.getD head := hr.next_of_append
      rw [List.head?_cons, Option.getD_some, if_neg hne, hnext, hs']
      exact ih rest s' (Nat.lt_of_succ_lt_succ hlen) hinv'

/-- What every round of the loop keeps, the loop keeps. -/
theorem forEachSafe_keeps {N S : Type} [DecidableEq N] {links : S → ListHeads N} {head : N} {body : N → S → Option S}
    (P : S → Prop) (hbody : ∀ {node s s'}, body node s = some s' → P s → P s') {fuel : Nat} {pos n : N} {s s' : S}
    (h : forEachSafe links head body fuel pos n s = some s') (hs : P s) : P s' := by
  induction fuel generalizing pos n s with
  | zero => exact nomatch h
  | succ fuel ih =>
    rw [forEachSafe] at h
    split at h
    · exact Option.some.inj h ▸ hs
    · split at h
      · exact nomatch h
      · next s₁ hround => exact ih h (hbody hround hs)

end CLib
