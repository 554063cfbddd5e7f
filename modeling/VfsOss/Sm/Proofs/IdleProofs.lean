import VfsOss.Sm.Idle
import Mathlib.Data.List.Nodup

/-!
# Proofs: idle connections

Whatever moves the peer it has seen to the end keeps the list ordered, since no `hbtime` is in the future. Setting
`hbtime` alone keeps it ordered exactly if the peers behind are as new.
-/

namespace VfsOss

open CLib

variable {timeout fd : Nat} {s : ActiveList} {l : List Nat} {a : Nat × PeerEvent}

/-- What every state has: no peer is listed twice, and none has been seen in the future. -/
structure ActiveList.Timely (s : ActiveList) : Prop where
  nodup : s.activelist.Nodup
  past : ∀ g ∈ s.activelist, s.hbtime g ≤ s.now

/-- Time passes. -/
theorem ActiveList.Timely.later (h : s.Timely) (dt : Nat) : ActiveList.Timely { s with now := s.now + dt } :=
  ⟨h.nodup, fun g hg => by
    have hpast := h.past g hg
    show s.hbtime g ≤ s.now + dt
    omega⟩

theorem ActiveList.Timely.touch (h : s.Timely) (fd : Nat) : (s.touch fd).Timely := by
  have hne : ∀ g ∈ s.activelist.erase fd, g ≠ fd := fun g hg => (h.nodup.mem_erase_iff.mp hg).1
  refine ⟨?_, fun g hg => ?_⟩
  · rw [ActiveList.touch, List.nodup_append]
    refine ⟨h.nodup.erase fd, List.nodup_singleton fd, fun g hg b hb => ?_⟩
    rw [List.mem_singleton.mp hb]
    exact hne g hg
  · show Function.update s.hbtime fd s.now g ≤ s.now
    by_cases hgf : g = fd
    · rw [hgf]
      exact Int.le_of_eq (Function.update_self ..)
    · rw [Function.update_of_ne hgf]
      rcases List.mem_append.mp hg with hg | hg
      · exact h.past g (List.mem_of_mem_erase hg)
      · exact absurd (List.mem_singleton.mp hg) hgf

theorem ActiveList.Timely.sublist (h : s.Timely) (hl : l.Sublist s.activelist) :
    ActiveList.Timely { s with activelist := l } :=
  ⟨h.nodup.sublist hl, fun g hg => h.past g (hl.subset hg)⟩

theorem ActiveList.Timely.stamp (h : s.Timely) (fd : Nat) :
    ActiveList.Timely { s with hbtime := Function.update s.hbtime fd s.now } := by
  refine ⟨h.nodup, fun g hg => ?_⟩
  show Function.update s.hbtime fd s.now g ≤ s.now
  by_cases hgf : g = fd
  · rw [hgf]
    exact Int.le_of_eq (Function.update_self ..)
  · rw [Function.update_of_ne hgf]
    exact h.past g hg

/-- Moving the peer that has been seen to the end keeps the order. -/
theorem ActiveList.Ordered.touch (ho : s.Ordered) (h : s.Timely) (fd : Nat) : (s.touch fd).Ordered := by
  have hsame : ∀ g ∈ s.activelist.erase fd, Function.update s.hbtime fd s.now g = s.hbtime g := fun g hg =>
    Function.update_of_ne (h.nodup.mem_erase_iff.mp hg).1 ..
  have hrest : (s.activelist.erase fd).Pairwise fun a b =>
      Function.update s.hbtime fd s.now a ≤ Function.update s.hbtime fd s.now b := by
    refine List.Pairwise.imp_of_mem (fun {a b} ha hb hab => ?_) (List.Pairwise.sublist List.erase_sublist ho)
    rw [hsame a ha, hsame b hb]
    exact hab
  unfold ActiveList.Ordered ActiveList.touch
  rw [List.pairwise_append]
  refine ⟨hrest, List.pairwise_singleton _ _, fun g hg b hb => ?_⟩
  rw [List.mem_singleton.mp hb]
  show Function.update s.hbtime fd s.now g ≤ Function.update s.hbtime fd s.now fd
  rw [Function.update_self, hsame g hg]
  exact h.past g (List.mem_of_mem_erase hg)

theorem timeoutLoop_sublist (s : ActiveList) (l : List Nat) : (timeoutLoop timeout s l).Sublist l := by
  induction l with
  | nil => exact List.Sublist.refl []
  | cons g rest ih =>
    rw [timeoutLoop]
    split
    · exact ih.cons g
    · exact List.Sublist.refl _

theorem ActiveList.Timely.step (h : s.Timely) (a : Nat × PeerEvent) : (activeStep timeout s a).Timely := by
  obtain ⟨dt, e⟩ := a
  have hlater := h.later dt
  cases e with
  | initconn fd =>
    unfold activeStep
    dsimp only
    split
    · exact hlater
    · exact hlater.touch fd
  | recv fd =>
    unfold activeStep
    dsimp only
    split
    · exact hlater.touch fd
    · exact hlater
  | send fd =>
    unfold activeStep
    dsimp only
    split
    · exact hlater.touch fd
    · exact hlater
  | sendOnce fd =>
    unfold activeStep
    dsimp only
    split
    · exact hlater.stamp fd
    · exact hlater
  | finiconn fd => exact hlater.sublist List.erase_sublist
  | timeout => exact hlater.sublist (timeoutLoop_sublist _ _)

end VfsOss
