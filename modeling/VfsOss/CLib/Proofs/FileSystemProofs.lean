import VfsOss.CLib.FileSystem

/-!
# Proofs: what a file holds after each operation

Every operation changes the file it names and no other.
-/

namespace CLib

theorem splice_end (c d : Bytes) : splice c c.length d = c ++ d := by
  simp [splice]

namespace FileSystem

variable {P : Type} (fs : FileSystem P) {p q : P} {i : Nat}

theorem content_of_names (h : fs.names p = some i) : fs.content p = some (fs.node i) := by
  simp [content, h]

theorem content_eq_none : fs.content p = none ↔ fs.names p = none := by
  simp [content]

@[simp] theorem names_setNode (c : Bytes) : (fs.setNode i c).names = fs.names := rfl

@[simp] theorem names_pwrite (off : Nat) (d : Bytes) : (fs.pwrite i off d).names = fs.names := rfl

@[simp] theorem node_setNode_self (c : Bytes) : (fs.setNode i c).node i = c := by
  simp [setNode]

@[simp] theorem node_pwrite_self (off : Nat) (d : Bytes) :
    (fs.pwrite i off d).node i = splice (fs.node i) off d := by
  simp [pwrite]

theorem content_setNode (h : fs.names p = some i) (c : Bytes) :
    (fs.setNode i c).content p = some c := by
  simp [content, h]

theorem content_setNode_ne (h : fs.names q ≠ some i) (c : Bytes) :
    (fs.setNode i c).content q = fs.content q := by
  unfold content
  cases hq : fs.names q with
  | none => simp [hq]
  | some j =>
    have hj : j ≠ i := fun e => h (by rw [hq, e])
    simp [hq, setNode, Function.update_of_ne hj]

theorem content_pwrite (h : fs.names p = some i) (off : Nat) (d : Bytes) :
    (fs.pwrite i off d).content p = some (splice (fs.node i) off d) :=
  fs.content_setNode h _

theorem content_pwrite_ne (h : fs.names q ≠ some i) (off : Nat) (d : Bytes) :
    (fs.pwrite i off d).content q = fs.content q :=
  fs.content_setNode_ne h _

variable [DecidableEq P]

theorem content_link_self (h : fs.names p = none) : (fs.link p h).content p = some [] := by
  simp [content, link]

theorem content_link_ne (h : fs.names p = none) (hq : q ≠ p) :
    (fs.link p h).content q = fs.content q := by
  unfold content
  cases hn : fs.names q with
  | none => simp [link, Function.update_of_ne hq, hn]
  | some j =>
    have hj : j ≠ fs.next := by
      have := fs.lt hn
      omega
    simp [link, Function.update_of_ne hq, hn, Function.update_of_ne hj]

theorem names_creat_self : (fs.creat p).2.names p = some (fs.creat p).1 := by
  unfold creat
  split
  · next h => simpa using h
  · simp [link]

theorem content_creat_self : (fs.creat p).2.content p = some [] := by
  unfold creat
  split
  · next h => exact fs.content_setNode h []
  · next h => exact fs.content_link_self h

theorem node_creat : (fs.creat p).2.node (fs.creat p).1 = [] := by
  have h := fs.content_creat_self (p := p)
  rw [content_of_names _ fs.names_creat_self] at h
  exact Option.some.inj h

theorem content_creat_ne (hq : q ≠ p) : (fs.creat p).2.content q = fs.content q := by
  unfold creat
  split
  · next h => exact fs.content_setNode_ne (fun hn => hq (fs.inj hn h)) []
  · next h => exact fs.content_link_ne h hq

/-- Only the opened file shares a node with its descriptor. -/
theorem names_creat_other (hq : q ≠ p) : (fs.creat p).2.names q ≠ some (fs.creat p).1 :=
  fun hn => hq ((fs.creat p).2.inj hn fs.names_creat_self)

theorem content_touch_of_some {c : Bytes} (h : fs.content q = some c) :
    (fs.touch p).content q = some c := by
  unfold touch
  split
  · exact h
  · next hp =>
    have hqp : q ≠ p := fun e => by
      rw [e, (fs.content_eq_none).mpr hp] at h
      exact absurd h (by simp)
    rw [fs.content_link_ne hp hqp, h]

theorem content_unlink_self : (fs.unlink p).content p = none := by
  simp [content, unlink]

theorem content_unlink_ne (hq : q ≠ p) : (fs.unlink p).content q = fs.content q := by
  simp [content, unlink, Function.update_of_ne hq]

theorem names_unlink_ne (hq : q ≠ p) : (fs.unlink p).names q = fs.names q := by
  simp [unlink, Function.update_of_ne hq]

theorem content_save_self (d : Bytes) : (fs.save p d).content p = some d := by
  have h := (fs.creat p).2.content_pwrite fs.names_creat_self 0 d
  rw [node_creat] at h
  simpa [save, splice] using h

theorem content_save_ne (hq : q ≠ p) (d : Bytes) : (fs.save p d).content q = fs.content q := by
  rw [save, content_pwrite_ne _ (fs.names_creat_other hq), fs.content_creat_ne hq]

/-! ## A file that is left alone -/

/-- The name, if it is in use, refers to the same node with the same bytes. -/
def Keeps (fs fs' : FileSystem P) (q : P) : Prop :=
  ∀ i, fs.names q = some i → fs'.names q = some i ∧ fs'.node i = fs.node i

section Keeps

variable {fs} {fs' fs'' : FileSystem P}

omit [DecidableEq P]

theorem Keeps.refl : Keeps fs fs q := fun _ h => ⟨h, rfl⟩

theorem Keeps.trans (h : Keeps fs fs' q) (h' : Keeps fs' fs'' q) : Keeps fs fs'' q := by
  intro i hi
  obtain ⟨h1, h2⟩ := h i hi
  obtain ⟨h3, h4⟩ := h' i h1
  exact ⟨h3, h4.trans h2⟩

theorem Keeps.content (h : Keeps fs fs' q) {c : Bytes} (hc : fs.content q = some c) :
    fs'.content q = some c := by
  obtain ⟨i, hi, rfl⟩ := Option.map_eq_some_iff.mp hc
  obtain ⟨h1, h2⟩ := h i hi
  rw [fs'.content_of_names h1, h2]

end Keeps

omit [DecidableEq P] in
theorem keeps_pwrite (h : fs.names q ≠ some i) (off : Nat) (d : Bytes) :
    Keeps fs (fs.pwrite i off d) q := by
  intro j hj
  have hij : j ≠ i := fun he => h (he ▸ hj)
  exact ⟨hj, Function.update_of_ne hij ..⟩

theorem keeps_link (h : fs.names p = none) : Keeps fs (fs.link p h) q := by
  intro j hj
  have hqp : q ≠ p := fun he => by
    rw [he, h] at hj
    exact absurd hj (by simp)
  have hlt := fs.lt hj
  exact ⟨(Function.update_of_ne hqp ..).trans hj, Function.update_of_ne (by omega) ..⟩

theorem keeps_touch : Keeps fs (fs.touch p) q := by
  unfold touch
  split
  · exact .refl
  · next h => exact fs.keeps_link h

theorem keeps_creat (hq : q ≠ p) : Keeps fs (fs.creat p).2 q := by
  unfold creat
  split
  · next i h =>
    intro j hj
    have hij : j ≠ i := fun he => hq (fs.inj hj (he ▸ h))
    exact ⟨hj, Function.update_of_ne hij ..⟩
  · next h => exact fs.keeps_link h

theorem keeps_unlink (hq : q ≠ p) : Keeps fs (fs.unlink p) q := fun _ hj =>
  ⟨(Function.update_of_ne hq ..).trans hj, rfl⟩

/-! ## Changes within a set of names -/

/-- Every name of a node, now and later, is in the set. -/
structure NamedIn (S : P → Prop) (fs : FileSystem P) (i : Nat) : Prop where
  used : i < fs.next
  names : ∀ q, fs.names q = some i → S q

/-- What was created, removed or written has its name in the set, and an open file keeps its names there. -/
structure Within (S : P → Prop) (fs fs' : FileSystem P) : Prop where
  same : ∀ q, ¬ S q → fs'.names q = fs.names q ∧ fs'.content q = fs.content q
  named : ∀ i, fs.NamedIn S i → fs'.NamedIn S i

section Within

variable {S T : P → Prop} {fs} {fs' fs'' : FileSystem P}

omit [DecidableEq P]

theorem NamedIn.mono (h : fs.NamedIn S i) (hST : ∀ q, S q → T q) : fs.NamedIn T i :=
  ⟨h.used, fun q hq => hST q (h.names q hq)⟩

theorem Within.refl : Within S fs fs := ⟨fun _ _ => ⟨rfl, rfl⟩, fun _ h => h⟩

theorem Within.trans (h : Within S fs fs') (h' : Within S fs' fs'') : Within S fs fs'' := by
  refine ⟨fun q hq => ?_, fun i hi => h'.named i (h.named i hi)⟩
  obtain ⟨h1, h2⟩ := h.same q hq
  obtain ⟨h3, h4⟩ := h'.same q hq
  exact ⟨h3.trans h1, h4.trans h2⟩

theorem Within.pwrite (h : fs.NamedIn S i) (off : Nat) (d : Bytes) : Within S fs (fs.pwrite i off d) :=
  ⟨fun q hq => ⟨rfl, fs.content_pwrite_ne (fun hn => hq (h.names q hn)) off d⟩, fun _ hj => ⟨hj.used, hj.names⟩⟩

variable [DecidableEq P]

theorem Within.link (hp : S p) (hnone : fs.names p = none) : Within S fs (fs.link p hnone) := by
  refine ⟨fun q hq => ?_, fun j hj => ⟨Nat.lt_succ_of_lt hj.used, fun q hq => ?_⟩⟩
  · have hqp : q ≠ p := fun he => hq (he ▸ hp)
    exact ⟨Function.update_of_ne hqp .., fs.content_link_ne hnone hqp⟩
  · by_cases hqp : q = p
    · exact hqp ▸ hp
    · exact hj.names q ((Function.update_of_ne hqp ..).symm.trans hq)

theorem Within.touch (hp : S p) : Within S fs (fs.touch p) := by
  unfold FileSystem.touch
  split
  · exact .refl
  · next hnone => exact .link hp hnone

theorem Within.touches {l : List P} (hl : ∀ q ∈ l, S q) : Within S fs (l.foldl FileSystem.touch fs) := by
  induction l generalizing fs with
  | nil => exact .refl
  | cons q l ih =>
    exact (Within.touch (hl q List.mem_cons_self)).trans (ih fun r hr => hl r (List.mem_cons_of_mem _ hr))

theorem Within.creat (hp : S p) : Within S fs (fs.creat p).2 := by
  unfold FileSystem.creat
  split
  · next i hi =>
    refine ⟨fun q hq => ⟨rfl, fs.content_setNode_ne (fun hn => ?_) []⟩, fun _ hj => ⟨hj.used, hj.names⟩⟩
    exact hq (fs.inj hn hi ▸ hp)
  · next hnone => exact .link hp hnone

/-- The file that is opened has the one name. -/
theorem namedIn_creat (hp : S p) : (fs.creat p).2.NamedIn S (fs.creat p).1 :=
  ⟨(fs.creat p).2.lt fs.names_creat_self, fun _ hq => (fs.creat p).2.inj hq fs.names_creat_self ▸ hp⟩

theorem Within.unlink (hp : S p) : Within S fs (fs.unlink p) := by
  refine ⟨fun q hq => ?_, fun j hj => ⟨hj.used, fun q hq => ?_⟩⟩
  · have hqp : q ≠ p := fun he => hq (he ▸ hp)
    exact ⟨fs.names_unlink_ne hqp, fs.content_unlink_ne hqp⟩
  · by_cases hqp : q = p
    · exact hqp ▸ hp
    · exact hj.names q ((fs.names_unlink_ne hqp).symm.trans hq)

end Within

end FileSystem

end CLib
