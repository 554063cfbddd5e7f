import VfsOss.Task.Store
import Mathlib.Data.List.Nodup

/-!
# Proofs: what each store operation changes

Queue operations leave the hash table alone and table operations leave the queues alone. A record
enters or leaves a list only through the operation that names it.
-/

namespace VfsOss

open CLib

variable {m : Nat → Bool} {s s' : TaskStore} {t u : Tasklist} {st st' : TaskStatus} {b : Fin 16}
variable {f : Bytes} {i c : Int} {e : Nat}

/-! ## Block indices -/

theorem mem_idxs {i c : Int} : i ∈ idxs c ↔ 1 ≤ i ∧ i ≤ c := by
  simp only [idxs, List.mem_map, List.mem_range]
  constructor
  · rintro ⟨k, hk, rfl⟩
    omega
  · rintro ⟨h1, h2⟩
    exact ⟨(i - 1).toNat, by omega, by omega⟩

theorem nodup_idxs (c : Int) : (idxs c).Nodup := by
  refine List.Nodup.map (fun a b h => ?_) List.nodup_range
  have h : (a : Int) + 1 = b + 1 := h
  omega

/-! ## Queues -/

@[simp] theorem alltask_vfsSetTask : (vfsSetTask s t st).alltask = s.alltask := by
  unfold vfsSetTask
  split <;> rfl

@[simp] theorem next_vfsSetTask : (vfsSetTask s t st).next = s.next := by
  unfold vfsSetTask
  split <;> rfl

@[simp] theorem alltask_vfsGetTask : (vfsGetTask m s st).2.alltask = s.alltask := by
  unfold vfsGetTask
  split
  · rfl
  · split
    · rfl
    · split
      · split <;> rfl
      · rfl

/-- What a pop can do: take the first record, or for an empty `TASK_HOME` make a new one. -/
theorem vfsGetTask_ok (h : vfsGetTask m s st = (.ok t, s')) :
    (∃ u rest, s.vfstask st = u :: rest ∧ t = { u with status := .unknown } ∧
      s'.vfstask = Function.update s.vfstask st rest ∧ s'.next = s.next) ∨
    (st = .home ∧ s.vfstask .home = [] ∧ t = .fresh s.next ∧ s'.vfstask = s.vfstask ∧
      s'.next = s.next + 1) := by
  unfold vfsGetTask at h
  split at h
  · exact absurd (congrArg Prod.fst h) (by simp)
  · split at h
    · next u rest hq =>
      obtain ⟨ht, rfl⟩ := Prod.mk.inj h
      exact Or.inl ⟨u, rest, hq, (GetTask.ok.inj ht).symm, rfl, rfl⟩
    · next hq =>
      split at h
      · next hst =>
        subst hst
        split at h
        · obtain ⟨ht, rfl⟩ := Prod.mk.inj h
          exact Or.inr ⟨rfl, hq, (GetTask.ok.inj ht).symm, rfl, rfl⟩
        · exact absurd (congrArg Prod.fst h) (by simp)
      · exact absurd (congrArg Prod.fst h) (by simp)

/-- A pop that returns no record changes no list. -/
theorem vfsGetTask_not_ok (h : ∀ t, (vfsGetTask m s st).1 ≠ .ok t) :
    (vfsGetTask m s st).2.vfstask = s.vfstask ∧ s.next ≤ (vfsGetTask m s st).2.next := by
  unfold vfsGetTask at h ⊢
  split
  · exact ⟨rfl, le_refl _⟩
  · next hst =>
    rw [if_neg hst] at h
    split
    · next u rest hq =>
      rw [hq] at h
      exact absurd rfl (h _)
    · next hq =>
      rw [hq] at h
      split
      · split <;> exact ⟨rfl, by simp⟩
      · exact ⟨rfl, le_refl _⟩

theorem vfsGetTask_cons {rest : List Tasklist} (hst : st ≠ .unknown)
    (h : s.vfstask st = t :: rest) :
    vfsGetTask m s st = (.ok { t with status := .unknown },
      { s with
        vfstask := Function.update s.vfstask st rest
        taskcount := Function.update s.taskcount st (s.taskcount st - 1) }) := by
  simp [vfsGetTask, hst, h]

theorem vfsGetTask_nil (hst : st ≠ .home) (h : s.vfstask st = []) :
    ∃ r, vfsGetTask m s st = (r, s) ∧ ∀ t, r ≠ .ok t := by
  unfold vfsGetTask
  split
  · exact ⟨_, rfl, by simp⟩
  · simp [h]

theorem vfstask_vfsGetTask_ne (h : st' ≠ st) : (vfsGetTask m s st).2.vfstask st' = s.vfstask st' := by
  unfold vfsGetTask
  split
  · rfl
  · split
    · exact Function.update_of_ne h ..
    · split
      · split <;> rfl
      · rfl

/-- The records of a queue after a push were there before, or are the one pushed. -/
theorem mem_vfsSetTask (hu : u ∈ (vfsSetTask s t st).vfstask st') :
    (u ∈ s.vfstask st' ∧ (st ≠ .unknown → u.addr ≠ t.addr)) ∨
    (st' = st ∧ st ≠ .unknown ∧ u = { t with status := st }) := by
  unfold vfsSetTask at hu
  split at hu
  · next hst => exact Or.inl ⟨hu, fun h => absurd hst h⟩
  · next hst =>
    by_cases h : st' = st
    · subst h
      simp only [Function.update_self, List.mem_append, List.mem_filter, decide_eq_true_eq,
        List.mem_singleton] at hu
      rcases hu with hu | hu
      · exact Or.inl ⟨hu.1, fun _ => hu.2⟩
      · exact Or.inr ⟨rfl, hst, hu⟩
    · simp only [Function.update_of_ne h, List.mem_filter, decide_eq_true_eq] at hu
      exact Or.inl ⟨hu.1, fun _ => hu.2⟩

/-- A push of a record that is in no queue appends it. -/
theorem vfstask_vfsSetTask (hst : st ≠ .unknown)
    (hfree : ∀ st', ∀ u ∈ s.vfstask st', u.addr ≠ t.addr) :
    (vfsSetTask s t st).vfstask =
      Function.update s.vfstask st (s.vfstask st ++ [{ t with status := st }]) := by
  have hf : ∀ st', (s.vfstask st').filter (fun u => u.addr ≠ t.addr) = s.vfstask st' := by
    intro st'
    refine List.filter_eq_self.mpr fun u hu => ?_
    simpa using hfree st' u hu
  simp only [vfsSetTask, if_neg hst, hf]

/-! ## The hash table -/

@[simp] theorem vfstask_addTaskToAlltask : (addTaskToAlltask s t).vfstask = s.vfstask := rfl

@[simp] theorem next_addTaskToAlltask : (addTaskToAlltask s t).next = s.next := rfl

@[simp] theorem vfstask_setTaskFromAlltask : (setTaskFromAlltask s f i c e).vfstask = s.vfstask :=
  rfl

@[simp] theorem next_setTaskFromAlltask : (setTaskFromAlltask s f i c e).next = s.next := rfl

theorem mem_addTaskToAlltask : u ∈ (addTaskToAlltask s t).alltask b ↔
    (u ∈ s.alltask b ∧ u.addr ≠ t.addr) ∨
    (b = getVfsTaskHash t.base.filename t.sub.idx t.sub.count ∧ u = t) := by
  unfold addTaskToAlltask
  by_cases h : b = getVfsTaskHash t.base.filename t.sub.idx t.sub.count
  · subst h
    simp [or_comm]
  · simp [h]

theorem inAlltask_add : InAlltask (addTaskToAlltask s t) u ↔
    (InAlltask s u ∧ u.addr ≠ t.addr) ∨ u = t := by
  simp only [InAlltask, mem_addTaskToAlltask]
  constructor
  · rintro ⟨b, ⟨hu, ha⟩ | ⟨_, hu⟩⟩
    · exact Or.inl ⟨⟨b, hu⟩, ha⟩
    · exact Or.inr hu
  · rintro (⟨⟨b, hu⟩, ha⟩ | hu)
    · exact ⟨b, Or.inl ⟨hu, ha⟩⟩
    · exact ⟨_, Or.inr ⟨rfl, hu⟩⟩

theorem inAlltask_of_alltask_eq (h : s'.alltask = s.alltask) : InAlltask s' u ↔ InAlltask s u := by
  simp only [InAlltask, h]

theorem sameKey_iff : sameKey f i c t = true ↔
    f = t.base.filename ∧ i = t.sub.idx ∧ c = t.sub.count := by
  simp [sameKey, and_assoc]

theorem findTask_some (h : findTask s f i c = some t) :
    t ∈ s.alltask (getVfsTaskHash f i c) ∧ sameKey f i c t = true :=
  ⟨List.mem_of_find?_eq_some h, List.find?_some h⟩

theorem getTaskFromAlltask_some (h : getTaskFromAlltask s f i c = some (t, s')) :
    findTask s f i c = some t ∧ s'.vfstask = s.vfstask ∧ s'.next = s.next ∧
    s'.alltask = Function.update s.alltask (getVfsTaskHash f i c)
      ((s.alltask (getVfsTaskHash f i c)).eraseP (sameKey f i c)) := by
  obtain ⟨u, hu, he⟩ := Option.map_eq_some_iff.mp h
  obtain ⟨rfl, rfl⟩ := Prod.mk.inj he
  exact ⟨hu, rfl, rfl, rfl⟩

theorem getTaskFromAlltask_none : getTaskFromAlltask s f i c = none ↔ findTask s f i c = none := by
  simp [getTaskFromAlltask]

/-- A removal takes out one record and adds none. -/
theorem mem_of_getTaskFromAlltask (h : getTaskFromAlltask s f i c = some (t, s'))
    (hu : u ∈ s'.alltask b) : u ∈ s.alltask b := by
  obtain ⟨-, -, -, hall⟩ := getTaskFromAlltask_some h
  rw [hall] at hu
  by_cases hb : b = getVfsTaskHash f i c
  · subst hb
    rw [Function.update_self] at hu
    exact List.mem_of_mem_eraseP hu
  · rwa [Function.update_of_ne hb] at hu

theorem mem_getTaskFromAlltask_or (h : getTaskFromAlltask s f i c = some (t, s'))
    (hu : u ∈ s.alltask b) : u = t ∨ u ∈ s'.alltask b := by
  obtain ⟨hf, -, -, hall⟩ := getTaskFromAlltask_some h
  rw [hall]
  by_cases hb : b = getVfsTaskHash f i c
  · subst hb
    rw [Function.update_self]
    rcases mem_eraseP_or (p := sameKey f i c) hu with hp | hp
    · exact Or.inl (Option.some.inj (hp.symm.trans hf))
    · exact Or.inr hp
  · rw [Function.update_of_ne hb]
    exact Or.inr hu

theorem alltask_setTaskFromAlltask : (setTaskFromAlltask s f i c e).alltask =
    Function.update s.alltask (getVfsTaskHash f i c)
      (updFirst (sameKey f i c) (·.setExpire e) (s.alltask (getVfsTaskHash f i c))) := rfl

theorem mem_setTaskFromAlltask (hu : u ∈ (setTaskFromAlltask s f i c e).alltask b) :
    u ∈ s.alltask b ∨
    ∃ t, findTask s f i c = some t ∧ b = getVfsTaskHash f i c ∧ u = t.setExpire e := by
  rw [alltask_setTaskFromAlltask] at hu
  by_cases hb : b = getVfsTaskHash f i c
  · subst hb
    rw [Function.update_self] at hu
    rcases mem_updFirst hu with h | ⟨t, ht, hut⟩
    · exact Or.inl h
    · exact Or.inr ⟨t, ht, rfl, hut⟩
  · rw [Function.update_of_ne hb] at hu
    exact Or.inl hu

/-- Marking a key expired leaves the records of other keys as they are. -/
theorem mem_setTaskFromAlltask_of_not (hu : u ∈ s.alltask b) (hk : sameKey f i c u = false) :
    u ∈ (setTaskFromAlltask s f i c e).alltask b := by
  rw [alltask_setTaskFromAlltask]
  by_cases hb : b = getVfsTaskHash f i c
  · subst hb
    rw [Function.update_self]
    exact mem_updFirst_of_not hu hk
  · rwa [Function.update_of_ne hb]

/-- Every record stays, with its flag changed or not. -/
theorem mem_setTaskFromAlltask_or (hu : u ∈ s.alltask b) :
    u ∈ (setTaskFromAlltask s f i c e).alltask b ∨
    u.setExpire e ∈ (setTaskFromAlltask s f i c e).alltask b := by
  rw [alltask_setTaskFromAlltask]
  by_cases hb : b = getVfsTaskHash f i c
  · subst hb
    rw [Function.update_self]
    exact mem_updFirst_or hu
  · exact Or.inl (by rwa [Function.update_of_ne hb])

/-- The record a search finds after another key's, or its own, has been marked. -/
theorem findTask_setTaskFromAlltask {j : Int} : findTask (setTaskFromAlltask s f i c e) f j c =
    if i = j then (findTask s f j c).map (·.setExpire e) else findTask s f j c := by
  unfold findTask
  rw [alltask_setTaskFromAlltask]
  have hkey : ∀ i t, sameKey f i c (t.setExpire e) = sameKey f i c t := fun _ _ => rfl
  split
  · next hij =>
    subst hij
    rw [Function.update_self, find?_updFirst_self (hkey i)]
  · next hij =>
    by_cases hb : getVfsTaskHash f j c = getVfsTaskHash f i c
    · rw [hb, Function.update_self]
      refine find?_updFirst_of_disjoint (fun a ha => ?_) (hkey j)
      by_contra hj
      exact hij ((sameKey_iff.mp ha).2.1.trans (sameKey_iff.mp (by simpa using hj)).2.1.symm)
    · rw [Function.update_of_ne hb]

/-- A search for another block does not see a removal. -/
theorem findTask_getTaskFromAlltask {j : Int} (hg : getTaskFromAlltask s f i c = some (t, s'))
    (hij : i ≠ j) : findTask s' f j c = findTask s f j c := by
  unfold findTask
  rw [(getTaskFromAlltask_some hg).2.2.2]
  by_cases hb : getVfsTaskHash f j c = getVfsTaskHash f i c
  · rw [hb, Function.update_self]
    refine find?_eraseP_of_disjoint fun a ha => ?_
    by_contra hj
    exact hij ((sameKey_iff.mp ha).2.1.trans (sameKey_iff.mp (by simpa using hj)).2.1.symm)
  · rw [Function.update_of_ne hb]

theorem findTask_of_alltask_eq (h : s'.alltask = s.alltask) : findTask s' f i c = findTask s f i c := by
  rw [findTask, findTask, h]

/-- A record that has just been added is found first. -/
theorem findTask_add_self : findTask (addTaskToAlltask s t) t.base.filename t.sub.idx t.sub.count =
    some t := by
  unfold findTask addTaskToAlltask
  dsimp only
  rw [Function.update_self, List.find?_cons_of_pos]
  exact sameKey_iff.mpr ⟨rfl, rfl, rfl⟩

/-- A search for another block does not see an addition. -/
theorem findTask_add_ne {j : Int} (hj : j ≠ t.sub.idx) (hfree : ∀ b, ∀ u ∈ s.alltask b, u.addr ≠ t.addr) :
    findTask (addTaskToAlltask s t) f j c = findTask s f j c := by
  unfold findTask addTaskToAlltask
  dsimp only
  have hfilter : ∀ b, (s.alltask b).filter (fun u => u.addr ≠ t.addr) = s.alltask b := by
    intro b
    exact List.filter_eq_self.mpr fun u hu => by simpa using hfree b u hu
  by_cases hb : getVfsTaskHash f j c = getVfsTaskHash t.base.filename t.sub.idx t.sub.count
  · rw [hb, Function.update_self, hfilter, List.find?_cons_of_neg]
    intro hk
    exact hj (sameKey_iff.mp hk).2.1
  · rw [Function.update_of_ne hb, hfilter]

@[simp] theorem setExpire_addr : (t.setExpire e).addr = t.addr := rfl

@[simp] theorem setExpire_sub : (t.setExpire e).sub = t.sub := rfl

@[simp] theorem setExpire_filename : (t.setExpire e).base.filename = t.base.filename := rfl

@[simp] theorem setExpire_hostname : (t.setExpire e).base.hostname = t.base.hostname := rfl

@[simp] theorem setExpire_tmpfile : (t.setExpire e).base.tmpfile = t.base.tmpfile := rfl

@[simp] theorem setExpire_expire : (t.setExpire e).base.expire = e := rfl

@[simp] theorem setExpire_got : (t.setExpire e).got = t.got := rfl

theorem checkTaskFromAlltask_iff : checkTaskFromAlltask s f i c e = true ↔
    ∃ t ∈ s.alltask (getVfsTaskHash f i c), sameKey f i c t = true ∧ t.base.expire = e := by
  simp [checkTaskFromAlltask]

end VfsOss
