import Mathlib.Data.List.Find
import VfsOss.Task.Proofs.AlltaskProofs

/-!
# Proofs: the pointers lead through the chains of the store

What the functions of the store do to the chains of `alltask`, those on the memory do to the pointers, and they return
the same.
-/

namespace VfsOss

open CLib

namespace AlltaskMem

variable {m : AlltaskMem} {s s' : TaskStore} {fname : Bytes} {idx count : Int} {expire : Nat} {t : Tasklist}

theorem holds_init (tasks : Nat → Tasklist) (n : Nat) : (init tasks n).Holds (initTaskInfo n) where
  rings := rings_empty fun h => HashNode.head.inj h
  tasks := fun h => absurd h List.not_mem_nil
  exist := fun h => absurd h List.not_mem_nil

/-! ## The chains after a call on the store -/

theorem alltask_addTask (s : TaskStore) (t : Tasklist) (b : Fin 16) : (VfsOss.addTaskToAlltask s t).alltask b =
    if b = t.hashIndex then t :: (s.alltask b).filter fun t' => t'.addr ≠ t.addr
    else (s.alltask b).filter fun t' => t'.addr ≠ t.addr := by
  unfold VfsOss.addTaskToAlltask
  dsimp only
  rw [Function.update_apply]
  split
  · next hb =>
    subst hb
    exact (if_pos rfl).symm
  · next hb => exact (if_neg hb).symm

theorem alltask_setTask (s : TaskStore) (fname : Bytes) (idx count : Int) (expire : Nat) (b : Fin 16) :
    (VfsOss.setTaskFromAlltask s fname idx count expire).alltask b =
      if b = getVfsTaskHash fname idx count then
        updFirst (sameKey fname idx count) (·.setExpire expire) (s.alltask b)
      else s.alltask b := by
  unfold VfsOss.setTaskFromAlltask
  dsimp only
  rw [Function.update_apply]
  split
  · next hb => rw [hb]
  · rfl

theorem addr_setTask {N : Type} (g : Nat → N) (b : Fin 16) :
    ((VfsOss.setTaskFromAlltask s fname idx count expire).alltask b).map (fun t => g t.addr) =
      (s.alltask b).map fun t => g t.addr := by
  rw [alltask_setTask]
  split
  · exact map_updFirst fun _ => rfl
  · rfl

theorem mem_setTask {b : Fin 16} (ht : t ∈ (VfsOss.setTaskFromAlltask s fname idx count expire).alltask b) :
    t ∈ s.alltask b ∨ ∃ t₀, findTask s fname idx count = some t₀ ∧ t = t₀.setExpire expire := by
  rw [alltask_setTask] at ht
  split at ht
  · next hb =>
    rw [findTask, ← hb]
    exact mem_updFirst ht
  · exact .inl ht

/-- The record that was found is there, changed. -/
theorem setExpire_mem {t₀ : Tasklist} (hfind : findTask s fname idx count = some t₀) : t₀.setExpire expire ∈
    (VfsOss.setTaskFromAlltask s fname idx count expire).alltask (getVfsTaskHash fname idx count) := by
  have hupd := find?_updFirst_self (p := sameKey fname idx count) (f := (·.setExpire expire))
    (l := s.alltask (getVfsTaskHash fname idx count)) fun _ => rfl
  rw [alltask_setTask, if_pos rfl]
  refine List.mem_of_find?_eq_some (hupd.trans ?_)
  exact congrArg (Option.map (·.setExpire expire)) hfind

/-! ## The pointers -/

/-- Two records in the chains that have the same address are the same record, in the same chain. -/
theorem eq_of_addr (h : Rings m.links HashNode.head fun b => (s.alltask b).map fun t => HashNode.hlist t.addr)
    {b b' : Fin 16} {t' : Tasklist} (ht : t ∈ s.alltask b) (ht' : t' ∈ s.alltask b') (haddr : t.addr = t'.addr) :
    b = b' ∧ t = t' := by
  have hmem : HashNode.hlist t.addr ∈ (s.alltask b).map fun t => HashNode.hlist t.addr := List.mem_map_of_mem ht
  have hmem' : HashNode.hlist t'.addr ∈ (s.alltask b').map fun t => HashNode.hlist t.addr := List.mem_map_of_mem ht'
  obtain rfl : b = b' := h.apart (haddr ▸ hmem) hmem'
  exact ⟨rfl, List.inj_on_of_nodup_map (h.nodup b) ht ht' (congrArg HashNode.hlist haddr)⟩

namespace Holds

/-- No two records of a chain have the same address. -/
theorem nodup (h : m.Holds s) (b : Fin 16) : ((s.alltask b).map Tasklist.addr).Nodup := by
  have hnodup : (((s.alltask b).map Tasklist.addr).map HashNode.hlist).Nodup := by
    rw [List.map_map]
    exact h.rings.nodup b
  exact hnodup.of_map _

/-- **A search** stops at the record the store's search stops at. -/
theorem search (h : m.Holds s) (b : Fin 16) (body : Tasklist → Bool) :
    m.search b body = some (((s.alltask b).find? body).map Tasklist.addr) := by
  have hring : Ring m.links (.head b) (((s.alltask b).map Tasklist.addr).map .hlist) := by
    rw [List.map_map]
    exact h.rings.ring b
  have hlen : (((s.alltask b).map Tasklist.addr).map HashNode.hlist).length < m.records + 1 := by
    rw [List.length_map, Nat.lt_succ_iff]
    refine length_le_of_nodup (h.nodup b) fun a ha => ?_
    obtain ⟨t, ht, rfl⟩ := List.mem_map.mp ha
    exact h.exist ht
  rw [search_ring hring hlen, List.find?_map]
  congr 2
  exact List.find?_congr fun t ht => congrArg body (h.tasks ht)

/-- A record taken out of the chain it is in. -/
theorem del (h : m.Holds s) (a : Nat) :
    (m.del a).Holds { s with alltask := fun b => (s.alltask b).filter fun t => t.addr ≠ a } where
  rings := (h.rings.listDelInit (hlist_ne_head a)).congr fun b => by
    rw [(h.rings.nodup b).erase_eq_filter, List.filter_map]
    congr 1
    refine List.filter_congr fun t _ => ?_
    by_cases ht : t.addr = a
    · simp [ht]
    · simp [ht]
  tasks := fun ht => h.tasks (List.mem_of_mem_filter ht)
  exist := fun ht => h.exist (List.mem_of_mem_filter ht)

/-! ## The functions -/

/-- **`add_task_to_alltask`**, for a record that was filled. -/
theorem addTaskToAlltask (h : m.Holds s) (hlt : t.addr < m.records) :
    ({ m with tasks := Function.update m.tasks t.addr t }.addTaskToAlltask t.addr).Holds
      (VfsOss.addTaskToAlltask s t) := by
  have hmem {b : Fin 16} {t' : Tasklist} (ht' : t' ∈ (VfsOss.addTaskToAlltask s t).alltask b) :
      t' = t ∨ t' ∈ s.alltask b ∧ t'.addr ≠ t.addr := by
    rw [alltask_addTask] at ht'
    split at ht'
    · exact (List.mem_cons.mp ht').imp id fun ht' => by simpa using ht'
    · exact .inr (by simpa using ht')
  refine ⟨?_, fun {b t'} ht' => ?_, fun ht' => ?_⟩
  · have hindex : (Function.update m.tasks t.addr t t.addr).hashIndex = t.hashIndex := by rw [Function.update_self]
    refine ((h.del t.addr).rings.listAddHead (Function.update m.tasks t.addr t t.addr).hashIndex fun b =>
      ⟨hlist_ne_head _ b, fun hin => ?_⟩).congr fun b => ?_
    · obtain ⟨t', ht', haddr⟩ := List.mem_map.mp hin
      exact of_decide_eq_true (List.mem_filter.mp ht').2 (HashNode.hlist.inj haddr)
    · rw [hindex, alltask_addTask, Function.update_apply]
      split
      · next hb =>
        subst hb
        rfl
      · rfl
  · show Function.update m.tasks t.addr t t'.addr = t'
    rcases hmem ht' with rfl | ⟨ht', hne⟩
    · exact Function.update_self ..
    · rw [Function.update_of_ne hne]
      exact h.tasks ht'
  · rcases hmem ht' with rfl | ⟨ht', -⟩
    · exact hlt
    · exact h.exist ht'

/-- **`check_task_from_alltask`**. -/
theorem checkTaskFromAlltask (h : m.Holds s) : m.checkTaskFromAlltask fname idx count expire =
    some (if VfsOss.checkTaskFromAlltask s fname idx count expire then 0 else -1) := by
  unfold AlltaskMem.checkTaskFromAlltask VfsOss.checkTaskFromAlltask
  rw [h.search, ← List.isSome_find?]
  simp only [Option.bind_eq_bind, Option.bind_some, Option.isSome_map]
  rfl

/-- **`set_task_from_alltask`**. -/
theorem setTaskFromAlltask (h : m.Holds s) (fname : Bytes) (idx count : Int) (expire : Nat) : ∃ m',
    m.setTaskFromAlltask fname idx count expire =
      some (if (findTask s fname idx count).isSome then 0 else -1, m') ∧
      m'.Holds (VfsOss.setTaskFromAlltask s fname idx count expire) ∧ m'.records = m.records := by
  have hrings : Rings m.links HashNode.head fun b =>
      ((VfsOss.setTaskFromAlltask s fname idx count expire).alltask b).map fun t => HashNode.hlist t.addr :=
    h.rings.congr fun b => addr_setTask HashNode.hlist b
  unfold AlltaskMem.setTaskFromAlltask
  rw [h.search]
  cases hfind : findTask s fname idx count with
  | none =>
    have hmem {b : Fin 16} {t : Tasklist} (ht : t ∈ (VfsOss.setTaskFromAlltask s fname idx count expire).alltask b) :
        t ∈ s.alltask b := by
      rcases mem_setTask ht with ht | ⟨t₀, ht₀, -⟩
      · exact ht
      · exact absurd (hfind.symm.trans ht₀) nofun
    refine ⟨m, ?_, ⟨hrings, fun ht => h.tasks (hmem ht), fun ht => h.exist (hmem ht)⟩, rfl⟩
    rw [findTask] at hfind
    rw [hfind]
    rfl
  | some t₀ =>
    have hmem₀ : t₀ ∈ s.alltask (getVfsTaskHash fname idx count) := List.mem_of_find?_eq_some hfind
    refine ⟨{ m with tasks := Function.update m.tasks t₀.addr ((m.tasks t₀.addr).setExpire expire) }, ?_,
      ⟨hrings, fun {b t} ht => ?_, fun {b t} ht => ?_⟩, rfl⟩
    · rw [findTask] at hfind
      rw [hfind]
      rfl
    · show Function.update m.tasks t₀.addr _ t.addr = t
      by_cases haddr : t.addr = t₀.addr
      · rw [(eq_of_addr hrings ht (setExpire_mem hfind) haddr).2]
        exact (Function.update_self ..).trans (congrArg (·.setExpire expire) (h.tasks hmem₀))
      · rw [Function.update_of_ne haddr]
        rcases mem_setTask ht with ht | ⟨t₁, ht₁, rfl⟩
        · exact h.tasks ht
        · exact absurd (congrArg Tasklist.addr (Option.some.inj (ht₁.symm.trans hfind))) haddr
    · rcases mem_setTask ht with ht | ⟨t₁, ht₁, rfl⟩
      · exact h.exist ht
      · exact h.exist (t := t₁) (List.mem_of_find?_eq_some ht₁)

/-- **`get_task_from_alltask`** when no record has the key. -/
theorem getTaskFromAlltask_none (h : m.Holds s) (hget : VfsOss.getTaskFromAlltask s fname idx count = none) :
    m.getTaskFromAlltask fname idx count = some (-1, none, m) := by
  rw [VfsOss.getTaskFromAlltask, Option.map_eq_none_iff, findTask] at hget
  rw [AlltaskMem.getTaskFromAlltask, h.search, hget]
  rfl

/-- Removing the first match takes out the record with its address. -/
theorem eraseP_eq (h : m.Holds s) (hfind : findTask s fname idx count = some t) :
    Function.update s.alltask (getVfsTaskHash fname idx count)
      ((s.alltask (getVfsTaskHash fname idx count)).eraseP (sameKey fname idx count)) =
      fun b => (s.alltask b).filter fun t' => t'.addr ≠ t.addr := by
  funext b
  have hmem : t ∈ s.alltask (getVfsTaskHash fname idx count) := List.mem_of_find?_eq_some hfind
  by_cases hb : b = getVfsTaskHash fname idx count
  · subst hb
    rw [Function.update_self]
    obtain ⟨hkey, before, after, hsplit, hbefore⟩ := List.find?_eq_some_iff_append.mp hfind
    have hnodup := h.nodup (getVfsTaskHash fname idx count)
    rw [hsplit, List.map_append, List.map_cons] at hnodup
    have hother : ∀ t' ∈ before ++ after, t'.addr ≠ t.addr := fun t' ht' haddr => by
      have hnot := (List.nodup_middle.mp hnodup).notMem
      rw [← List.map_append, ← haddr] at hnot
      exact hnot (List.mem_map_of_mem ht')
    rw [hsplit, List.eraseP_append_right _ fun t' ht' => by simpa using hbefore t' ht', List.eraseP_cons_of_pos hkey,
      List.filter_append, List.filter_cons_of_neg (by simp), ← List.filter_append]
    exact (List.filter_eq_self.mpr fun t' ht' => decide_eq_true (hother t' ht')).symm
  · rw [Function.update_of_ne hb]
    refine (List.filter_eq_self.mpr fun t' ht' => ?_).symm
    exact decide_eq_true fun haddr => hb (eq_of_addr h.rings ht' hmem haddr).1

/-- **`get_task_from_alltask`** when there is one. -/
theorem getTaskFromAlltask_some (h : m.Holds s) (hget : VfsOss.getTaskFromAlltask s fname idx count = some (t, s')) :
    ∃ m', m.getTaskFromAlltask fname idx count = some (0, some t.addr, m') ∧ m'.Holds s' ∧ m'.records = m.records := by
  rw [VfsOss.getTaskFromAlltask, Option.map_eq_some_iff] at hget
  obtain ⟨t', hfind, heq⟩ := hget
  obtain ⟨rfl, rfl⟩ := Prod.mk.inj heq
  refine ⟨m.del t'.addr, ?_, ?_, rfl⟩
  · rw [findTask] at hfind
    rw [AlltaskMem.getTaskFromAlltask, h.search, hfind]
    rfl
  · rw [h.eraseP_eq hfind]
    exact h.del t'.addr

/-- **One call** comes back with what the store gives. -/
theorem call (h : m.Holds s) (c : TableCall) (hadd : ∀ task, c = .add task → task.addr < m.records) :
    ∃ m', m.call c = some (((s.call c).1.1, (s.call c).1.2.map Tasklist.addr), m') ∧ m'.Holds (s.call c).2 ∧
      m'.records = m.records := by
  cases c with
  | add task => exact ⟨_, rfl, h.addTaskToAlltask (hadd task rfl), rfl⟩
  | check fname idx count expire =>
    refine ⟨m, ?_, h, rfl⟩
    rw [AlltaskMem.call, h.checkTaskFromAlltask]
    rfl
  | set fname idx count expire =>
    obtain ⟨m', hset, h', hrecords⟩ := h.setTaskFromAlltask fname idx count expire
    refine ⟨m', ?_, h', hrecords⟩
    rw [AlltaskMem.call, hset]
    rfl
  | get filename idx count =>
    rw [TaskStore.call]
    cases hget : VfsOss.getTaskFromAlltask s filename idx count with
    | none =>
      refine ⟨m, ?_, h, rfl⟩
      rw [AlltaskMem.call, h.getTaskFromAlltask_none hget]
      rfl
    | some r =>
      obtain ⟨m', hcall, h', hrecords⟩ := h.getTaskFromAlltask_some hget
      refine ⟨m', ?_, h', hrecords⟩
      rw [AlltaskMem.call, hcall]
      rfl

/-- **Any calls** return what they return on the store, and leave its chains. -/
theorem calls (h : m.Holds s) (cs : List TableCall) (hadd : ∀ task, .add task ∈ cs → task.addr < m.records) :
    ∃ m', m.calls cs = some ((s.calls cs).1.map fun r => (r.1, r.2.map Tasklist.addr), m') ∧
      m'.Holds (s.calls cs).2 := by
  induction cs generalizing m s with
  | nil => exact ⟨m, rfl, h⟩
  | cons c cs ih =>
    obtain ⟨m₁, hcall, h₁, hrecords⟩ := h.call c fun task hc => hadd task (hc ▸ List.mem_cons_self)
    obtain ⟨m', hcalls, h'⟩ := ih h₁ fun task hmem => hrecords ▸ hadd task (List.mem_cons_of_mem _ hmem)
    refine ⟨m', ?_, h'⟩
    rw [AlltaskMem.calls, hcall]
    simp only [Option.bind_eq_bind, Option.bind_some]
    rw [hcalls]
    rfl

end Holds

/-- **From the start** any calls return what they return on the store. -/
theorem calls_init (tasks : Nat → Tasklist) (n : Nat) (cs : List TableCall)
    (hadd : ∀ task, .add task ∈ cs → task.addr < n) :
    ∃ m', (init tasks n).calls cs =
        some (((initTaskInfo n).calls cs).1.map fun r => (r.1, r.2.map Tasklist.addr), m') ∧
      m'.Holds ((initTaskInfo n).calls cs).2 :=
  (holds_init tasks n).calls cs hadd

end AlltaskMem

end VfsOss
