import VfsOss.Task.Proofs.FifoRunProofs
import VfsOss.Task.Proofs.StoreProofs

/-!
# Proofs: the lists of the task store

The store of lists the rest of the development works with is what the memory holds: taking a record and
putting it back do to the lists what they do to the pointers.
-/

namespace VfsOss

open CLib

variable {m : TaskMem} {q : TaskStatus → List Nat} {s : TaskStore} {st : TaskStatus} {a : Nat}

/-- The store `s` is what the memory holds. -/
structure StoreOf (m : TaskMem) (q : TaskStatus → List Nat) (s : TaskStore) : Prop where
  filed : Filed m q
  addr : ∀ a, (m.tasks a).addr = a
  queue : ∀ {st}, st ≠ .unknown → s.vfstask st = (q st).map m.tasks
  count : s.taskcount = m.taskcount
  next : s.next = m.next

/-- A result, with the record it points to. -/
def GotTask.sees (m : TaskMem) : GotTask → GetTask
  | .err => .err
  | .ok task => .ok (m.tasks task)
  | .nothing => .nothing

/-- A call that takes a record from a queue, or puts one into a queue. -/
inductive QueueCall where
  | get (status : TaskStatus)
  | set (task : Tasklist) (status : TaskStatus)

/-- A call on the memory, with the record it returns. -/
def TaskMem.queueCall (mallocOk : Nat → Bool) (m : TaskMem) : QueueCall → Option (GetTask × TaskMem)
  | .get status => (m.vfsGetTask mallocOk status).map fun r => (r.1.sees r.2, r.2)
  | .set task status => some (.nothing, m.vfsSetTask task.addr status)

/-- The same call on the store. -/
def TaskStore.queueCall (mallocOk : Nat → Bool) (s : TaskStore) : QueueCall → GetTask × TaskStore
  | .get status => VfsOss.vfsGetTask mallocOk s status
  | .set task status => (.nothing, VfsOss.vfsSetTask s task status)

/-- A record that is put into a queue is one that is held, as the memory has it. -/
def TaskMem.Hands (m : TaskMem) : QueueCall → Prop
  | .get _ => True
  | .set task status =>
    status ≠ .unknown ∧ task.addr ∈ m.records ∧ m.tasks task.addr = task ∧ task.status = .unknown

/-- Calls one behind the other come back with what the store gives. -/
def TaskMem.Follows (mallocOk : Nat → Bool) : TaskMem → TaskStore → List QueueCall → Prop
  | _, _, [] => True
  | m, s, c :: cs => m.Hands c → ∃ m', m.queueCall mallocOk c = some ((s.queueCall mallocOk c).1, m') ∧
      m'.Follows mallocOk (s.queueCall mallocOk c).2 cs

/-- A record that is in no queue can be written to. -/
theorem map_tasks_update {l : List Nat} (ha : a ∉ l) (tasks : Nat → Tasklist) (t : Tasklist) :
    l.map (Function.update tasks a t) = l.map tasks := by
  apply List.map_congr_left
  intro b hb
  rw [Function.update_of_ne (ne_of_mem_of_not_mem hb ha)]

/-- The first record of a queue is in no queue behind it. -/
theorem Filed.notMem_rest (h : Filed m q) (hst : st ≠ .unknown) {rest : List Nat} (hq : q st = a :: rest)
    {st' : TaskStatus} (hst' : st' ≠ .unknown) : a ∉ Function.update q st rest st' := by
  have ha : a ∈ q st := by
    rw [hq]
    exact List.mem_cons_self
  by_cases hne : st' = st
  · subst hne
    rw [Function.update_self]
    have hnodup := h.nodup hst
    rw [hq, List.nodup_cons] at hnodup
    exact hnodup.1
  · rw [Function.update_of_ne hne]
    exact fun hin => hne (h.unique hst' hst hin ha)

/-- `vfs_get_task` does to the lists what it does to the pointers. -/
theorem StoreOf.vfsGetTask (h : StoreOf m q s) (mallocOk : Nat → Bool) (st : TaskStatus) :
    ∃ r m' q', m.vfsGetTask mallocOk st = some (r, m') ∧
      (VfsOss.vfsGetTask mallocOk s st).1 = r.sees m' ∧
      StoreOf m' q' (VfsOss.vfsGetTask mallocOk s st).2 := by
  unfold VfsOss.vfsGetTask
  by_cases hst : st = .unknown
  · subst hst
    rw [TaskMem.vfsGetTask, if_pos rfl, if_pos rfl]
    exact ⟨_, _, q, rfl, rfl, h⟩
  rw [if_neg hst, h.queue hst]
  cases hq : q st with
  | cons a rest =>
    obtain ⟨hget, hfiled, -⟩ := h.filed.vfsGetTask_cons hst hq mallocOk
    refine ⟨_, _, _, hget, ?_, hfiled, ?_, ?_, ?_, h.next⟩
    · show _ = GetTask.ok (Function.update m.tasks a _ a)
      rw [Function.update_self]
      rfl
    · intro b
      show (Function.update m.tasks a _ b).addr = b
      by_cases hb : b = a
      · subst hb
        rw [Function.update_self]
        exact h.addr b
      · rw [Function.update_of_ne hb]
        exact h.addr b
    · intro st' hst'
      show Function.update s.vfstask st (rest.map m.tasks) st' =
        (Function.update q st rest st').map (Function.update m.tasks a _)
      rw [map_tasks_update (h.filed.notMem_rest hst hq hst')]
      by_cases hne : st' = st
      · subst hne
        rw [Function.update_self, Function.update_self]
      · rw [Function.update_of_ne hne, Function.update_of_ne hne]
        exact h.queue hst'
    · show Function.update s.taskcount st (s.taskcount st - 1) = _
      rw [h.count]
      rfl
  | nil =>
    rw [h.filed.vfsGetTask_nil hst hq, List.map_nil]
    dsimp only
    by_cases hhome : st = .home
    · rw [if_pos hhome, if_pos hhome, h.next]
      cases mallocOk m.next with
      | false =>
        refine ⟨_, _, q, rfl, rfl, ?_, h.addr, h.queue, h.count, rfl⟩
        exact h.filed.congr rfl (fun _ => rfl) rfl rfl (Nat.le_succ _)
      | true =>
        refine ⟨_, _, q, rfl, ?_, h.filed.newTask.1, ?_, ?_, h.count, rfl⟩
        · show _ = GetTask.ok (Function.update m.tasks m.next _ m.next)
          rw [Function.update_self]
          rfl
        · intro b
          show (Function.update m.tasks m.next _ b).addr = b
          by_cases hb : b = m.next
          · subst hb
            rw [Function.update_self]
            rfl
          · rw [Function.update_of_ne hb]
            exact h.addr b
        · intro st' hst'
          have hnew : m.next ∉ q st' := fun hin =>
            Nat.lt_irrefl _ (h.filed.born (h.filed.isRecord hst' hin))
          show s.vfstask st' = (q st').map (Function.update m.tasks m.next _)
          rw [map_tasks_update hnew]
          exact h.queue hst'
    · rw [if_neg hhome, if_neg hhome]
      exact ⟨_, _, q, rfl, rfl, h⟩

/-- `vfs_set_task` does to the lists what it does to the pointers, for a record that is held. -/
theorem StoreOf.vfsSetTask (h : StoreOf m q s) (hst : st ≠ .unknown) (ha : a ∈ m.records)
    (hunk : (m.tasks a).status = .unknown) :
    StoreOf (m.vfsSetTask a st) (Function.update q st (q st ++ [a]))
      (VfsOss.vfsSetTask s (m.tasks a) st) := by
  have hnone : ∀ {st'}, st' ≠ .unknown → a ∉ q st' := fun hst' => (h.filed.unknown_iff ha).mp hunk _ hst'
  -- a record that is held is in no list, so nothing is taken out
  have hkeep : ∀ {st'}, st' ≠ .unknown →
      (s.vfstask st').filter (fun t => t.addr ≠ (m.tasks a).addr) = (q st').map m.tasks := by
    intro st' hst'
    rw [h.queue hst', List.filter_eq_self]
    intro t ht
    obtain ⟨b, hb, rfl⟩ := List.mem_map.mp ht
    rw [h.addr, h.addr, decide_eq_true_eq]
    exact ne_of_mem_of_not_mem hb (hnone hst')
  have htasks : (m.vfsSetTask a st).tasks =
      Function.update m.tasks a { m.tasks a with status := st } := by
    rw [TaskMem.vfsSetTask, if_neg hst]
    rfl
  refine ⟨h.filed.vfsSetTask hst ha hunk, ?_, ?_, ?_, ?_⟩
  · intro b
    rw [htasks]
    by_cases hb : b = a
    · subst hb
      rw [Function.update_self]
      exact h.addr b
    · rw [Function.update_of_ne hb]
      exact h.addr b
  · intro st' hst'
    rw [htasks, VfsOss.vfsSetTask, if_neg hst]
    dsimp only
    by_cases hne : st' = st
    · subst hne
      rw [Function.update_self, Function.update_self, hkeep hst', List.map_append,
        map_tasks_update (hnone hst'), List.map_singleton, Function.update_self]
    · rw [Function.update_of_ne hne, Function.update_of_ne hne, hkeep hst',
        map_tasks_update (hnone hst')]
  · rw [VfsOss.vfsSetTask, if_neg hst, TaskMem.vfsSetTask, if_neg hst]
    dsimp only
    rw [h.count]
    rfl
  · rw [VfsOss.vfsSetTask, if_neg hst, TaskMem.vfsSetTask, if_neg hst]
    exact h.next

/-- One call. -/
theorem StoreOf.queueCall (h : StoreOf m q s) (mallocOk : Nat → Bool) {c : QueueCall} (hc : m.Hands c) :
    ∃ m' q', m.queueCall mallocOk c = some ((s.queueCall mallocOk c).1, m') ∧
      StoreOf m' q' (s.queueCall mallocOk c).2 := by
  cases c with
  | get status =>
    obtain ⟨r, m', q', hget, hsees, h'⟩ := h.vfsGetTask mallocOk status
    refine ⟨m', q', ?_, h'⟩
    rw [TaskMem.queueCall, hget, TaskStore.queueCall, hsees]
    rfl
  | set task status =>
    obtain ⟨hst, ha, htask, hunk⟩ := hc
    have h' := h.vfsSetTask hst ha (by rw [htask]; exact hunk)
    rw [htask] at h'
    exact ⟨_, _, rfl, h'⟩

/-- Calls one behind the other. -/
theorem StoreOf.follows (h : StoreOf m q s) (mallocOk : Nat → Bool) (cs : List QueueCall) :
    m.Follows mallocOk s cs := by
  induction cs generalizing m q s with
  | nil => trivial
  | cons c cs ih =>
    intro hc
    obtain ⟨m', q', hcall, h'⟩ := h.queueCall mallocOk hc
    exact ⟨m', hcall, ih h'⟩

/-- `init_task_info` makes the same store both ways. -/
theorem storeOf_initTaskInfo (links : ListHeads Node) (n : Nat) :
    StoreOf (TaskMem.initTaskInfo links n) (startQueues n) (initTaskInfo n) := by
  have hlinked := homeLinked_initTaskInfo links n
  refine ⟨hlinked.filed, fun a => ?_, fun {st} hst => ?_, hlinked.taskcount.symm, hlinked.next.symm⟩
  · rw [hlinked.tasks]
    split
    · rfl
    · rfl
  · show (if st = .home then _ else _) = (if st = .home then _ else _ : List Nat).map _
    by_cases hhome : st = .home
    · rw [if_pos hhome, if_pos hhome]
      apply List.map_congr_left
      intro a ha
      rw [hlinked.tasks, if_pos (List.mem_range.mp (List.mem_reverse.mp ha))]
    · rw [if_neg hhome, if_neg hhome]
      rfl

/-- **Any calls** from the start return what they return on the lists, as long as only records that are held are put
into queues. -/
theorem initTaskInfo_follows (links : ListHeads Node) (n : Nat) (mallocOk : Nat → Bool) (cs : List QueueCall) :
    (TaskMem.initTaskInfo links n).Follows mallocOk (initTaskInfo n) cs :=
  (storeOf_initTaskInfo links n).follows mallocOk cs

end VfsOss
