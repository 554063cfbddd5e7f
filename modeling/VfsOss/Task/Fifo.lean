import VfsOss.Task.Links

/-!
# First in, first out

What the task store is for: every record is in one queue or held by a caller, and a queue gives its
records back in the order they came.
-/

namespace VfsOss

open CLib

/-- A call of the task store. Before a record is put into a queue its task is filled. A scan goes with
one of its two callbacks; `cur` is what `time` returns for a record. -/
inductive TaskOp where
  | get (status : TaskStatus)
  | set (task : Nat) (base : TaskBase) (sub : TaskSub) (status : TaskStatus)
  | scanTimeout (status : TaskStatus) (cur : Nat → Int)
  | scanData (status : TaskStatus)

/-- What is not in the repository, and the configuration: the allocator, what fresh memory holds, the
first size of a buffer, `g_config.task_timeout`. -/
structure TaskEnv where
  mallocOk : Nat → Bool
  mem : Nat → UInt8
  initBuffSize : Nat
  taskTimeout : Int

/-- The memory with what callers hold. `entered` is when the status of a record last changed, in calls. -/
structure TaskCalls where
  mem : TaskMem
  held : List Nat
  entered : Nat → Nat
  now : Nat

/-- What a call does to the memory and to what is held; nothing where it does not return. -/
def TaskOp.exec (env : TaskEnv) (s : TaskCalls) : TaskOp → Option (TaskMem × List Nat)
  | .get status =>
    (s.mem.vfsGetTask env.mallocOk status).map fun r =>
      match r with
      | (.ok task, m) => (m, task :: s.held)
      | (_, m) => (m, s.held)
  | .set task base sub status =>
    let m := s.mem.fillTask task base sub
    some (m.vfsSetTask task status, if status = .unknown then s.held else s.held.filter (· ≠ task))
  | .scanTimeout status cur =>
    (s.mem.scanSomeStatusTask status fun task m =>
      m.checkTaskTimeout env.taskTimeout (cur task) task).map (·, s.held)
  | .scanData status =>
    (s.mem.scanSomeStatusTask status (TaskMem.getDataFromTask env.initBuffSize env.mem)).map (·, s.held)

/-- A step: behind a call that does not return nothing is known. -/
def taskStep (env : TaskEnv) (s : TaskCalls) (op : TaskOp) : TaskCalls :=
  match op.exec env s with
  | none => s
  | some (m, held) =>
    { mem := m
      held := held
      entered := fun a => if (m.tasks a).status = (s.mem.tasks a).status then s.entered a else s.now
      now := s.now + 1 }

/-- What callers keep to: only a record that is held is put into a queue, and `TASK_HOME` is not
scanned. -/
def Allowed (s : TaskCalls) : TaskOp → Prop
  | .get _ => True
  | .set task _ _ _ => task ∈ s.held
  | .scanTimeout status _ => status ≠ .home
  | .scanData status => status ≠ .home

instance Allowed.decidable : ∀ (s : TaskCalls) (op : TaskOp), Decidable (Allowed s op)
  | _, .get _ => .isTrue trivial
  | s, .set task _ _ _ => inferInstanceAs (Decidable (task ∈ s.held))
  | _, .scanTimeout status _ => inferInstanceAs (Decidable (status ≠ .home))
  | _, .scanData status => inferInstanceAs (Decidable (status ≠ .home))

/-- The call returns. -/
def Ends (env : TaskEnv) (s : TaskCalls) (op : TaskOp) : Prop := (op.exec env s).isSome

/-- The store after `init_task_info`; its records all enter `TASK_HOME` there. -/
def TaskCalls.init (links : ListHeads Node) (n : Nat) : TaskCalls :=
  ⟨TaskMem.initTaskInfo links n, [], fun _ => 0, 1⟩

/-- The queues hold these records: the pointers lead through them, and from them back. -/
def HoldsQueues (m : TaskMem) (q : TaskStatus → List Nat) : Prop :=
  ∀ st, st ≠ .unknown → Ring m.links (.head st) ((q st).map .llist)

/-- **The purpose of the store.** The queues hold records, none in two queues; a record is in the queue
its status says, or held when that is `TASK_UNKNOWN`; `vfs_get_task` returns the record that has been in
the queue longest, and none from an empty queue other than `TASK_HOME`; the counters are the lengths of
the queues. -/
def FifoQueues (env : TaskEnv) (s : TaskCalls) : Prop :=
  ∃ q : TaskStatus → List Nat, HoldsQueues s.mem q ∧
    (∀ a st st', st ≠ .unknown → st' ≠ .unknown → a ∈ q st → a ∈ q st' → st = st') ∧
    (∀ a ∈ s.mem.records, ∀ st, st ≠ .unknown → (a ∈ q st ↔ (s.mem.tasks a).status = st)) ∧
    (∀ a ∈ s.mem.records, a ∈ s.held ↔ (s.mem.tasks a).status = .unknown) ∧
    (∀ st, st ≠ .unknown → ∀ a rest, q st = a :: rest →
      (∃ m, s.mem.vfsGetTask env.mallocOk st = some (.ok a, m)) ∧ ∀ b ∈ rest, s.entered a ≤ s.entered b) ∧
    (∀ st, st ≠ .unknown → st ≠ .home → q st = [] →
      s.mem.vfsGetTask env.mallocOk st = some (.nothing, s.mem)) ∧
    ∀ st, st ≠ .unknown → st ≠ .home → s.mem.getTaskCount st = (q st).length

end VfsOss
