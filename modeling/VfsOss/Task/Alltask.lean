import VfsOss.CLib.Rings
import VfsOss.Task.Store

/-!
# The table of all tasks in memory

`alltask` of `vfs_task.c` as it is: sixteen chains of nodes in the records with pointers to each other, searched and
walked with a saved next pointer. The mutex is taken to be acquired. Behind it the list that the table stands for.
-/

namespace VfsOss

open CLib

/-- Every `list_head_t`: the entries of `alltask`, and `hlist` in the record with a given address. -/
inductive HashNode where
  | head (index : Fin 16)
  | hlist (task : Nat)
  deriving DecidableEq

/-- `timeout_task`: what the callback makes of the records there are, given the records it has been called with in
this scan, the latest first. -/
abbrev TimeoutTask := List Nat → (Nat → Tasklist) → Nat → Tasklist

/-- The memory: the pointers, the records by their address, and the number of records there are. -/
structure AlltaskMem where
  links : ListHeads HashNode
  tasks : Nat → Tasklist
  records : Nat

/-- The entry of `alltask` for the key a record has. -/
def Tasklist.hashIndex (task : Tasklist) : Fin 16 :=
  getVfsTaskHash task.base.filename task.sub.idx task.sub.count

/-- `now - task0->task.base.stime < timeout` does not hold. -/
def Tasklist.due (timeout now : Int) (task : Tasklist) : Bool := ¬ now - task.base.stime < timeout

namespace AlltaskMem

/-- Before the first record is added: every node is a ring of its own. -/
def init (tasks : Nat → Tasklist) (records : Nat) : AlltaskMem := ⟨⟨id, id⟩, tasks, records⟩

/-- `list_del_init` of a record's node. -/
def del (m : AlltaskMem) (task : Nat) : AlltaskMem := { m with links := listDelInit m.links (.hlist task) }

/-- `list_add_head` of a record's node. -/
def addHead (m : AlltaskMem) (task : Nat) (index : Fin 16) : AlltaskMem :=
  { m with links := listAddHead m.links (.hlist task) (.head index) }

/-- `list_for_each_entry_safe_l` over a chain, up to the record that the body breaks at. Nothing is returned for
undefined behaviour, or when the loop does not come back to the head within as many steps as there are records. -/
def search (m : AlltaskMem) (index : Fin 16) (body : Tasklist → Bool) : Option (Option Nat) :=
  findSafe m.links (.head index)
    (fun node => match node with
      | .hlist task0 => some (if body (m.tasks task0) then some task0 else none)
      | .head _ => none)
    (m.records + 1) (m.links.next (.head index)) (m.links.next (m.links.next (.head index)))

/-- `add_task_to_alltask`. -/
def addTaskToAlltask (m : AlltaskMem) (task : Nat) : AlltaskMem :=
  (m.del task).addHead task (m.tasks task).hashIndex

/-- `check_task_from_alltask`. -/
def checkTaskFromAlltask (m : AlltaskMem) (fname : Bytes) (idx count : Int) (expire : Nat) : Option Int := do
  let r ← m.search (getVfsTaskHash fname idx count) fun task0 =>
    sameKey fname idx count task0 && task0.base.expire = expire
  return if r.isSome then 0 else -1

/-- `set_task_from_alltask`. -/
def setTaskFromAlltask (m : AlltaskMem) (fname : Bytes) (idx count : Int) (expire : Nat) :
    Option (Int × AlltaskMem) := do
  let r ← m.search (getVfsTaskHash fname idx count) (sameKey fname idx count)
  match r with
  | none => return (-1, m)
  | some task0 =>
    return (0, { m with tasks := Function.update m.tasks task0 ((m.tasks task0).setExpire expire) })

/-- `get_task_from_alltask`. -/
def getTaskFromAlltask (m : AlltaskMem) (filename : Bytes) (idx count : Int) :
    Option (Int × Option Nat × AlltaskMem) := do
  let r ← m.search (getVfsTaskHash filename idx count) (sameKey filename idx count)
  match r with
  | none => return (-1, none, m)
  | some task0 => return (0, some task0, m.del task0)

/-- The body of the loop in `get_timeout_task_from_alltask`, with the calls of `cb` so far. -/
def timeoutBody (timeout now : Int) (cb : TimeoutTask) (task0 : Nat) (s : AlltaskMem × List Nat) :
    AlltaskMem × List Nat :=
  if (s.1.tasks task0).due timeout now then
    ({ s.1.del task0 with tasks := cb (task0 :: s.2) s.1.tasks }, task0 :: s.2)
  else s

/-- `list_for_each_entry_safe_l` in `get_timeout_task_from_alltask`. -/
def timeoutChain (timeout now : Int) (cb : TimeoutTask) (s : AlltaskMem × List Nat) (index : Fin 16) :
    Option (AlltaskMem × List Nat) :=
  forEachSafe (·.1.links) (.head index)
    (fun node s => match node with
      | .hlist task0 => some (timeoutBody timeout now cb task0 s)
      | .head _ => none)
    (s.1.records + 1) (s.1.links.next (.head index)) (s.1.links.next (s.1.links.next (.head index))) s

/-- `get_timeout_task_from_alltask`, where `time` returns `now`: the memory, and the records that `cb` was called
with, the latest first. The function returns -1 in any case. -/
def getTimeoutTaskFromAlltask (timeout now : Int) (cb : TimeoutTask) (m : AlltaskMem) :
    Option (AlltaskMem × List Nat) :=
  (List.finRange 16).foldlM (timeoutChain timeout now cb) (m, [])

end AlltaskMem

/-- A call of one of the functions on `alltask`, or what other code does to the records. -/
inductive AlltaskOp where
  | other (change : (Nat → Tasklist) → Nat → Tasklist)
  | add (task : Nat)
  | check (fname : Bytes) (idx count : Int) (expire : Nat)
  | set (fname : Bytes) (idx count : Int) (expire : Nat)
  | get (filename : Bytes) (idx count : Int)
  | timeout (timeout now : Int) (cb : TimeoutTask)

/-- What a call gives its caller: the value returned, `*task`, and the records that the callback was called with, the
latest first. -/
structure AlltaskResult where
  ret : Int
  task : Option Nat
  calls : List Nat

/-- One call. -/
def AlltaskMem.step (m : AlltaskMem) : AlltaskOp → Option (AlltaskResult × AlltaskMem)
  | .other change => some (⟨0, none, []⟩, { m with tasks := change m.tasks })
  | .add task => some (⟨0, none, []⟩, m.addTaskToAlltask task)
  | .check fname idx count expire =>
    (m.checkTaskFromAlltask fname idx count expire).map fun ret => (⟨ret, none, []⟩, m)
  | .set fname idx count expire =>
    (m.setTaskFromAlltask fname idx count expire).map fun r => (⟨r.1, none, []⟩, r.2)
  | .get filename idx count =>
    (m.getTaskFromAlltask filename idx count).map fun r => (⟨r.1, r.2.1, []⟩, r.2.2)
  | .timeout timeout now cb =>
    (m.getTimeoutTaskFromAlltask timeout now cb).map fun r => (⟨-1, none, r.2⟩, r.1)

/-! ## What the table is for -/

/-- One list of records, the latest first. -/
structure FlatTasks where
  order : List Nat
  tasks : Nat → Tasklist

namespace FlatTasks

/-- The latest record with a key. -/
def find (s : FlatTasks) (fname : Bytes) (idx count : Int) : Option Nat :=
  s.order.find? fun a => sameKey fname idx count (s.tasks a)

/-- What the callback makes of the records, called with these one after the other, the latest first. -/
def callbacks (cb : TimeoutTask) (tasks : Nat → Tasklist) : List Nat → Nat → Tasklist
  | [] => tasks
  | a :: earlier => cb (a :: earlier) (callbacks cb tasks earlier)

/-- What a call does to the list, and what it gives its caller. -/
inductive Step (s : FlatTasks) : AlltaskOp → AlltaskResult → FlatTasks → Prop
  | other (change) : Step s (.other change) ⟨0, none, []⟩ { s with tasks := change s.tasks }
  | add (task) : Step s (.add task) ⟨0, none, []⟩ { s with order := task :: s.order.erase task }
  | checkFound {fname idx count expire a} (hmem : a ∈ s.order) (hkey : sameKey fname idx count (s.tasks a))
      (hexpire : (s.tasks a).base.expire = expire) : Step s (.check fname idx count expire) ⟨0, none, []⟩ s
  | checkNone {fname idx count expire}
      (hnone : ∀ a ∈ s.order, sameKey fname idx count (s.tasks a) → (s.tasks a).base.expire ≠ expire) :
      Step s (.check fname idx count expire) ⟨-1, none, []⟩ s
  | setFound {fname idx count expire a} (hfind : s.find fname idx count = some a) :
      Step s (.set fname idx count expire) ⟨0, none, []⟩
        { s with tasks := Function.update s.tasks a ((s.tasks a).setExpire expire) }
  | setNone {fname idx count expire} (hfind : s.find fname idx count = none) :
      Step s (.set fname idx count expire) ⟨-1, none, []⟩ s
  | getFound {filename idx count a} (hfind : s.find filename idx count = some a) :
      Step s (.get filename idx count) ⟨0, some a, []⟩ { s with order := s.order.erase a }
  | getNone {filename idx count} (hfind : s.find filename idx count = none) :
      Step s (.get filename idx count) ⟨-1, none, []⟩ s
  | timeout {timeout now cb calls} (hcalls : calls.Perm (s.order.filter fun a => (s.tasks a).due timeout now)) :
      Step s (.timeout timeout now cb) ⟨-1, none, calls⟩
        ⟨s.order.filter fun a => !(s.tasks a).due timeout now, callbacks cb s.tasks calls⟩

end FlatTasks

/-- Two records have the same key. -/
def Tasklist.KeyEq (t t' : Tasklist) : Prop :=
  t.base.filename = t'.base.filename ∧ t.sub.idx = t'.sub.idx ∧ t.sub.count = t'.sub.count

/-- What the callers keep to: other code leaves the keys of the records in the list; what is added is one of the
records there are; a callback leaves the keys and the start times of the records still in the list. -/
def AlltaskOp.Allowed (records : Nat) (s : FlatTasks) : AlltaskOp → Prop
  | .other change => ∀ a ∈ s.order, (change s.tasks a).KeyEq (s.tasks a)
  | .add task => task < records
  | .timeout _ _ cb => ∀ calls tasks, ∀ a ∈ s.order, a ∉ calls →
      (cb calls tasks a).KeyEq (tasks a) ∧ (cb calls tasks a).base.stime = (tasks a).base.stime
  | _ => True

namespace AlltaskMem

/-- The memory holds the records of a list: in the chain of its key each of them, in the order of the list. -/
structure Models (m : AlltaskMem) (s : FlatTasks) : Prop where
  rings : Rings m.links HashNode.head fun b =>
    (s.order.filter fun a => (s.tasks a).hashIndex = b).map HashNode.hlist
  tasks : m.tasks = s.tasks
  nodup : s.order.Nodup
  exist : ∀ a ∈ s.order, a < m.records

/-- The table behaves as a list: it holds the list's records, and for as long as its callers keep to the rules every
call comes back with what the list gives. -/
def Behaves : AlltaskMem → FlatTasks → List AlltaskOp → Prop
  | m, s, [] => m.Models s
  | m, s, op :: ops => m.Models s ∧ (op.Allowed m.records s →
      ∃ r m' s', m.step op = some (r, m') ∧ s.Step op r s' ∧ Behaves m' s' ops)

end AlltaskMem

/-! ## The table of the store -/

/-- A call of one of the functions, by a caller that has filled the record it adds. -/
inductive TableCall where
  | add (task : Tasklist)
  | check (fname : Bytes) (idx count : Int) (expire : Nat)
  | set (fname : Bytes) (idx count : Int) (expire : Nat)
  | get (filename : Bytes) (idx count : Int)

/-- The call on the memory: the value returned, and `*task`. -/
def AlltaskMem.call (m : AlltaskMem) : TableCall → Option ((Int × Option Nat) × AlltaskMem)
  | .add task =>
    let filled := { m with tasks := Function.update m.tasks task.addr task }
    some ((0, none), filled.addTaskToAlltask task.addr)
  | .check fname idx count expire =>
    (m.checkTaskFromAlltask fname idx count expire).map fun ret => ((ret, none), m)
  | .set fname idx count expire =>
    (m.setTaskFromAlltask fname idx count expire).map fun r => ((r.1, none), r.2)
  | .get filename idx count =>
    (m.getTaskFromAlltask filename idx count).map fun r => ((r.1, r.2.1), r.2.2)

/-- The call on the store. -/
def TaskStore.call (s : TaskStore) : TableCall → (Int × Option Tasklist) × TaskStore
  | .add task => ((0, none), addTaskToAlltask s task)
  | .check fname idx count expire => ((if checkTaskFromAlltask s fname idx count expire then 0 else -1, none), s)
  | .set fname idx count expire =>
    ((if (findTask s fname idx count).isSome then 0 else -1, none), setTaskFromAlltask s fname idx count expire)
  | .get filename idx count =>
    match getTaskFromAlltask s filename idx count with
    | none => ((-1, none), s)
    | some (task, s') => ((0, some task), s')

/-- Calls one after the other on the memory, with what they return. -/
def AlltaskMem.calls : AlltaskMem → List TableCall → Option (List (Int × Option Nat) × AlltaskMem)
  | m, [] => some ([], m)
  | m, c :: cs => do
    let (r, m) ← m.call c
    let (rs, m) ← m.calls cs
    return (r :: rs, m)

/-- Calls one after the other on the store, with what they return. -/
def TaskStore.calls : TaskStore → List TableCall → List (Int × Option Tasklist) × TaskStore
  | s, [] => ([], s)
  | s, c :: cs =>
    let r := s.call c
    let rs := r.2.calls cs
    (r.1 :: rs.1, rs.2)

/-- The memory holds the chains of a store: the pointers lead through the records of each, as they are in the store. -/
structure AlltaskMem.Holds (m : AlltaskMem) (s : TaskStore) : Prop where
  rings : Rings m.links HashNode.head fun b => (s.alltask b).map fun t => HashNode.hlist t.addr
  tasks : ∀ {b t}, t ∈ s.alltask b → m.tasks t.addr = t
  exist : ∀ {b t}, t ∈ s.alltask b → t.addr < m.records

end VfsOss
