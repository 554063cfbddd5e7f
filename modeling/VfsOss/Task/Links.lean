import VfsOss.CLib.ListHead
import VfsOss.CLib.Run
import VfsOss.Net.Mybuff
import VfsOss.Task.Store

/-!
# The task store in memory

The status queues of `vfs_task.c` as they are: nodes in the records and in the table `vfstask` with
pointers to each other, a status byte in every record, a counter for every queue. The mutexes are taken
to be acquired. The counters are `int`s; they stay within their range as long as there are fewer than
`2 ^ 31` records.
-/

namespace VfsOss

open CLib

/-- Every `list_head_t`: the entries of `vfstask`, and the three in the record with a given address. -/
inductive Node where
  | head (status : TaskStatus)
  | llist (task : Nat)
  | hlist (task : Nat)
  | userlist (task : Nat)
  deriving DecidableEq

/-- The memory: pointers, records by their address, `taskcount`, the address the next `malloc` returns,
and `databuff` of the agent. `records` is not in the program: it is a history of the records there are. -/
structure TaskMem where
  links : ListHeads Node
  tasks : Nat → Tasklist
  taskcount : TaskStatus → Int
  next : Nat
  databuff : Mybuff
  records : List Nat

/-- The result of `vfs_get_task`. -/
inductive GotTask where
  | err
  | ok (task : Nat)
  | nothing
  deriving DecidableEq

namespace TaskMem

/-- The pointers of a record initialised. -/
def initTask (m : TaskMem) (task : Nat) : TaskMem :=
  { m with links :=
      initListHead (initListHead (initListHead m.links (.llist task)) (.hlist task)) (.userlist task) }

/-- A record from `malloc`, zeroed, with its pointers and its status initialised. -/
def newTask (m : TaskMem) : TaskMem :=
  { m with
    tasks := Function.update m.tasks m.next (.fresh m.next)
    next := m.next + 1
    records := m.next :: m.records }.initTask m.next

/-- `list_del_init` of a node. -/
def del (m : TaskMem) (node : Node) : TaskMem := { m with links := listDelInit m.links node }

/-- A record with another status. -/
def setStatus (m : TaskMem) (task : Nat) (status : TaskStatus) : TaskMem :=
  { m with tasks := Function.update m.tasks task { m.tasks task with status := status } }

/-- `atomic_dec` and `atomic_inc`. -/
def addCount (m : TaskMem) (status : TaskStatus) (n : Int) : TaskMem :=
  { m with taskcount := Function.update m.taskcount status (m.taskcount status + n) }

/-- The first record of a queue is taken. -/
def takeTask (m : TaskMem) (status : TaskStatus) (task : Nat) : TaskMem :=
  ((m.addCount status (-1)).setStatus task .unknown).del (.llist task)

/-- `vfs_get_task`. Nothing stands for undefined behaviour, where `list_entry` is used on a node that is
not the `llist` of a record. `mallocOk` tells which calls of `malloc` succeed. -/
def vfsGetTask (mallocOk : Nat → Bool) (m : TaskMem) (status : TaskStatus) : Option (GotTask × TaskMem) :=
  if status = .unknown then some (.err, m)
  else if m.links.next (.head status) = .head status then
    if status = .home then
      if mallocOk m.next then some (.ok m.next, m.newTask)
      else some (.nothing, { m with next := m.next + 1 })
    else some (.nothing, m)
  else
    match m.links.next (.head status) with
    | .llist task => some (.ok task, m.takeTask status task)
    | _ => none

/-- `vfs_set_task`. -/
def vfsSetTask (m : TaskMem) (task : Nat) (status : TaskStatus) : TaskMem :=
  if status = .unknown then m
  else
    let m := m.del (.llist task)
    let m := { m with links := listAddTail m.links (.llist task) (.head status) }
    (m.setStatus task status).addCount status 1

/-- What a caller does to a record it holds. -/
def fillTask (m : TaskMem) (task : Nat) (base : TaskBase) (sub : TaskSub) : TaskMem :=
  { m with tasks := Function.update m.tasks task { m.tasks task with base := base, sub := sub } }

/-- A record's task zeroed. -/
def zeroTask (m : TaskMem) (task : Nat) : TaskMem :=
  let t := m.tasks task
  { m with tasks := Function.update m.tasks task { t with base := .zero, sub := .zero, got := [] } }

/-- `check_task_timeout`, where `time` returns `cur`. -/
def checkTaskTimeout (taskTimeout cur : Int) (task : Nat) (m : TaskMem) : TaskMem :=
  if cur - (m.tasks task).base.stime > taskTimeout then
    let m := ((m.del (.llist task)).del (.hlist task)).del (.userlist task)
    ((m.addCount (m.tasks task).status (-1)).zeroTask task).vfsSetTask task .home
  else m

/-- The line `get_data_from_task` reports. It is shorter than its buffer of 1024 bytes. -/
def dataLine (base : TaskBase) : Bytes :=
  snprintf 1024 (base.filename ++ txt ":" ++ base.srcip ++ txt ":" ++ fmtInt base.fsize ++ txt ":" ++
    fmtInt base.getlen ++ txt ":" ++ fmtInt base.overstatus.ctorIdx ++ txt "\n")

/-- `get_data_from_task`. -/
def getDataFromTask (initBuffSize : Nat) (mem : Nat → UInt8) (task : Nat) (m : TaskMem) : TaskMem :=
  let m := { m with databuff := mybuffSetdata initBuffSize mem m.databuff (dataLine (m.tasks task).base) }
  let m := m.del (.llist task)
  ((m.addCount (m.tasks task).status (-1)).zeroTask task).vfsSetTask task .home

/-- `scan_some_status_task`. Nothing is returned for undefined behaviour, or when the loop does not come
back to the head of the queue within as many steps as there are records. -/
def scanSomeStatusTask (m : TaskMem) (status : TaskStatus) (cb : Nat → TaskMem → TaskMem) :
    Option TaskMem :=
  if status = .unknown then some m
  else
    forEachSafe TaskMem.links (.head status)
      (fun node m => match node with
        | .llist task => some (cb task m)
        | _ => none)
      (m.records.length + 1) (m.links.next (.head status)) (m.links.next (m.links.next (.head status))) m

/-- `get_task_count`. -/
def getTaskCount (m : TaskMem) (status : TaskStatus) : Int :=
  if status = .unknown then -1 else m.taskcount status

/-- The status queues in the order of their numbers. -/
def statuses : List TaskStatus :=
  [.delay, .wait, .waitSync, .waitSyncIp, .waitTmp, .qSyncDir, .qSyncDirTmp, .run, .fin, .clean, .home,
    .send, .recv, .syncVoss, .qSyncDirReq, .qSyncDirRsp]

/-- One round of the loop over the records in `init_task_info`. -/
def linkHome (m : TaskMem) (task : Nat) : TaskMem :=
  let m := m.initTask task
  { m with links := listAddHead m.links (.llist task) (.head .home) }.setStatus task .home

/-- `init_task_info`, in memory that holds anything, with `n` records (2048 in the source). -/
def initTaskInfo (links : ListHeads Node) (n : Nat) : TaskMem :=
  let m : TaskMem :=
    { links := statuses.foldl (fun l st => initListHead l (.head st)) links
      tasks := .fresh
      taskcount := fun _ => 0
      next := n
      databuff := mybuffInit
      records := List.range n }
  (List.range n).foldl linkHome m

end TaskMem

end VfsOss
