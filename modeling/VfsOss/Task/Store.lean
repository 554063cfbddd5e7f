import VfsOss.Task.Types
import VfsOss.CLib.Chain
import Mathlib.Logic.Function.Basic

/-!
# The task store

The status queues and the hash table of `vfs_task.c`. A function here is what it does to the lists under
its lock; `vfsGetTaskLocked` has the outcome of `pthread_mutex_timedlock` as well.
-/

namespace VfsOss

open CLib

/-- `vfstask`, `taskcount` and `alltask`, and the address of the next record `malloc` returns. -/
structure TaskStore where
  vfstask : TaskStatus → List Tasklist
  taskcount : TaskStatus → Int
  alltask : Fin 16 → List Tasklist
  next : Nat

/-- The result of `vfs_get_task`. -/
inductive GetTask where
  | err
  | ok (task : Tasklist)
  | nothing
  deriving DecidableEq

/-- A record fresh from `malloc`, zeroed. -/
def Tasklist.fresh (addr : Nat) : Tasklist := ⟨addr, .zero, .zero, .unknown, []⟩

/-- `vfs_get_task`: the record that is first in a queue, taken out of it. An empty `TASK_HOME` gives
a new record; `mallocOk` tells which calls of `malloc` succeed. -/
def vfsGetTask (mallocOk : Nat → Bool) (s : TaskStore) (status : TaskStatus) :
    GetTask × TaskStore :=
  if status = .unknown then (.err, s)
  else
    match s.vfstask status with
    | task :: rest =>
      (.ok { task with status := .unknown },
        { s with
          vfstask := Function.update s.vfstask status rest
          taskcount := Function.update s.taskcount status (s.taskcount status - 1) })
    | [] =>
      if status = .home then
        if mallocOk s.next then (.ok (.fresh s.next), { s with next := s.next + 1 })
        else (.nothing, { s with next := s.next + 1 })
      else (.nothing, s)

/-- `vfs_get_task` with the result of `pthread_mutex_timedlock`: without the lock that error is returned, and
nothing else is done. -/
def vfsGetTaskLocked (locked : Bool) (mallocOk : Nat → Bool) (s : TaskStore) (status : TaskStatus) :
    GetTask × TaskStore :=
  if locked then vfsGetTask mallocOk s status else (.err, s)

/-- `vfs_set_task`: unlinked from whatever queue it is in, then last in the queue of `status`. -/
def vfsSetTask (s : TaskStore) (task : Tasklist) (status : TaskStatus) : TaskStore :=
  if status = .unknown then s
  else
    let q := fun st => (s.vfstask st).filter fun t => t.addr ≠ task.addr
    { s with
      vfstask := Function.update q status (q status ++ [{ task with status := status }])
      taskcount := Function.update s.taskcount status (s.taskcount status + 1) }

/-- One round of `r5hash`; `char` is signed. -/
def r5round (h : Int) (c : UInt8) : Int :=
  let p : Int := if c.toNat < 128 then c.toNat else (c.toNat : Int) - 256
  (h * 11 + p * 16 + p / 16) % 2 ^ 32

/-- `r5hash`. -/
def r5hash (s : Bytes) : Int := s.foldl r5round 0

/-- `get_vfs_task_hash(...) & TASK_MOD`. -/
def getVfsTaskHash (fname : Bytes) (idx count : Int) : Fin 16 :=
  Fin.ofNat 16 (r5hash (snprintf 1024
    (fname ++ txt "_" ++ fmtInt idx ++ txt "_" ++ fmtInt count))).toNat

/-- The comparison all the searches in `alltask` make. -/
def sameKey (fname : Bytes) (idx count : Int) (task : Tasklist) : Bool :=
  fname = task.base.filename && idx = task.sub.idx && count = task.sub.count

/-- `add_task_to_alltask`: unlinked from whatever chain it is in, then first in its own. -/
def addTaskToAlltask (s : TaskStore) (task : Tasklist) : TaskStore :=
  let index := getVfsTaskHash task.base.filename task.sub.idx task.sub.count
  let c := fun b => (s.alltask b).filter fun t => t.addr ≠ task.addr
  { s with alltask := Function.update c index (task :: c index) }

/-- `check_task_from_alltask(...) == 0`: a record with the key has the given `expire`. -/
def checkTaskFromAlltask (s : TaskStore) (fname : Bytes) (idx count : Int) (expire : Nat) : Bool :=
  (s.alltask (getVfsTaskHash fname idx count)).any fun t =>
    sameKey fname idx count t && t.base.expire = expire

/-- The record a search in `alltask` stops at. -/
def findTask (s : TaskStore) (fname : Bytes) (idx count : Int) : Option Tasklist :=
  (s.alltask (getVfsTaskHash fname idx count)).find? (sameKey fname idx count)

/-- A record with its `expire` flag set. -/
def Tasklist.setExpire (task : Tasklist) (expire : Nat) : Tasklist :=
  { task with base := { task.base with expire := expire } }

/-- `set_task_from_alltask`: the first record with the key gets the given `expire`. -/
def setTaskFromAlltask (s : TaskStore) (fname : Bytes) (idx count : Int) (expire : Nat) :
    TaskStore :=
  let index := getVfsTaskHash fname idx count
  { s with
    alltask := Function.update s.alltask index
      (updFirst (sameKey fname idx count) (·.setExpire expire) (s.alltask index)) }

/-- `get_task_from_alltask`: the first record with the key, taken out of its chain. -/
def getTaskFromAlltask (s : TaskStore) (fname : Bytes) (idx count : Int) :
    Option (Tasklist × TaskStore) :=
  let index := getVfsTaskHash fname idx count
  (findTask s fname idx count).map fun task =>
    (task, { s with
      alltask := Function.update s.alltask index
        ((s.alltask index).eraseP (sameKey fname idx count)) })

/-- `get_task_count`. -/
def getTaskCount (s : TaskStore) (status : TaskStatus) : Int :=
  if status = .unknown then -1 else s.taskcount status

/-- A record is somewhere in `alltask`. -/
def InAlltask (s : TaskStore) (task : Tasklist) : Prop := ∃ b, task ∈ s.alltask b

/-- The store after `init_task_info`, with `n` records in `TASK_HOME` (2048 in the source), the last
one linked first. -/
def initTaskInfo (n : Nat) : TaskStore where
  vfstask st := if st = .home then
    (List.range n).reverse.map fun a => { Tasklist.fresh a with status := .home } else []
  taskcount _ := 0
  alltask _ := []
  next := n

end VfsOss
