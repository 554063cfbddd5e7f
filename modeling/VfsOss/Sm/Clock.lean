import VfsOss.Sm.Machine
import VfsOss.Task.Timeout

/-!
# The receiving process and the time

The machine of the two plugins with a clock. The main thread calls `do_timeout_task`; and a request on a
connection that `sm_http` has opened makes records too. Of such a request only what it does to the task
store is modelled, and other changes to the files, its own among them, come from outside.
-/

namespace VfsOss

open CLib

/-- The record an event takes from `TASK_HOME`. -/
def Event.taken : Event → Option Nat
  | .post task => some task.addr
  | .lack task => some task.addr
  | _ => none

/-- The records taken from `TASK_HOME` between two states of the history. -/
def takenSince (log log' : List Event) : List Nat := (log'.drop log.length).filterMap Event.taken

/-- The process, the time, and when each record was last taken from `TASK_HOME`; this last is a
history. -/
structure SmClock where
  sm : Sm
  now : Int
  taken : Nat → Int

/-- The record `insert_sub_task` of `sm_http` makes of the one it got from `TASK_HOME`. -/
def SmHttp.subRecord (task : Tasklist) (header : HttpHeader) (idx count start end_ now : Int) :
    Tasklist :=
  { task with
    base := { TaskBase.zero with
      stime := now
      fsize := toInt64 header.datalen
      filename := snprintf 256 header.filename
      filemd5 := snprintf 36 header.filemd5
      srcip := snprintf 16 header.srcip }
    sub := { starttime := now, start := start, end_ := end_, idx := idx, count := count }
    got := [] }

/-- `insert_sub_task` of `sm_http`, with the record it takes, if any. -/
def SmHttp.insertSubTask (cfg : Cfg) (header : HttpHeader) (idx count start end_ now : Int)
    (s : TaskStore) : Option Nat × TaskStore :=
  match vfsGetTask cfg.mallocOk s .home with
  | (.ok task, s) =>
    (some task.addr, vfsSetTask s (SmHttp.subRecord task header idx count start end_ now) .wait)
  | (_, s) => (none, s)

/-- The steps. A `request` is one call of `insert_sub_task`, which calls `time` when it has had its
record for `late` seconds. -/
inductive SmClockAct where
  | act (a : SmAct)
  | request (header : HttpHeader) (idx count start end_ : Int) (late : Nat)
  | files (fs : FileSystem Bytes)
  | wait (seconds : Nat)
  | timeout

/-- One step. -/
def smClockStep (cfg : Cfg) (taskTimeout : Int) (c : SmClock) : SmClockAct → SmClock
  | .act a =>
    let sm := smStep cfg c.sm a
    { c with
      sm := sm
      taken := fun t => if t ∈ takenSince c.sm.log sm.log then c.now else c.taken t }
  | .request header idx count start end_ late =>
    let r := SmHttp.insertSubTask cfg header idx count start end_ (c.now + late) c.sm.store
    { sm := { c.sm with store := r.2 }
      now := c.now + late
      taken := fun t => if r.1 = some t then c.now else c.taken t }
  | .files fs => { c with sm := { c.sm with fs := fs } }
  | .wait seconds => { c with now := c.now + seconds }
  | .timeout => { c with sm := { c.sm with store := doTimeoutTask taskTimeout c.now c.sm.store } }

/-- The process after it has started, with `n` records, at some time. -/
def SmClock.init (n : Nat) (now : Int) : SmClock := ⟨Sm.init n, now, fun _ => now⟩

/-- `do_timeout_task` called in a state of the receiving process, as it should be. -/
def SmOnlyOld (taskTimeout : Int) (c : SmClock) : Prop :=
  OnlyOld taskTimeout c.now c.taken c.sm.store (doTimeoutTask taskTimeout c.now c.sm.store)

/-- When it is: the time is not beyond `taskTimeout`, or the records without an `stime` have all been on
their way for longer. -/
def UnstampedOld (taskTimeout : Int) (c : SmClock) : Prop :=
  c.now ≤ taskTimeout ∨ ∀ st ∈ timeoutStatuses, ∀ t ∈ c.sm.store.vfstask st, t.base.stime = 0 →
    taskTimeout < c.now - c.taken t.addr

end VfsOss
