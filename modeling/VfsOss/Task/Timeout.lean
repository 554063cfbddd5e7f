import VfsOss.Task.Store

/-!
# Timeouts

`do_timeout_task`: from time to time the main thread puts the records that have been on their way for
too long back to `TASK_HOME`.
-/

namespace VfsOss

/-- A record taken out of every list. -/
def unlinkTask (s : TaskStore) (task : Tasklist) : TaskStore :=
  { s with
    vfstask := fun st => (s.vfstask st).filter fun t => t.addr ≠ task.addr
    alltask := fun b => (s.alltask b).filter fun t => t.addr ≠ task.addr }

/-- A record with its task zeroed. -/
def Tasklist.zeroed (task : Tasklist) : Tasklist := { task with base := .zero, sub := .zero, got := [] }

/-- `check_task_timeout`, where `time` returns `cur`. -/
def checkTaskTimeout (taskTimeout cur : Int) (s : TaskStore) (task : Tasklist) : TaskStore :=
  if cur - task.base.stime > taskTimeout then
    let s := unlinkTask s task
    let s := { s with
      taskcount := Function.update s.taskcount task.status (s.taskcount task.status - 1) }
    vfsSetTask s task.zeroed .home
  else s

/-- `scan_some_status_task`. The loop looks at the records that are in the queue when it starts: it has
the next one before the callback takes this one out. -/
def scanSomeStatusTask (s : TaskStore) (status : TaskStatus) (cb : TaskStore → Tasklist → TaskStore) :
    TaskStore :=
  if status = .unknown then s else (s.vfstask status).foldl cb s

/-- The statuses before `TASK_CLEAN`. -/
def timeoutStatuses : List TaskStatus :=
  [.delay, .wait, .waitSync, .waitSyncIp, .waitTmp, .qSyncDir, .qSyncDirTmp, .run, .fin]

/-- `do_timeout_task`, where `time` returns `cur`. -/
def doTimeoutTask (taskTimeout cur : Int) (s : TaskStore) : TaskStore :=
  timeoutStatuses.foldl
    (fun s status => scanSomeStatusTask s status (checkTaskTimeout taskTimeout cur)) s

/-- A record that was taken from `TASK_HOME` no more than `taskTimeout` seconds ago. -/
def Young (taskTimeout cur : Int) (taken : Nat → Int) (t : Tasklist) : Prop :=
  cur - taken t.addr ≤ taskTimeout

instance (taskTimeout cur : Int) (taken : Nat → Int) : DecidablePred (Young taskTimeout cur taken) :=
  fun _ => inferInstanceAs (Decidable (_ ≤ _))

/-- What `do_timeout_task` is for: only records that are not young leave their queues, and the young ones
stay in their order. -/
def OnlyOld (taskTimeout cur : Int) (taken : Nat → Int) (s s' : TaskStore) : Prop :=
  ∀ st ∈ timeoutStatuses,
    (∀ t ∈ s.vfstask st, t ∉ s'.vfstask st → ¬ Young taskTimeout cur taken t) ∧
    (s'.vfstask st).filter (Young taskTimeout cur taken) =
      (s.vfstask st).filter (Young taskTimeout cur taken)

instance (taskTimeout cur : Int) (taken : Nat → Int) (s s' : TaskStore) :
    Decidable (OnlyOld taskTimeout cur taken s s') :=
  inferInstanceAs (Decidable (∀ st ∈ timeoutStatuses, _))

end VfsOss
