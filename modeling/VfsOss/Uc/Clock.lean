import VfsOss.Uc.Split
import VfsOss.Task.Timeout

/-!
# The sending process and the time

What touches the task store of the sending process, with a clock: `insert_sub_task`, of which `uc_client`
and `uc_http` have the same copy, the two loops of `check_task`, and `do_timeout_task`.
-/

namespace VfsOss

open CLib

/-- One round of the first loop of `check_task`. -/
def checkTaskTmp (cfg : UcCfg) (s : TaskStore) : TaskStore :=
  match vfsGetTask cfg.mallocOk s .waitTmp with
  | (.ok task, s) => vfsSetTask s task .waitSync
  | (_, s) => s

/-- One round of the second loop of `check_task`; `sent` is whether `inotify_new_task` returns 0. -/
def checkTaskSync (cfg : UcCfg) (sent : Bool) (s : TaskStore) : TaskStore :=
  match vfsGetTask cfg.mallocOk s .waitSync with
  | (.ok task, s) => vfsSetTask s task (if sent then .home else .waitTmp)
  | (_, s) => s

/-- The process, the time, and when each record was last taken from `TASK_HOME`; this last is a
history. -/
structure UcClock where
  uc : Uc
  now : Int
  taken : Nat → Int

/-- The steps. `insert_sub_task` calls `time` when it has had its record for `late` seconds. -/
inductive UcClockAct where
  | insert (base0 : TaskBase) (idx count start end_ : Int) (late : Nat)
  | tmp
  | sync (sent : Bool)
  | wait (seconds : Nat)
  | timeout

/-- One step. -/
def ucClockStep (cfg : UcCfg) (taskTimeout : Int) (c : UcClock) : UcClockAct → UcClock
  | .insert base0 idx count start end_ late =>
    { uc := (insertSubTask cfg base0 idx count start end_ (c.now + late) c.uc).getD c.uc
      now := c.now + late
      taken :=
        match vfsGetTask cfg.mallocOk c.uc.store .home with
        | (.ok task, _) => Function.update c.taken task.addr c.now
        | _ => c.taken }
  | .tmp => { c with uc := { c.uc with store := checkTaskTmp cfg c.uc.store } }
  | .sync sent => { c with uc := { c.uc with store := checkTaskSync cfg sent c.uc.store } }
  | .wait seconds => { c with now := c.now + seconds }
  | .timeout => { c with uc := { c.uc with store := doTimeoutTask taskTimeout c.now c.uc.store } }

/-- The process after it has started, with `n` records, at some time. -/
def UcClock.init (n : Nat) (sync : List Bytes → Option Bytes) (now : Int) : UcClock :=
  ⟨Uc.init n sync none, now, fun _ => now⟩

/-- `do_timeout_task` called in a state of the sending process, as it should be. -/
def UcOnlyOld (taskTimeout : Int) (c : UcClock) : Prop :=
  OnlyOld taskTimeout c.now c.taken c.uc.store (doTimeoutTask taskTimeout c.now c.uc.store)

end VfsOss
