import VfsOss.Task.Walk
import VfsOss.Uc.Types

/-!
# Sending the queued blocks

`check_task` of `uc_client`: the blocks that could not be sent before go behind those that are queued, and some of
the queued ones are tried. What `inotify_new_task` does with a block and everything but the queues is a parameter.
-/

namespace VfsOss

variable {N : Type}

/-- The second loop of `check_task`: a block that could be handed to a connection is done, another waits. -/
def tryBody (attempt : N → Tasklist → Bool × N) : WalkBody N := fun x task =>
  let r := attempt x task
  (if r.1 then .home else .waitTmp, true, r.2)

/-- `check_task` of `uc_client`. `attempt` is `inotify_new_task`, true when it returns 0. `once_run` is counted up
before it is compared, so one block less than `cs_max_task_run_once` is tried. -/
def UcClient.checkTask (mallocOk : Nat → Bool) (csMaxTaskRunOnce : Nat) (attempt : N → Tasklist → Bool × N) (x : N)
    (s : TaskStore) : N × TaskStore :=
  walkQueue mallocOk .waitSync (tryBody attempt) (csMaxTaskRunOnce - 1) x (drainQueue mallocOk .waitTmp .waitSync s)

/-! ## What is expected of it -/

/-- Blocks tried one after the other, each with its outcome. -/
def attempts (attempt : N → Tasklist → Bool × N) : N → List Tasklist → List (Tasklist × Bool) × N
  | x, [] => ([], x)
  | x, t :: rest =>
    let r := attempt x t
    let w := attempts attempt r.2 rest
    ((t, r.1) :: w.1, w.2)

/-- The blocks that wait to be sent, those that have failed last. -/
def waitingToSend (s : TaskStore) : List Tasklist := s.vfstask .waitSync ++ s.vfstask .waitTmp

/-- The attempts a call makes. -/
def tried (attempt : N → Tasklist → Bool × N) (csMaxTaskRunOnce : Nat) (x : N) (s : TaskStore) :
    List (Tasklist × Bool) × N :=
  attempts attempt x (((waitingToSend s).take (csMaxTaskRunOnce - 1)).map Tasklist.popped)

/-- Where a block belongs after these attempts. -/
def outcome (as : List (Tasklist × Bool)) (t : Tasklist) : TaskStatus :=
  if (t.popped, true) ∈ as then .home else if (t.popped, false) ∈ as then .waitTmp else .waitSync

/-- No block is lost or sent twice: what is expected of a call with the result `r`. `ends` says that the first loop
finds nothing more after as many rounds as there were records; the rounds of the second are counted. -/
structure Dispatches (mallocOk : Nat → Bool) (attempt : N → Tasklist → Bool × N) (csMaxTaskRunOnce : Nat) (x : N)
    (s : TaskStore) (r : N × TaskStore) : Prop where
  ends : (drainQueue mallocOk .waitTmp .waitSync s).vfstask .waitTmp = []
  placed : WellPlaced r.2
  state : r.1 = (tried attempt csMaxTaskRunOnce x s).2
  atMost : (tried attempt csMaxTaskRunOnce x s).1.length ≤ csMaxTaskRunOnce - 1
  once : ((tried attempt csMaxTaskRunOnce x s).1.map fun a => a.1.addr).Nodup
  sent : r.2.vfstask .home = s.vfstask .home ++
    (((tried attempt csMaxTaskRunOnce x s).1.filter fun a => a.2).map Prod.fst).map (Tasklist.inStatus .home)
  failed : r.2.vfstask .waitTmp =
    (((tried attempt csMaxTaskRunOnce x s).1.filter fun a => ¬ a.2).map Prod.fst).map (Tasklist.inStatus .waitTmp)
  waiting : r.2.vfstask .waitSync =
    (s.vfstask .waitSync ++ (s.vfstask .waitTmp).map (Tasklist.inStatus .waitSync)).drop (csMaxTaskRunOnce - 1)
  onePlace : ∀ t ∈ waitingToSend s, ∀ q,
    InQueue r.2 q t.addr ↔ q = outcome (tried attempt csMaxTaskRunOnce x s).1 t
  other : ∀ q, q ≠ .home → q ≠ .waitTmp → q ≠ .waitSync → r.2.vfstask q = s.vfstask q

end VfsOss
