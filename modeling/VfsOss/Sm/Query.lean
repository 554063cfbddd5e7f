import VfsOss.Sm.Client
import VfsOss.Task.Walk

/-!
# What a query does to the queues

`get_task_unok` by itself: the records that go into the reply, and the room the reply needs.
-/

namespace VfsOss

open CLib

/-- A record as its C types hold it: the file name with its NUL in 256 bytes, the index and the count in an `int`. -/
structure Tasklist.Sized (task : Tasklist) : Prop where
  filename : task.base.filename.length ≤ 255
  idx : -2 ^ 31 ≤ task.sub.idx ∧ task.sub.idx < 2 ^ 31
  count : -2 ^ 31 ≤ task.sub.count ∧ task.sub.count < 2 ^ 31

/-- The records a query starts from, in the order it meets them. -/
def missing (s : TaskStore) : List Tasklist := s.vfstask .wait ++ s.vfstask .waitTmp

/-- The records a query looks at that are of the host. -/
def asked (cfg : Cfg) (s : TaskStore) (hostname : Bytes) : List Tasklist :=
  ((s.vfstask .wait ++ s.vfstask .waitTmp).take (cfg.csMaxTaskRunOnce - 1)).filter
    fun task => task.base.hostname = hostname

/-- No request is lost, and the list names exactly those that are gone: what is expected of a query that has looked at
the records `examined`, listed `moved` and put `kept` aside. `ends` says that the first loop finds nothing more after
as many rounds as there were records; the rounds of the second are counted. -/
structure QueryConserves (cfg : Cfg) (s : TaskStore) (hostname : Bytes) (examined moved kept : List Tasklist) : Prop where
  ends : (drainWaitTmp cfg (s.vfstask .waitTmp).length s).vfstask .waitTmp = []
  placed : WellPlaced (getTaskUnok cfg s hostname).2.2
  front : examined <+: (missing s).map Tasklist.popped
  atMost : examined.length ≤ cfg.csMaxTaskRunOnce - 1
  split : (moved ++ kept).Perm examined
  movedOrder : moved.Sublist examined
  keptOrder : kept.Sublist examined
  once : (moved.map Tasklist.addr).Nodup
  host : ∀ t ∈ moved, t.base.hostname = hostname
  reply : (getTaskUnok cfg s hostname).1 = SmClient.createHeader (moved.flatMap unokText)
  home : (getTaskUnok cfg s hostname).2.2.vfstask .home = s.vfstask .home ++ moved.map (Tasklist.inStatus .home)
  waitTmp : (getTaskUnok cfg s hostname).2.2.vfstask .waitTmp = kept.map (Tasklist.inStatus .waitTmp)
  wait : (getTaskUnok cfg s hostname).2.2.vfstask .wait =
    (s.vfstask .wait ++ (s.vfstask .waitTmp).map (Tasklist.inStatus .wait)).drop examined.length
  onePlace : ∀ t ∈ missing s, ∃ q, (q = .home ∨ q = .wait ∨ q = .waitTmp) ∧
    ∀ q', InQueue (getTaskUnok cfg s hostname).2.2 q' t.addr ↔ q' = q
  other : ∀ q, q ≠ .home → q ≠ .wait → q ≠ .waitTmp → (getTaskUnok cfg s hostname).2.2.vfstask q = s.vfstask q

/-- The reply, with the NUL behind it, fits the buffer of `check_req`. -/
def ReplyFits (cfg : Cfg) (s : TaskStore) (hostname : Bytes) : Prop :=
  (getTaskUnok cfg s hostname).1.length + 1 ≤ 10240

/-- No first records of those asked for have texts that fill the buffer of the list up to its last 58 bytes, which is
what the lines around the list need. -/
def LeavesRoom (cfg : Cfg) (s : TaskStore) (hostname : Bytes) : Prop :=
  ∀ us, us <+: asked cfg s hostname →
    ¬ (10182 ≤ (us.flatMap unokText).length ∧ (us.flatMap unokText).length ≤ 10239)

end VfsOss
