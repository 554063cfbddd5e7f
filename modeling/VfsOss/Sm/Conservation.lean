import VfsOss.Sm.Http
import VfsOss.Task.Placement

/-!
# Where a finished block is after a pass

A record that was waiting when `check_fin_task` was called is still waiting, in the hash table, or
concatenated by a merge. The third place is read off the history of the call.
-/

namespace VfsOss

open CLib

/-- What has happened since the state `s`. -/
def Sm.since (s s' : Sm) : List Event := s'.log.drop s.log.length

/-- What is asked of the requests of a history. -/
def Event.ofPost (p : Tasklist → Bool) : Event → Bool
  | .post t => p t
  | _ => true

/-- A record with the address waits in `TASK_FIN`. -/
def InFin (s : Sm) (a : Nat) : Prop := ∃ t ∈ s.store.vfstask .fin, t.addr = a

/-- A record with the address and the temporary file is in the hash table. -/
def InTable (st : TaskStore) (a : Nat) (tmpfile : Bytes) : Prop :=
  ∃ t, InAlltask st t ∧ t.addr = a ∧ t.base.tmpfile = tmpfile

/-- A merge has concatenated the temporary file of the record with the address, and returned the
record to `TASK_HOME`. -/
def Concatenated (s s' : Sm) (a : Nat) (tmpfile : Bytes) : Prop :=
  ∃ hostname filename t, .concat hostname filename t ∈ s.since s' ∧ t.addr = a ∧
    t.base.tmpfile = tmpfile

/-- The record is in exactly one of the three places. -/
def OnePlace (s s' : Sm) (t : Tasklist) : Prop :=
  (InFin s' t.addr ∧ (∀ p, ¬ InTable s'.store t.addr p) ∧ ∀ p, ¬ Concatenated s s' t.addr p) ∨
  (¬ InFin s' t.addr ∧ InTable s'.store t.addr t.base.tmpfile ∧ ∀ p, ¬ Concatenated s s' t.addr p) ∨
  (¬ InFin s' t.addr ∧ (∀ p, ¬ InTable s'.store t.addr p) ∧ Concatenated s s' t.addr t.base.tmpfile)

/-- Every record that was waiting when the pass began is in one place when it ends. -/
def KeepsFinished (cfg : Cfg) (io : Nat → MergeIo) (s : Sm) : Prop :=
  ∀ t ∈ s.store.vfstask .fin, OnePlace s (checkFinTask cfg io s) t

/-- No operation on a file has failed in the pass. -/
def FilesSucceed (cfg : Cfg) (io : Nat → MergeIo) (s : Sm) : Prop :=
  ∀ path, .ioErr path ∉ s.since (checkFinTask cfg io s)

/-- The state in which the completeness of `t`'s file is checked, and merged if it is complete. -/
def beforeMerge (cfg : Cfg) (t : Tasklist) (s : Sm) : Sm :=
  let s := checkLackTask cfg t s
  { s with store := addTaskToAlltask s.store t }

/-- The merge that processing `t` starts takes a record from the table: a search finds it under one of
the keys, and every block of the file is there. -/
def Takes (cfg : Cfg) (t : Tasklist) (s : Sm) (r : Tasklist) : Prop :=
  checkTaskAllsubIsok (beforeMerge cfg t s).store t.base.filename t.sub.count = true ∧
  ∃ i ∈ idxs t.sub.count,
    findTask (beforeMerge cfg t s).store t.base.filename i t.sub.count = some r

/-- In no round of the pass does the merge find an expired record that was waiting when the pass
began. -/
def SkipsNone (cfg : Cfg) (io : Nat → MergeIo) (s : Sm) : Prop :=
  ∀ j t, (s.store.vfstask .fin)[j]? = some t → j < 128 →
    ∀ r, Takes cfg t.taken (roundStart cfg io s j t.taken) r →
      r.addr ∈ (s.store.vfstask .fin).map Tasklist.addr → r.base.expire = 0

end VfsOss
