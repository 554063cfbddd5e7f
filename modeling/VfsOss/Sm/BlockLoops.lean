import VfsOss.Sm.Http
import VfsOss.CLib.ForLoop

/-!
# The loops over the blocks of a file

`check_lack_task` and `clear_alltask_timeout` with the index they really have. The bound is the block count that
has come with a header.
-/

namespace VfsOss

open CLib

/-- The state in which the loop of `check_lack_task` starts, behind the check for the marker. -/
def lackStart (cfg : Cfg) (task : Tasklist) (s : Sm) : Sm :=
  { s with fs := touchMarker cfg (getLocaldir cfg task.base.hostname task.base.filename) s.fs }

/-- The loop of `check_lack_task`, stopped after `n` rounds. -/
def lackLoop (cfg : Cfg) (task : Tasklist) (s : Sm) (n : Nat) : ForState Sm :=
  forLoop (lackOne cfg task (getLocaldir cfg task.base.hostname task.base.filename)) task.sub.count n
    ⟨1, lackStart cfg task s⟩

/-- The loop of `clear_alltask_timeout`, stopped after `n` rounds. -/
def clearLoop (hostname filename : Bytes) (count : Int) (s : Sm) (n : Nat) : ForState Sm :=
  forLoop (clearOne hostname filename count) count n ⟨1, s⟩

/-- `check_lack_task` returns: it finds the marker, or its loop ends with the index an `int` throughout. -/
def LackTaskEnds (cfg : Cfg) (task : Tasklist) (s : Sm) : Prop :=
  s.fs.content (checkfile (getLocaldir cfg task.base.hostname task.base.filename)) = none →
    ForLoopEnds (lackOne cfg task (getLocaldir cfg task.base.hostname task.base.filename)) task.sub.count
      ⟨1, lackStart cfg task s⟩

/-- `clear_alltask_timeout` returns, with the index an `int` throughout. -/
def ClearAlltaskEnds (hostname filename : Bytes) (count : Int) (s : Sm) : Prop :=
  ForLoopEnds (clearOne hostname filename count) count ⟨1, s⟩

/-- Both loops over the blocks of a record's file return. -/
structure BlockLoopsEnd (cfg : Cfg) (task : Tasklist) (s : Sm) : Prop where
  lack : LackTaskEnds cfg task s
  clear : ClearAlltaskEnds task.base.hostname task.base.filename task.sub.count s

end VfsOss
