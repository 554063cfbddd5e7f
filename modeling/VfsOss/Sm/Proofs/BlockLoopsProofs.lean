import VfsOss.Sm.BlockLoops

/-!
# Proofs: the loops over the blocks of a file

The index is compared with `<=` against a bound of its own type, so no index is above the largest one. Below it
the loops are the folds `check_lack_task` and `clear_alltask_timeout` are modelled by.
-/

namespace VfsOss

open CLib

variable {cfg : Cfg} {task : Tasklist} {s : Sm} {hostname filename : Bytes} {count : Int}

/-- Without the marker `check_lack_task` returns exactly below the largest `int`. -/
theorem lackTaskEnds_iff (hcount : task.sub.count < 2 ^ 31) :
    LackTaskEnds cfg task s ↔
      (s.fs.content (checkfile (getLocaldir cfg task.base.hostname task.base.filename))).isSome ∨
        task.sub.count ≠ 2 ^ 31 - 1 := by
  unfold LackTaskEnds
  rw [forLoopEnds_iff hcount]
  cases s.fs.content (checkfile (getLocaldir cfg task.base.hostname task.base.filename)) with
  | none => simp
  | some c => simp

theorem clearAlltaskEnds_iff (hcount : count < 2 ^ 31) :
    ClearAlltaskEnds hostname filename count s ↔ count ≠ 2 ^ 31 - 1 :=
  forLoopEnds_iff hcount s

/-- What the loop has done when it ends is what `check_lack_task` does. -/
theorem checkLackTask_of_loop (hcount : task.sub.count < 2 ^ 31 - 1)
    (hnew : s.fs.content (checkfile (getLocaldir cfg task.base.hostname task.base.filename)) = none) (n : Nat)
    (hn : task.sub.count < (lackLoop cfg task s n).idx) : (lackLoop cfg task s n).st = checkLackTask cfg task s := by
  unfold checkLackTask
  dsimp only
  rw [hnew]
  exact forLoop_ended hcount _ n hn

/-- What the loop has done when it ends is what `clear_alltask_timeout` does. -/
theorem clearAlltaskTimeout_of_loop (hcount : count < 2 ^ 31 - 1) (n : Nat)
    (hn : count < (clearLoop hostname filename count s n).idx) :
    (clearLoop hostname filename count s n).st = clearAlltaskTimeout hostname filename count s :=
  forLoop_ended hcount _ n hn

/-- The record of the largest count ends neither loop. -/
theorem count_of_blockLoopsEnd (hcount : task.sub.count < 2 ^ 31) (h : BlockLoopsEnd cfg task s) :
    task.sub.count ≠ 2 ^ 31 - 1 :=
  (clearAlltaskEnds_iff hcount).mp h.clear

/-- **The loops over the blocks end**, from every state, exactly if the count is not the largest `int`. -/
theorem block_loops_end_iff (cfg : Cfg) (task : Tasklist) (s : Sm)
    (hcount : -2 ^ 31 ≤ task.sub.count ∧ task.sub.count < 2 ^ 31) :
    BlockLoopsEnd cfg task s ↔ task.sub.count ≠ 2 ^ 31 - 1 := by
  constructor
  · exact count_of_blockLoopsEnd hcount.2
  · intro hne
    exact ⟨(lackTaskEnds_iff hcount.2).mpr (Or.inr hne), (clearAlltaskEnds_iff hcount.2).mpr hne⟩

/-- The finished block of a file of `count` blocks. -/
def countedBlock (count : Int) : Tasklist :=
  { Tasklist.fresh 0 with base := { TaskBase.zero with overstatus := .ok }, sub := ⟨0, 0, -1, 1, count⟩ }

theorem block_loops_end_three : BlockLoopsEnd .sample (countedBlock 3) (Sm.init 2048) :=
  (block_loops_end_iff .sample (countedBlock 3) (Sm.init 2048) (by decide)).mpr (by decide)

/-- A header announces as many blocks as an `int` can count: with the record made from it the loops run on for
ever. -/
theorem largest_count_loops :
    let header := (SmClient.parseHeader .zero (UcClient.createHeader TaskBase.zero (countedBlock 2147483647).sub)).2.1
    let task := { countedBlock 0 with sub := (convertHttpheader2Task header .zero .zero).2 }
    task.sub.count = 2147483647 ∧ ¬ BlockLoopsEnd .sample task (Sm.init 2048) := by
  intro header task
  have hcount : task.sub.count = 2147483647 := by decide +kernel
  refine ⟨hcount, fun h => ?_⟩
  exact count_of_blockLoopsEnd (by rw [hcount]; decide) h (by rw [hcount]; decide)

end VfsOss
