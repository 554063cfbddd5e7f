import VfsOss.Sm.Moves

/-!
# Files of blocks

A block is live from the moment its file is opened: while it is received, while it waits complete in
`TASK_FIN`, and in the hash table until it is marked expired or merged. Nothing must touch the file of a
live block. This file says which steps keep off the live blocks' files.
-/

namespace VfsOss

open CLib

/-- A block that has been received in full: it waits, or it is in the table and has not expired. -/
def Whole (s : Sm) (t : Tasklist) : Prop :=
  t ∈ s.store.vfstask .fin ∧ t.base.overstatus = .ok ∨ InAlltask s.store t ∧ t.base.expire = 0

/-- A block whose file counts. -/
def Live (s : Sm) (t : Tasklist) : Prop := (∃ fd f, s.recv fd = some (t, f)) ∨ Whole s t

/-- The length a block was announced with. -/
def Tasklist.len (t : Tasklist) : Int := t.sub.end_ - t.sub.start + 1

/-- The step keeps off the files of live blocks: an upload that is started has a length that fits an
`int` and the name of no live block's file, and a file that is merged has not that name either. -/
def StepKeepsOff (cfg : Cfg) (s : Sm) : SmAct → Prop
  | .recv fd chunk io => io.opens = true →
      ∀ t, (smStep cfg s (.recv fd chunk io)).log = s.log ++ [.post t] →
        0 ≤ t.len ∧ t.len < 2 ^ 31 ∧
        ∀ u, Live s u → u.base.tmpfile ≠ (prepared cfg t).base.tmpfile
  | .finIter io => io.openOut = true →
      ∀ t ∈ processed s (.finIter io), t.base.overstatus = .ok →
        (∀ i ∈ idxs t.sub.count, i ≠ t.sub.idx →
          checkTaskFromAlltask s.store t.base.filename i t.sub.count 0 = true) →
        ∀ u, Live s u → u.base.tmpfile ≠ getLocaldir cfg t.base.hostname t.base.filename
  | _ => True

end VfsOss
