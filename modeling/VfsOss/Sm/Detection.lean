import VfsOss.Sm.Conservation
import VfsOss.Sm.Machine
import VfsOss.Sm.Paths

/-!
# Asking for blocks that have not arrived

A file may be uploaded any number of times. When a block of an upload is processed, the blocks of the
upload that are missing and have not been asked for are to be asked for.
-/

namespace VfsOss

open CLib

/-- The history since a host last began an upload of a file. -/
def sinceBegan (hostname filename : Bytes) (log : List Event) : List Event :=
  (log.reverse.takeWhile fun e => e ≠ .began hostname filename).reverse

/-- A record asks for a block. -/
def Tasklist.AsksFor (v : Tasklist) (hostname filename : Bytes) (i count : Int) : Prop :=
  v.base.hostname = hostname ∧ v.base.filename = filename ∧ v.sub.idx = i ∧ v.sub.count = count

instance (v : Tasklist) (hostname filename : Bytes) (i count : Int) :
    Decidable (v.AsksFor hostname filename i count) :=
  inferInstanceAs (Decidable (_ ∧ _))

/-- Block `i` of the upload a record belongs to has no temporary file, and since the upload began it has
not been asked for. -/
structure Lacking (cfg : Cfg) (s : Sm) (t : Tasklist) (i : Int) : Prop where
  range : i ∈ idxs t.sub.count
  absent : s.fs.content (tmpPath cfg t.base.hostname t.base.filename i t.sub.count) = none
  unasked : ∀ v, .lack v ∈ sinceBegan t.base.hostname t.base.filename s.log →
    ¬ v.AsksFor t.base.hostname t.base.filename i t.sub.count

/-- Between two states a block has been asked for, and the record that asks for it waits in
`TASK_WAIT`. -/
def Asked (s s' : Sm) (t : Tasklist) (i : Int) : Prop :=
  ∃ v, .lack v ∈ s.since s' ∧ { v with status := .wait } ∈ s'.store.vfstask .wait ∧
    v.AsksFor t.base.hostname t.base.filename i t.sub.count

/-- What is expected of a step: if it processes a block that has arrived in full, every lacking block of
its upload is asked for. -/
def StepDetects (cfg : Cfg) (s : Sm) (a : SmAct) : Prop :=
  ∀ t ∈ processed s a, t.base.overstatus = .ok →
    ∀ i, Lacking cfg s t i → Asked s (smStep cfg s a) t i

/-- The condition on a step: if it processes a block that has arrived in full and blocks of its upload are
lacking, the file has no marker, and making the marker makes no file of a lacking block. -/
def StepUnmarked (cfg : Cfg) (s : Sm) (a : SmAct) : Prop :=
  ∀ t ∈ processed s a, t.base.overstatus = .ok → ∀ i, Lacking cfg s t i →
    let localfile := getLocaldir cfg t.base.hostname t.base.filename
    s.fs.content (checkfile localfile) = none ∧
      (touchMarker cfg localfile s.fs).content (subfile localfile i t.sub.count) = none

/-- The event of a request. -/
def Event.isLack : Event → Bool
  | .lack _ => true
  | _ => false

/-- A file of two blocks is uploaded twice, and both times the second block is lost. The last step, which
processes the first block of the second upload, is left out. -/
def twoGenerations : List SmAct :=
  [.began (txt "h") (txt "f")] ++
  SmAct.post 0 (txt "h") (txt "f") 1 2 1 [7] ++ [.finBegin, .finIter .ok, .finIter .ok] ++
  [.began (txt "h") (txt "f")] ++
  SmAct.post 1 (txt "h") (txt "f") 1 2 1 [7] ++ [.finBegin]

/-- The state after the run. -/
def secondUpload : Sm := run (smStep .sample) (Sm.init 4) twoGenerations

end VfsOss
