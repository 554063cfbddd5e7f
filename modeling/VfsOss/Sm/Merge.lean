import VfsOss.Sm.Conservation
import VfsOss.Sm.Machine
import VfsOss.Sm.Reassembly

/-!
# One merge by itself

`do_merge_file` and `clear_alltask_timeout`, whatever the hash table holds and whichever calls fail:
which blocks are concatenated, where the records that are taken from the table go, and what is left of
the files.
-/

namespace VfsOss

open CLib

/-! ## The blocks -/

/-- A merge has concatenated, for each index in order, the file of one record with that key that is not
expired. -/
def MergesEveryBlock (cfg : Cfg) (hostname filename : Bytes) (count : Int) (s s' : Sm) : Prop :=
  ∃ (record : Int → Tasklist) (bytes : Int → Bytes) (report : Event),
    (∀ idx ∈ idxs count, InAlltask s.store (record idx) ∧
      sameKey filename idx count (record idx) = true ∧ (record idx).base.expire = 0 ∧
      ((record idx).base.tmpfile ≠ getLocaldir cfg hostname filename →
        s.fs.content (record idx).base.tmpfile = some (bytes idx))) ∧
    s.since s' = .merge hostname filename count ::
      ((idxs count).map fun idx => .concat hostname filename (record idx)) ++ [report] ∧
    s'.fs.node (s.fs.creat (getLocaldir cfg hostname filename)).1 = (idxs count).flatMap bytes

/-- Under every key the record that is first in its chain is not expired. -/
def FirstsUnexpired (filename : Bytes) (count : Int) (st : TaskStore) : Prop :=
  ∀ idx ∈ idxs count, ∀ t, findTask st filename idx count = some t → t.base.expire = 0

/-- A state in which a file with one block is about to be merged. -/
def oneBlock : Sm :=
  beforeMerge .sample ((Upload.sample (txt "f") 1).record .sample (1, 0)).taken
    ((Upload.sample (txt "f") 1).received .sample [1]).popFin

/-! ## The records -/

/-- A record with the address is in a list. -/
def Listed (st : TaskStore) (a : Nat) : Prop :=
  (∃ q, InQueue st q a) ∨ ∃ t, InAlltask st t ∧ t.addr = a

/-- Every record that has been removed from the hash table is in `TASK_HOME`, and none is in no list. -/
structure KeepsRecords (st st' : TaskStore) : Prop where
  table : ∀ t, InAlltask st t → InAlltask st' t ∨ InQueue st' .home t.addr
  listed : ∀ a, Listed st a → Listed st' a

/-- The state in which the loop of a merge starts. -/
def mergeBegin (cfg : Cfg) (hostname filename : Bytes) (count : Int) (s : Sm) : Sm :=
  { s with fs := (s.fs.creat (getLocaldir cfg hostname filename)).2 }.note
    (.merge hostname filename count)

/-- Every round the loop of a merge makes meets a condition on the state before it. -/
def MergeRounds (io : MergeIo) (hostname filename : Bytes) (count : Int) (ofd : Nat)
    (ok : Int → Sm → Prop) : List Int → Sm → Prop
  | [], _ => True
  | idx :: rest, s =>
    ok idx s ∧ ((mergeOne io hostname filename count ofd idx s).2 = true →
      MergeRounds io hostname filename count ofd ok rest
        (mergeOne io hostname filename count ofd idx s).1)

/-- The file of the block a round is about to copy can be opened. -/
def OpensBlock (io : MergeIo) (filename : Bytes) (count idx : Int) (s : Sm) : Prop :=
  ∀ t, findTask s.store filename idx count = some t → t.base.expire = 0 →
    io.openIn idx = true ∧ s.fs.content t.base.tmpfile ≠ none

/-- No `open` of a block's file fails in a merge. -/
def OpensBlocks (cfg : Cfg) (io : MergeIo) (hostname filename : Bytes) (count : Int) (s : Sm) : Prop :=
  io.openOut = true → MergeRounds io hostname filename count
    (s.fs.creat (getLocaldir cfg hostname filename)).1 (OpensBlock io filename count) (idxs count)
    (mergeBegin cfg hostname filename count s)

/-- A finished record and the blocks of its file have been given up: they are all in `TASK_HOME`, and no
record is in no list. -/
structure ReleasesAll (st st' : TaskStore) (task : Tasklist) : Prop where
  self : InQueue st' .home task.addr
  blocks : ∀ t, InAlltask st t → t.base.filename = task.base.filename → t.sub.count = task.sub.count →
    InQueue st' .home t.addr
  listed : ∀ a, Listed st a → Listed st' a

/-- A configuration without retries. -/
def Cfg.noRetry : Cfg := { Cfg.sample with retry := 0 }

/-- A state in which a block is about to be given up: its connection was closed before all its bytes had
come. -/
def abandoned : Sm :=
  run (smStep .noRetry) (Sm.init 8)
    (SmAct.post 3 (txt "a") (txt "f") 1 2 5 [] ++ [.close 3, .finBegin])

/-! ## The files -/

/-- The files once the output file has been opened, if it can be. -/
def openedFiles (cfg : Cfg) (io : MergeIo) (hostname filename : Bytes) (s : Sm) : FileSystem Bytes :=
  if io.openOut then (s.fs.creat (getLocaldir cfg hostname filename)).2 else s.fs

/-- The output file has the right digest. -/
def MergedWell (cfg : Cfg) (hostname filename filemd5 : Bytes) (s : Sm) : Prop :=
  ((s.fs.content (getLocaldir cfg hostname filename)).map cfg.md5view).getD [] = filemd5

/-- What the output file held before it still holds, and the files of the blocks are still there. -/
structure KeepsFiles (cfg : Cfg) (io : MergeIo) (hostname filename : Bytes) (count : Int) (s s' : Sm) :
    Prop where
  output : ∀ c, s.fs.content (getLocaldir cfg hostname filename) = some c →
    s'.fs.content (getLocaldir cfg hostname filename) = some c
  blocks : ∀ idx ∈ idxs count, ∀ t, InAlltask s.store t → sameKey filename idx count t = true →
    (openedFiles cfg io hostname filename s).content t.base.tmpfile ≠ none →
    s'.fs.content t.base.tmpfile ≠ none

/-- The first block a merge copies, with the bytes of its file. -/
def firstCopied (io : MergeIo) (filename : Bytes) (count : Int) (st : TaskStore)
    (fs : FileSystem Bytes) : List Int → Option (Int × Bytes)
  | [] => none
  | idx :: rest =>
    match findTask st filename idx count with
    | none => none
    | some task =>
      if task.base.expire ≠ 0 then firstCopied io filename count st fs rest
      else if io.openIn idx then (fs.content task.base.tmpfile).map fun c => (idx, c)
      else none

/-- When a merge that ends badly has done no harm: the output file could not be opened; or no block was
copied and the output file, if there was one, was empty; or the file of the first block copied could not
be removed, and what was written of it is what the output file held, if there was one. -/
def HarmlessFailure (cfg : Cfg) (io : MergeIo) (hostname filename : Bytes) (count : Int) (s : Sm) :
    Prop :=
  io.openOut = false ∨
  match firstCopied io filename count s.store (openedFiles cfg io hostname filename s) (idxs count) with
  | none => ∀ c, s.fs.content (getLocaldir cfg hostname filename) = some c → c = []
  | some (idx, d) => io.unlink idx = false ∧
    ∀ c, s.fs.content (getLocaldir cfg hostname filename) = some c →
      c = (copyLoop (io.read idx) (io.write idx) d.length 0 d).1

end VfsOss
