import VfsOss.Sm.Http
import VfsOss.Task.Placement

/-!
# One file among the others

An upload is a file of one host cut into blocks. This file says which records are its blocks, which
records have nothing to do with it, and how finished blocks arrive between the passes of
`check_fin_task`.
-/

namespace VfsOss

open CLib

/-- A file that is uploaded in blocks. -/
structure Upload where
  hostname : Bytes
  filename : Bytes
  count : Int
  block : Int → Bytes

namespace Upload

variable (u : Upload) (cfg : Cfg)

/-- The merged file. -/
def outfile : Bytes := getLocaldir cfg u.hostname u.filename

/-- The file a block is received into. -/
def tmpfile (idx : Int) : Bytes := subfile (u.outfile cfg) idx u.count

/-- The name of one of the upload's files. -/
def Owns (path : Bytes) : Prop := path = u.outfile cfg ∨ ∃ i ∈ idxs u.count, path = u.tmpfile cfg i

/-- The upload's files have different names: the 255 bytes that are kept of a name have room for what
tells the blocks apart. -/
def NamesDiffer : Prop :=
  (∀ i ∈ idxs u.count, u.tmpfile cfg i ≠ u.outfile cfg) ∧
  ∀ i ∈ idxs u.count, ∀ j ∈ idxs u.count, u.tmpfile cfg i = u.tmpfile cfg j → i = j

/-- The whole file. -/
def bytes : Bytes := (idxs u.count).flatMap u.block

end Upload

/-- A finished block of the upload. -/
structure BlockOf (cfg : Cfg) (u : Upload) (t : Tasklist) : Prop where
  filename : t.base.filename = u.filename
  hostname : t.base.hostname = u.hostname
  count : t.sub.count = u.count
  idx : t.sub.idx ∈ idxs u.count
  done : t.base.overstatus = .ok
  expire : t.base.expire = 0
  tmpfile : t.base.tmpfile = u.tmpfile cfg t.sub.idx

/-- A record of another file, with other paths. -/
structure Foreign (cfg : Cfg) (u : Upload) (t : Tasklist) : Prop where
  filename : t.base.filename ≠ u.filename
  tmpfile : ¬ u.Owns cfg t.base.tmpfile
  outfile : ¬ u.Owns cfg (getLocaldir cfg t.base.hostname t.base.filename)

/-- A call of `do_merge_file` for the file name. -/
def Event.mergesFile (filename : Bytes) : Event → Bool
  | .merge _ f _ => f = filename
  | _ => false

/-- The calls of `do_merge_file` for the upload, in a history. -/
def Upload.merges (u : Upload) (log : List Event) : List Event :=
  log.filter (Event.mergesFile u.filename)

/-- What may happen between the end of a pass, in state `s`, and the start of the next, in state `p`:
at most 128 finished blocks are waiting; the upload's among them have their bytes in their files, the
others have nothing to do with it; and apart from that the upload's files and the hash table are
untouched. -/
structure Arrival (cfg : Cfg) (u : Upload) (s p : Sm) : Prop where
  placed : WellPlaced p.store
  alltask : p.store.alltask = s.store.alltask
  waiting : (p.store.vfstask .fin).length ≤ 128
  mine : ∀ t ∈ p.store.vfstask .fin, t.base.filename = u.filename →
    BlockOf cfg u t ∧ p.fs.content t.base.tmpfile = some (u.block t.sub.idx)
  other : ∀ t ∈ p.store.vfstask .fin, t.base.filename ≠ u.filename → Foreign cfg u t
  files : ∀ path, u.Owns cfg path →
    (∀ t ∈ p.store.vfstask .fin, t.base.filename = u.filename → path ≠ t.base.tmpfile) →
    p.fs.content path = s.fs.content path
  merges : u.merges p.log = u.merges s.log

/-- A pass: the state it starts in, and what the system calls of its rounds return. -/
structure Pass where
  start : Sm
  io : Nat → MergeIo

/-- The records waiting when a pass starts. -/
def Pass.queue (p : Pass) : List Tasklist := p.start.store.vfstask .fin

/-- The state of a pass after `j` rounds. -/
def Pass.after (cfg : Cfg) (p : Pass) (j : Nat) : Sm := finLoop cfg p.io j { p.start with once := some 0 }

/-- Successive passes in which every file operation succeeds. -/
def Passes (cfg : Cfg) (u : Upload) : Sm → List Pass → Prop
  | _, [] => True
  | s, p :: ps => Arrival cfg u s p.start ∧ (∀ k, (p.io k).Succeeds) ∧
      Passes cfg u (checkFinTask cfg p.io p.start) ps

/-- The state after the last pass. -/
def afterPasses (cfg : Cfg) : Sm → List Pass → Sm
  | s, [] => s
  | _, p :: ps => afterPasses cfg (checkFinTask cfg p.io p.start) ps

/-- The upload's blocks in a queue. -/
def Upload.among (u : Upload) (q : List Tasklist) : List Tasklist :=
  q.filter fun t => t.base.filename = u.filename

/-- The upload's blocks in the order in which the passes process them. -/
def Upload.arrivals (u : Upload) (ps : List Pass) : List Tasklist :=
  ps.flatMap fun p => u.among p.queue

/-- The upload has been merged: its output is the whole file, its temporary files are gone, its
records are in `TASK_HOME` and none is in the hash table. -/
structure Merged (cfg : Cfg) (u : Upload) (records : List Tasklist) (s : Sm) : Prop where
  output : s.fs.content (u.outfile cfg) = some u.bytes
  unlinked : ∀ i ∈ idxs u.count, s.fs.content (u.tmpfile cfg i) = none
  home : ∀ t ∈ records, ∃ r ∈ s.store.vfstask .home, r.addr = t.addr
  gone : ∀ t, InAlltask s.store t → t.base.filename ≠ u.filename

/-- The finished record of a block. -/
def Upload.record (u : Upload) (cfg : Cfg) (p : Int × Nat) : Tasklist where
  addr := p.2
  base := { TaskBase.zero with
    filename := u.filename
    hostname := u.hostname
    tmpfile := u.tmpfile cfg p.1
    overstatus := .ok }
  sub := { TaskSub.zero with idx := p.1, count := u.count }
  status := .fin
  got := u.block p.1

/-- A state in which the given blocks of the upload have been received and nothing else has happened. -/
def Upload.received (u : Upload) (cfg : Cfg) (l : List Int) : Sm where
  store :=
    { vfstask := fun st => if st = .fin then l.zipIdx.map (u.record cfg) else []
      taskcount := fun st => if st = .fin then l.length else 0
      alltask := fun _ => []
      next := l.length }
  fs := l.foldl (fun fs i => fs.save (u.tmpfile cfg i) (u.block i)) FileSystem.empty
  acon _ := Conn.unused
  once := none
  log := []

/-- An upload of one host with blocks of one byte. -/
def Upload.sample (filename : Bytes) (count : Int) : Upload :=
  ⟨txt "h", filename, count, fun idx => [UInt8.ofNat idx.toNat]⟩

end VfsOss
