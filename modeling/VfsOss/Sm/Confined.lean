import VfsOss.CLib.Path
import VfsOss.CLib.Guarded
import VfsOss.Sm.Arrays

/-!
# Where the files of an upload lie

Beside its files an upload makes directories: `createdir` makes those on the way to the temporary file. The
marker of `check_lack_task` is made by a shell, which reads the path as a part of its command line. This file
says which files and directories a process with a data directory should change, and which headers keep it to
them. Places are found without symbolic links.
-/

namespace VfsOss

open CLib

/-- The places where there is a directory. -/
abbrev Dirs := List Bytes → Bool

/-- The texts in front of the slashes of a path, from its second byte on. -/
def leading (path : Bytes) : List Bytes :=
  ((List.range path.length).filter fun k => 1 ≤ k ∧ path[k]? = some 47).map fun k => path.take k

section

variable (cwd : List Bytes)

/-- The loop of `createdir` over these texts: whether it comes to the end, and the directories it leaves.
`mkdir` says which calls succeed; where a file stands in the way they do not. -/
def createdirLoop (mkdir : Bytes → Bool) : List Bytes → Dirs → Bool × Dirs
  | [], dirs => (true, dirs)
  | file :: rest, dirs =>
    if dirs (locate cwd file) then createdirLoop mkdir rest dirs
    else if mkdir file then createdirLoop mkdir rest (Function.update dirs (locate cwd file) true)
    else (false, dirs)

/-- `createdir`. -/
def createdir (mkdir : Bytes → Bool) (dirs : Dirs) (file : Bytes) : Bool × Dirs :=
  createdirLoop cwd mkdir (leading file) dirs

end

/-- The process and the directories it works in. -/
structure Tree where
  sm : Sm
  dirs : Dirs

/-- The record that `check_req` makes in a step. -/
def madeBy (s s' : Sm) : Option Tasklist :=
  match s.since s' with
  | .post t :: _ => some t
  | _ => none

section

variable (cfg : Cfg) (cwd : List Bytes)

/-- A step of the process that leads to `s'`, with the directories it makes: `open_tmp_localfile_4_write`, which
is called for every record that `check_req` makes, begins with `createdir`. Whether the file is opened then is a
matter of the step, also where a directory could not be made. -/
def Tree.enter (w : Tree) (mkdir : Bytes → Bool) (s' : Sm) : Tree where
  sm := s'
  dirs :=
    match madeBy w.sm s' with
    | none => w.dirs
    | some t => (createdir cwd mkdir w.dirs (prepared cfg t).base.tmpfile).2

/-- A step, with what `mkdir` returns in it. -/
def treeStep (w : Tree) (a : SmAct × (Bytes → Bool)) : Tree := w.enter cfg cwd a.2 (smStep cfg w.sm a.1)

/-- A step of the process with its arrays. -/
def treeStepInto (w : Tree) (a : SmAct × (Bytes → Bool)) : Except MemFault Tree := do
  let s' ← smStepInto cfg w.sm a.1
  .ok (w.enter cfg cwd a.2 s')

/-- The process at its start, with files and directories that are there. -/
def Tree.init (n : Nat) (fs : FileSystem Bytes) (dirs : Dirs) : Tree := ⟨{ Sm.init n with fs := fs }, dirs⟩

/-- A path leads to a place below the data directory, or to a directory: no file is made, emptied or removed at
such a place, and a `touch` of it only sets its times. -/
def Harmless (dirs : Dirs) (path : Bytes) : Prop :=
  dirs (locate cwd path) = true ∨ StrictlyBelow (locate cwd cfg.dstDatadir) (locate cwd path)

instance (dirs : Dirs) (path : Bytes) : Decidable (Harmless cfg cwd dirs path) :=
  inferInstanceAs (Decidable (_ ∨ _))

/-- What is expected of a step from `w` to `w'`: a file whose name is made or removed or whose bytes change lies
below the data directory, and so does a directory that is made. -/
structure Tree.KeepsBelow (w w' : Tree) : Prop where
  files : ∀ path, w'.sm.fs.names path ≠ w.sm.fs.names path ∨ w'.sm.fs.content path ≠ w.sm.fs.content path →
    Harmless cfg cwd w.dirs path
  dirs : ∀ place, w'.dirs place ≠ w.dirs place → StrictlyBelow (locate cwd cfg.dstDatadir) place

/-- What is expected of a run: it comes to its end, and every step is as expected. -/
def Confined (w : Tree) (as : List (SmAct × (Bytes → Bool))) : Prop :=
  ∀ as' a, as' ++ [a] <+: as → ∃ w' w'', as'.foldlM (treeStepInto cfg cwd) w = .ok w' ∧
    treeStepInto cfg cwd w' a = .ok w'' ∧ w'.KeepsBelow cfg cwd w''

end

/-! ## The shell -/

/-- The bytes that mean something to the shell, or may do so, outside of quotes: the end of a line and
``! " # $ & ' ( ) * ; < > ? [ \ ] ^ ` { | } ~``. -/
def shellSpecial : Bytes :=
  [10, 33, 34, 35, 36, 38, 39, 40, 41, 42, 59, 60, 62, 63, 91, 92, 93, 94, 96, 123, 124, 125, 126]

/-- What the shell takes a command line without such bytes apart into: what stands between the blanks. -/
def words (line : Bytes) : List Bytes := (line.splitOnP fun b => b = 32 ∨ b = 9).filter (· ≠ [])

/-- The shell behind `system`, as far as it is known: `touch` makes files of the names that stand behind it, when
nothing there is special to the shell. -/
def TouchesWords (sh : Bytes → List Bytes) : Prop :=
  ∀ args, (∀ b ∈ args, b ∉ shellSpecial) → ∀ path ∈ sh (txt "touch " ++ args), path ∈ words args

/-- What stands behind `touch ` in the command line of `check_lack_task`, which is cut at 255 bytes. -/
def markerArgs (localfile : Bytes) : Bytes := (checkfile localfile).take 249

/-! ## The headers -/

/-- The names that come of a header are harmless: the directories on the way to the temporary file, the temporary
file, the merged file, and what the shell takes for the names of markers. -/
structure NamesHarmless (cfg : Cfg) (cwd : List Bytes) (dirs : Dirs) (localfile : Bytes) (idx count : Int) : Prop where
  onTheWay : ∀ dir ∈ leading (subfile localfile idx count), Harmless cfg cwd dirs dir
  tmpfile : Harmless cfg cwd dirs (subfile localfile idx count)
  outfile : Harmless cfg cwd dirs localfile
  plain : ∀ b ∈ markerArgs localfile, b ∉ shellSpecial
  markers : ∀ path ∈ words (markerArgs localfile), Harmless cfg cwd dirs path

instance (cfg : Cfg) (cwd : List Bytes) (dirs : Dirs) (localfile : Bytes) (idx count : Int) :
    Decidable (NamesHarmless cfg cwd dirs localfile idx count) :=
  letI : Decidable (∀ b ∈ markerArgs localfile, b ∉ shellSpecial) := List.decidableBAll _ _
  decidable_of_iff ((∀ dir ∈ leading (subfile localfile idx count), Harmless cfg cwd dirs dir) ∧
      Harmless cfg cwd dirs (subfile localfile idx count) ∧ Harmless cfg cwd dirs localfile ∧
      (∀ b ∈ markerArgs localfile, b ∉ shellSpecial) ∧
      ∀ path ∈ words (markerArgs localfile), Harmless cfg cwd dirs path)
    ⟨fun ⟨h1, h2, h3, h4, h5⟩ => ⟨h1, h2, h3, h4, h5⟩, fun ⟨h1, h2, h3, h4, h5⟩ => ⟨h1, h2, h3, h4, h5⟩⟩

/-- A component of a path that the shell leaves in one piece. -/
structure PlainName (name : Bytes) : Prop where
  isName : IsName name
  noSlash : (47 : UInt8) ∉ name
  plain : ∀ b ∈ name, b ∉ 32 :: 9 :: shellSpecial

/-- The data directory is there, with those that lead to it, and the shell leaves its name in one piece. -/
structure DatadirThere (cfg : Cfg) (cwd : List Bytes) (dirs : Dirs) : Prop where
  nonempty : cfg.dstDatadir ≠ []
  leading : ∀ dir ∈ leading cfg.dstDatadir, dirs (locate cwd dir) = true
  there : dirs (locate cwd cfg.dstDatadir) = true
  plain : ∀ b ∈ cfg.dstDatadir, b ∉ 32 :: 9 :: shellSpecial

/-- The arrays of a step hold, and a header that starts a block in it has harmless names. -/
def StepConfined (cfg : Cfg) (cwd : List Bytes) (w : Tree) (a : SmAct × (Bytes → Bool)) : Prop :=
  ArraysHold cfg w.sm a.1 ∧
  match a.1 with
  | .recv fd chunk io => ∀ l, Requests cfg w.sm fd chunk io l →
      NamesHarmless cfg cwd w.dirs (l.localdir cfg) (toInt32 (atol l.idx)) (toInt32 (atol l.count))
  | _ => True

/-- A shell that takes every command line apart at its blanks. -/
def Cfg.touching : Cfg := { Cfg.sample with shTouch := fun line => words (line.drop 6) }

/-- The data directory of `Cfg.sample`, with the directories above it, and one beside them. -/
def sampleDirs : Dirs := fun place =>
  place ∈ [[], [txt "data"], [txt "vfs", txt "data"], [txt "etc"]]

/-- The upload of a file of one byte, from its start to its merge. Every `mkdir` succeeds. -/
def wholeUpload (hostname filename : Bytes) : List (SmAct × (Bytes → Bool)) :=
  (SmAct.post 3 hostname filename 1 1 1 [65] ++ [SmAct.finBegin, SmAct.finIter .ok]).map fun a => (a, fun _ => true)

end VfsOss
