import VfsOss.Sm.Client

/-!
# Merging finished blocks

`vfs_http_sub.c`: the pass over `TASK_FIN`. A finished block goes into the hash table; when every
block of its file is there the blocks are concatenated. The first finished block of a file asks for
the blocks that have not arrived.
-/

namespace VfsOss

open CLib

/-- What the system calls of one merge return. For block `idx`: whether its file opens, how many bytes
the `k`-th `read` returns (`none` for an error), how many the `k`-th `write` takes, and whether
`unlink` succeeds. -/
structure MergeIo where
  openOut : Bool
  openIn : Int → Bool
  read : Int → Nat → Option Nat
  write : Int → Nat → Option Nat
  unlink : Int → Bool
  connect : Bool

/-- Every call on a file succeeds; a `read` may return less than the buffer holds. -/
structure MergeIo.Succeeds (io : MergeIo) : Prop where
  openOut : io.openOut = true
  openIn : ∀ idx, io.openIn idx = true
  read : ∀ idx k, (io.read idx k).isSome
  write : ∀ idx k, ∃ n, io.write idx k = some n ∧ 1024000 ≤ n
  unlink : ∀ idx, io.unlink idx = true

/-- Every call succeeds in full. -/
def MergeIo.ok : MergeIo :=
  ⟨true, fun _ => true, fun _ _ => some 1024000, fun _ _ => some 1024000, fun _ => true, true⟩

theorem MergeIo.ok_succeeds : MergeIo.ok.Succeeds :=
  ⟨rfl, fun _ => rfl, fun _ _ => rfl, fun _ _ => ⟨1024000, rfl, le_refl _⟩, fun _ => rfl⟩

/-- `create_header` of the merging plugin. -/
def SmHttp.createHeader (filename filemd5 : Bytes) (type : Int) : Bytes :=
  txt "GET /us_oss HTTP/1.1\r\n" ++ (txt "filename: " ++ filename ++ txt "\r\n") ++
  sbuf (txt "type: " ++ fmtInt type ++ txt "\r\n") ++ txt "datalen: 2\r\n" ++
  sbuf (txt "start: 0\r\n") ++ sbuf (txt "end: 0\r\n") ++
  sbuf (txt "filemd5: " ++ filemd5 ++ txt "\r\n\r\n")

/-- The loop that copies a block, from the bytes of its file that have not been read: the bytes written
and whether an error ended it. A `read` before the end of a file returns at least one byte, so the
length bounds the rounds. -/
def copyLoop (read write : Nat → Option Nat) : Nat → Nat → Bytes → Bytes × Bool
  | 0, _, _ => ([], false)
  | n + 1, k, rest =>
    if rest = [] then ([], false)
    else
      match read k with
      | none => ([], true)
      | some m =>
        let buf := rest.take (max 1 (min m 1024000))
        match write k with
        | none => ([], true)
        | some w =>
          if w < buf.length then (buf.take w, true)
          else
            let r := copyLoop read write n (k + 1) (rest.drop buf.length)
            (buf ++ r.1, r.2)

/-- One round of the loop of `do_merge_file`, with the node of the output file, and whether the loop
goes on. The output file was emptied when it was opened and only this loop writes to it, so every
`write` is at its end. -/
def mergeOne (io : MergeIo) (hostname filename : Bytes) (count : Int) (ofd : Nat) (idx : Int)
    (s : Sm) : Sm × Bool :=
  match getTaskFromAlltask s.store filename idx count with
  | none => (s, false)
  | some (task, st) =>
    if task.base.expire ≠ 0 then
      ({ s with store := vfsSetTask st task .home }.note (.skip hostname filename task), true)
    else
      match if io.openIn idx then s.fs.content task.base.tmpfile else none with
      | none => (({ s with store := st }.note (.ioErr task.base.tmpfile)).note (.leak task), false)
      | some c =>
        let r := copyLoop (io.read idx) (io.write idx) c.length 0 c
        let fs := s.fs.pwrite ofd (s.fs.node ofd).length r.1
        let fs := if io.unlink idx then fs.unlink task.base.tmpfile else fs
        let s := { s with store := vfsSetTask st task .home, fs := fs }.note
          (.concat hostname filename task)
        if r.2 ∨ ¬ io.unlink idx then (s.note (.ioErr task.base.tmpfile), false) else (s, true)

/-- The loop of `do_merge_file` over the blocks. -/
def mergeLoop (io : MergeIo) (hostname filename : Bytes) (count : Int) (ofd : Nat) :
    List Int → Sm → Sm
  | [], s => s
  | idx :: rest, s =>
    let r := mergeOne io hostname filename count ofd idx s
    if r.2 then mergeLoop io hostname filename count ofd rest r.1 else r.1

/-- `do_merge_file`. -/
def doMergeFile (cfg : Cfg) (io : MergeIo) (hostname srcip filename : Bytes) (count : Int)
    (filemd5 : Bytes) (s : Sm) : Sm :=
  let outfile := getLocaldir cfg hostname filename
  if io.openOut then
    let r := s.fs.creat outfile
    let s := { s with fs := r.2 }.note (.merge hostname filename count)
    let s := mergeLoop io hostname filename count r.1 (idxs count) s
    let md5view := ((s.fs.content outfile).map cfg.md5view).getD []
    let type := if md5view = filemd5 then 5 else 6
    s.note (.report srcip (SmHttp.createHeader filename filemd5 type) io.connect)
  else s.note (.ioErr outfile)

/-- `check_task_allsub_isok(...) == 0`: every block of the file is in the table and not expired. -/
def checkTaskAllsubIsok (s : TaskStore) (filename : Bytes) (count : Int) : Bool :=
  (idxs count).all fun idx => checkTaskFromAlltask s filename idx count 0

/-- One round of `clear_alltask_timeout`. The host is that of the block being given up. -/
def clearOne (hostname filename : Bytes) (count : Int) (s : Sm) (idx : Int) : Sm :=
  match getTaskFromAlltask s.store filename idx count with
  | none => s
  | some (task, st) => { s with store := vfsSetTask st task .home }.note (.giveUp hostname task)

/-- `clear_alltask_timeout`. -/
def clearAlltaskTimeout (hostname filename : Bytes) (count : Int) (s : Sm) : Sm :=
  (idxs count).foldl (clearOne hostname filename count) s

/-- The record `check_lack_task` makes to ask for block `i`: a copy of the finished block's. -/
def lackRecord (task task0 : Tasklist) (i : Int) : Tasklist :=
  { task0 with
    base := task.base
    sub := { TaskSub.zero with idx := i, count := task.sub.count }
    got := [] }

/-- The end of a round of `check_lack_task`, with the record it got from `TASK_HOME`: the block that is
in the table under this key is marked expired and the request goes to `TASK_WAIT`. -/
def lackAsk (task : Tasklist) (i : Int) (task0 : Tasklist) (st : TaskStore) (s : Sm) : Sm :=
  let marked := findTask st task.base.filename i task.sub.count
  let st := setTaskFromAlltask st task.base.filename i task.sub.count 1
  { s with
    store := vfsSetTask st (lackRecord task task0 i) .wait
    log := s.log ++ (marked.toList.map (.expire task.base.hostname) ++ [.lack (lackRecord task task0 i)]) }

/-- One round of the loop of `check_lack_task`. -/
def lackOne (cfg : Cfg) (task : Tasklist) (localfile : Bytes) (s : Sm) (i : Int) : Sm :=
  match s.fs.content (subfile localfile i task.sub.count) with
  | some _ => s
  | none =>
    match vfsGetTask cfg.mallocOk s.store .home with
    | (.ok task0, st) => lackAsk task i task0 st s
    | (_, st) => { s with store := st }

/-- The marker made through the shell; the command line is cut at 255 bytes. -/
def touchMarker (cfg : Cfg) (localfile : Bytes) (fs : FileSystem Bytes) : FileSystem Bytes :=
  (cfg.shTouch (snprintf 256 (txt "touch " ++ checkfile localfile))).foldl FileSystem.touch fs

/-- `check_lack_task`. -/
def checkLackTask (cfg : Cfg) (task : Tasklist) (s : Sm) : Sm :=
  let localfile := getLocaldir cfg task.base.hostname task.base.filename
  match s.fs.content (checkfile localfile) with
  | some _ => s
  | none =>
    let s := { s with fs := touchMarker cfg localfile s.fs }
    (idxs task.sub.count).foldl (lackOne cfg task localfile) s

/-- What `check_fin_task` does with a record it has taken from `TASK_FIN`. -/
def finTask (cfg : Cfg) (io : MergeIo) (task : Tasklist) (s : Sm) : Sm :=
  if task.base.overstatus ≠ .ok then
    if cfg.retry ≠ 0 ∧ task.base.retry < cfg.retry then
      let base := { task.base with retry := (task.base.retry + 1) % 256, overstatus := .unknown }
      { s with store := vfsSetTask s.store { task with base := base } .wait }
    else
      (clearAlltaskTimeout task.base.hostname task.base.filename task.sub.count s).note (.leak task)
  else
    let s := checkLackTask cfg task s
    let s := { s with store := addTaskToAlltask s.store task }
    if checkTaskAllsubIsok s.store task.base.filename task.sub.count then
      doMergeFile cfg io task.base.hostname task.base.srcip task.base.filename task.sub.count
        task.base.filemd5 s
    else s

/-- `check_fin_task` called. -/
def finBegin (s : Sm) : Sm := if s.once = none then { s with once := some 0 } else s

/-- One round of the loop of `check_fin_task`. The record taken beyond the 128th is in no list when the
function returns. -/
def finIter (cfg : Cfg) (io : MergeIo) (s : Sm) : Sm :=
  match s.once with
  | none => s
  | some once =>
    match vfsGetTask cfg.mallocOk s.store .fin with
    | (.ok task, st) =>
      if once + 1 > 128 then { s with store := st, once := none }.note (.leak task)
      else finTask cfg io task ({ s with store := st, once := some (once + 1) }.note (.fin task))
    | (_, st) => { s with store := st, once := none }

/-- The rounds of `check_fin_task` until it returns. -/
def finLoop (cfg : Cfg) (io : Nat → MergeIo) : Nat → Sm → Sm
  | 0, s => s
  | n + 1, s =>
    match s.once with
    | none => s
    | some once => finLoop cfg io n (finIter cfg (io once) s)

/-- `check_fin_task`. It returns in its 129th round at the latest. -/
def checkFinTask (cfg : Cfg) (io : Nat → MergeIo) (s : Sm) : Sm :=
  finLoop cfg io 129 { s with once := some 0 }

/-! ## The rounds of a pass -/

/-- A record with the status `vfs_get_task` gives it. -/
def Tasklist.taken (t : Tasklist) : Tasklist := { t with status := .unknown }

/-- The state after the first record of `TASK_FIN` has been taken. -/
def Sm.popFin (s : Sm) : Sm := { s with store := (vfsGetTask (fun _ => true) s.store .fin).2 }

/-- The state of a pass after `j` rounds. -/
def rounds (cfg : Cfg) (ios : Nat → MergeIo) (s : Sm) (j : Nat) : Sm :=
  finLoop cfg ios j { s with once := some 0 }

/-- The state of a pass in which its round `j` has taken the record `t`. -/
def roundStart (cfg : Cfg) (ios : Nat → MergeIo) (s : Sm) (j : Nat) (t : Tasklist) : Sm :=
  { (rounds cfg ios s j).popFin with once := some (j + 1) }.note (.fin t)

end VfsOss
