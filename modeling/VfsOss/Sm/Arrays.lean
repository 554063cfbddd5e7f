import VfsOss.CLib.Guarded
import VfsOss.Sm.Descriptor
import VfsOss.Sm.PathBuffers
import VfsOss.Sm.Query

/-!
# The arrays of the receiving process

`get_localdir` writes a path into a `char[256]` of its caller, and `check_req` has the reply to a query put
together in a `char[10240]`. A text that does not fit runs over the stack, and nothing is known of the process
from there on. These are the functions on the way to the arrays, with the overrun as a fault.
-/

namespace VfsOss

open CLib

/-- What a function returns that has `get_localdir` write a path into its `char outfile[256]` first. -/
def afterLocaldir {α : Type} (cfg : Cfg) (hostname filename : Bytes) (x : α) : Except MemFault α := do
  let _ ← getLocaldirInto cfg hostname filename outfile
  .ok x

/-- `char taskbuf[10240] = {0x0}`. -/
def taskbuf : Bytes := List.replicate 10240 0

/-! ## The upload -/

/-- `open_tmp_localfile_4_write`. -/
def openTmpLocalfile4WriteInto (cfg : Cfg) (opens : Bool) (fs : FileSystem Bytes) (base : TaskBase)
    (sub : TaskSub) : Except MemFault (TaskBase × Option Nat × FileSystem Bytes) :=
  afterLocaldir cfg base.hostname base.filename (openTmpLocalfile4Write cfg opens fs base sub)

/-- `do_prepare_recvfile`. -/
def doPrepareRecvfileInto (cfg : Cfg) (io : RecvIo) (fd : Nat) (peer : Peer) (task : Tasklist)
    (fsize : Int) (s : Sm) : Except MemFault (RecvRet × Sm) :=
  if peer.sockStat ≠ .recvHeadIng then
    .ok (.close, s.setPeer fd { peer with recvtask := some task })
  else do
    let base := { task.base with fsize := fsize, getlen := 0 }
    let r ← openTmpLocalfile4WriteInto cfg io.opens s.fs base task.sub
    match r.2.1 with
    | none =>
      let task := { task with base := { r.1 with overstatus := .eOpenDstfile } }
      .ok (.close, { s with store := vfsSetTask s.store task .fin, fs := r.2.2 }.setPeer fd
        { peer with localInFd := none, recvtask := some task })
    | some node =>
      .ok (.addEpollin, { s with fs := r.2.2 }.setPeer fd
        { peer with
          localInFd := some (node, 0)
          sockStat := .recvBodyIng
          recvtask := some { task with base := r.1 } })

/-- The part of `check_req` after the header has been parsed. `locked` says whether `vfs_get_task` gets the
mutex of `TASK_HOME`; the others are taken to be acquired. -/
def startTaskInto (cfg : Cfg) (locked : Bool) (io : RecvIo) (fd : Nat) (peer : Peer) (clen : Nat) (s : Sm) :
    Except MemFault (RecvRet × Sm) :=
  let header := peer.header
  if header.type = 250 then do
    let r := getTaskUnok cfg s.store header.hostname
    let _ ← sprintf taskbuf r.1
    let s := { s with store := r.2.2 }.setPeer fd peer
    .ok (.send, s.setConn fd { s.acon fd with
      sendBuff := mybuffSetdata cfg.initBuffSize io.mem (s.acon fd).sendBuff r.1 })
  else
    match vfsGetTaskLocked locked cfg.mallocOk s.store .home with
    | (.ok task, st) => do
      let conv := convertHttpheader2Task header { TaskBase.zero with usrcip := peer.ip } .zero
      let task := { task with base := conv.1, sub := conv.2, got := [] }
      let s := { s with store := st }.note (.post task)
      let r ← doPrepareRecvfileInto cfg io fd peer task (toInt64 (header.end_ - header.start + 1)) s
      .ok (r.1, r.2.setConn fd { r.2.acon fd with
        recvBuff := mybuffSkipdata (r.2.acon fd).recvBuff clen })
    | (_, st) => .ok (.again, { s with store := st }.setPeer fd peer)

/-- `check_req`. -/
def checkReqInto (scan : Mybuff → Bytes) (cfg : Cfg) (locked : Bool) (io : RecvIo) (fd : Nat) (peer : Peer)
    (s : Sm) : Except MemFault (RecvRet × Sm) :=
  match mybuffGetdata (s.acon fd).recvBuff with
  | none => .ok (.again, s)
  | some _ =>
    let data := cstr (scan (s.acon fd).recvBuff)
    match strstr data (crlf ++ crlf) with
    | none => .ok (.again, s)
    | some end_ =>
      let r := SmClient.parseHeader peer.header data
      let peer := { peer with sockStat := .recvHeadIng, header := r.2.1 }
      let s := s.setConn fd { s.acon fd with recvBuff := (s.acon fd).recvBuff.store r.2.2 }
      if ¬ r.1 ∧ peer.header.type ≠ 250 then .ok (.close, s.setPeer fd peer)
      else startTaskInto cfg locked io fd peer (end_ + 4) s

/-- `svc_recv`. -/
def svcRecvInto (scan : Mybuff → Bytes) (cfg : Cfg) (io : RecvIo) (fd : Nat) (s : Sm) :
    Except MemFault (RecvRet × Sm) :=
  match (s.acon fd).user with
  | none => .ok (.close, s)
  | some peer =>
    if peer.sockStat = .recvBodyIng then .ok (recvBody io fd peer s)
    else do
      match ← checkReqInto scan cfg true io fd peer s with
      | (.again, s') => .ok (.addEpollin, s')
      | (.send, s') => .ok (.send, s')
      | (.close, s') =>
        match (s'.acon fd).user with
        | none => .ok (.close, s')
        | some peer' => .ok (.close, s'.setPeer fd { peer' with recvtask := none })
      | (.addEpollin, s') =>
        match (s'.acon fd).user with
        | none => .ok (.close, s')
        | some peer' => .ok (recvBody io fd peer' s')

/-- `do_recv`. -/
def doRecvInto (scan : Mybuff → Bytes) (cfg : Cfg) (io : RecvIo) (fd : Nat) (chunk : Bytes) (s : Sm) :
    Except MemFault (RecvRet × Sm) :=
  if (s.acon fd).isOpen then do
    let s := s.setConn fd { s.acon fd with
      recvBuff := mybuffSetdata cfg.initBuffSize io.mem (s.acon fd).recvBuff chunk }
    let r ← svcRecvInto scan cfg io fd s
    .ok (r.1, if r.1 = .close then doClose fd r.2 else r.2)
  else .ok (.close, s)

/-! ## The merge -/

/-- `check_lack_task`, with its `char localfile[256]`. -/
def checkLackTaskInto (cfg : Cfg) (task : Tasklist) (s : Sm) : Except MemFault Sm :=
  afterLocaldir cfg task.base.hostname task.base.filename (checkLackTask cfg task s)

/-- `do_merge_file`. -/
def doMergeFileInto (cfg : Cfg) (io : MergeIo) (hostname srcip filename : Bytes) (count : Int)
    (filemd5 : Bytes) (s : Sm) : Except MemFault Sm :=
  afterLocaldir cfg hostname filename (doMergeFile cfg io hostname srcip filename count filemd5 s)

/-- What `check_fin_task` does with a record it has taken from `TASK_FIN`. -/
def finTaskInto (cfg : Cfg) (io : MergeIo) (task : Tasklist) (s : Sm) : Except MemFault Sm :=
  if task.base.overstatus ≠ .ok then .ok (finTask cfg io task s)
  else do
    let s ← checkLackTaskInto cfg task s
    let s := { s with store := addTaskToAlltask s.store task }
    if checkTaskAllsubIsok s.store task.base.filename task.sub.count then
      doMergeFileInto cfg io task.base.hostname task.base.srcip task.base.filename task.sub.count
        task.base.filemd5 s
    else .ok s

/-- One round of the loop of `check_fin_task`. -/
def finIterInto (cfg : Cfg) (io : MergeIo) (s : Sm) : Except MemFault Sm :=
  match s.once with
  | none => .ok s
  | some once =>
    match vfsGetTask cfg.mallocOk s.store .fin with
    | (.ok task, st) =>
      if once + 1 > 128 then .ok ({ s with store := st, once := none }.note (.leak task))
      else finTaskInto cfg io task ({ s with store := st, once := some (once + 1) }.note (.fin task))
    | (_, st) => .ok { s with store := st, once := none }

/-! ## The machine -/

/-- One step. -/
def smStepInto (cfg : Cfg) (s : Sm) : SmAct → Except MemFault Sm
  | .recv fd chunk io => do
    let r ← doRecvInto Mybuff.data cfg io fd chunk s
    .ok r.2
  | .finIter io => finIterInto cfg io s
  | a => .ok (smStep cfg s a)

/-- The path of the file that a header names. -/
def HeaderLines.localdir (cfg : Cfg) (l : HeaderLines) : Bytes :=
  getLocaldir cfg (snprintf 128 l.hostname) (snprintf 255 l.filename)

/-- A call of `do_recv` finds a query for the missing blocks of a host. -/
structure Queries (cfg : Cfg) (s : Sm) (fd : Nat) (chunk : Bytes) (io : RecvIo) (hostname : Bytes) : Prop where
  isOpen : (s.acon fd).isOpen = true
  bytes : 0 < (s.acon fd).recvBuff.len + chunk.length
  header : ∃ p, (s.acon fd).user = some p ∧ p.sockStat ≠ .recvBodyIng ∧
    let data := cstr (mybuffSetdata cfg.initBuffSize io.mem (s.acon fd).recvBuff chunk).data
    (strstr data (crlf ++ crlf)).isSome ∧
    (SmClient.parseHeader p.header data).2.1.type = 250 ∧
    (SmClient.parseHeader p.header data).2.1.hostname = hostname

/-- The arrays hold what a step puts into them: the path of the file that a header is about which starts a block,
with its NUL, and the reply to a query. -/
def ArraysHold (cfg : Cfg) (s : Sm) : SmAct → Prop
  | .recv fd chunk io =>
    (∀ l, Requests cfg s fd chunk io l → (l.localdir cfg).length ≤ 255) ∧
    ∀ hostname, Queries cfg s fd chunk io hostname → ReplyFits cfg s.store hostname
  | _ => True

end VfsOss
