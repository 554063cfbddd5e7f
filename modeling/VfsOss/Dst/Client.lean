import VfsOss.Sm.Arrays

/-!
# Fetching segments of files

`dst_client`: for a waiting record it connects to the machine the file is on, asks for the segment of the
record and receives it into a temporary file. The process is laid out like that of `sm_client`, so its state,
the opening of the temporary file and the loop that fills it are the same definitions.

A null pointer that is dereferenced ends the process, and so does a path that overruns the array it is written
into: the functions that receive then return `none`.
-/

namespace VfsOss

open CLib

namespace DstClient

/-- `create_header`: the request for the bytes from `start` to the end of the record's segment. -/
def createHeader (base : TaskBase) (sub : TaskSub) (start : Int) : Bytes :=
  txt "GET /us_oss HTTP/1.1\r\n" ++ (txt "filename: " ++ base.filename ++ txt "\r\n") ++
  txt "type: 2\r\n" ++
  sbuf (txt "datalen: " ++ fmtInt (toInt64 (sub.end_ - sub.start + 1)) ++ txt "\r\n") ++
  sbuf (txt "start: " ++ fmtInt start ++ txt "\r\n") ++
  sbuf (txt "end: " ++ fmtInt sub.end_ ++ txt "\r\n") ++
  sbuf (txt "filemd5: " ++ base.filemd5 ++ txt "\r\n\r\n")

/-- What the system calls of one connection attempt return: the descriptor and the address of the peer, whether
the directory of the temporary file could be made and an old file be unlinked, and what fresh memory holds. -/
structure ConnectIo where
  fd : Option Nat
  ip : Nat
  dirOk : Bool
  unlinkOk : Bool
  mem : Nat → UInt8

/-- Every call succeeds. -/
def ConnectIo.ok (fd : Nat) : ConnectIo := ⟨some fd, 0, true, true, fun _ => 0⟩

/-- `"%s_%ld_%ld"`: the name `check_last_file` looks for. No function writes to a file of this name. -/
def lastFile (cfg : Cfg) (base : TaskBase) (sub : TaskSub) : Bytes :=
  snprintf 256 (getLocaldir cfg base.hostname base.filename ++ txt "_" ++ fmtInt sub.start ++ txt "_" ++
    fmtInt sub.end_)

/-- `check_last_file`: how much of the segment is there from the last time. Where there is no file, `getlen`
stays as it was. -/
def checkLastFile (cfg : Cfg) (io : ConnectIo) (fs : FileSystem Bytes) (base : TaskBase) (sub : TaskSub) :
    TaskBase × FileSystem Bytes :=
  let base := { base with tmpfile := lastFile cfg base sub }
  if io.dirOk then
    match fs.content base.tmpfile with
    | none => (base, fs)
    | some content =>
      if toInt64 (sub.end_ - sub.start + 1) ≤ content.length then
        ({ base with getlen := 0 }, if io.unlinkOk then fs.unlink base.tmpfile else fs)
      else ({ base with getlen := content.length }, fs)
  else (base, fs)

/-- `check_last_file` with its `char outfile[256]`. -/
def checkLastFileInto (cfg : Cfg) (io : ConnectIo) (fs : FileSystem Bytes) (base : TaskBase) (sub : TaskSub) :
    Except MemFault (TaskBase × FileSystem Bytes) :=
  afterLocaldir cfg base.hostname base.filename (checkLastFile cfg io fs base sub)

/-- The record the next round of `check_task` is about. -/
def nextTask (cfg : Cfg) (s : TaskStore) : Option (Tasklist × TaskStore) :=
  match vfsGetTask cfg.mallocOk s .wait with
  | (.ok task, s') => some (task, s')
  | _ =>
    match vfsGetTask cfg.mallocOk s .qSyncDir with
    | (.ok task, s') => some (task, s')
    | _ => none

/-- The end of a round of `check_task`: the request goes into the send buffer, and the connection waits for the
answer. -/
def sendRequest (cfg : Cfg) (io : ConnectIo) (fd : Nat) (task : Tasklist) (s : Sm) : Sm :=
  let request := createHeader task.base task.sub (toInt64 (task.base.getlen + task.sub.start))
  s.setConn fd { s.acon fd with
    sendBuff := mybuffSetdata cfg.initBuffSize io.mem (s.acon fd).sendBuff request
    user := (s.acon fd).user.map fun p => { p with sockStat := .recvHeadIng, recvtask := some task } }

/-- What `check_task` does for a record on a connection it has made. -/
def askFor (cfg : Cfg) (io : ConnectIo) (fd : Nat) (task : Tasklist) (s : Sm) : Except MemFault Sm := do
  let s := acceptNew cfg io.mem fd io.ip s
  let last ← checkLastFileInto cfg io s.fs task.base task.sub
  .ok (sendRequest cfg io fd { task with base := last.1 } { s with fs := last.2 })

/-- One round of the second loop of `check_task`; nothing when no record waits. -/
def checkTaskOne (cfg : Cfg) (io : ConnectIo) (s : Sm) : Except MemFault (Option Sm) :=
  match nextTask cfg s.store with
  | none => .ok none
  | some (task, store) =>
    match io.fd with
    | none =>
      let base := { task.base with overstatus := OverStatus.tooManyTry }
      .ok (some { s with store := vfsSetTask store { task with base := base } .fin })
    | some fd => some <$> askFor cfg io fd task { s with store := store }

/-- The rounds `once_run` leaves. -/
def checkTaskLoop (cfg : Cfg) (io : Nat → ConnectIo) : Nat → Sm → Except MemFault Sm
  | 0, s => .ok s
  | n + 1, s => do
    match ← checkTaskOne cfg (io n) s with
    | none => .ok s
    | some s' => checkTaskLoop cfg io n s'

/-- `check_task`. -/
def checkTask (cfg : Cfg) (io : Nat → ConnectIo) (s : Sm) : Except MemFault Sm :=
  let store := drainWaitTmp cfg (s.store.vfstask .waitTmp).length s.store
  checkTaskLoop cfg io (cfg.csMaxTaskRunOnce - 1) { s with store := store }

/-- `do_req`, which is `do_prepare_recvfile`. The file is emptied, so nothing is left of what an earlier
connection received. -/
def doReq (cfg : Cfg) (io : RecvIo) (fd : Nat) (peer : Peer) (fsize : Int) (s : Sm) : Option (RecvRet × Sm) :=
  if peer.sockStat = .recvHeadIng then
    peer.recvtask.bind fun task =>
      (doPrepareRecvfileInto cfg io fd peer { task with got := [] } fsize s).toOption
  else some (.close, s)

/-- The part of `check_req` that reads the answer: the length of the body, nothing when the answer is none or
not the bytes that were asked for. -/
def answerLength (data : Bytes) : Option Int :=
  match strstr data (txt "HTTP/") with
  | none => none
  | some pret =>
    match strchr (data.drop pret) 32 with
    | none => none
    | some blank =>
      let retcode := atoi (data.drop (pret + blank + 1))
      if retcode ≠ 200 ∧ retcode ≠ 206 then none
      else
        (strstr data (txt "Content-Length: ")).map fun pleng =>
          atol (data.drop (pleng + (txt "Content-Length: ").length))

/-- `check_req`. The header is looked for in the whole block of the buffer, up to its first NUL. -/
def checkReq (cfg : Cfg) (io : RecvIo) (fd : Nat) (peer : Peer) (s : Sm) : Option (RecvRet × Sm) :=
  match mybuffGetdata (s.acon fd).recvBuff with
  | none => some (.again, s)
  | some (block, _) =>
    let data := cstr block
    match strstr data (crlf ++ crlf) with
    | none => some (.again, s)
    | some end_ =>
      match answerLength data with
      | none => some (.close, s)
      | some fsize =>
        (doReq cfg io fd peer fsize s).map fun r =>
          (r.1, r.2.setConn fd { r.2.acon fd with
            recvBuff := mybuffSkipdata (r.2.acon fd).recvBuff (end_ + 4) })

/-- The branch of `svc_recv` for an answer that cannot be used: the record of the connection is finished. It is
reached with a null pointer on a connection that has no record. -/
def refuse (fd : Nat) (s : Sm) : Option (RecvRet × Sm) :=
  match (s.acon fd).user with
  | none => none
  | some peer =>
    peer.recvtask.map fun task =>
      let base := { task.base with overstatus := OverStatus.eOpenSrcfile }
      (.close, { s with store := vfsSetTask s.store { task with base := base } .fin }.setPeer fd
        { peer with recvtask := none })

/-- `svc_recv`. As in `sm_client` the bytes behind the header are taken in the same call. -/
def svcRecv (cfg : Cfg) (io : RecvIo) (fd : Nat) (s : Sm) : Option (RecvRet × Sm) :=
  match (s.acon fd).user with
  | none => none
  | some peer =>
    if peer.sockStat = .recvBodyIng then some (recvBody io fd peer s)
    else
      match checkReq cfg io fd peer s with
      | none => none
      | some (.close, s') => refuse fd s'
      | some (.addEpollin, s') => (s'.acon fd).user.map fun peer' => recvBody io fd peer' s'
      | some (_, s') => some (.addEpollin, s')

/-- `do_recv` for the bytes of one call. -/
def doRecv (cfg : Cfg) (io : RecvIo) (fd : Nat) (chunk : Bytes) (s : Sm) : Option Sm :=
  if (s.acon fd).isOpen then
    (svcRecv cfg io fd (s.setConn fd { s.acon fd with
      recvBuff := mybuffSetdata cfg.initBuffSize io.mem (s.acon fd).recvBuff chunk })).map fun r =>
        if r.1 = .close then doClose fd r.2 else r.2
  else some s

/-- The calls of `do_recv` for the bytes that arrive on a connection. -/
def recvCalls (cfg : Cfg) (fd : Nat) : Sm → List (RecvIo × Bytes) → Option Sm
  | s, [] => some s
  | s, call :: calls => (doRecv cfg call.1 fd call.2 s).bind fun s' => recvCalls cfg fd s' calls

/-- `do_send` with a socket that takes the next `n` bytes. `svc_send` keeps the connection. -/
def doSend (fd n : Nat) (s : Sm) : Bytes × Sm :=
  if (s.acon fd).isOpen then
    let b := (s.acon fd).sendBuff
    (b.live.take n, s.setConn fd { s.acon fd with sendBuff := mybuffSkipdata b n })
  else ([], s)

end DstClient

end VfsOss
