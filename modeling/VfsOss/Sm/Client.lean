import VfsOss.Sm.Localfile

/-!
# Receiving blocks

`sm_client` and the parts of `vfs_so.c` that drive it. An upload is a header and the bytes of one
block; the header makes a task record, the bytes go into the record's temporary file, and the record
goes to `TASK_FIN` when they are complete or the connection ends. A header of type 250 asks for the
list of missing blocks.
-/

namespace VfsOss

open CLib

/-- What the system calls of one receive step return: whether the temporary file can be opened, how
many of the bytes offered `write` takes (`none` for an error), and what fresh memory holds. -/
structure RecvIo where
  opens : Bool
  write : Nat → Option Nat
  mem : Nat → UInt8

/-- Every call succeeds in full. -/
def RecvIo.ok : RecvIo := ⟨true, some, fun _ => 0⟩

/-- What `check_req` and `svc_recv` return: `again` stands for -1. -/
inductive RecvRet where
  | again | addEpollin | send | close
  deriving DecidableEq, Repr

/-! ## The list of missing blocks -/

/-- The first loop of `get_task_unok`: `TASK_WAIT_TMP` goes back to `TASK_WAIT`. The loop ends when the
queue is empty, so its length bounds the rounds. -/
def drainWaitTmp (cfg : Cfg) : Nat → TaskStore → TaskStore
  | 0, s => s
  | n + 1, s =>
    match vfsGetTask cfg.mallocOk s .waitTmp with
    | (.ok task, s') => drainWaitTmp cfg n (vfsSetTask s' task .wait)
    | (_, s') => s'

/-- `"%s %d %d:"`: the text of one missing block. -/
def unokText (task : Tasklist) : Bytes :=
  task.base.filename ++ txt " " ++ fmtInt task.sub.idx ++ txt " " ++ fmtInt task.sub.count ++ txt ":"

/-- The second loop of `get_task_unok`, for the rounds `once_run` leaves: the list so far, the records
that have gone to `TASK_HOME` with their texts in it, and the store. -/
def unokLoop (cfg : Cfg) (hostname : Bytes) : Nat → Bytes → List Tasklist → TaskStore →
    Bytes × List Tasklist × TaskStore
  | 0, buf, out, s => (buf, out, s)
  | n + 1, buf, out, s =>
    match vfsGetTask cfg.mallocOk s .wait with
    | (.ok task, s') =>
      if task.base.hostname ≠ hostname then
        unokLoop cfg hostname n buf out (vfsSetTask s' task .waitTmp)
      else if (unokText task).length + buf.length ≥ 10240 then
        (buf, out, vfsSetTask s' task .waitTmp)
      else
        unokLoop cfg hostname n (buf ++ snprintf 1024 (unokText task)) (out ++ [task])
          (vfsSetTask s' task .home)
    | (_, s') => (buf, out, s')

/-- `get_task_unok`: the reply, the records removed for it, and the store. `once_run` is counted up
before it is compared, so one record less than `cs_max_task_run_once` is looked at. -/
def getTaskUnok (cfg : Cfg) (s : TaskStore) (hostname : Bytes) : Bytes × List Tasklist × TaskStore :=
  let s := drainWaitTmp cfg (s.vfstask .waitTmp).length s
  let r := unokLoop cfg hostname (cfg.csMaxTaskRunOnce - 1) [] [] s
  (SmClient.createHeader r.1, r.2.1, r.2.2)

/-! ## The upload -/

/-- `convert_httpheader_2_task`. -/
def convertHttpheader2Task (header : HttpHeader) (base : TaskBase) (sub : TaskSub) :
    TaskBase × TaskSub :=
  ({ base with
      type := header.type
      filemd5 := snprintf 36 header.filemd5
      filename := snprintf 256 header.filename
      hostname := snprintf 256 header.hostname },
   { sub with
      idx := header.idx
      count := header.count
      start := header.start
      end_ := header.end_ })

/-- `do_prepare_recvfile`, for the record the connection receives. -/
def doPrepareRecvfile (cfg : Cfg) (io : RecvIo) (fd : Nat) (peer : Peer) (task : Tasklist)
    (fsize : Int) (s : Sm) : RecvRet × Sm :=
  if peer.sockStat ≠ .recvHeadIng then
    (.close, s.setPeer fd { peer with recvtask := some task })
  else
    let base := { task.base with fsize := fsize, getlen := 0 }
    let r := openTmpLocalfile4Write cfg io.opens s.fs base task.sub
    match r.2.1 with
    | none =>
      let task := { task with base := { r.1 with overstatus := .eOpenDstfile } }
      (.close, { s with store := vfsSetTask s.store task .fin, fs := r.2.2 }.setPeer fd
        { peer with localInFd := none, recvtask := some task })
    | some node =>
      (.addEpollin, { s with fs := r.2.2 }.setPeer fd
        { peer with
          localInFd := some (node, 0)
          sockStat := .recvBodyIng
          recvtask := some { task with base := r.1 } })

/-- The part of `check_req` after the header has been parsed. `clen` is its length. -/
def startTask (cfg : Cfg) (io : RecvIo) (fd : Nat) (peer : Peer) (clen : Nat) (s : Sm) :
    RecvRet × Sm :=
  let header := peer.header
  if header.type = 250 then
    let r := getTaskUnok cfg s.store header.hostname
    let s := { s with store := r.2.2 }.setPeer fd peer
    (.send, s.setConn fd { s.acon fd with
      sendBuff := mybuffSetdata cfg.initBuffSize io.mem (s.acon fd).sendBuff r.1 })
  else
    match vfsGetTask cfg.mallocOk s.store .home with
    | (.ok task, st) =>
      let conv := convertHttpheader2Task header { TaskBase.zero with usrcip := peer.ip } .zero
      let task := { task with base := conv.1, sub := conv.2, got := [] }
      let s := { s with store := st }.note (.post task)
      let r := doPrepareRecvfile cfg io fd peer task (toInt64 (header.end_ - header.start + 1)) s
      (r.1, r.2.setConn fd { r.2.acon fd with
        recvBuff := mybuffSkipdata (r.2.acon fd).recvBuff clen })
    | (_, st) => (.again, { s with store := st }.setPeer fd peer)

/-- `check_req`. `scan` is the memory the header is looked for and parsed in: in the program the whole
block of the buffer (`Mybuff.data`), since nothing tells `strstr` where the live bytes end. -/
def checkReq (scan : Mybuff → Bytes) (cfg : Cfg) (io : RecvIo) (fd : Nat) (peer : Peer) (s : Sm) :
    RecvRet × Sm :=
  match mybuffGetdata (s.acon fd).recvBuff with
  | none => (.again, s)
  | some _ =>
    let data := cstr (scan (s.acon fd).recvBuff)
    match strstr data (crlf ++ crlf) with
    | none => (.again, s)
    | some end_ =>
      let r := SmClient.parseHeader peer.header data
      let peer := { peer with sockStat := .recvHeadIng, header := r.2.1 }
      let s := s.setConn fd { s.acon fd with recvBuff := (s.acon fd).recvBuff.store r.2.2 }
      if ¬ r.1 ∧ peer.header.type ≠ 250 then (.close, s.setPeer fd peer)
      else startTask cfg io fd peer (end_ + 4) s

/-- The branch of `svc_recv` for a connection that receives a block. The remaining length is an `int`;
compared with the `size_t` number of bytes it is unsigned. -/
def recvBody (io : RecvIo) (fd : Nat) (peer : Peer) (s : Sm) : RecvRet × Sm :=
  match peer.recvtask with
  | none => (.close, s)
  | some task =>
    match mybuffGetdata (s.acon fd).recvBuff with
    | none => (.addEpollin, s)
    | some (data, datalen) =>
      let remainlen := (toInt32 (task.base.fsize - task.base.getlen) % 2 ^ 64).toNat
      let datalen := if datalen ≤ remainlen then datalen else remainlen
      match io.write datalen with
      | none => (.close, s)
      | some k =>
        let bytes := data.take (min k datalen)
        let fs := match peer.localInFd with
          | some (node, off) => s.fs.pwrite node off bytes
          | none => s.fs
        let localInFd := peer.localInFd.map fun p => (p.1, p.2 + bytes.length)
        let peer := { peer with localInFd := localInFd }
        let s := { s with fs := fs }
        let n := toInt32 bytes.length
        if n < 0 then (.close, s.setPeer fd peer)
        else
          let s := s.setConn fd { s.acon fd with
            recvBuff := mybuffSkipdata (s.acon fd).recvBuff n.toNat }
          let base : TaskBase := { task.base with getlen := task.base.getlen + n }
          let task : Tasklist := { task with base := base, got := task.got ++ bytes }
          if base.getlen ≥ base.fsize then
            if closeTmpCheckMv peer.localInFd then
              let task := { task with base := { base with overstatus := .ok } }
              (.close, { s with store := vfsSetTask s.store task .fin }.setPeer fd
                { peer with localInFd := none, recvtask := none })
            else
              let task := { task with base := { base with overstatus := .eMd5 } }
              (.close, { s with store := vfsSetTask s.store task .fin }.setPeer fd
                { peer with recvtask := none })
          else (.addEpollin, s.setPeer fd { peer with recvtask := some task })

/-- `svc_recv`. A `check_req` that returns `RECV_ADD_EPOLLIN` has started a block, so the loop around
it never turns; the bytes behind the header are taken in the same call. -/
def svcRecv (scan : Mybuff → Bytes) (cfg : Cfg) (io : RecvIo) (fd : Nat) (s : Sm) : RecvRet × Sm :=
  match (s.acon fd).user with
  | none => (.close, s)
  | some peer =>
    if peer.sockStat = .recvBodyIng then recvBody io fd peer s
    else
      match checkReq scan cfg io fd peer s with
      | (.again, s') => (.addEpollin, s')
      | (.send, s') => (.send, s')
      | (.close, s') =>
        match (s'.acon fd).user with
        | none => (.close, s')
        | some peer' => (.close, s'.setPeer fd { peer' with recvtask := none })
      | (.addEpollin, s') =>
        match (s'.acon fd).user with
        | none => (.close, s')
        | some peer' => recvBody io fd peer' s'

/-- `svc_finiconn`: a record still being received is finished as `OVER_PEERERR`. -/
def svcFiniconn (fd : Nat) (s : Sm) : Sm :=
  match (s.acon fd).user with
  | none => s
  | some peer =>
    let store := match peer.recvtask with
      | some task =>
        vfsSetTask s.store { task with base := { task.base with overstatus := .peererr } } .fin
      | none => s.store
    { s with store := store }.setConn fd { s.acon fd with user := none }

/-- `do_close`. -/
def doClose (fd : Nat) (s : Sm) : Sm :=
  if (s.acon fd).isOpen then
    let s := svcFiniconn fd s
    s.setConn fd { s.acon fd with isOpen := false }
  else s

/-- `svc_initconn` and `add_fd_2_efd`, as `accept_new` calls them for a descriptor that was closed. -/
def acceptNew (cfg : Cfg) (mem : Nat → UInt8) (fd ip : Nat) (s : Sm) : Sm :=
  if (s.acon fd).isOpen then s
  else s.setConn fd
    { isOpen := true
      recvBuff := mybuffReinit cfg.initBuffSize mem (s.acon fd).recvBuff
      sendBuff := mybuffReinit cfg.initBuffSize mem (s.acon fd).sendBuff
      user := some ⟨.zero, none, ip, .connected, none⟩ }

/-- `do_recv` for the bytes of one call: `mybuff_setdata`, `svc_recv`, and what its result asks for. A
result of `RECV_SEND` leaves the reply in the send buffer. -/
def doRecv (scan : Mybuff → Bytes) (cfg : Cfg) (io : RecvIo) (fd : Nat) (chunk : Bytes) (s : Sm) :
    RecvRet × Sm :=
  if (s.acon fd).isOpen then
    let s := s.setConn fd { s.acon fd with
      recvBuff := mybuffSetdata cfg.initBuffSize io.mem (s.acon fd).recvBuff chunk }
    let r := svcRecv scan cfg io fd s
    (r.1, if r.1 = .close then doClose fd r.2 else r.2)
  else (.close, s)

/-- `do_send` with a socket that takes the next `n` bytes: what is sent, and the connection closed by
`svc_send` when nothing is left. -/
def doSend (fd n : Nat) (s : Sm) : Bytes × Sm :=
  if (s.acon fd).isOpen then
    let b := (s.acon fd).sendBuff
    let s' := s.setConn fd { s.acon fd with sendBuff := mybuffSkipdata b n }
    (b.live.take n, if n ≥ b.len then doClose fd s' else s')
  else ([], s)

end VfsOss
