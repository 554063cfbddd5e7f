import VfsOss.Dst.Client
import VfsOss.Src.Http
import VfsOss.Task.Placement

/-!
# A segment on its way

`dst_client` and `src_http` at the two ends of a connection: the request travels to the server and the answer
back. Each end sends what its socket takes and receives what has arrived, in any order and in pieces of any
size, and the connection may end at any time.
-/

namespace VfsOss

open CLib

/-- The two ends of the connection, and the bytes that are under way in each direction. `none` stands for a
client that has died of a null pointer or an overrun array. -/
structure Transfer where
  client : Option Sm
  asked : Bytes
  server : SrcHttp.Conn
  answered : Bytes

/-- A connection over which nothing has travelled. -/
def Transfer.start (client : Sm) (server : SrcHttp.Conn) : Transfer := ⟨some client, [], server, []⟩

/-- What can happen: `do_send` at the client, `do_recv` at the server, `do_send` at the server, `do_recv` at the
client, and the end of the connection seen by the client. The numbers bound the bytes that are taken. -/
inductive TransferAct where
  | ask (n : Nat)
  | serve (n : Nat) (mem : Nat → UInt8)
  | answer (io : SendIo)
  | fetch (n : Nat) (io : RecvIo)
  | hangUp

section

variable (cfg : Cfg) (files : FileSystem Bytes) (fd : Nat)

/-- One step. -/
def transferStep (w : Transfer) : TransferAct → Transfer
  | .ask n =>
    match w.client with
    | none => w
    | some s =>
      let r := DstClient.doSend fd n s
      { w with client := some r.2, asked := w.asked ++ r.1 }
  | .serve n mem =>
    { w with
      asked := w.asked.drop n
      server := SrcHttp.doRecv cfg.initBuffSize mem files (w.asked.take n) w.server }
  | .answer io =>
    let server := SrcHttp.doSend io w.server
    { w with server := server, answered := w.answered ++ server.out.sent.drop w.server.out.sent.length }
  | .fetch n io =>
    { w with
      answered := w.answered.drop n
      client := w.client.bind fun s => DstClient.doRecv cfg io fd (w.answered.take n) s }
  | .hangUp => { w with client := w.client.map (doClose fd) }

end

/-- The client's system calls succeed, and fresh memory is zero. -/
def TransferAct.Full : TransferAct → Prop
  | .serve _ mem => ∀ i, mem i = 0
  | .fetch _ io => io.opens = true ∧ io.write = some ∧ ∀ i, io.mem i = 0
  | _ => True

/-- `check_task` takes the record and makes a connection for it, in a slot whose receive buffer has not been used:
`s0` is the state it leaves. -/
structure Begins (cfg : Cfg) (io : DstClient.ConnectIo) (fd : Nat) (s : Sm) (task : Tasklist) (s0 : Sm) : Prop where
  placed : WellPlaced s.store
  next : ∃ store, DstClient.nextTask cfg s.store = some (task, store)
  made : io.fd = some fd
  one : DstClient.checkTaskOne cfg io s = .ok (some s0)
  closed : (s.acon fd).isOpen = false
  blank : (s.acon fd).recvBuff.Blank
  mem : ∀ i, io.mem i = 0

/-- The record of a request, as `check_last_file` leaves it. -/
def requested (cfg : Cfg) (io : DstClient.ConnectIo) (s : Sm) (task : Tasklist) : Tasklist :=
  { task with base := (DstClient.checkLastFile cfg io s.fs task.base task.sub).1 }

/-- The first byte that is asked for: what an earlier connection has received is left out. -/
def Tasklist.firstByte (t : Tasklist) : Int := toInt64 (t.base.getlen + t.sub.start)

/-- What can be asked for: the file name and the digest are lines without a NUL that fit their fields, and the
numbers are those of the C type. -/
structure Fetchable (t : Tasklist) : Prop where
  filename : t.base.filename.length ≤ 254 ∧ ∀ b ∈ t.base.filename, b ≠ 0 ∧ b ≠ 13
  filemd5 : t.base.filemd5.length ≤ 35 ∧ ∀ b ∈ t.base.filemd5, b ≠ 0 ∧ b ≠ 13
  firstByte : 0 ≤ t.firstByte
  end_ : -2 ^ 63 ≤ t.sub.end_ ∧ t.sub.end_ < 2 ^ 63

/-- The bytes that a record asks for, of the files of the server. -/
def Tasklist.segment (t : Tasklist) (files : FileSystem Bytes) : Option Bytes :=
  SrcHttp.segmentOf files t.base.filename t.firstByte t.sub.end_

/-- The connection is open and nothing has become of its record. -/
def Pending (fd : Nat) (s0 s : Sm) : Prop :=
  (s.acon fd).isOpen = true ∧ s.store.vfstask .fin = s0.store.vfstask .fin

/-- The record has gone to `TASK_FIN`, in one of three ways: the segment is in its file, the segment is not to
be had, or the connection has ended and the file, if there is one, holds a part of the segment. -/
inductive Done (s0 : Sm) (task : Tasklist) (seg : Option Bytes) (hungUp : Prop) (s : Sm) : Prop
  | ok (t : Tasklist) (bytes : Bytes) (fin : s.store.vfstask .fin = s0.store.vfstask .fin ++ [t])
      (addr : t.addr = task.addr) (sub : t.sub = task.sub) (status : t.base.overstatus = .ok)
      (seg : seg = some bytes) (file : s.fs.content t.base.tmpfile = some bytes)
  | refused (t : Tasklist) (fin : s.store.vfstask .fin = s0.store.vfstask .fin ++ [t])
      (addr : t.addr = task.addr) (sub : t.sub = task.sub) (status : t.base.overstatus = .eOpenSrcfile)
      (seg : seg = none) (fs : s.fs = s0.fs)
  | broken (t : Tasklist) (fin : s.store.vfstask .fin = s0.store.vfstask .fin ++ [t])
      (addr : t.addr = task.addr) (sub : t.sub = task.sub) (status : t.base.overstatus = .peererr)
      (hung : hungUp) (file : s.fs = s0.fs ∨ ∃ bytes part, seg = some bytes ∧ part <+: bytes ∧
        part.length < bytes.length ∧ s.fs.content t.base.tmpfile = some part)

/-- Nothing is left to be sent or received. -/
structure Transfer.Quiet (fd : Nat) (w : Transfer) : Prop where
  unsent : ∀ s, w.client = some s → (s.acon fd).sendBuff.live = []
  asked : w.asked = []
  unanswered : w.server.out.buf.pending = []
  answered : w.answered = []

/-- **What a transfer comes to.** The client is alive; its record is pending or done, and it is done when
nothing is left to be sent or received. -/
def Transfer.Sound (fd : Nat) (s0 : Sm) (task : Tasklist) (seg : Option Bytes) (hungUp : Prop) (w : Transfer) : Prop :=
  ∃ s, w.client = some s ∧ (Pending fd s0 s ∨ (s.acon fd).isOpen = false ∧ Done s0 task seg hungUp s) ∧
    (w.Quiet fd → (s.acon fd).isOpen = false)

end VfsOss
