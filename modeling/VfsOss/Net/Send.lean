import VfsOss.Net.Mybuff

/-!
# Sending a connection's buffer

`do_send` of `vfs_so.c`: first the data of the send buffer, then the part of a file that belongs to
it. The socket takes part of what it is offered, or asks to be tried again.
-/

namespace VfsOss

open CLib

/-- The file part of `struct mybuff`: what the open file holds, and the segment of it to send. -/
structure FileSeg where
  content : Bytes
  foffset : Nat
  flen : Nat
  le : foffset + flen ≤ content.length

/-- The bytes of a segment. -/
def FileSeg.bytes (f : FileSeg) : Bytes := (f.content.drop f.foffset).take f.flen

/-- A send buffer; nothing stands for the value -1 of `fd`. -/
structure SendBuff where
  data : Mybuff
  file : Option FileSeg

/-- `mybuff_getfile`. -/
def mybuffGetfile (b : SendBuff) : Option FileSeg := b.file.filter fun f => f.flen > 0

/-- `mybuff_skipfile`: the file is closed when nothing of the segment is left. -/
def mybuffSkipfile (b : SendBuff) (n : Nat) : SendBuff :=
  match b.file with
  | none => b
  | some f =>
    if h : f.flen ≤ n then { b with file := none }
    else
      have hle : (f.foffset + n) + (f.flen - n) ≤ f.content.length := by
        have := f.le
        omega
      { b with file := some ⟨f.content, f.foffset + n, f.flen - n, hle⟩ }

/-- What a `send` or `sendfile64` returns: the socket has taken bytes, or there is an error. -/
inductive SockRes where
  | took (n : Nat)
  | eintr | eagain | enoent | error
  deriving DecidableEq

/-- The number of bytes a socket takes of `len` that are offered: at least one, and on Linux at most
0x7ffff000 in one call, so that it fits the `int` it is stored in. -/
def accepted (len n : Nat) : Nat := max 1 (min n (min len 0x7ffff000))

/-- The `while (1)` around a call: it is tried again after `EINTR`. A socket whose results have run out
takes nothing more. -/
def retry : List SockRes → SockRes
  | .eintr :: rs => retry rs
  | r :: _ => r
  | [] => .eagain

/-- `SEND_ADD_EPOLLIN`, `SEND_ADD_EPOLLOUT` and `SEND_CLOSE`. -/
inductive SendRet where
  | addEpollin | addEpollout | close
  deriving DecidableEq

/-- A connection that sends. `sent` is what the socket has taken and `served` what it had taken at each
call of `svc_send`; both are histories. -/
structure Sender where
  buf : SendBuff
  isOpen : Bool
  sent : Bytes
  served : List Bytes

/-- What happens in one call: whether the random test puts the connection off, the results of the calls
on the socket, and whether `svc_send` returns `SEND_CLOSE`. -/
structure SendIo where
  pend : Bool
  send : List SockRes
  sendfile : List SockRes
  svcClose : Bool

/-- `GSIZE`. -/
def gsize : Nat := 1073741824

/-- The part of `do_send` that sends data. -/
def sendData (rs : List SockRes) (s : Sender) : SendRet × Sender :=
  match mybuffGetdata s.buf.data with
  | none => (.addEpollin, s)
  | some (data, len) =>
    match retry rs with
    | .took k =>
      let n := accepted len k
      (if n < len then .addEpollout else .addEpollin,
        { s with
          buf := { s.buf with data := mybuffSkipdata s.buf.data n }
          sent := s.sent ++ data.take n })
    | .eintr | .eagain => (.addEpollout, s)
    | .enoent | .error => (.close, s)

/-- The part of `do_send` that sends the file. -/
def sendFile (rs : List SockRes) (s : Sender) : SendRet × Sender :=
  match mybuffGetfile s.buf with
  | none => (.addEpollin, s)
  | some f =>
    let len1 := if f.flen > gsize then gsize else f.flen
    match retry rs with
    | .took k =>
      let n := accepted len1 k
      (if n < f.flen then .addEpollout else .addEpollin,
        { s with
          buf := mybuffSkipfile s.buf n
          sent := s.sent ++ f.bytes.take n })
    | .eintr | .eagain | .enoent => (.addEpollout, s)
    | .error => (.close, s)

/-- `do_send`. The file is sent only when the data has gone out completely. -/
def doSendBuff (s : Sender) (io : SendIo) : Sender :=
  if ¬ s.isOpen ∨ io.pend then s
  else
    let r := sendData io.send s
    let r := if r.1 = .addEpollin then sendFile io.sendfile r.2 else r
    match r.1 with
    | .close => { r.2 with isOpen := false }
    | .addEpollout => r.2
    | .addEpollin =>
      { r.2 with
        served := r.2.served ++ [r.2.sent]
        isOpen := !io.svcClose }

/-- What the buffer still holds. -/
def SendBuff.pending (b : SendBuff) : Bytes :=
  b.data.live ++ (b.file.map FileSeg.bytes).getD []

/-- A connection with a buffer to send. -/
def Sender.start (b : SendBuff) : Sender := ⟨b, true, [], []⟩

end VfsOss
