import VfsOss.Sm.Arrays

/-!
# Waiting for more data

`check_req` returns -1 when it needs more data, and also when it has a request but no record for it. The parser has
written its NULs into the buffer by then.
-/

namespace VfsOss

open CLib

/-- More bytes received on a connection. -/
def Sm.arrive (cfg : Cfg) (mem : Nat → UInt8) (fd : Nat) (more : Bytes) (s : Sm) : Sm :=
  s.setConn fd { s.acon fd with recvBuff := mybuffSetdata cfg.initBuffSize mem (s.acon fd).recvBuff more }

/-- What is expected of a call that returns -1: the receive buffer is as it was, and when more bytes have arrived a
later call does what it would have done had they arrived before. -/
structure KeepsRequest (cfg : Cfg) (locked : Bool) (io : RecvIo) (fd : Nat) (peer : Peer) (s : Sm) : Prop where
  buffer : ∀ s', checkReqInto Mybuff.data cfg locked io fd peer s = .ok (.again, s') →
    (s'.acon fd).recvBuff = (s.acon fd).recvBuff
  later : ∀ s', checkReqInto Mybuff.data cfg locked io fd peer s = .ok (.again, s') →
    ∀ (locked' : Bool) (io' : RecvIo) (more : Bytes),
      checkReqInto Mybuff.data cfg locked' io' fd peer (s'.arrive cfg io.mem fd more) =
        checkReqInto Mybuff.data cfg locked' io' fd peer (s.arrive cfg io.mem fd more)

/-- There are bytes with the end of a header and every field of it, the request is not for the list of missing blocks,
and `vfs_get_task` has no record for it: it does not get the mutex, or `TASK_HOME` is empty and `malloc` fails. -/
structure NoRecordFor (cfg : Cfg) (locked : Bool) (fd : Nat) (peer : Peer) (s : Sm) : Prop where
  bytes : (s.acon fd).recvBuff.live ≠ []
  complete : (strstr (cstr (s.acon fd).recvBuff.data) (crlf ++ crlf)).isSome
  parsed : (SmClient.parseHeader peer.header (cstr (s.acon fd).recvBuff.data)).1 = true
  upload : (SmClient.parseHeader peer.header (cstr (s.acon fd).recvBuff.data)).2.1.type ≠ 250
  record : locked = false ∨ s.store.vfstask .home = [] ∧ cfg.mallocOk s.store.next = false

end VfsOss
