import VfsOss.Sm.Client

/-!
# Stale bytes

Behind the live bytes of a receive buffer lies what it held before. The request parser works on the whole
block as a C string, so whether it looks at stale bytes is up to the live ones.
-/

namespace VfsOss

open CLib

/-- Two states that differ at most in the stale bytes of the receive buffer of a connection. -/
structure SameButStale (fd : Nat) (s s' : Sm) : Prop where
  store : s'.store = s.store
  fs : s'.fs = s.fs
  once : s'.once = s.once
  log : s'.log = s.log
  others : ∀ fd', fd' ≠ fd → s'.acon fd' = s.acon fd'
  isOpen : (s'.acon fd).isOpen = (s.acon fd).isOpen
  sendBuff : (s'.acon fd).sendBuff = (s.acon fd).sendBuff
  user : (s'.acon fd).user = (s.acon fd).user
  live : (s'.acon fd).recvBuff.live = (s.acon fd).recvBuff.live

/-- What is expected of live bytes: from two states that differ only in stale bytes, `check_req` returns
the same, and the states it leaves, with the header it has parsed, the record it has started and the bytes
it has not consumed, differ only in stale bytes. -/
def ParsesOnlyLive (live : Bytes) : Prop :=
  ∀ (cfg : Cfg) (io : RecvIo) (fd : Nat) (peer : Peer) (s s' : Sm),
    (s.acon fd).user = some peer → (s.acon fd).recvBuff.live = live → SameButStale fd s s' →
      (checkReq Mybuff.data cfg io fd peer s').1 = (checkReq Mybuff.data cfg io fd peer s).1 ∧
      SameButStale fd (checkReq Mybuff.data cfg io fd peer s).2 (checkReq Mybuff.data cfg io fd peer s').2

/-- The condition on the live bytes: there are none, they hold a NUL, or they hold the end of a header and
every field the parser looks for. -/
def HeaderWithin (live : Bytes) : Prop :=
  live = [] ∨ (0 : UInt8) ∈ live ∨
    (strstr live (crlf ++ crlf)).isSome ∧ (SmClient.parseHeader .zero live).1 = true

instance (live : Bytes) : Decidable (HeaderWithin live) := inferInstanceAs (Decidable (_ ∨ _ ∨ _ ∧ _))

/-- An end of a header, and a line for each field. -/
def anotherHeader : Bytes := crlf ++ crlf ++ SmClient.fields.flatMap fun field => field.item ++ crlf

/-- A process whose connection 0 has live bytes and then, up to a NUL, stale ones in its buffer. -/
def Sm.reused (peer : Peer) (live stale : Bytes) : Sm :=
  (Sm.init 1).setConn 0
    { isOpen := true
      recvBuff := ⟨live ++ stale ++ [0], live.length, by simp only [List.length_append]; omega⟩
      sendBuff := mybuffInit
      user := some peer }

end VfsOss
