import VfsOss.Sm.Client

/-!
# The header of an upload, built and parsed

`uc_client` puts the header of an upload together in lines of at most 63 bytes; `sm_client` finds its end
and takes the fields into buffers of its own sizes.
-/

namespace VfsOss

open CLib

/-- The `end` of `check_req`: how long the header at the start of the memory is. -/
def SmClient.headerEnd (mem : Bytes) : Option Nat := (strstr (cstr mem) (crlf ++ crlf)).map (· + 4)

/-- A text of 32 hexadecimal digits. -/
def IsMd5 (s : Bytes) : Prop := s.length = 32 ∧ ∀ b ∈ s, b ∈ txt "0123456789abcdefABCDEF"

instance (s : Bytes) : Decidable (IsMd5 s) := inferInstanceAs (Decidable (_ ∧ _))

/-- What `uc_client` queues: the file name is a path of at most 255 bytes without line breaks, the host
name that of `gethostname`, and the numbers are those of the C types. -/
structure Sendable (base : TaskBase) (sub : TaskSub) : Prop where
  filename : base.filename.length ≤ 255 ∧ ∀ b ∈ base.filename, b ≠ 0 ∧ b ≠ 13 ∧ b ≠ 10
  hostname : base.hostname.length ≤ 64 ∧ (0 : UInt8) ∉ base.hostname
  filemd5 : IsMd5 base.filemd5
  fsize : -2 ^ 63 ≤ base.fsize ∧ base.fsize < 2 ^ 63
  fileCtime : -2 ^ 63 ≤ base.fileCtime ∧ base.fileCtime < 2 ^ 63
  start : -2 ^ 63 ≤ sub.start ∧ sub.start < 2 ^ 63
  end_ : -2 ^ 63 ≤ sub.end_ ∧ sub.end_ < 2 ^ 63
  idx : -2 ^ 31 ≤ sub.idx ∧ sub.idx < 2 ^ 31
  count : -2 ^ 31 ≤ sub.count ∧ sub.count < 2 ^ 31

/-- A header with the nine fields of a block, as their C types hold them. -/
def HttpHeader.carrying (h : HttpHeader) (base : TaskBase) (sub : TaskSub) : HttpHeader :=
  { h with
    filename := base.filename
    type := base.type
    datalen := (base.fsize % 2 ^ 64).toNat
    start := sub.start
    end_ := sub.end_
    filemd5 := base.filemd5
    idx := sub.idx
    count := sub.count
    hostname := base.hostname }

/-- What is expected of a block: whatever bytes follow its header and whatever the state of the connection
is, `check_req` takes the header to end where it does, and the fields it parses are those of the block. -/
def RoundTrips (base : TaskBase) (sub : TaskSub) : Prop :=
  ∀ (cfg : Cfg) (io : RecvIo) (fd : Nat) (peer : Peer) (s : Sm) (body stale : Bytes),
    (s.acon fd).user = some peer →
    (s.acon fd).recvBuff.live = UcClient.createHeader base sub ++ body →
    (s.acon fd).recvBuff.data = UcClient.createHeader base sub ++ body ++ stale →
      SmClient.headerEnd (s.acon fd).recvBuff.data = some (UcClient.createHeader base sub).length ∧
      (SmClient.parseHeader peer.header (cstr (s.acon fd).recvBuff.data)).1 = true ∧
      ∃ p, ((checkReq Mybuff.data cfg io fd peer s).2.acon fd).user = some p ∧
        p.header = peer.header.carrying base sub

/-- The condition: the line of the host name and the field of the file name are long enough, and the host
name is one line. -/
def FitsLines (base : TaskBase) : Prop :=
  base.hostname.length ≤ 49 ∧ ¬ crlf <:+: base.hostname ∧ base.filename.length ≤ 254

end VfsOss
