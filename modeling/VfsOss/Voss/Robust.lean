import Mathlib.Logic.Relation
import VfsOss.Voss.Recv

/-!
# What is copied from a message

The rounds of the loop in `svc_recv`, with the copies and writes they make from the received bytes.
Here `open` may fail and `write` may take less than it is given: each round has calls of its own. What a
copy out of bounds does to the state is not described.
-/

namespace VfsOss

open CLib

/-- What the system calls of a round return: whether the work file opens, and how many of the bytes
offered `write` takes (`none` for an error). -/
structure VossIo where
  opens : Bool
  write : Nat → Option Nat

/-- A copy from the received bytes: `len` bytes from `off` on, when `datalen` have been received. What is
written to a file needs no `room`. -/
structure VossCopy where
  off : Nat
  len : Nat
  datalen : Nat
  room : Option Nat

/-- The copy stays inside the bytes received and inside its destination. -/
structure VossCopy.InBounds (c : VossCopy) : Prop where
  src : c.off + c.len ≤ c.datalen
  dst : ∀ n ∈ c.room, c.len ≤ n

/-- `h.totallen - HEADSIZE`, of unsigned numbers. -/
def HeadInfo.bodylen (h : HeadInfo) : Nat := (h.totallen + 2 ^ 32 - headsize) % 2 ^ 32

/-- A round: what `check_req` returns and leaves, whether it has handled a message, and its copies. -/
structure VossRound where
  ret : VossRet
  state : Voss
  handled : Bool
  copies : List VossCopy

/-- A body is being received. -/
def Voss.InSync (s : Voss) : Prop := s.peer.sockStat = .prepareSyncfile ∨ s.peer.sockStat = .syncfileing

/-- The `write` of `sub_recv`, of `len` bytes, and what comes behind it. Without a work file it is to
descriptor -1. -/
def subWriteIo (cfg : VossCfg) (io : VossIo) (data : Bytes) (len : Nat) (s : Voss) : VossRet × Voss :=
  match s.peer.localInFd with
  | none => (.close, s)
  | some (fd, file) =>
    match io.write len with
    | none => (.close, s)
    | some k =>
      let n := min k len
      let file := { file with data := file.data ++ data.take n }
      subWritten cfg (toInt32 n) { s with peer := { s.peer with localInFd := some (fd, file) } }

/-- `sub_recv`. -/
def subRecvIo (cfg : VossCfg) (io : VossIo) (s : Voss) : (VossRet × Voss) × List VossCopy :=
  let (now, s) := s.time cfg
  let s := { s with peer := { s.peer with hbtime := now } }
  if s.peer.sockStat = .prepareSyncfile ∨ s.peer.sockStat = .syncfileing then
    match mybuffGetdata s.peer.recv with
    | none => ((.addEpollin, s), [])
    | some (data, datalen) =>
      let remainlen := (toInt32 (s.peer.datalen - s.peer.recvlen) % 2 ^ 64).toNat
      let len := if datalen ≤ remainlen then datalen else remainlen
      (subWriteIo cfg io data len s, [⟨0, len, datalen, none⟩])
  else ((.addEpollin, s), [])

/-- `process_data_req`. -/
def processDataReqIo (cfg : VossCfg) (io : VossIo) (h : HeadInfo) (s : Voss) : VossRound :=
  if s.peer.localInFd.isNone ∧ ¬ io.opens then ⟨.close, (s.time cfg).2, false, []⟩
  else
    let s := openLocal cfg s
    let datalen := toInt32 ((h.totallen : Int) - headsize)
    let s := { s with peer := { s.peer with sockStat := .syncfileing, datalen := datalen, recvlen := 0 } }
    let r := subRecvIo cfg io (s.consume headsize)
    ⟨r.1.1, r.1.2, true, r.2⟩

/-- The copies of a message that is not a `REQ_SUBMIT`: `strncpy` fills `sip`, a heartbeat's byte is
read and a response is written to the status file. -/
def bodyCopies (s : Voss) (datalen : Nat) (h : HeadInfo) : List VossCopy :=
  if h.cmdid = reqAuth then [⟨headsize, h.bodylen, datalen, some 128⟩]
  else if s.cStat.isNone then []
  else if h.cmdid = reqHeartbeat then [⟨headsize, 1, datalen, some 1⟩]
  else [⟨headsize, h.bodylen, datalen, none⟩]

/-- A message that `check_req` takes as a whole. -/
def HeadInfo.IsMsg (h : HeadInfo) : Prop :=
  h.cmdid = reqHeartbeat ∨ rspVfsCmd = h.cmdid ∨ reqAuth = h.cmdid

instance (h : HeadInfo) : Decidable h.IsMsg := inferInstanceAs (Decidable (_ ∨ _))

/-- The part of `check_req` behind `parse_msg`, whose copy is the first one. -/
def checkHeadIo (cfg : VossCfg) (io : VossIo) (data : Bytes) (datalen : Nat) (s : Voss) :
    Option HeadInfo → VossRound
  | none => ⟨.noData, s, false, []⟩
  | some h =>
    let head : VossCopy := ⟨0, headsize, datalen, some headsize⟩
    if h.IsMsg then
      if datalen < h.totallen then ⟨.noData, s, false, [head]⟩
      else
        ⟨.again, ((checkMsg cfg data h s).getD s).consume h.totallen, true,
          head :: bodyCopies s datalen h⟩
    else if h.cmdid = reqSubmit then
      let r := processDataReqIo cfg io h s
      { r with copies := head :: r.copies }
    else ⟨.close, s, false, [head]⟩

/-- `check_req`. -/
def checkReqIo (cfg : VossCfg) (io : VossIo) (s : Voss) : VossRound :=
  match mybuffGetdata s.peer.recv with
  | none => ⟨.noData, s, false, []⟩
  | some (data, datalen) => checkHeadIo cfg io data datalen s (parseMsg data (toInt32 datalen))

/-- `svc_recv` notes the time. -/
def vossEnter (cfg : VossCfg) (s : Voss) : Voss :=
  let (now, s) := s.time cfg
  { s with peer := { s.peer with hbtime := now } }

/-- The state in which `svc_recv` comes to its loop. -/
inductive Starts (cfg : VossCfg) (s : Voss) : Voss → Prop
  | idle (h : ¬ s.InSync) : Starts cfg s (vossEnter cfg s)
  | body (io : VossIo) (h : s.InSync) (hin : (subRecvIo cfg io (vossEnter cfg s)).1.1 ≠ .addEpollin)
      (hclose : (subRecvIo cfg io (vossEnter cfg s)).1.1 ≠ .close) :
      Starts cfg s (subRecvIo cfg io (vossEnter cfg s)).1.2

/-- A round behind which the loop goes on. -/
def Turns (cfg : VossCfg) (s t : Voss) : Prop :=
  ∃ io, (checkReqIo cfg io s).state = t ∧
    ((checkReqIo cfg io s).ret = .again ∨ (checkReqIo cfg io s).ret = .addEpollout)

/-- A state in which a round of `svc_recv` begins. -/
def InLoop (cfg : VossCfg) (s t : Voss) : Prop :=
  ∃ t0, Starts cfg s t0 ∧ Relation.ReflTransGen (Turns cfg) t0 t

/-- `svc_recv` is robust: it comes to an end, every message it handles takes at least a head from the
buffer, and all copies stay in bounds, whatever the system calls return. -/
structure Robust (cfg : VossCfg) (s : Voss) : Prop where
  returns : ∀ t, Starts cfg s t → Acc (fun b a => Turns cfg a b) t
  consumes : ∀ t io, InLoop cfg s t → (checkReqIo cfg io t).handled = true →
    (checkReqIo cfg io t).state.peer.recv.len + headsize ≤ t.peer.recv.len
  bounds : ∀ t io, InLoop cfg s t → ∀ c ∈ (checkReqIo cfg io t).copies, c.InBounds
  body : ∀ io, s.InSync → ∀ c ∈ (subRecvIo cfg io (vossEnter cfg s)).2, c.InBounds

/-! ## The heads in the buffer -/

/-- The head at a position of the received bytes. -/
def headAt (d : Bytes) (p : Nat) : Option HeadInfo := parseMsg (d.drop p) (toInt32 (d.length - p : Nat))

/-- A `write` of the bytes from `p` on can complete a body of which `recvlen` of `datalen` bytes are
there, and `q` comes next. The lengths are `int`s. -/
def Completes (d : Bytes) (p : Nat) (datalen recvlen : Int) (q : Nat) : Prop :=
  p < d.length ∧ ∃ k : Nat, k ≤ d.length - p ∧ k ≤ (toInt32 (datalen - recvlen) % 2 ^ 64).toNat ∧
    0 ≤ toInt32 k ∧ datalen ≤ recvlen + toInt32 k ∧ q = p + (toInt32 k).toNat

/-- Where heads are looked for in the received bytes: at the start or behind the body that is being
received, behind a message that is there as a whole, and behind a body that is submitted. -/
inductive HeadPos (s : Voss) : Nat → Prop
  | start (h : ¬ s.InSync) : HeadPos s 0
  | body {p : Nat} (h : s.InSync) (file : s.peer.localInFd.isSome)
      (done : Completes s.peer.recv.live 0 s.peer.datalen s.peer.recvlen p) : HeadPos s p
  | message {p : Nat} {h : HeadInfo} (pos : HeadPos s p) (head : headAt s.peer.recv.live p = some h)
      (cmd : h.IsMsg) (whole : h.totallen ≤ s.peer.recv.live.length - p) : HeadPos s (p + h.totallen)
  | submit {p q : Nat} {h : HeadInfo} (pos : HeadPos s p) (head : headAt s.peer.recv.live p = some h)
      (cmd : h.cmdid = reqSubmit)
      (done : Completes s.peer.recv.live (p + headsize) (toInt32 ((h.totallen : Int) - headsize)) 0 q) :
      HeadPos s q

/-- A message that is there as a whole, with `avail` bytes from its head on, is at least a head long; a
`REQ_AUTH` has no more than fits `sip`, and a heartbeat that is noted has a byte behind its head. -/
def SoundHead (s : Voss) (avail : Nat) (h : HeadInfo) : Prop :=
  h.IsMsg → h.totallen ≤ avail →
    headsize ≤ h.totallen ∧ (h.cmdid = reqAuth → h.totallen ≤ headsize + 128) ∧
      (h.cmdid = reqHeartbeat → s.cStat.isSome → headsize < avail)

/-- All heads that are looked at are sound. -/
def SoundHeads (s : Voss) : Prop :=
  ∀ p h, HeadPos s p → headAt s.peer.recv.live p = some h → SoundHead s (s.peer.recv.live.length - p) h

end VfsOss
