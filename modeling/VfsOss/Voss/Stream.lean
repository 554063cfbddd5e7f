import VfsOss.CLib.Run
import VfsOss.Voss.Recv

/-!
# The stream of a peer

What a peer sends, and what should have become of it once some of its bytes have arrived.
-/

namespace VfsOss

open CLib

/-- A well-formed message, with the number in its head. -/
inductive VossMsg where
  | submit (seq : Nat) (body : Bytes) (le : body.length ≤ 2 ^ 31 - 13)
  | heartbeat (seq : Nat) (stat : UInt8)
  | rsp (seq : Nat) (body : Bytes) (le : body.length ≤ 2 ^ 32 - 13)

/-- The body of a message. -/
def VossMsg.body : VossMsg → Bytes
  | .submit _ body _ => body
  | .heartbeat _ stat => [stat]
  | .rsp _ body _ => body

/-- The command of a message. -/
def VossMsg.cmdid : VossMsg → Nat
  | .submit .. => reqSubmit
  | .heartbeat .. => reqHeartbeat
  | .rsp .. => rspVfsCmd

/-- The number of a message. -/
def VossMsg.seq : VossMsg → Nat
  | .submit seq _ _ => seq
  | .heartbeat seq _ => seq
  | .rsp seq _ _ => seq

/-- The bytes of a message. -/
def VossMsg.bytes (m : VossMsg) : Bytes := createVossHead m.seq m.cmdid m.body.length ++ m.body

/-- The bytes of a list of messages. -/
def stream (ms : List VossMsg) : Bytes := (ms.map VossMsg.bytes).flatten

/-- What a message has to say to a work file. -/
def VossMsg.submitted : VossMsg → Bytes
  | .submit _ body _ => body
  | _ => []

/-- The text a message has for the status file. -/
def VossMsg.statText : VossMsg → Option Bytes
  | .submit .. => none
  | .heartbeat _ stat => some (sServerStat.getD (stat.toNat % 5) [])
  | .rsp _ body _ => some body

/-- What the peer's work files have got, the oldest first. -/
def Voss.submitted (s : Voss) : Bytes :=
  (s.done.map fun f => f.data).flatten ++
    match s.peer.localInFd with
    | none => []
    | some (_, file) => file.data

/-- The records of texts, each with a time from the clock. -/
def StatRecords (cfg : VossCfg) (ip : Bytes) (texts records : List Bytes) : Prop :=
  List.Forall₂ (fun text record =>
    ∃ n, record = statRecord (getStrtime (cfg.localtime (cfg.clock n))) ip text) texts records

/-- What becomes of the messages `ms`, when `arrived` has arrived of their bytes. Some of the messages
are done; of the next one, if there is one, the bytes `part` have arrived, but not all. The work files
have the bodies that were submitted, with what has arrived of the next one; the status file, which held
`written`, has a record for each heartbeat and response; and nothing is left unprocessed except a head
that is not complete, a heartbeat or a response. -/
def Decoded (cfg : VossCfg) (ip written : Bytes) (ms : List VossMsg) (arrived : Bytes) (s : Voss) : Prop :=
  ∃ done todo part, ms = done ++ todo ∧ arrived = stream done ++ part ∧
    (∃ records, s.cStat = some (written ++ records.flatten) ∧
      StatRecords cfg ip (done.filterMap VossMsg.statText) records) ∧
    match todo with
    | [] => part = [] ∧ s.peer.recv.live = [] ∧ s.submitted = (done.map VossMsg.submitted).flatten
    | .submit seq body le :: _ =>
      part <+: (VossMsg.submit seq body le).bytes ∧ part ≠ (VossMsg.submit seq body le).bytes ∧
      s.submitted = (done.map VossMsg.submitted).flatten ++ part.drop headsize ∧
      s.peer.recv.live = if part.length < headsize then part else []
    | m :: _ =>
      part <+: m.bytes ∧ part ≠ m.bytes ∧ s.submitted = (done.map VossMsg.submitted).flatten ∧
      s.peer.recv.live = part

/-- A call of `svc_recv` returns and asks for more. -/
def Returns (cfg : VossCfg) (s : Voss) (chunk : Bytes) : Prop :=
  ∃ s', vossDeliver cfg s chunk = some (.addEpollin, s')

/-- The bytes of the body that is being received that have not arrived yet. -/
def Voss.remaining (s : Voss) : Int :=
  if s.peer.sockStat = .syncfileing then s.peer.datalen - s.peer.recvlen else 0

/-- When `svc_recv` comes to look for a head, an `int` holds the number of bytes there are. -/
def BufferFits (s : Voss) (chunk : Bytes) : Prop :=
  (s.peer.recv.live ++ chunk).length - s.remaining < 2 ^ 31

instance (s : Voss) (chunk : Bytes) : Decidable (BufferFits s chunk) :=
  inferInstanceAs (Decidable (_ < _))

end VfsOss
