import VfsOss.Net.Send
import VfsOss.Sm.RoundTrip
import VfsOss.Sm.Segments

/-!
# Blocks on their way

`uc_client` and `sm_client` at the two ends of any number of connections, each with a block that is sent over it. A
socket takes the bytes in pieces, they arrive in pieces, a connection may end at any time, and the steps of the
connections interleave in any order. A connection is named by its descriptor at `sm_client`.
-/

namespace VfsOss

open CLib

/-- What `inotify_new_task` gives to a connection: the record of a block, and the segment of the file it has opened. -/
structure Parcel where
  base : TaskBase
  sub : TaskSub
  file : FileSeg

namespace Parcel

/-- The header in front of the block. -/
def header (b : Parcel) : Bytes := UcClient.createHeader b.base b.sub

/-- The bytes of the block. -/
def bytes (b : Parcel) : Bytes := b.file.bytes

/-- The connection as `active_send` leaves it. -/
def sender (initBuffSize : Nat) (mem : Nat → UInt8) (sendBuff : Mybuff) (b : Parcel) : Sender :=
  .start ⟨mybuffSetdata initBuffSize mem (mybuffReinit initBuffSize mem sendBuff) b.header, some b.file⟩

/-- The path of its file at `sm_client`. -/
def localdir (cfg : Cfg) (b : Parcel) : Bytes := getLocaldir cfg b.base.hostname b.base.filename

/-- The file a block is received into. -/
def tmpfile (cfg : Cfg) (b : Parcel) : Bytes := subfile (b.localdir cfg) b.sub.idx b.sub.count

/-- A block whose header comes back, and whose segment is as long as the header says. -/
structure Valid (b : Parcel) : Prop where
  sendable : Sendable b.base b.sub
  fits : FitsLines b.base
  block : b.base.type ≠ 250
  len : (b.file.flen : Int) = b.sub.end_ - b.sub.start + 1
  some : 0 < b.file.flen
  short : b.file.flen ≤ 2 ^ 31 - 1

end Parcel

/-- The connections: at `uc_client`, the bytes on the way, and `sm_client` with all of them. -/
structure Delivery where
  senders : Nat → Sender
  wires : Nat → Bytes
  sm : Sm

/-- What can happen on a connection: `do_send` at one end, `do_recv` for some of the bytes on the way at the other, and
the end of the connection seen there. -/
inductive DeliveryAct where
  | send (fd : Nat) (io : SendIo)
  | recv (fd n : Nat) (io : RecvIo)
  | hangUp (fd : Nat)

/-- The connection of a step. -/
def DeliveryAct.fd : DeliveryAct → Nat
  | .send fd _ => fd
  | .recv fd _ _ => fd
  | .hangUp fd => fd

/-- One step. `svc_send` of `uc_client` keeps the connection. -/
def deliveryStep (cfg : Cfg) (w : Delivery) : DeliveryAct → Delivery
  | .send fd io =>
    let out := doSendBuff (w.senders fd) { io with svcClose := false }
    { w with
      senders := Function.update w.senders fd out
      wires := Function.update w.wires fd (w.wires fd ++ out.sent.drop (w.senders fd).sent.length) }
  | .recv fd n io =>
    { w with
      wires := Function.update w.wires fd ((w.wires fd).drop n)
      sm := smStep cfg w.sm (.recv fd ((w.wires fd).take n) io) }
  | .hangUp fd => { w with sm := smStep cfg w.sm (.close fd) }

/-- One step, with the arrays of `sm_client`. -/
def deliveryStepInto (cfg : Cfg) (w : Delivery) : DeliveryAct → Except MemFault Delivery
  | .recv fd n io => do
    let sm ← smStepInto cfg w.sm (.recv fd ((w.wires fd).take n) io)
    .ok { w with wires := Function.update w.wires fd ((w.wires fd).drop n), sm := sm }
  | a => .ok (deliveryStep cfg w a)

/-! ## What is expected -/

/-- The calls of `sm_client` succeed, and fresh memory is zero. -/
def DeliveryAct.Full : DeliveryAct → Prop
  | .recv _ _ io => io.opens = true ∧ io.write = some ∧ ∀ i, io.mem i = 0
  | _ => True

/-- The blocks of two connections are received into different files. -/
def FilesApart (cfg : Cfg) (parcels : Nat → Option Parcel) : Prop :=
  ∀ fd fd' b b', parcels fd = some b → parcels fd' = some b' → b.tmpfile cfg = b'.tmpfile cfg → fd = fd'

/-- The blocks are given to new connections, and the paths of their files fit the array of `get_localdir`'s caller. -/
structure Delivery.Starts (cfg : Cfg) (parcels : Nat → Option Parcel) (w : Delivery) : Prop where
  reached : ∃ n as, w.sm = run (smStep cfg) (Sm.init n) as
  valid : ∀ {fd b}, parcels fd = some b → b.Valid
  path : ∀ {fd b}, parcels fd = some b → (b.localdir cfg).length ≤ 255
  fresh : ∀ {fd b}, parcels fd = some b → (w.sm.acon fd).Fresh ∧ (w.sm.acon fd).recvBuff.Clear
  sender : ∀ {fd b}, parcels fd = some b → ∃ n mem buf, w.senders fd = b.sender n mem buf
  wire : ∀ {fd b}, parcels fd = some b → w.wires fd = []
  apart : FilesApart cfg parcels

/-- The finished record of a block: all its bytes are in its file, or the connection has ended and a part of them is. -/
structure Parcel.Ended (cfg : Cfg) (b : Parcel) (hungUp : Prop) (t : Tasklist) (s : Sm) : Prop where
  sub : t.sub = { b.sub with starttime := 0 }
  tmpfile : t.base.tmpfile = b.tmpfile cfg
  bytes : (t.base.overstatus = .ok ∧ s.fs.content t.base.tmpfile = some b.bytes) ∨
    (t.base.overstatus = .peererr ∧ hungUp ∧ ∃ part, part <+: b.bytes ∧ part.length < b.bytes.length ∧
      s.fs.content t.base.tmpfile = some part)

/-- Nothing of the block is left to be sent or received. -/
def Delivery.Quiet (w : Delivery) (fd : Nat) : Prop := (w.senders fd).buf.pending = [] ∧ w.wires fd = []

/-- **What the deliveries come to.** `ends` are the connections that are done, each with its record: these records have
been put into `TASK_FIN`, in this order. Any other connection is open, with a block that is not there yet, or has
been ended in front of the block. -/
structure Delivery.Sound (cfg : Cfg) (parcels : Nat → Option Parcel) (fin : List Tasklist) (hungUp : Nat → Prop)
    (w : Delivery) (ends : List (Nat × Tasklist)) : Prop where
  fin : w.sm.store.vfstask .fin = fin ++ ends.map Prod.snd
  once : (ends.map Prod.fst).Nodup
  ended : ∀ e ∈ ends, ∃ b, parcels e.1 = some b ∧ b.Ended cfg (hungUp e.1) e.2 w.sm ∧ (w.sm.acon e.1).isOpen = false
  going : ∀ fd b, parcels fd = some b → fd ∉ ends.map Prod.fst →
    ((w.sm.acon fd).isOpen = true ∧ ¬ w.Quiet fd) ∨ ((w.sm.acon fd).isOpen = false ∧ hungUp fd)

end VfsOss
