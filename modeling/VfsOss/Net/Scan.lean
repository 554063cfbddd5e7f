import VfsOss.CLib.Rings
import VfsOss.Net.Pend

/-!
# A scan of the pending lists

The pending lists of `vfs_so.c` as they are in memory: nodes in the `struct conn`s with pointers to each other, walked
with a saved next pointer while `do_send` and `do_recv` move nodes about. What the calls of the kernel and the plugin
return is up to each round.
-/

namespace VfsOss

open CLib

/-- Every `list_head_t`: `send_list`, `tmp_send_list`, `recv_list` and `tmp_recv_list`, and the `send_pend_list` and
the `recv_pend_list` of every `struct conn`. -/
inductive PendNode where
  | head (d : Dir) (tmp : Bool)
  | link (d : Dir) (fd : Nat)
  deriving DecidableEq

/-- The connection whose node this is, as `list_entry` finds it in a list of one direction. -/
def PendNode.peer (d : Dir) : PendNode → Option Nat
  | .head .. => none
  | .link d' fd => if d' = d then some fd else none

/-- A call of `do_send` or `do_recv` for a connection; `byScan` when `scan_pend_list` itself makes it. -/
structure PendCall where
  dir : Dir
  peer : Nat
  byScan : Bool
  deriving DecidableEq

/-- The memory: the pointers, and the `fd` of every `struct conn`. `calls` and `putOff` are histories: the calls that
a scan has led to, and what `add_to_pend` has put off. -/
structure PendMem where
  links : ListHeads PendNode
  fd : Nat → Int
  calls : List PendCall
  putOff : List (Dir × Nat)

namespace PendMem

/-- A call is noted. -/
def called (m : PendMem) (d : Dir) (peer : Nat) (byScan : Bool) : PendMem :=
  { m with calls := m.calls ++ [⟨d, peer, byScan⟩] }

/-- `list_del_init` of a connection's node. -/
def del (m : PendMem) (d : Dir) (fd : Nat) : PendMem := { m with links := listDelInit m.links (.link d fd) }

/-- `list_add_tail` of a connection's node. -/
def addTail (m : PendMem) (d : Dir) (tmp : Bool) (fd : Nat) : PendMem :=
  { m with links := listAddTail m.links (.link d fd) (.head d tmp) }

/-- `add_to_pend`. -/
def addToPend (m : PendMem) (d : Dir) (tmp : Bool) (fd : Nat) : PendMem :=
  { (m.del d fd).addTail d tmp fd with putOff := m.putOff ++ [(d, fd)] }

/-- `do_close`. -/
def doClose (maxfds : Nat) (fd : Int) (m : PendMem) : PendMem :=
  if 0 ≤ fd ∧ fd < maxfds then
    if m.fd fd.toNat < 0 then m else { m with fd := Function.update m.fd fd.toNat (-1) }
  else m

/-- `do_send`. -/
def doSend (maxfds : Nat) (fd : Int) (flag : Bool) (call : SendCall) (m : PendMem) : PendMem :=
  if fd < 0 then m
  else if m.fd fd.toNat < 0 then m
  else if call.pends then m.addToPend .send flag fd.toNat
  else
    match call.ret with
    | .close => m.doClose maxfds fd
    | .addEpollin => if call.svcSend = .close then m.doClose maxfds fd else m
    | .addEpollout => m

/-- `do_recv`. -/
def doRecv (maxfds : Nat) (fd : Int) (flag : Bool) (call : RecvCall) (m : PendMem) : PendMem :=
  if fd < 0 then m
  else if m.fd fd.toNat < 0 then m
  else if call.pends then m.addToPend .recv flag fd.toNat
  else if call.ends then m.doClose maxfds fd
  else
    match call.svcRecv with
    | .send => (m.called .send fd.toNat false).doSend maxfds fd false call.send
    | .close => m.doClose maxfds fd
    | _ => m

/-- `list_for_each_entry_safe_l` over one of the lists. Nothing is returned for undefined behaviour, or when the loop
does not come back to the head of the list within as many steps as there are connections. -/
def walk (maxfds : Nat) (d : Dir) (tmp : Bool) (body : Nat → PendMem → PendMem) (m : PendMem) : Option PendMem :=
  forEachSafe links (.head d tmp) (fun node m => (node.peer d).map fun fd => body fd m) (maxfds + 1)
    (m.links.next (.head d tmp)) (m.links.next (m.links.next (.head d tmp))) m

/-- The body of the loops over the temporary lists. -/
def moveDeferred (d : Dir) (fd : Nat) (m : PendMem) : PendMem := (m.del d fd).addTail d false fd

/-- The body of the loop over `send_list`. `io` says what happens in each round. -/
def sendDeferred (maxfds : Nat) (io : Nat → RecvCall) (fd : Nat) (m : PendMem) : PendMem :=
  ((m.del .send fd).called .send fd true).doSend maxfds (m.fd fd) true (io m.calls.length).send

/-- The body of the loop over `recv_list`. -/
def recvDeferred (maxfds : Nat) (io : Nat → RecvCall) (fd : Nat) (m : PendMem) : PendMem :=
  ((m.del .recv fd).called .recv fd true).doRecv maxfds (m.fd fd) true (io m.calls.length)

/-- `scan_pend_list`. -/
def scanPendList (maxfds : Nat) (io : Nat → RecvCall) (m : PendMem) : Option PendMem := do
  let m ← m.walk maxfds .send true (moveDeferred .send)
  let m ← m.walk maxfds .send false (sendDeferred maxfds io)
  let m ← m.walk maxfds .recv true (moveDeferred .recv)
  m.walk maxfds .recv false (recvDeferred maxfds io)

/-- The calls made since an earlier state of the memory. -/
def callsSince (m m' : PendMem) : List PendCall := m'.calls.drop m.calls.length

/-- What has been put off since then. -/
def putOffSince (m m' : PendMem) : List (Dir × Nat) := m'.putOff.drop m.putOff.length

end PendMem

/-! ## What is expected of it -/

/-- A list: the temporary one of a direction, or the other one. -/
def Pend.lists (s : Pend) (k : Dir × Bool) : List Nat := if k.2 then s.tmpList k.1 else s.pendList k.1

/-- The memory holds the lists of a state and its descriptors; a slot in a list is one of the `maxfds` there are, and
has its own descriptor or none. -/
structure PendMem.Models (maxfds : Nat) (m : PendMem) (s : Pend) : Prop where
  rings : Rings m.links (fun k : Dir × Bool => PendNode.head k.1 k.2) fun k => (s.lists k).map (.link k.1)
  fd : ∀ i, m.fd i = (s.acon i).fd
  named : ∀ {d i}, s.Linked d i → i < maxfds ∧ ((s.acon i).fd = i ∨ (s.acon i).fd = -1)

/-- The call of `do_recv` is not put off, and `svc_recv` returns `RECV_SEND`. -/
def RecvCall.answers (call : RecvCall) : Prop := call.pends = false ∧ call.ends = false ∧ call.svcRecv = .send

/-- What is expected of a scan from the lists of `s` that ends with those of `s'`: the scan is one of the list-level
machine; it makes one call for every connection in a list and no others, except that `do_recv` calls `do_send` once
for a connection that `svc_recv` has an answer for; what has been put off again is in one list of its direction. -/
structure ScanDone (maxfds : Nat) (io : Nat → RecvCall) (m : PendMem) (s : Pend) (m' : PendMem) (s' : Pend) :
    Prop where
  models : m'.Models maxfds s'
  steps : s'.scan = none ∧ ∃ rounds, s' = run (fun s call => s.scanNext maxfds call) (s.startScan .send) rounds
  once : ∀ d i, s.Linked d i → (m.callsSince m').count ⟨d, i, true⟩ = 1
  only : ∀ c ∈ m.callsSince m', c.byScan = true → s.Linked c.dir c.peer
  others : ∀ c ∈ m.callsSince m', c.byScan = false → c.dir = .send ∧
    ∃ k, m.calls.length ≤ k ∧ m'.calls[k]? = some ⟨.recv, c.peer, true⟩ ∧ (io k).answers
  atMost : ∀ i, (m.callsSince m').count ⟨.send, i, false⟩ ≤ 1
  again : ∀ p ∈ m.putOffSince m', Xor (p.2 ∈ s'.pendList p.1) (p.2 ∈ s'.tmpList p.1)

end VfsOss
