import VfsOss.Sm.Machine

/-!
# Records handed from connection to connection

A ledger kept beside the receiving process: for every descriptor the records that `check_req` took
from `TASK_HOME` and those that calls on it put into `TASK_FIN`, in order.
-/

namespace VfsOss

open CLib

/-- The descriptor a step is a call for. -/
def SmAct.conn : SmAct → Option Nat
  | .accept fd _ _ => some fd
  | .recv fd _ _ => some fd
  | .send fd _ => some fd
  | .close fd => some fd
  | .finBegin => none
  | .finIter _ => none
  | .began _ _ => none

/-- The record of an event, when it is `check_req` that took it. -/
def Event.postAddr : Event → Option Nat
  | .post t => some t.addr
  | _ => none

/-- The records taken from `TASK_HOME` by `check_req` between two states. -/
def takenBy (s s' : Sm) : List Nat := (s'.log.drop s.log.length).filterMap Event.postAddr

/-- The records put into `TASK_FIN` between two states of a connection's call, which takes none out. -/
def putBy (s s' : Sm) : List Nat :=
  ((s'.store.vfstask .fin).drop (s.store.vfstask .fin).length).map Tasklist.addr

/-- The process and its ledger. -/
structure Ledger where
  sm : Sm
  taken : Nat → List Nat
  put : Nat → List Nat

/-- The process with the ledger of a start. -/
def Ledger.init (n : Nat) : Ledger := ⟨.init n, fun _ => [], fun _ => []⟩

/-- A step of the process that leads to `s'`, entered in the ledger of its descriptor. -/
def Ledger.enter (l : Ledger) (a : SmAct) (s' : Sm) : Ledger :=
  match a.conn with
  | none => { l with sm := s' }
  | some fd =>
    { sm := s'
      taken := Function.update l.taken fd (l.taken fd ++ takenBy l.sm s')
      put := Function.update l.put fd (l.put fd ++ putBy l.sm s') }

/-- A step of the process with its ledger. -/
def ledgerStep (cfg : Cfg) (l : Ledger) (a : SmAct) : Ledger := l.enter a (smStep cfg l.sm a)

/-- `peer->recvtask` of a descriptor. -/
def Sm.recvtask (s : Sm) (fd : Nat) : Option Tasklist := (s.acon fd).user.bind Peer.recvtask

/-- No record a connection receives is in a queue, in the table or with another connection. -/
structure Apart (s : Sm) : Prop where
  queue : ∀ {fd t q u}, s.recvtask fd = some t → u ∈ s.store.vfstask q → u.addr ≠ t.addr
  table : ∀ {fd t u}, s.recvtask fd = some t → InAlltask s.store u → u.addr ≠ t.addr
  conn : ∀ {fd fd' t t'}, s.recvtask fd = some t → s.recvtask fd' = some t' → t.addr = t'.addr →
    fd = fd'

end VfsOss
