import VfsOss.Sm.Arrays
import VfsOss.Sm.Handover

/-!
# What is expected of the ledger

The ledger of a process that a step may end: a run goes on while the arrays of its steps hold.
-/

namespace VfsOss

open CLib

/-- A step of the process with its arrays, entered in the ledger. -/
def ledgerStepInto (cfg : Cfg) (l : Ledger) (a : SmAct) : Except MemFault Ledger := do
  let s' ← smStepInto cfg l.sm a
  .ok (l.enter a s')

/-- The state of a run of the process with its arrays. -/
def Ledger.reached (cfg : Cfg) (n : Nat) (as : List SmAct) : Except MemFault Ledger :=
  as.foldlM (ledgerStepInto cfg) (Ledger.init n)

/-- What is expected of every state: the records taken for a descriptor are those put into `TASK_FIN` for it and
the one it receives, in order, so a closed one has handed over all of them; a finished record has all its bytes;
whenever `svc_recv` or `svc_finiconn` returns no record is in a list and with a connection at once; and a call
only appends to `TASK_FIN`, each record by one call of `vfs_set_task`, which counts it. -/
structure Ledger.Sound (cfg : Cfg) (l : Ledger) : Prop where
  books : ∀ fd, l.taken fd = l.put fd ++ (l.sm.recvtask fd).toList.map Tasklist.addr
  closed : ∀ fd, (l.sm.acon fd).isOpen = false → l.taken fd = l.put fd
  received : ∀ t ∈ l.sm.store.vfstask .fin, t.base.overstatus = .ok → t.base.fsize ≤ t.base.getlen
  finiconn : ∀ fd, Apart (svcFiniconn fd l.sm)
  recv : ∀ fd (b : Mybuff) (io : RecvIo) r, (l.sm.acon fd).isOpen = true →
    svcRecvInto Mybuff.data cfg io fd (l.sm.setConn fd { l.sm.acon fd with recvBuff := b }) = .ok r →
    Apart r.2 ∧ Apart (svcFiniconn fd r.2)
  counts : ∀ (a : SmAct) s', a.conn.isSome → smStepInto cfg l.sm a = .ok s' →
    l.sm.store.vfstask .fin <+: s'.store.vfstask .fin ∧
    s'.store.taskcount .fin = l.sm.store.taskcount .fin + (putBy l.sm s').length

/-- What is expected of a run: it comes to its end, and every state on the way is as expected. -/
def HandedOver (cfg : Cfg) (n : Nat) (as : List SmAct) : Prop :=
  ∀ as', as' <+: as → ∃ l, Ledger.reached cfg n as' = .ok l ∧ l.Sound cfg

end VfsOss
