import VfsOss.Sm.Machine

/-!
# How often a block is asked for again

A failed transfer is asked for again through `TASK_WAIT`. The counter that bounds this is a field of the
record, which goes to `TASK_HOME` when the request is handed out, so the next transfer of the block has a
counter of its own. Here the requests are counted beside the process.
-/

namespace VfsOss

open CLib

/-- The block a record is about: host, file, index and count. -/
def Tasklist.block (t : Tasklist) : Bytes × Bytes × Int × Int :=
  (t.base.hostname, t.base.filename, t.sub.idx, t.sub.count)

/-- The process, and how often each block has been sent back to `TASK_WAIT` since the upload of its file
began. -/
structure Retries where
  sm : Sm
  resends : Bytes × Bytes × Int × Int → Nat

def Retries.init (n : Nat) : Retries := ⟨.init n, fun _ => 0⟩

/-- The record of a failed transfer that a step processes. -/
def failedTask (s : Sm) (a : SmAct) : Option Tasklist :=
  (processed s a).filter fun t => t.base.overstatus ≠ .ok

/-- The record is in `TASK_WAIT`. -/
def waits (s : Sm) (t : Tasklist) : Bool := (s.store.vfstask .wait).any fun u => u.addr = t.addr

/-- A step of the process, with what it sends back counted. -/
def retryStep (cfg : Cfg) (r : Retries) (a : SmAct) : Retries where
  sm := smStep cfg r.sm a
  resends :=
    match failedTask r.sm a, a with
    | some t, _ =>
      if waits (smStep cfg r.sm a) t then
        Function.update r.resends t.block (r.resends t.block + 1)
      else r.resends
    | none, .began hostname filename => fun k =>
      if k.1 = hostname ∧ k.2.1 = filename then 0 else r.resends k
    | none, _ => r.resends

/-- The transfers that fail in a step: the records it puts into `TASK_FIN` with another status than
`OVER_OK`. -/
def newFailed (s s' : Sm) : List Tasklist :=
  ((s'.store.vfstask .fin).drop (s.store.vfstask .fin).length).filter fun t => t.base.overstatus ≠ .ok

/-- The failed transfers of a block among some records. -/
def failedOf (k : Bytes × Bytes × Int × Int) (l : List Tasklist) : Nat :=
  l.countP fun t => t.base.overstatus ≠ .ok ∧ t.block = k

/-- A transfer of a block fails only while the requests made for the block in this upload and its failed
transfers, those that wait in `TASK_FIN` and those of the step, are at most `g_config.retry`. -/
def FailsWithin (cfg : Cfg) (r : Retries) (a : SmAct) : Prop :=
  cfg.retry ≠ 0 → ∀ t ∈ newFailed r.sm (smStep cfg r.sm a),
    r.resends t.block + failedOf t.block (r.sm.store.vfstask .fin) +
      failedOf t.block (newFailed r.sm (smStep cfg r.sm a)) ≤ cfg.retry

instance (cfg : Cfg) (r : Retries) (a : SmAct) : Decidable (FailsWithin cfg r a) :=
  inferInstanceAs (Decidable (_ → _))

/-- When a block that has been asked for `g_config.retry` times fails, its file is given up. -/
def GivesUp (cfg : Cfg) (r : Retries) (a : SmAct) : Prop :=
  ∀ t ∈ failedTask r.sm a, r.resends t.block = cfg.retry →
    ∃ s, s.store = r.sm.popFin.store ∧ smStep cfg r.sm a =
      (clearAlltaskTimeout t.base.hostname t.base.filename t.sub.count s).note (.leak t)

/-- A connection on which a host asks for the blocks that are missing. -/
def SmAct.ask (fd : Nat) (hostname : Bytes) : List SmAct :=
  [.accept fd 0 fun _ => 0, .recv fd (UcHttp.createHeader 250 hostname) .ok, .close fd]

/-- A block whose transfer breaks off behind the header, and the pass that processes it. -/
def SmAct.broken (fd : Nat) (hostname filename : Bytes) : List SmAct :=
  SmAct.post fd hostname filename 1 1 1 [] ++ [.close fd, .finBegin, .finIter .ok, .finIter .ok]

end VfsOss
