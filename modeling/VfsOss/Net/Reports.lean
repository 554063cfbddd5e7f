import VfsOss.Task.Fifo

/-!
# Task reports

`vfs_agent.c` takes a line for each record in `TASK_CLEAN` into `databuff`, moves the lines to the `send_buff` of its
default connection and writes them to a file. What the other threads do to the task store comes between the rounds.
-/

namespace VfsOss

open CLib

/-- What a round of `do_run` is given: `voss_tmpdir`, what `get_strtime` writes, whether `open` succeeds, and how many
bytes `write` takes of those it is offered, nothing when it returns -1. -/
structure RoundIn where
  tmpdir : Option Bytes
  day : Bytes
  opens : Bool
  wrote : Option Nat

/-- The task store with `databuff`, and the buffers of `defconn`. `produced` and `dumped` are not in the program: they
are histories of the lines that `get_data_from_task` has put into `databuff` and of what was written to which file. -/
structure Agent where
  calls : TaskCalls
  sendBuff : Mybuff
  recvBuff : Mybuff
  produced : Bytes
  dumped : List (Bytes × Bytes)

/-- The file that is written to. -/
def dumpName (tmpdir day : Bytes) : Bytes :=
  snprintf 256 (tmpdir ++ txt "/" ++ txt "voss_" ++ day.take 10 ++ txt ".data")

/-- The result of `write`, as the `size_t` it is kept in. -/
def writeResult (wrote : Option Nat) (len : Nat) : Nat :=
  match wrote with
  | none => 2 ^ 64 - 1
  | some n => min n len

/-- `dump_to_file`. -/
def dumpToFile (r : RoundIn) (tmpdir : Bytes) (a : Agent) : Agent :=
  if !r.opens then a
  else
    match mybuffGetdata a.sendBuff with
    | none => a
    | some (data, len) =>
      let n := writeResult r.wrote len
      { a with
        dumped := a.dumped ++ [(dumpName tmpdir r.day, (data.take len).take (r.wrote.getD 0))]
        sendBuff := if n > 0 then mybuffSkipdata a.sendBuff n else a.sendBuff }

/-- `do_scan` with `type` 0: whether there is data to write. -/
def doScan (env : TaskEnv) (a : Agent) : Agent × Bool :=
  let calls := taskStep env a.calls (.scanData .clean)
  let a := { a with
    calls := calls
    produced := a.produced ++ calls.mem.databuff.live.drop a.calls.mem.databuff.live.length }
  match mybuffGetdata calls.mem.databuff with
  | none => (a, false)
  | some (data, len) =>
    ({ a with
       sendBuff := mybuffSetdata env.initBuffSize env.mem a.sendBuff (data.take len)
       calls := { calls with mem := { calls.mem with databuff := mybuffSkipdata calls.mem.databuff len } } }, true)

/-- `do_run`, up to the first `return`. -/
def doRun (env : TaskEnv) (r : RoundIn) (a : Agent) : Agent :=
  let a := { a with
    sendBuff := mybuffReinit env.initBuffSize env.mem a.sendBuff
    recvBuff := mybuffReinit env.initBuffSize env.mem a.recvBuff }
  let tmpdir := r.tmpdir.getD (txt "../path/tmpdir")
  let (a, outdata) := doScan env a
  if outdata then dumpToFile r tmpdir a else a

/-- A call that another thread makes, or a round of the agent. -/
inductive AgentOp where
  | call (op : TaskOp)
  | round (r : RoundIn)

/-- One step. -/
def agentStep (env : TaskEnv) (a : Agent) : AgentOp → Agent
  | .call op => { a with calls := taskStep env a.calls op }
  | .round r => doRun env r a

/-- What other threads keep to; `get_data_from_task` is a callback of the agent alone. -/
def AgentAllowed (a : Agent) : AgentOp → Prop
  | .call (.scanData _) => False
  | .call op => Allowed a.calls op
  | .round _ => True

instance AgentAllowed.decidable : ∀ (a : Agent) (op : AgentOp), Decidable (AgentAllowed a op)
  | _, .call (.scanData _) => .isFalse id
  | a, .call (.get st) => inferInstanceAs (Decidable (Allowed a.calls (.get st)))
  | a, .call (.set task base sub st) => inferInstanceAs (Decidable (Allowed a.calls (.set task base sub st)))
  | a, .call (.scanTimeout st cur) => inferInstanceAs (Decidable (Allowed a.calls (.scanTimeout st cur)))
  | _, .round _ => .isTrue trivial

/-- The agent after `init_task_info` and `vfs_agent_init`. -/
def Agent.init (links : ListHeads Node) (n : Nat) : Agent :=
  ⟨TaskCalls.init links n, mybuffInit, mybuffInit, [], []⟩

/-! ## What is expected of it -/

/-- All that was written, in the order of the writes. -/
def Agent.written (a : Agent) : Bytes := (a.dumped.map (·.2)).flatten

/-- Every line that was produced is in a file or still buffered, in the order they were produced. -/
def Agent.Accounted (a : Agent) : Prop :=
  a.produced = a.written ++ (a.sendBuff.live ++ a.calls.mem.databuff.live)

/-- Nothing is lost at any point of a run. -/
def KeepsReports (env : TaskEnv) (a : Agent) (ops : List AgentOp) : Prop :=
  ∀ done, done <+: ops → (run (agentStep env) a done).Accounted

/-- A round that loses nothing: nothing is left to send from the rounds before, and `write` does not fail when there
is a record to report. -/
def LosesNothing (a : Agent) : AgentOp → Prop
  | .call _ => True
  | .round r => a.sendBuff.live = [] ∧
      (r.opens = true → r.wrote = none → a.calls.mem.getTaskCount .clean = 0)

end VfsOss
