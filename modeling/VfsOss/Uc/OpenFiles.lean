import Mathlib.Logic.Function.Basic
import VfsOss.CLib.Run
import VfsOss.Uc.Dispatch

/-!
# The files opened for sending

`inotify_new_task` of `uc_client` opens the file of a block, connects to the SM and hands the file to the buffer of
the connection, which closes it. This file models the descriptors of the process; what the calls of the kernel and
the plugin return is up to each call.
-/

namespace VfsOss

/-- The descriptors of the process: those of the files that `inotify_new_task` has opened, all others, and the file
in the `send_buff` of every `struct conn`. -/
structure UcFds where
  files : List Nat
  others : List Nat
  sendFd : Nat → Option Nat

namespace UcFds

/-- The descriptors in use. -/
def used (d : UcFds) : List Nat := d.files ++ d.others

/-- The descriptor that `open` and `socket` return: the lowest one not in use. -/
def lowest (d : UcFds) : Nat := ((List.range (d.used.length + 1)).find? fun fd => fd ∉ d.used).getD 0

/-- `close`. -/
def close (d : UcFds) (fd : Nat) : UcFds :=
  { d with files := d.files.filter (· ≠ fd), others := d.others.filter (· ≠ fd) }

/-- The file in the `send_buff` of a connection is closed, if there is one. -/
def dropFile (d : UcFds) (c : Nat) : UcFds :=
  match d.sendFd c with
  | none => d
  | some fd => { d.close fd with sendFd := Function.update d.sendFd c none }

/-- `mybuff_skipfile` on the `send_buff` of a connection, when the rest of the file has been sent. -/
def mybuffSkipfile (d : UcFds) (c : Nat) : UcFds := d.dropFile c

/-- `mybuff_reinit` on the `send_buff` of a connection. -/
def mybuffReinit (d : UcFds) (c : Nat) : UcFds := d.dropFile c

/-- `mybuff_setfile` on the `send_buff` of a connection. -/
def mybuffSetfile (d : UcFds) (c lfd : Nat) : UcFds :=
  let d := d.dropFile c
  { d with sendFd := Function.update d.sendFd c (some lfd) }

/-- `do_close`: the `send_buff` keeps its file until the next connection with the descriptor is set up. -/
def doClose (d : UcFds) (c : Nat) : UcFds := if c ∈ d.others then d.close c else d

end UcFds

/-- What happens in a call of `inotify_new_task`: whether `open`, `socket`, `connect` and `svc_initconn` succeed. -/
structure NewTaskIo where
  open_ : Bool
  socket : Bool
  connect : Bool
  initconn : Bool

/-- `createsocket`. -/
def UcFds.createsocket (io : NewTaskIo) (d : UcFds) : Option Nat × UcFds :=
  if ¬ io.socket then (none, d)
  else
    let sockfd := d.lowest
    let d := { d with others := d.others ++ [sockfd] }
    if ¬ io.connect then (none, d.close sockfd) else (some sockfd, d)

/-- `active_connect`. -/
def UcFds.activeConnect (io : NewTaskIo) (d : UcFds) : Option Nat × UcFds :=
  match d.createsocket io with
  | (none, d) => (none, d)
  | (some fd, d) => if ¬ io.initconn then (none, d.close fd) else (some fd, d.mybuffReinit fd)

/-- `inotify_new_task`, true when it returns 0. A file that has been opened stays open when there is no
connection. -/
def UcFds.inotifyNewTask (io : NewTaskIo) (d : UcFds) : Bool × UcFds :=
  if ¬ io.open_ then (false, d)
  else
    let lfd := d.lowest
    match { d with files := d.files ++ [lfd] }.activeConnect io with
    | (none, d) => (false, d)
    | (some fd, d) => (true, d.mybuffSetfile fd lfd)

/-- `inotify_new_task` as `check_task` calls it: `ios` says what happens in each call of one round. -/
def newTask (ios : Nat → NewTaskIo) (x : UcFds × Nat) (_ : Tasklist) : Bool × (UcFds × Nat) :=
  let r := x.1.inotifyNewTask (ios x.2)
  (r.1, r.2, x.2 + 1)

/-- The sender: its descriptors and its queues. -/
structure UcSender where
  fds : UcFds
  store : TaskStore

/-- The steps: a round of `check_task`, and what happens between two rounds: the queues change, a file has been
sent, a connection is closed. -/
inductive UcSenderAct where
  | check (ios : Nat → NewTaskIo)
  | queues (store : { st : TaskStore // WellPlaced st })
  | sent (fd : Nat)
  | closed (fd : Nat)

/-- One step. -/
def ucSenderStep (mallocOk : Nat → Bool) (csMaxTaskRunOnce : Nat) (s : UcSender) : UcSenderAct → UcSender
  | .check ios =>
    let r := UcClient.checkTask mallocOk csMaxTaskRunOnce (newTask ios) (s.fds, 0) s.store
    { fds := r.1.1, store := r.2 }
  | .queues store => { s with store := store }
  | .sent fd => { s with fds := s.fds.mybuffSkipfile fd }
  | .closed fd => { s with fds := s.fds.doClose fd }

/-- The start: `n` records, and the descriptors that have been opened before. -/
def UcSender.start (n : Nat) (others : List Nat) : UcSender where
  fds := ⟨[], others, fun _ => none⟩
  store := initTaskInfo n

/-! ## What is expected of it -/

/-- An open file that is in no connection's buffer. -/
def UcFds.Unowned (d : UcFds) (fd : Nat) : Prop := fd ∈ d.files ∧ ∀ c, d.sendFd c ≠ some fd

/-- What is expected of a step: every file that has been opened is in a connection's buffer or closed, so the number
of those that are in none is 0 after every round. -/
def NoneUnowned (mallocOk : Nat → Bool) (csMaxTaskRunOnce : Nat) (s : UcSender) (a : UcSenderAct) : Prop :=
  ∀ fd, ¬ (ucSenderStep mallocOk csMaxTaskRunOnce s a).fds.Unowned fd

/-- The file is opened and the connection to send it on is not set up. -/
def NewTaskIo.leaks (io : NewTaskIo) : Bool := io.open_ && ¬ (io.socket && io.connect && io.initconn)

/-- The condition on a round: for every block that is tried and whose file can be opened, the connection is set
up. -/
def StepConnects (csMaxTaskRunOnce : Nat) (s : UcSender) : UcSenderAct → Prop
  | .check ios => ∀ k < min (csMaxTaskRunOnce - 1) (waitingToSend s.store).length, (ios k).leaks = false
  | _ => True

end VfsOss
