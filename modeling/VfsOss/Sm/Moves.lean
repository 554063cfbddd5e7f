import VfsOss.Sm.Machine

/-!
# What a call into the receiving plugin can do

Seen from the records and the files, a call of `do_recv` has three phases: the header is looked at,
bytes of the block are written, and the connection is closed. Each phase does one of a few things.
-/

namespace VfsOss

open CLib

/-- The block a connection receives: its record, and the node and offset written next. -/
def Sm.recv (s : Sm) (fd : Nat) : Option (Tasklist × Nat × Nat) :=
  (s.acon fd).user.bind fun p => p.recvtask.bind fun t => p.localInFd.map fun f => (t, f)

/-- The record of a block, with the name of its temporary file, as `do_prepare_recvfile` leaves it. -/
def prepared (cfg : Cfg) (t : Tasklist) : Tasklist :=
  { t with base := { t.base with
      fsize := toInt64 (t.sub.end_ - t.sub.start + 1)
      getlen := 0
      tmpfile := subfile (getLocaldir cfg t.base.hostname t.base.filename) t.sub.idx t.sub.count } }

/-- A record that `check_req` has just made from a header. -/
structure Posted (task0 t : Tasklist) : Prop where
  addr : t.addr = task0.addr
  expire : t.base.expire = 0
  retry : t.base.retry = 0
  stime : t.base.stime = 0
  got : t.got = []

/-- A record that ends with a status. -/
def Tasklist.over (t : Tasklist) (status : OverStatus) : Tasklist :=
  { t with base := { t.base with overstatus := status } }

/-- A record that has received more bytes, of which `n` are counted. -/
def Tasklist.receive (t : Tasklist) (bytes : Bytes) (n : Int) : Tasklist :=
  { t with base := { t.base with getlen := t.base.getlen + n }, got := t.got ++ bytes }

/-- Two states with the same records, files and history. -/
structure SameRecords (s s' : Sm) : Prop where
  store : s'.store = s.store
  fs : s'.fs = s.fs
  log : s'.log = s.log
  recv : s'.recv = s.recv

/-- The first phase, for the connection `fd`: nothing, the list of missing blocks, or a block that is
refused, or started when its file `opens`. -/
inductive HeadMove (cfg : Cfg) (opens : Bool) (fd : Nat) (s s' : Sm) : Prop
  | stay (h : SameRecords s s')
  | ask (hostname : Bytes) (store : s'.store = (getTaskUnok cfg s.store hostname).2.2)
      (fs : s'.fs = s.fs) (log : s'.log = s.log) (recv : s'.recv = s.recv)
  | noRecord (none : ∀ t, (vfsGetTask cfg.mallocOk s.store .home).1 ≠ .ok t)
      (store : s'.store = (vfsGetTask cfg.mallocOk s.store .home).2)
      (fs : s'.fs = s.fs) (log : s'.log = s.log) (recv : s'.recv = s.recv)
  | refuse (task0 t : Tasklist) (st : TaskStore)
      (home : vfsGetTask cfg.mallocOk s.store .home = (.ok task0, st)) (posted : Posted task0 t)
      (store : s'.store = vfsSetTask st ((prepared cfg t).over .eOpenDstfile) .fin)
      (fs : s'.fs = s.fs) (log : s'.log = s.log ++ [.post t]) (recv : s'.recv = s.recv)
      (free : s.recv fd = none)
  | start (task0 t : Tasklist) (st : TaskStore)
      (home : vfsGetTask cfg.mallocOk s.store .home = (.ok task0, st)) (posted : Posted task0 t)
      (opened : opens = true) (free : s.recv fd = none) (store : s'.store = st)
      (fs : s'.fs = (s.fs.creat (prepared cfg t).base.tmpfile).2) (log : s'.log = s.log ++ [.post t])
      (recv : s'.recv = Function.update s.recv fd
        (some (prepared cfg t, (s.fs.creat (prepared cfg t).base.tmpfile).1, 0)))

/-- The second phase: nothing, or bytes that are written to the block's file. Their number is counted
in an `int`; a negative number counts as an error. -/
inductive BodyMove (fd : Nat) (s s' : Sm) : Prop
  | stay (h : SameRecords s s')
  | write (t : Tasklist) (node off : Nat) (bytes : Bytes) (recv0 : s.recv fd = some (t, node, off))
      (fits : bytes.length ≤ (toInt32 (t.base.fsize - t.base.getlen) % 2 ^ 64).toNat)
      (pos : 0 ≤ toInt32 bytes.length)
      (more : t.base.getlen + toInt32 bytes.length < t.base.fsize)
      (store : s'.store = s.store) (fs : s'.fs = s.fs.pwrite node off bytes) (log : s'.log = s.log)
      (recv : s'.recv = Function.update s.recv fd
        (some (t.receive bytes (toInt32 bytes.length), node, off + bytes.length)))
  | finish (t : Tasklist) (node off : Nat) (bytes : Bytes) (recv0 : s.recv fd = some (t, node, off))
      (fits : bytes.length ≤ (toInt32 (t.base.fsize - t.base.getlen) % 2 ^ 64).toNat)
      (pos : 0 ≤ toInt32 bytes.length)
      (done : t.base.fsize ≤ t.base.getlen + toInt32 bytes.length)
      (store : s'.store =
        vfsSetTask s.store ((t.receive bytes (toInt32 bytes.length)).over .ok) .fin)
      (fs : s'.fs = s.fs.pwrite node off bytes) (log : s'.log = s.log)
      (recv : s'.recv = Function.update s.recv fd none)
  | overflow (t : Tasklist) (node off : Nat) (bytes : Bytes) (recv0 : s.recv fd = some (t, node, off))
      (fits : bytes.length ≤ (toInt32 (t.base.fsize - t.base.getlen) % 2 ^ 64).toNat)
      (neg : toInt32 bytes.length < 0)
      (store : s'.store = s.store) (fs : s'.fs = s.fs.pwrite node off bytes) (log : s'.log = s.log)
      (recv : s'.recv = Function.update s.recv fd (some (t, node, off + bytes.length)))

/-- The third phase: nothing, or the record still being received is given up. -/
inductive CloseMove (fd : Nat) (s s' : Sm) : Prop
  | stay (h : SameRecords s s')
  | abort (t : Tasklist) (f : Nat × Nat) (recv0 : s.recv fd = some (t, f))
      (store : s'.store = vfsSetTask s.store (t.over .peererr) .fin)
      (fs : s'.fs = s.fs) (log : s'.log = s.log)
      (recv : s'.recv = Function.update s.recv fd none)

/-- What holds of a connection between two calls: a closed one has no peer, a record is only there
while a block is received, and its file is open. -/
structure Conn.Tidy (c : Conn) : Prop where
  closed : c.isOpen = false → c.user = none
  idle : ∀ {p}, c.user = some p → p.sockStat ≠ .recvBodyIng → p.recvtask = none
  file : ∀ {p t}, c.user = some p → p.recvtask = some t → p.localInFd.isSome

/-- What holds of the connections between two calls. -/
def Tidy (s : Sm) : Prop := ∀ fd, (s.acon fd).Tidy

end VfsOss
