import VfsOss.CLib.FileSystem
import VfsOss.Net.Mybuff
import VfsOss.Proto.Header
import VfsOss.Task.Store

/-!
# The state of the receiving side

The process that receives uploads runs two plugins over one task store and one file system:
`sm_client` receives blocks into temporary files, `sm_http` merges them. Failures of system calls and
the contents of fresh memory come from outside: the `Io` records say what the calls of one step
return.
-/

namespace VfsOss

open CLib

/-- The configuration, and the code that is not in the repository: the allocator, the MD5 of a file
as `getfilemd5view` prints it, and the shell behind `system` (the files a `touch` command makes sure
exist). -/
structure Cfg where
  dstDatadir : Bytes
  retry : Nat
  csMaxTaskRunOnce : Nat
  initBuffSize : Nat
  mallocOk : Nat → Bool
  md5view : Bytes → Bytes
  shTouch : Bytes → List Bytes

/-- A configuration with which `malloc` never fails and `touch` makes the one file it names. -/
def Cfg.sample : Cfg where
  dstDatadir := txt "/data/vfs"
  retry := 2
  csMaxTaskRunOnce := 64
  initBuffSize := 2048
  mallocOk _ := true
  md5view _ := []
  shTouch line := [line.drop 6]

/-- `enum SOCK_STAT`. -/
inductive SockStat where
  | logout | connected | recvHeadIng | recvBodyIng
  deriving DecidableEq, Repr

/-- `vfs_cs_peer`. The open temporary file is a node of the file system with the offset that is
written next; nothing stands for the values 0 and -1 of `local_in_fd`. -/
structure Peer where
  header : HttpHeader
  localInFd : Option (Nat × Nat)
  ip : Nat
  sockStat : SockStat
  recvtask : Option Tasklist

/-- `struct conn` of one descriptor; `isOpen` is `fd >= 0`. -/
structure Conn where
  isOpen : Bool
  recvBuff : Mybuff
  sendBuff : Mybuff
  user : Option Peer

/-- A slot of `acon` that has never been used. -/
def Conn.unused : Conn := ⟨false, mybuffInit, mybuffInit, none⟩

/-- What happens to records and files, in order. This is a history: nothing in the program reads it.
A `leak` is a record that has been taken out of its list and is put into none. -/
inductive Event where
  | began (hostname filename : Bytes)
  | post (task : Tasklist)
  | fin (task : Tasklist)
  | expire (hostname : Bytes) (task : Tasklist)
  | lack (task : Tasklist)
  | giveUp (hostname : Bytes) (task : Tasklist)
  | merge (hostname filename : Bytes) (count : Int)
  | concat (hostname filename : Bytes) (task : Tasklist)
  | skip (hostname filename : Bytes) (task : Tasklist)
  | report (srcip text : Bytes) (sent : Bool)
  | ioErr (path : Bytes)
  | leak (task : Tasklist)
  deriving DecidableEq

/-- The state of the process. `once` is there while a pass of `check_fin_task` is going on: the
number of records it has taken. -/
structure Sm where
  store : TaskStore
  fs : FileSystem Bytes
  acon : Nat → Conn
  once : Option Nat
  log : List Event

/-- An event recorded. -/
def Sm.note (s : Sm) (e : Event) : Sm := { s with log := s.log ++ [e] }

/-- The slot of a descriptor replaced. -/
def Sm.setConn (s : Sm) (fd : Nat) (c : Conn) : Sm := { s with acon := Function.update s.acon fd c }

/-- The peer of a descriptor changed. -/
def Sm.setPeer (s : Sm) (fd : Nat) (p : Peer) : Sm :=
  s.setConn fd { s.acon fd with user := some p }

/-- The process after it has started. -/
def Sm.init (n : Nat) : Sm where
  store := initTaskInfo n
  fs := FileSystem.empty
  acon _ := Conn.unused
  once := none
  log := []

end VfsOss
