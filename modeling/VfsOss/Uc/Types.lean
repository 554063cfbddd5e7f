import VfsOss.CLib.Path
import VfsOss.Task.Store

/-!
# The state of the sending side

The process that sends the files of its host: `uc_client` finds the files that have changed, cuts them
into blocks and queues the blocks. What lasts when the process is killed are the `.sync_time` files it
leaves in the directories.
-/

namespace VfsOss

open CLib

/-- The configuration, and the code that is not in the repository: the allocator. The global `hostname`
is filled by `gethostname`. A block has at least one byte. -/
structure UcCfg where
  splicMinSize : Int
  pos : 0 < splicMinSize
  mallocOk : Nat → Bool
  hostname : Bytes

/-- A configuration with which `malloc` never fails and a block is one byte long. -/
def UcCfg.sample : UcCfg := ⟨1, by decide, fun _ => true, txt "uc1"⟩

/-- What `stat` and `getfilemd5view` say about a file. -/
structure Stat where
  size : Nat
  ctime : Int
  md5 : Bytes
  deriving DecidableEq

/-- The state of the process: the task store, the directories that are watched, and the contents of the
`.sync_time` files by their place in the file system. `left` is not in the program: it is the number of
changes after which the process is killed, if it is. -/
structure Uc where
  store : TaskStore
  watchDirs : Nat → Bytes
  sync : List Bytes → Option Bytes
  left : Option Nat

/-- A change that others can see. A process that has been killed makes none. -/
def Uc.effect (s : Uc) (f : Uc → Uc) : Uc :=
  match s.left with
  | none => f s
  | some 0 => s
  | some (n + 1) => { f s with left := some n }

/-- The process after it has started, with `n` records, among the `.sync_time` files of earlier runs. -/
def Uc.init (n : Nat) (sync : List Bytes → Option Bytes) (left : Option Nat) : Uc where
  store := initTaskInfo n
  watchDirs _ := []
  sync := sync
  left := left

end VfsOss
