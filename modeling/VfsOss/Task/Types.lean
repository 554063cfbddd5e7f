import VfsOss.CLib.Decimal

/-!
# Task records

The records of `vfs_task.h`. A record is a value that carries its address, so that the lists of the
task store hold the records themselves and a record can still be followed from list to list. The
fields nothing in the model reads (`data`, `srcport`, the progress times, `user`, `upip`) are left
out.
-/

namespace VfsOss

open CLib

/-- The status queues, `TASK_UNKNOWN` last: the status of a record that is in no queue. -/
inductive TaskStatus where
  | delay | wait | waitSync | waitSyncIp | waitTmp | qSyncDir | qSyncDirTmp | run | fin | clean
  | home | send | recv | syncVoss | qSyncDirReq | qSyncDirRsp | unknown
  deriving DecidableEq, Repr

/-- How a task ended. -/
inductive OverStatus where
  | unknown | ok | eMd5 | peererr | taskExist | peerclose | unlink | timeout | malloc | srcDomainErr
  | srcIpOffline | eOpenSrcfile | eOpenDstfile | eIp | eType | sendLen | tooManyTry | diskErr
  deriving DecidableEq, Repr

/-- `t_task_base`. -/
structure TaskBase where
  filename : Bytes
  tmpfile : Bytes
  hostname : Bytes
  filemd5 : Bytes
  srcip : Bytes
  usrcip : Nat
  fsize : Int
  getlen : Int
  stime : Int
  fileCtime : Int
  overstatus : OverStatus
  type : UInt8
  retry : Nat
  expire : Nat
  deriving DecidableEq

/-- A zeroed `t_task_base`. -/
def TaskBase.zero : TaskBase where
  filename := []
  tmpfile := []
  hostname := []
  filemd5 := []
  srcip := []
  usrcip := 0
  fsize := 0
  getlen := 0
  stime := 0
  fileCtime := 0
  overstatus := .unknown
  type := 0
  retry := 0
  expire := 0

/-- `t_task_sub`. -/
structure TaskSub where
  starttime : Int
  start : Int
  end_ : Int
  idx : Int
  count : Int
  deriving DecidableEq

/-- A zeroed `t_task_sub`. -/
def TaskSub.zero : TaskSub := ⟨0, 0, 0, 0, 0⟩

/-- `t_vfs_tasklist`. The last field is not in the C structure: it is a history of the bytes that
have been received for the block, which the program only has in the file. -/
structure Tasklist where
  addr : Nat
  base : TaskBase
  sub : TaskSub
  status : TaskStatus
  got : Bytes
  deriving DecidableEq

/-- The indices a block loop `for (idx = 1; idx <= count; idx++)` visits. The C index is an `int`;
it stays one as long as `count` is below `INT_MAX`. -/
def idxs (count : Int) : List Int := (List.range count.toNat).map fun k : Nat => (k : Int) + 1

end VfsOss
