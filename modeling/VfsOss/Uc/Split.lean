import VfsOss.Uc.Types
import VfsOss.CLib.Decimal

/-!
# Cutting a file into blocks

`vfs_data_sub.c`: a changed file gets one record for each of its blocks, and the `.sync_time` file of its
directory gets the file's time. The calls on `.sync_time` files are taken to succeed.
-/

namespace VfsOss

open CLib

/-- `TASK_ADDFILE`. -/
def taskAddfile : UInt8 := 0

/-- `TASK_DELFILE`. -/
def taskDelfile : UInt8 := 1

/-- `dirname` of `<libgen.h>`. (Of two slashes at the start of a path the library keeps both when nothing
stands between them and the last component; this is the same directory.) -/
def dirname (path : Bytes) : Bytes :=
  match (path.reverse.dropWhile (· = 47)).dropWhile (· ≠ 47) with
  | [] => if path.head? = some 47 then txt "/" else txt "."
  | d =>
    match d.dropWhile (· = 47) with
    | [] => txt "/"
    | d => d.reverse

/-- The `.sync_time` file of a directory, as its place. -/
def syncPlace (dir : Bytes) : List Bytes := locate [] (snprintf 256 (dir ++ txt "/.sync_time"))

/-- `update_sync_time`, with what `stat` says about the file: the file is emptied when it is opened, and
gets its text when it is closed. -/
def updateSyncTime (filestat : Option Stat) (filename : Bytes) (s : Uc) : Uc :=
  match filestat with
  | none => s
  | some st =>
    let file := syncPlace (dirname filename)
    let s := s.effect fun s => { s with sync := Function.update s.sync file (some []) }
    s.effect fun s => { s with sync := Function.update s.sync file (some (fmtInt st.ctime)) }

/-- The record `insert_sub_task` makes of the one it got from `TASK_HOME`, at the time `now`. -/
def subRecord (task : Tasklist) (base0 : TaskBase) (idx count start end_ now : Int) : Tasklist :=
  { task with
    base := { base0 with stime := now }
    sub := { starttime := now, start := start, end_ := end_, idx := idx, count := count }
    got := [] }

/-- `insert_sub_task`; nothing is returned for -1. The record is out of sight until it is queued. -/
def insertSubTask (cfg : UcCfg) (base0 : TaskBase) (idx count start end_ now : Int) (s : Uc) :
    Option Uc :=
  match vfsGetTask cfg.mallocOk s.store .home with
  | (.ok task, st) =>
    let task := subRecord task base0 idx count start end_ now
    some (s.effect fun s => { s with store := vfsSetTask st task .waitSync })
  | _ => none

/-- The loop of `split_task`. `time` is what `time` returns for a block. -/
def splitLoop (cfg : UcCfg) (time : Int → Int) (base : TaskBase) (splicCount : Int) :
    List Int → Int → Uc → Uc
  | [], _, s => s
  | idx :: rest, start, s =>
    let end_ := if idx = splicCount then base.fsize - 1 else start + cfg.splicMinSize - 1
    match insertSubTask cfg base idx splicCount start end_ (time idx) s with
    | none => s
    | some s => splitLoop cfg time base splicCount rest (start + cfg.splicMinSize) s

/-- The number of blocks, as an `int`. -/
def splicCount (cfg : UcCfg) (fsize : Int) : Int :=
  let n := toInt32 (fsize.tdiv cfg.splicMinSize)
  if fsize.tmod cfg.splicMinSize ≠ 0 then toInt32 (n + 1) else n

/-- `split_task`. -/
def splitTask (cfg : UcCfg) (time : Int → Int) (filestat : Option Stat) (base : TaskBase) (s : Uc) :
    Uc :=
  if base.fsize = 0 then s
  else
    let s := updateSyncTime filestat (snprintf 256 base.filename) s
    let base := { base with hostname := snprintf 256 cfg.hostname }
    splitLoop cfg time base (splicCount cfg base.fsize) (idxs (splicCount cfg base.fsize)) 0 s

/-- `get_localfile_stat` for a file that is there: the task with what is known about it. -/
def getLocalfileStat (st : Stat) (task : TaskBase) : TaskBase :=
  { task with fsize := st.size, fileCtime := st.ctime, filemd5 := st.md5 }

end VfsOss
