import VfsOss.Uc.Split

/-!
# Synchronising a directory

`vfs_data_dir_sync.c`: when the process starts, every file that has changed since the time in its
directory's `.sync_time` is queued.
-/

namespace VfsOss

open CLib

/-- What `readdir` gives for a directory, in its order: files, and directories with what is in them. -/
inductive Listing where
  | done
  | file (name : Bytes) (st : Stat) (rest : Listing)
  | dir (name : Bytes) (sub : Listing) (rest : Listing)
  deriving DecidableEq

/-- `get_sync_time`. -/
def getSyncTime (sync : List Bytes → Option Bytes) (indir : Bytes) : Int :=
  match sync (syncPlace indir) with
  | none => 0
  | some text => atol (fgets 16 text)

/-- The path of an entry: `"%s/%s"` into a buffer of 256 bytes. -/
def entryPath (indir name : Bytes) : Bytes := snprintf 256 (indir ++ txt "/" ++ name)

/-- The task `do_sync_dir` makes for a file. -/
def syncTask (file : Bytes) (st : Stat) : TaskBase :=
  { getLocalfileStat st { TaskBase.zero with filename := snprintf 256 file } with type := taskAddfile }

/-- A file in the loop of `do_sync_dir`. -/
def syncFile (cfg : UcCfg) (time : Bytes → Int → Int) (indir : Bytes) (lastSyncTime : Int)
    (name : Bytes) (st : Stat) (s : Uc) : Uc :=
  if name.head? = some 46 then s
  else
    let file := entryPath indir name
    if st.ctime < lastSyncTime then s
    else splitTask cfg (time file) (some st) (syncTask file st) s

/-- The loop of `do_sync_dir`. For a directory the function calls itself. -/
def syncLoop (cfg : UcCfg) (time : Bytes → Int → Int) (indir : Bytes) (lastSyncTime : Int) :
    Listing → Uc → Uc
  | .done, s => s
  | .file name st rest, s =>
    syncLoop cfg time indir lastSyncTime rest (syncFile cfg time indir lastSyncTime name st s)
  | .dir name sub rest, s =>
    let s :=
      if name.head? = some 46 then s
      else
        let file := entryPath indir name
        syncLoop cfg time file (getSyncTime s.sync file) sub s
    syncLoop cfg time indir lastSyncTime rest s

/-- `do_sync_dir`. -/
def doSyncDir (cfg : UcCfg) (time : Bytes → Int → Int) (indir : Bytes) (l : Listing) (s : Uc) : Uc :=
  syncLoop cfg time indir (getSyncTime s.sync indir) l s

end VfsOss
