import VfsOss.Sm.Types

/-!
# Local files

The file names of `vfs_localfile.c` and the temporary file a block is received into. A name that is
put together with `snprintf` is cut at 255 bytes. Names are compared byte by byte: two spellings of
one path are two files here.
-/

namespace VfsOss

open CLib

/-- `basename` of `<libgen.h>`. -/
def basename (path : Bytes) : Bytes :=
  if path = [] then txt "."
  else
    match path.reverse.dropWhile (· = 47) with
    | [] => txt "/"
    | r => (r.takeWhile (· ≠ 47)).reverse

/-- `get_localdir`: the path of the merged file. It is written with `sprintf`, so it is not cut; a
path of more than 255 bytes overruns the `char[256]` of the caller, which is a fault in `getLocaldirInto`
and in the functions above it that end in `Into`. -/
def getLocaldir (cfg : Cfg) (hostname srcfile : Bytes) : Bytes :=
  cfg.dstDatadir ++ txt "/" ++ hostname ++ txt "/" ++ basename (snprintf 256 srcfile)

/-- `"%s_%d_%d"` into a buffer of 256 bytes: the temporary file of a block. -/
def subfile (localfile : Bytes) (idx count : Int) : Bytes :=
  snprintf 256 (localfile ++ txt "_" ++ fmtInt idx ++ txt "_" ++ fmtInt count)

/-- `"%s_checkfile_nodup"` into a buffer of 256 bytes: the marker `check_lack_task` leaves. -/
def checkfile (localfile : Bytes) : Bytes := snprintf 256 (localfile ++ txt "_checkfile_nodup")

/-- `open_tmp_localfile_4_write`, for a path that fits its `outfile`: the task gets the name of its
temporary file, and that file is created or emptied. `opens` says whether the directory and the file could
be made. -/
def openTmpLocalfile4Write (cfg : Cfg) (opens : Bool) (fs : FileSystem Bytes) (base : TaskBase)
    (sub : TaskSub) : TaskBase × Option Nat × FileSystem Bytes :=
  let tmpfile := subfile (getLocaldir cfg base.hostname base.filename) sub.idx sub.count
  let base := { base with tmpfile := tmpfile }
  if opens then
    let r := fs.creat tmpfile
    (base, some r.1, r.2)
  else (base, none, fs)

/-- `close_tmp_check_mv`: whether the descriptor was open. -/
def closeTmpCheckMv (localInFd : Option (Nat × Nat)) : Bool := localInFd.isSome

end VfsOss
