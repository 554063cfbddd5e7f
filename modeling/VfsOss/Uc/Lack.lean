import VfsOss.Uc.Split

/-!
# Sending a block again

`uc_http`: the reply to a request for the missing blocks names them by file name, index and count, and
each gets a record again. `splic_min_size` comes from an `int` and so does the index: their 64-bit product
does not overflow.
-/

namespace VfsOss

open CLib

/-- `insert_sub_task` of `uc_http`: that of `uc_client`, with the host's name filled in. `process_lack`
does not look at its result. -/
def UcHttp.insertSubTask (cfg : UcCfg) (base0 : TaskBase) (idx count start end_ now : Int) (s : Uc) : Uc :=
  let base0 := { base0 with hostname := snprintf 256 cfg.hostname }
  (VfsOss.insertSubTask cfg base0 idx count start end_ now s).getD s

/-- `process_lack`, with what `stat` says about the file and what `time` returns. -/
def processLack (cfg : UcCfg) (now : Int) (filestat : Option Stat) (filename : Bytes) (idx count : Int)
    (s : Uc) : Uc :=
  match filestat with
  | none => s
  | some st =>
    let base := getLocalfileStat st { TaskBase.zero with filename := snprintf 256 filename }
    if idx < 1 ∨ count < 1 ∨ idx > count then s
    else
      let start := cfg.splicMinSize * (idx - 1)
      let end_ := start + cfg.splicMinSize - 1
      let end_ := if end_ > base.fsize - 1 then base.fsize - 1 else end_
      if start < 0 ∨ start > base.fsize - 1 then s
      else UcHttp.insertSubTask cfg base idx count start end_ now s

end VfsOss
