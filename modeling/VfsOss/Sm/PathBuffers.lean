import VfsOss.CLib.Memory
import VfsOss.Sm.Paths

/-!
# The buffers of the paths

`get_localdir` writes with `sprintf` into an array of its caller, `char outfile[256]` in every one of
them; `open_tmp_localfile_4_write` appends the suffix of the block with a `snprintf` into
`tmpfile[256]`.
-/

namespace VfsOss

open CLib

/-- `char outfile[256] = {0x0}`. -/
def outfile : Bytes := List.replicate 256 0

/-- `get_localdir` on the array of its caller. -/
def getLocaldirInto (cfg : Cfg) (hostname srcfile dstfile : Bytes) : Except MemFault Bytes :=
  sprintf dstfile (getLocaldir cfg hostname srcfile)

/-- The record that `convert_httpheader_2_task` fills in for a header. -/
def headerTask (header : HttpHeader) : TaskBase × TaskSub := convertHttpheader2Task header .zero .zero

/-- The path of the file fits the array it is written into, and the name of the temporary file is
that path with the whole suffix of the block. -/
structure PathsFit (cfg : Cfg) (header : HttpHeader) : Prop where
  written : ∃ path, getLocaldirInto cfg (headerTask header).1.hostname (headerTask header).1.filename
    outfile = .ok path
  suffix : ∀ opens fs, (openTmpLocalfile4Write cfg opens fs (headerTask header).1
      (headerTask header).2).1.tmpfile =
    getLocaldir cfg (headerTask header).1.hostname (headerTask header).1.filename ++
      blockSuffix header.idx header.count

end VfsOss
