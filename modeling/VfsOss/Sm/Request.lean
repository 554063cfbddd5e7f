import VfsOss.Sm.Clock

/-!
# Requests to the merging plugin

`do_req` of `sm_http`: a request removes a file, is answered at once because the file is there already, or
is cut into blocks, with unsigned arithmetic.
-/

namespace VfsOss

open CLib

/-- `delete_localfile`. -/
def deleteLocalfile (cfg : Cfg) (hostname srcfile : Bytes) (fs : FileSystem Bytes) : FileSystem Bytes :=
  fs.unlink (getLocaldir cfg hostname srcfile)

/-- `check_localfile_md5(...) == 0`: 32 bytes are compared. -/
def checkLocalfileMd5 (cfg : Cfg) (hostname srcfile md5sum : Bytes) (fs : FileSystem Bytes) : Bool :=
  let filemd5 := ((fs.content (getLocaldir cfg hostname srcfile)).map cfg.md5view).getD []
  md5sum.take 32 = filemd5.take 32

/-- What the calls made for a request return: `time` for a block, and whether a connection can be made. -/
structure RequestIo where
  time : Int → Int
  connect : Bool

namespace SmHttp

/-- The number of blocks, as an `int`. -/
def splicCount (splicMinSize : Int) (datalen : Nat) : Int :=
  let n := toInt32 (datalen / splicMinSize)
  if datalen % splicMinSize ≠ 0 then toInt32 (n + 1) else n

/-- The loop of `do_req`. -/
def splitLoop (cfg : Cfg) (splicMinSize : Int) (time : Int → Int) (header : HttpHeader) (count : Int) :
    List Int → Int → TaskStore → TaskStore
  | [], _, st => st
  | idx :: rest, start, st =>
    let end_ := if idx = count then toInt64 (header.datalen - 1) else start + splicMinSize - 1
    match insertSubTask cfg header idx count start end_ (time idx) st with
    | (none, st) => st
    | (some _, st) => splitLoop cfg splicMinSize time header count rest (start + splicMinSize) st

/-- An `int` overflows while the blocks are counted. -/
def countOverflows (splicMinSize : Int) (datalen : Nat) : Prop :=
  toInt32 (datalen / splicMinSize) = 2 ^ 31 - 1 ∨ splicCount splicMinSize datalen = 2 ^ 31 - 1

instance (splicMinSize : Int) (datalen : Nat) : Decidable (countOverflows splicMinSize datalen) :=
  inferInstanceAs (Decidable (_ ∨ _))

/-- `do_req`. Nothing stands for a count of blocks that overflows. -/
def doReq (cfg : Cfg) (splicMinSize : Int) (io : RequestIo) (header : HttpHeader) (s : Sm) : Option Sm :=
  if header.type = 1 then
    some { s with fs := deleteLocalfile cfg header.hostname header.filename s.fs }
  else if checkLocalfileMd5 cfg header.hostname header.filename header.filemd5 s.fs then
    some (s.note (.report header.srcip (createHeader header.filename header.filemd5 5) io.connect))
  else if header.datalen = 0 then some s
  else if countOverflows splicMinSize header.datalen then none
  else
    let count := splicCount splicMinSize header.datalen
    some { s with
      store := splitLoop cfg splicMinSize io.time header count (idxs count) 0 s.store }

end SmHttp

end VfsOss
