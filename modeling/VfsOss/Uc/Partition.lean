import VfsOss.CLib.Tiling
import VfsOss.Sm.Request
import VfsOss.Uc.Inotify
import VfsOss.Uc.Lack

/-!
# The blocks of a file as ranges of its bytes

A file is cut into blocks in two places, and one block of it is worked out again where it has to be sent
again. The ranges should be the same.
-/

namespace VfsOss

open CLib

/-- A block: its index, the number of blocks, its first and its last byte. -/
structure BlockRange where
  idx : Int
  count : Int
  start : Int
  last : Int
  deriving DecidableEq

/-- The block of a record. -/
def Tasklist.range (t : Tasklist) : BlockRange := ⟨t.sub.idx, t.sub.count, t.sub.start, t.sub.end_⟩

/-- The blocks of the records in a queue. -/
def ranges (st : TaskStore) (q : TaskStatus) : List BlockRange := (st.vfstask q).map Tasklist.range

/-- Blocks that cut a file: as many as it has, with the indices in order; none is empty or too long; the
first starts with the first byte, each starts behind the one before, and the last ends with the last
byte. So one behind the other they are the file. -/
structure BlockPartition (cfg : UcCfg) (fsize : Int) (blocks : List BlockRange) : Prop where
  idx : blocks.map BlockRange.idx = idxs (blockCount cfg fsize)
  count : ∀ b ∈ blocks, b.count = blockCount cfg fsize
  size : ∀ b ∈ blocks, b.start ≤ b.last ∧ b.last - b.start + 1 ≤ cfg.splicMinSize
  tiles : Tiles 0 (blocks.map fun b => (b.start, b.last)) fsize
  whole : ∀ file : Bytes, (file.length : Int) = fsize →
    (blocks.flatMap fun b => slice file (b.start, b.last)) = file

/-- `split_task`; nothing for a count of blocks that overflows. -/
def splitTaskCall (cfg : UcCfg) (time : Int → Int) (filestat : Option Stat) (base : TaskBase) (s : Uc) :
    Option Uc :=
  if base.fsize ≠ 0 ∧ countOverflows cfg base.fsize then none
  else some (splitTask cfg time filestat base s)

/-- `split_task` and the `do_req` of `sm_http` queue the same blocks, and these cut the file. -/
def PartitionedAlike (ucfg : UcCfg) (cfg : Cfg) (time : Int → Int) (filestat : Option Stat)
    (io : RequestIo) (base : TaskBase) (header : HttpHeader) (s : Uc) (m : Sm) : Prop :=
  ∃ s' m' blocks, splitTaskCall ucfg time filestat base s = some s' ∧
    SmHttp.doReq cfg ucfg.splicMinSize io header m = some m' ∧
    ranges s'.store .waitSync = ranges s.store .waitSync ++ blocks ∧
    ranges m'.store .wait = ranges m.store .wait ++ blocks ∧
    BlockPartition ucfg base.fsize blocks

/-- `process_lack`, in a state `r`, queues a block exactly for an index it should, a block of the file;
`split_task`, in a state `s`, cuts the file, and for each index of it `process_lack` queues the block queued
there. -/
structure ResendsAgree (cfg : UcCfg) (time : Int → Int) (now : Int) (st : Stat) (base : TaskBase)
    (filename : Bytes) (s r : Uc) : Prop where
  accepts : ∀ idx count,
    if (1 ≤ idx ∧ idx ≤ count) ∧ cfg.splicMinSize * (idx - 1) ≤ st.size - 1 then
      ∃ b : BlockRange, ranges (processLack cfg now (some st) filename idx count r).store .waitSync =
          ranges r.store .waitSync ++ [b] ∧
        0 ≤ b.start ∧ b.start ≤ b.last ∧ b.last ≤ (st.size : Int) - 1
    else ranges (processLack cfg now (some st) filename idx count r).store .waitSync =
      ranges r.store .waitSync
  same : ∃ s' blocks, splitTaskCall cfg time (some st) base s = some s' ∧
    ranges s'.store .waitSync = ranges s.store .waitSync ++ blocks ∧
    ∀ idx, 1 ≤ idx → idx ≤ splicCount cfg st.size → ∃ b ∈ blocks, b.idx = idx ∧
      ranges (processLack cfg now (some st) filename idx (splicCount cfg st.size) r).store .waitSync =
        ranges r.store .waitSync ++ [b]

end VfsOss
