import VfsOss.Uc.Split

/-!
# The blocks of a file

What it means that a file is queued: there is a record for each of its blocks.
-/

namespace VfsOss

open CLib

/-- What a record says about the block to send: path, type, index, count, first and last byte. -/
structure Piece where
  filename : Bytes
  type : UInt8
  idx : Int
  count : Int
  start : Int
  last : Int
  deriving DecidableEq

/-- The piece of a file a record stands for. -/
def Tasklist.piece (t : Tasklist) : Piece :=
  ⟨t.base.filename, t.base.type, t.sub.idx, t.sub.count, t.sub.start, t.sub.end_⟩

/-- The number of blocks of a file, rounded up. -/
def blockCount (cfg : UcCfg) (size : Int) : Int := (size + cfg.splicMinSize - 1) / cfg.splicMinSize

/-- Block `i` of a file that is cut into `count` blocks. -/
def pieceAt (cfg : UcCfg) (filename : Bytes) (type : UInt8) (size count i : Int) : Piece where
  filename := filename
  type := type
  idx := i
  count := count
  start := cfg.splicMinSize * (i - 1)
  last := if i = count then size - 1 else cfg.splicMinSize * i - 1

/-- The blocks of a file. -/
def pieces (cfg : UcCfg) (filename : Bytes) (type : UInt8) (size : Int) : List Piece :=
  (idxs (blockCount cfg size)).map (pieceAt cfg filename type size (blockCount cfg size))

/-- The blocks waiting to be sent. -/
def Uc.queued (s : Uc) : List Piece := (s.store.vfstask .waitSync).map Tasklist.piece

end VfsOss
