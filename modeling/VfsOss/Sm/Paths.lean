import VfsOss.Sm.Client

/-!
# The files of a block

The receiving side puts the names of the temporary file and of the merged file together from the host and file
name in the header.
-/

namespace VfsOss

open CLib

/-- A path that ends in a name. -/
def SourcePath (path : Bytes) : Prop :=
  ∃ dir name, path = dir ++ 47 :: name ∧ (47 : UInt8) ∉ name ∧ name ≠ []

/-- What the temporary file's name has behind that of the merged file. -/
def blockSuffix (idx count : Int) : Bytes := txt "_" ++ fmtInt idx ++ txt "_" ++ fmtInt count

/-- The temporary file of a block. -/
def tmpPath (cfg : Cfg) (hostname filename : Bytes) (idx count : Int) : Bytes :=
  subfile (getLocaldir cfg hostname filename) idx count

end VfsOss
