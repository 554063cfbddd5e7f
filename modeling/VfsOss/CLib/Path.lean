import VfsOss.CLib.Text

/-!
# Paths

Where a path leads, read component by component from the working directory. A directory is its list
of names, the innermost first; the root is the empty list. There are no symbolic links.
-/

namespace CLib

/-- The components of a path: what stands between the slashes. -/
def components (path : Bytes) : List Bytes := path.splitOn 47

/-- A component that is an ordinary name. -/
def IsName (c : Bytes) : Prop := c ≠ [] ∧ c ≠ txt "." ∧ c ≠ txt ".."

/-- One component followed from a directory. -/
def enter (dir : List Bytes) (c : Bytes) : List Bytes :=
  if c = [] ∨ c = txt "." then dir
  else if c = txt ".." then dir.tail
  else c :: dir

/-- A relative path followed from a directory. -/
def follow (dir : List Bytes) (path : Bytes) : List Bytes := (components path).foldl enter dir

/-- Where a path leads for a process in the directory `cwd`. -/
def locate (cwd : List Bytes) (path : Bytes) : List Bytes :=
  if path.head? = some 47 then follow [] path else follow cwd path

/-- The second place is the first one or lies somewhere below it. -/
def AtOrBelow (dir place : List Bytes) : Prop := dir <:+ place

/-- The second place lies below the first one. -/
def StrictlyBelow (dir place : List Bytes) : Prop := dir <:+ place ∧ place ≠ dir

instance (dir place : List Bytes) : Decidable (AtOrBelow dir place) :=
  inferInstanceAs (Decidable (dir <:+ place))

instance (dir place : List Bytes) : Decidable (StrictlyBelow dir place) :=
  inferInstanceAs (Decidable (dir <:+ place ∧ place ≠ dir))

end CLib
