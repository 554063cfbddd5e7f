import VfsOss.CLib.Text
import Mathlib.Logic.Function.Basic

/-!
# Files

A flat file system: names refer to nodes, nodes hold bytes. An open descriptor refers to a node, so
it keeps reading and writing that node when the name is removed or the file is truncated through
another descriptor. Names are the full paths, and no two names share a node (there are no links).
-/

namespace CLib

/-- The names in use, the nodes they refer to and what the nodes hold. -/
structure FileSystem (P : Type) where
  /-- The node a name refers to. -/
  names : P → Option Nat
  /-- The bytes of a node. -/
  node : Nat → Bytes
  /-- The number of the next new node. -/
  next : Nat
  /-- Two names never refer to one node. -/
  inj : ∀ {p q : P} {i : Nat}, names p = some i → names q = some i → p = q
  /-- Node numbers below `next` have been used. -/
  lt : ∀ {p : P} {i : Nat}, names p = some i → i < next

/-- `d` written over `c` at offset `off`; a gap is filled with zeros. -/
def splice (c : Bytes) (off : Nat) (d : Bytes) : Bytes :=
  (c.take off ++ List.replicate (off - c.length) 0) ++ d ++ c.drop (off + d.length)

namespace FileSystem

variable {P : Type}

/-- No files at all. -/
def empty : FileSystem P where
  names _ := none
  node _ := []
  next := 0
  inj h := by simp at h
  lt h := by simp at h

/-- What the file of a name holds; `none` when `stat` fails. -/
def content (fs : FileSystem P) (p : P) : Option Bytes := (fs.names p).map fs.node

/-- A node's bytes replaced. -/
def setNode (fs : FileSystem P) (i : Nat) (c : Bytes) : FileSystem P :=
  { fs with node := Function.update fs.node i c }

/-- `pwrite` of the bytes `d` at offset `off` of an open node. -/
def pwrite (fs : FileSystem P) (i off : Nat) (d : Bytes) : FileSystem P :=
  fs.setNode i (splice (fs.node i) off d)

variable [DecidableEq P]

/-- A new empty file under a name that was not in use. -/
def link (fs : FileSystem P) (p : P) (h : fs.names p = none) : FileSystem P where
  names := Function.update fs.names p (some fs.next)
  node := Function.update fs.node fs.next []
  next := fs.next + 1
  inj := by
    intro q r i hq hr
    by_cases hqp : q = p <;> by_cases hrp : r = p
    · rw [hqp, hrp]
    · subst hqp
      rw [Function.update_self] at hq
      rw [Function.update_of_ne hrp] at hr
      have := fs.lt hr
      have := Option.some.inj hq
      omega
    · subst hrp
      rw [Function.update_self] at hr
      rw [Function.update_of_ne hqp] at hq
      have := fs.lt hq
      have := Option.some.inj hr
      omega
    · rw [Function.update_of_ne hqp] at hq
      rw [Function.update_of_ne hrp] at hr
      exact fs.inj hq hr
  lt := by
    intro q i hq
    by_cases hqp : q = p
    · subst hqp
      rw [Function.update_self] at hq
      have := Option.some.inj hq
      omega
    · rw [Function.update_of_ne hqp] at hq
      have := fs.lt hq
      omega

/-- `open(p, O_CREAT | O_WRONLY | O_TRUNC)`: the node opened and the files afterwards. -/
def creat (fs : FileSystem P) (p : P) : Nat × FileSystem P :=
  match h : fs.names p with
  | some i => (i, fs.setNode i [])
  | none => (fs.next, fs.link p h)

/-- `touch p`, without the time stamps: the file exists afterwards. -/
def touch (fs : FileSystem P) (p : P) : FileSystem P :=
  match h : fs.names p with
  | some _ => fs
  | none => fs.link p h

/-- `unlink(p)`: the name goes away, the node stays for those who have it open. -/
def unlink (fs : FileSystem P) (p : P) : FileSystem P where
  names := Function.update fs.names p none
  node := fs.node
  next := fs.next
  inj := by
    intro q r i hq hr
    by_cases hqp : q = p
    · subst hqp; simp at hq
    · by_cases hrp : r = p
      · subst hrp; simp at hr
      · rw [Function.update_of_ne hqp] at hq
        rw [Function.update_of_ne hrp] at hr
        exact fs.inj hq hr
  lt := by
    intro q i hq
    by_cases hqp : q = p
    · subst hqp; simp at hq
    · rw [Function.update_of_ne hqp] at hq
      exact fs.lt hq

/-- A whole file written under a name. -/
def save (fs : FileSystem P) (p : P) (d : Bytes) : FileSystem P :=
  (fs.creat p).2.pwrite (fs.creat p).1 0 d

end FileSystem

end CLib
