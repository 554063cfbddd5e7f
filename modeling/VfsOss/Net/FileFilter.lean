import VfsOss.CLib.Proofs.TextProofs

/-!
# The suffix filter

`vfs_file_filter.c`: the values of `file_allow_suffix` are split at `|` in place, each part becomes a
record of the list that the names of files are checked against. A pointer into a text is the memory
from there on.
-/

namespace VfsOss

open CLib

/-- `t_vfs_filter`. -/
structure VfsFilter where
  strings : Bytes
  sLen : UInt8
  type : UInt8

/-- The record `add_filter` makes for a text. -/
def mkFilter (s : Bytes) (type : UInt8) : VfsFilter where
  strings := snprintf 64 s
  sLen := UInt8.ofNat s.length
  type := type

/-- `add_filter` on the text at `s`; `mallocOk` tells which calls of `malloc` succeed, by the number of
records there are. -/
def addFilter (mallocOk : Nat → Bool) (s : Bytes) (type : UInt8) (mlist : List VfsFilter) :
    Option (List VfsFilter) :=
  if mallocOk mlist.length then some (mkFilter (cstr s) type :: mlist) else none

/-- `*s == '*'` and `s++`. -/
def skipStar (s : Bytes) : Bytes := if s.head? = some 42 then s.tail else s

/-- The end of `sub_init_filter`, behind its loop. -/
def subInitLast (mallocOk : Nat → Bool) (s : Bytes) (type : UInt8) (mlist : List VfsFilter) :
    Option (List VfsFilter) :=
  let s := skipStar s
  if s.headD 0 = 0 then some mlist else addFilter mallocOk s type mlist

/-- Storing a NUL over a `|` leaves one fewer. -/
theorem count_bar_set {s : Bytes} {k : Nat} (h : strchr (cstr s) 124 = some k) :
    (s.set k 0).count 124 < s.count 124 := by
  obtain ⟨a, r, hs, -, -, -, hset, -⟩ := cstr_strchr h
  rw [hset, hs, List.count_append, List.count_append, List.count_cons_self,
    List.count_cons_of_ne (by decide)]
  omega

theorem skipStar_sublist (s : Bytes) : (skipStar s).Sublist s := by
  unfold skipStar
  split
  · exact List.tail_sublist s
  · exact List.Sublist.refl s

/-- `sub_init_filter`; nothing stands for the value -1. -/
def subInitFilter (mallocOk : Nat → Bool) (s : Bytes) (type : UInt8) (mlist : List VfsFilter) :
    Option (List VfsFilter) :=
  match _h : strchr (cstr s) 124 with
  | none => subInitLast mallocOk s type mlist
  | some k =>
    -- `*t = 0x0`
    let m := s.set k 0
    let e := skipStar m
    if e.headD 0 = 0 then
      -- `continue`: the text goes on at the NUL just stored
      subInitFilter mallocOk e type mlist
    else
      match addFilter mallocOk e type mlist with
      | none => none
      | some mlist => subInitFilter mallocOk (m.drop (k + 1)) type mlist
termination_by s.count 124
decreasing_by
  · exact Nat.lt_of_le_of_lt (List.Sublist.count_le 124 (skipStar_sublist _)) (count_bar_set _h)
  · exact Nat.lt_of_le_of_lt (List.Sublist.count_le 124 (List.drop_sublist _ _)) (count_bar_set _h)

/-- `init_file_filter` with the values that `myconfig_get_multivalue` has for `file_allow_suffix`, in
their order. -/
def initFileFilter (mallocOk : Nat → Bool) (values : List Bytes) : Option (List VfsFilter) :=
  values.foldlM (fun allowList pval =>
    if (cstr pval).length = 0 then some allowList else subInitFilter mallocOk pval 0 allowList) []

/-- The loop body of `check_file_allow`: whether the record matches. -/
def VfsFilter.matchesFile (filter : VfsFilter) (file : Bytes) : Bool :=
  let fLen := (cstr file).length
  if filter.sLen.toNat > fLen then false
  else if filter.type = 0 then (cstr file).drop (fLen - filter.sLen.toNat) = filter.strings
  else false

/-- `check_file_allow`: 0 when a record matches, else 1. -/
def checkFileAllow (allowList : List VfsFilter) (file : Bytes) : Nat :=
  if allowList.any (·.matchesFile file) then 0 else 1

/-- `check_file_filter`. -/
def checkFileFilter (allowList : List VfsFilter) (file : Bytes) : Nat := checkFileAllow allowList file

/-! ## The elements of a value -/

/-- A part without one leading `*`. -/
def dropStar : Bytes → Bytes
  | 42 :: e => e
  | e => e

/-- The elements of a value: its parts between the `|`, each without one leading `*`. -/
def suffixElements (value : Bytes) : List Bytes := (value.splitOn 124).map dropStar

/-- The elements before the first empty one. -/
def keptElements (value : Bytes) : List Bytes := (suffixElements value).takeWhile (· ≠ [])

/-- The non-empty elements behind the first empty one. -/
def lostElements (value : Bytes) : List Bytes :=
  ((suffixElements value).dropWhile (· ≠ [])).filter (· ≠ [])

/-- The name ends with one of the texts. -/
def EndsWith (texts : List Bytes) (name : Bytes) : Prop := ∃ e ∈ texts, e <:+ name

instance (texts : List Bytes) (name : Bytes) : Decidable (EndsWith texts name) :=
  inferInstanceAs (Decidable (∃ e ∈ texts, e <:+ name))

/-- What the configuration allows: names that end with a non-empty element of a value. -/
def AllowedBy (values : List Bytes) (name : Bytes) : Prop :=
  EndsWith ((values.flatMap suffixElements).filter (· ≠ [])) name

instance (values : List Bytes) (name : Bytes) : Decidable (AllowedBy values name) :=
  inferInstanceAs (Decidable (EndsWith _ name))

/-- The elements that are stored whole: those kept, of at most 63 bytes. -/
def storedElements (values : List Bytes) : List Bytes :=
  (values.flatMap keptElements).filter (·.length ≤ 63)

/-- The elements that no record stands for: those behind an empty one and those of more than 63
bytes. -/
def unstoredElements (values : List Bytes) : List Bytes :=
  values.flatMap lostElements ++ (values.flatMap keptElements).filter (63 < ·.length)

/-- The first 63 bytes of the long elements whose length is 63 modulo 256: these are stored with a
length that fits them. -/
def storedHeads (values : List Bytes) : List Bytes :=
  ((values.flatMap keptElements).filter fun e => 63 < e.length ∧ e.length % 256 = 63).map (·.take 63)

end VfsOss
