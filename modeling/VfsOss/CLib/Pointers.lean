import VfsOss.CLib.Memory

/-!
# Pointers into a block

A pointer into a block of memory is an index. What is read or written outside the block is a fault; a string that is
read through a pointer has to end inside the block.
-/

namespace CLib

/-- `*p`. -/
def readByte (buf : Bytes) (p : Nat) : Except MemFault UInt8 :=
  match buf[p]? with
  | some b => .ok b
  | none => .error .outOfBounds

/-- `*p = b`. -/
def writeByte (buf : Bytes) (p : Nat) (b : UInt8) : Except MemFault Bytes :=
  if p < buf.length then .ok (buf.set p b) else .error .outOfBounds

/-- The string that `p` points to. -/
def textAt (buf : Bytes) (p : Nat) : Except MemFault Bytes :=
  if 0 ∈ buf.drop p then .ok (cstr (buf.drop p)) else .error .outOfBounds

/-- The pointer moved forwards over bytes of a kind, which the NUL is not of: `p += strspn(p, ..)`. -/
def skipBytes (kind : UInt8 → Bool) (buf : Bytes) (p : Nat) : Except MemFault Nat := do
  let text ← textAt buf p
  return p + (text.takeWhile kind).length

section Lemmas

variable {a s r : Bytes} {b c : UInt8}

theorem readByte_append (a r : Bytes) (b : UInt8) : readByte (a ++ b :: r) a.length = .ok b := by
  unfold readByte
  rw [List.getElem?_append_right (Nat.le_refl _), Nat.sub_self]
  rfl

theorem writeByte_append (a r : Bytes) (b c : UInt8) :
    writeByte (a ++ b :: r) a.length c = .ok (a ++ c :: r) := by
  have hlt : a.length < (a ++ b :: r).length := by
    rw [List.length_append, List.length_cons]
    omega
  unfold writeByte
  rw [if_pos hlt, List.set_append_right _ _ (Nat.le_refl _), Nat.sub_self]
  rfl

/-- The string behind a part of the block. -/
theorem textAt_of_mem (a : Bytes) (h0 : (0 : UInt8) ∈ s) : textAt (a ++ s) a.length = .ok (cstr s) := by
  unfold textAt
  rw [List.drop_left, if_pos h0]

/-- A string ends at the next NUL. -/
theorem textAt_append (a r : Bytes) (hs : (0 : UInt8) ∉ s) : textAt (a ++ (s ++ 0 :: r)) a.length = .ok s := by
  rw [textAt_of_mem a (List.mem_append_right _ List.mem_cons_self), cstr_append_zero hs]

/-- A string that ends in a part of the block stays when what follows changes. -/
theorem textAt_append_left {p : Nat} (h : textAt a p = .ok s) (r : Bytes) : textAt (a ++ r) p = .ok s := by
  unfold textAt at h ⊢
  split at h
  · next h0 =>
    have hle : p ≤ a.length := by
      by_contra hgt
      rw [List.drop_eq_nil_of_le (by omega)] at h0
      exact absurd h0 List.not_mem_nil
    rw [List.drop_append_of_le_length hle, if_pos (List.mem_append_left _ h0), cstr_append_of_mem h0]
    exact h
  · exact nomatch h

/-- The bytes that are skipped, and the first one that is not. -/
theorem skipBytes_append (kind : UInt8 → Bool) (a : Bytes) (hs : (0 : UInt8) ∉ s) (r : Bytes) :
    skipBytes kind (a ++ (s ++ 0 :: r)) a.length = .ok (a ++ s.takeWhile kind).length := by
  unfold skipBytes
  rw [textAt_append a r hs, ok_bind, List.length_append]
  rfl

end Lemmas

end CLib
