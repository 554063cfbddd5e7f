import VfsOss.CLib.Decimal
import VfsOss.CLib.Proofs.TextProofs

/-!
# Blocks of memory

`malloc`, `realloc`, `memcpy` and `memmove` on blocks whose length is the size they were allocated
with. A copy that leaves its block is a fault. Bytes that nothing was written to hold whatever the
memory held before: `mem` tells what.
-/

namespace CLib

/-- Why a call on memory does not come back. -/
inductive MemFault where
  | outOfMemory
  | outOfBounds
  deriving DecidableEq

/-- `PTRDIFF_MAX`, the size no object exceeds. -/
def ptrdiffMax : Nat := 2 ^ 63 - 1

/-- The sum of two values of type `size_t`. -/
def addSize (a b : Nat) : Nat := (a + b) % 2 ^ 64

/-- The difference of two values of type `size_t`. -/
def subSize (a b : Nat) : Nat := (a + 2 ^ 64 - b) % 2 ^ 64

/-- `n` bytes of memory that nothing was written to. -/
def uninit (mem : Nat → UInt8) (n : Nat) : Bytes := (List.range n).map mem

/-- `malloc`. -/
def malloc (mem : Nat → UInt8) (n : Nat) : Except MemFault Bytes :=
  if n ≤ ptrdiffMax then .ok (uninit mem n) else .error .outOfMemory

/-- `realloc`: what fits of the block stays. -/
def realloc (mem : Nat → UInt8) (block : Bytes) (n : Nat) : Except MemFault Bytes :=
  if n ≤ ptrdiffMax then .ok (block.take n ++ uninit mem (n - block.length))
  else .error .outOfMemory

/-- `memcpy(block + off, src, n)` for the `n` bytes `src`. -/
def memcpy (block : Bytes) (off : Nat) (src : Bytes) : Except MemFault Bytes :=
  if off + src.length ≤ block.length then
    .ok (block.take off ++ src ++ block.drop (off + src.length))
  else .error .outOfBounds

/-- `memmove(block + dst, block + src, n)`. -/
def memmove (block : Bytes) (dst src n : Nat) : Except MemFault Bytes :=
  if src + n ≤ block.length then memcpy block dst ((block.drop src).take n)
  else .error .outOfBounds

/-- `strcpy(block + off, text)`: the text with its NUL. -/
def strcpy (block : Bytes) (off : Nat) (text : Bytes) : Except MemFault Bytes :=
  memcpy block off (text ++ [0])

/-- `strcat(block, text)`: the text goes behind the string that is there. -/
def strcat (block text : Bytes) : Except MemFault Bytes := strcpy block (cstr block).length text

/-- `sprintf(block, "%s", text)`. -/
def sprintf (block text : Bytes) : Except MemFault Bytes := strcpy block 0 text

section Except

variable {ε α β : Type} {x : Except ε α}

theorem bind_ok_iff {f : α → Except ε β} {b : β} : (x >>= f) = .ok b ↔ ∃ a, x = .ok a ∧ f a = .ok b := by
  cases x with
  | error e => exact ⟨(nomatch ·), fun ⟨_, h, _⟩ => nomatch h⟩
  | ok a => exact ⟨fun h => ⟨a, rfl, h⟩, fun ⟨_, h, hf⟩ => Except.ok.inj h ▸ hf⟩

theorem ok_bind (a : α) (f : α → Except ε β) : (.ok a >>= f) = f a := rfl

theorem map_ok_iff {f : α → β} {b : β} : f <$> x = .ok b ↔ ∃ a, x = .ok a ∧ f a = b := by
  cases x with
  | error e => exact ⟨(nomatch ·), fun ⟨_, h, _⟩ => nomatch h⟩
  | ok a => exact ⟨fun h => ⟨a, rfl, Except.ok.inj h⟩, fun ⟨_, h, hf⟩ => Except.ok.inj h ▸ congrArg _ hf⟩

end Except

section Lemmas

variable {mem : Nat → UInt8} {block src : Bytes} {n : Nat}

@[simp] theorem length_uninit : (uninit mem n).length = n := by simp [uninit]

theorem addSize_eq {a b : Nat} (h : a + b < 2 ^ 64) : addSize a b = a + b := Nat.mod_eq_of_lt h

theorem subSize_eq {a b : Nat} (ha : a < 2 ^ 64) (h : b ≤ a) : subSize a b = a - b := by
  unfold subSize
  omega

theorem malloc_cases (mem : Nat → UInt8) (n : Nat) :
    (ptrdiffMax < n ∧ malloc mem n = .error .outOfMemory) ∨ (n ≤ ptrdiffMax ∧ malloc mem n = .ok (uninit mem n)) := by
  unfold malloc
  split
  · next h => exact .inr ⟨h, rfl⟩
  · next h => exact .inl ⟨Nat.lt_of_not_le h, rfl⟩

/-- A block that grows keeps all its bytes. -/
theorem realloc_cases (mem : Nat → UInt8) (h : block.length ≤ n) :
    (ptrdiffMax < n ∧ realloc mem block n = .error .outOfMemory) ∨
      (n ≤ ptrdiffMax ∧ realloc mem block n = .ok (block ++ uninit mem (n - block.length))) := by
  unfold realloc
  split
  · next hn => exact .inr ⟨hn, by rw [List.take_of_length_le h]⟩
  · next hn => exact .inl ⟨Nat.lt_of_not_le hn, rfl⟩

theorem memcpy_eq {off : Nat} (h : off + src.length ≤ block.length) :
    memcpy block off src = .ok (block.take off ++ src ++ block.drop (off + src.length)) := if_pos h

/-- A text is copied exactly when it and its NUL fit. -/
theorem strcpy_ok_iff {off : Nat} {text : Bytes} :
    (∃ b, strcpy block off text = .ok b) ↔ off + text.length + 1 ≤ block.length := by
  have hlen : off + (text ++ [0]).length = off + text.length + 1 := by
    rw [List.length_append]
    rfl
  unfold strcpy memcpy
  rw [hlen]
  constructor
  · rintro ⟨b, hb⟩
    by_contra hgt
    rw [if_neg hgt] at hb
    exact nomatch hb
  · exact fun hle => ⟨_, if_pos hle⟩

theorem strcat_ok_iff {text : Bytes} :
    (∃ b, strcat block text = .ok b) ↔ (cstr block).length + text.length + 1 ≤ block.length :=
  strcpy_ok_iff

/-- A string that is appended comes behind the one that is there. -/
theorem strcat_spec {text b : Bytes} (ht : (0 : UInt8) ∉ text) (h : strcat block text = .ok b) :
    cstr b = cstr block ++ text ∧ b.length = block.length := by
  have hfit := strcat_ok_iff.mp ⟨b, h⟩
  have htake : block.take (cstr block).length = cstr block :=
    (List.prefix_iff_eq_take.mp (List.takeWhile_prefix _)).symm
  have hend : (cstr block).length + (text ++ [0]).length ≤ block.length := by
    rw [List.length_append]
    exact hfit
  unfold strcat strcpy at h
  rw [memcpy_eq hend, htake] at h
  obtain rfl := Except.ok.inj h
  constructor
  · have hshape (r : Bytes) : cstr block ++ (text ++ [0]) ++ r = (cstr block ++ text) ++ 0 :: r := by
      simp
    rw [hshape]
    refine cstr_append_zero (fun hmem => ?_) _
    rcases List.mem_append.mp hmem with hmem | hmem
    · exact zero_not_mem_cstr block hmem
    · exact ht hmem
  · rw [List.length_append, List.length_append, List.length_drop]
    omega

/-- A move to the start of the block. -/
theorem memmove_zero {k : Nat} (h : k + n ≤ block.length) :
    memmove block 0 k n = .ok ((block.drop k).take n ++ block.drop n) := by
  have hlen : ((block.drop k).take n).length = n := by
    rw [List.length_take, List.length_drop]
    omega
  unfold memmove
  rw [if_pos h, memcpy_eq (by omega), hlen, List.take_zero, List.nil_append, Nat.zero_add]

end Lemmas

end CLib
