import VfsOss.CLib.Memory
import VfsOss.CLib.Run
import VfsOss.Net.Mybuff

/-!
# `struct mybuff` in memory

All of `mybuff.c`, with the allocated block apart from the size and the length the program keeps for
it, `size_t` arithmetic and the copies as they are made. The functions on the file part also tell
which descriptors they close.
-/

namespace VfsOss

open CLib

/-- `struct mybuff`; nothing stands for the null pointer. -/
structure MemBuff where
  data : Option Bytes
  size : Nat
  len : Nat
  fd : Int
  foffset : Int
  flen : Nat

namespace MemBuff

/-- `mybuff_init`. -/
def init : MemBuff := ⟨none, 0, 0, -1, 0, 0⟩

/-- A `struct mybuff` with static storage, before anything is done to it. -/
def zeroed : MemBuff := ⟨none, 0, 0, 0, 0, 0⟩

/-- The block of a buffer. -/
def block (b : MemBuff) : Bytes := b.data.getD []

variable (initBuffSize : Nat) (mem : Nat → UInt8)

/-- The start of `mybuff_setdata`: a buffer without a block gets one. -/
def allocate (b : MemBuff) : Except MemFault MemBuff :=
  match b.data with
  | none => do
    let data ← malloc mem initBuffSize
    .ok { b with data := some data, size := initBuffSize }
  | some _ => .ok b

/-- `mybuff_setdata`. -/
def setdata (b : MemBuff) (data : Bytes) : Except MemFault MemBuff := do
  let b ← allocate initBuffSize mem b
  if subSize b.size b.len > data.length then
    let block ← memcpy b.block b.len data
    .ok { b with data := some block, len := addSize b.len data.length }
  else
    let size := addSize (addSize b.len data.length) 1
    let tmp ← realloc mem b.block size
    let block ← memcpy tmp b.len data
    .ok { b with data := some block, size := size, len := addSize b.len data.length }

/-- `mybuff_getdata`: the pointer and the length it hands out when it returns 0. -/
def getdata (b : MemBuff) : Option (Bytes × Nat) :=
  match b.data with
  | none => none
  | some data => if b.len > 0 then some (data, b.len) else none

/-- `mybuff_skipdata`. -/
def skipdata (b : MemBuff) (len : Nat) : Except MemFault MemBuff :=
  match b.data with
  | none => .ok b
  | some data =>
    if len ≥ b.len then .ok { b with len := 0 }
    else do
      let data ← memmove data 0 len (subSize b.len len)
      .ok { b with data := some data, len := subSize b.len len }

/-- The file part of a buffer that holds no file. -/
def noFile (b : MemBuff) : MemBuff := { b with fd := -1, foffset := 0, flen := 0 }

/-- `mybuff_setfile`, with what it closes. -/
def setfile (b : MemBuff) (fd offset : Int) (len : Nat) : MemBuff × List Int :=
  ({ b with fd := fd, foffset := offset, flen := len }, if b.fd ≥ 0 then [b.fd] else [])

/-- `mybuff_getfile`: descriptor, offset and length it hands out when it returns 0. -/
def getfile (b : MemBuff) : Option (Int × Int × Nat) :=
  if b.fd ≥ 0 ∧ b.flen > 0 then some (b.fd, b.foffset, b.flen) else none

/-- `mybuff_skipfile`, with what it closes. -/
def skipfile (b : MemBuff) (len : Nat) : MemBuff × List Int :=
  if b.fd ≥ 0 then
    if b.flen ≤ len then (b.noFile, [b.fd])
    else ({ b with foffset := b.foffset + len, flen := b.flen - len }, [])
  else (b, [])

/-- The part of `mybuff_reinit` about the file, with what it closes. -/
def dropFile (b : MemBuff) : MemBuff × List Int :=
  if b.fd ≥ 0 then (b.noFile, [b.fd]) else (b, [])

/-- The rest of `mybuff_reinit`. `init_buff_size << 1` is an `int`, converted to `size_t` for the
comparison. -/
def shrink (b : MemBuff) : Except MemFault MemBuff := do
  if (b.size : Int) > toInt32 (2 * initBuffSize) % 2 ^ 64 then
    let data ← malloc mem initBuffSize
    .ok { b with data := some data, size := initBuffSize, len := 0 }
  else
    .ok { b with len := 0 }

/-- `mybuff_reinit`. -/
def reinit (b : MemBuff) : Except MemFault MemBuff := shrink initBuffSize mem b.dropFile.1

end MemBuff

/-! ## A buffer as a byte queue -/

/-- A queue of bytes: all that was written since it was last emptied, and how much of that was
skipped. -/
structure ByteQueue where
  written : Bytes
  skipped : Nat
  le : skipped ≤ written.length

namespace ByteQueue

theorem nil_within : 0 ≤ ([] : Bytes).length := Nat.le_refl _

/-- The queue after `mybuff_init` or `mybuff_reinit`. -/
def empty : ByteQueue := ⟨[], 0, nil_within⟩

/-- Bytes written behind the others. -/
def write (q : ByteQueue) (d : Bytes) : ByteQueue where
  written := q.written ++ d
  skipped := q.skipped
  le := by
    have := q.le
    rw [List.length_append]
    omega

/-- Up to `n` more bytes skipped. -/
def skip (q : ByteQueue) (n : Nat) : ByteQueue :=
  ⟨q.written, min (q.skipped + n) q.written.length, Nat.min_le_right _ _⟩

/-- What is left: the bytes written without the skipped ones at their front. -/
def content (q : ByteQueue) : Bytes := q.written.drop q.skipped

end ByteQueue

/-- A call on the data of a buffer. The bytes of `mybuff_setdata` are those of an object in memory. -/
inductive BuffCall where
  | setdata (data : Bytes) (fits : data.length ≤ ptrdiffMax)
  | skipdata (len : Nat)
  | getdata
  | reinit

/-- What a call does to a buffer. -/
def MemBuff.call (initBuffSize : Nat) (mem : Nat → UInt8) (b : MemBuff) :
    BuffCall → Except MemFault MemBuff
  | .setdata data _ => b.setdata initBuffSize mem data
  | .skipdata len => b.skipdata len
  | .getdata => .ok b
  | .reinit => b.reinit initBuffSize mem

/-- What a call means for the queue. -/
def ByteQueue.call (q : ByteQueue) : BuffCall → ByteQueue
  | .setdata data _ => q.write data
  | .skipdata len => q.skip len
  | .getdata => q
  | .reinit => empty

/-- A sequence of calls, each with what the memory it allocates holds. -/
abbrev BuffCalls := List (BuffCall × (Nat → UInt8))

/-- The buffer after a sequence of calls, the first fault if there is one. -/
def MemBuff.run (initBuffSize : Nat) (b : MemBuff) (calls : BuffCalls) : Except MemFault MemBuff :=
  calls.foldlM (fun b c => b.call initBuffSize c.2 c.1) b

/-- The queue after a sequence of calls. -/
def ByteQueue.run (q : ByteQueue) (calls : BuffCalls) : ByteQueue :=
  calls.foldl (fun q c => q.call c.1) q

/-- The block a call may ask for is one that an allocation can succeed for: the live bytes and the new ones, with one
byte more. -/
def ByteQueue.Allocates (q : ByteQueue) : BuffCall → Prop
  | .setdata data _ => q.content.length + data.length + 1 ≤ ptrdiffMax
  | .skipdata _ => True
  | .getdata => True
  | .reinit => True

instance (q : ByteQueue) : (c : BuffCall) → Decidable (q.Allocates c)
  | .setdata _ _ => inferInstanceAs (Decidable (_ ≤ _))
  | .skipdata _ => .isTrue trivial
  | .getdata => .isTrue trivial
  | .reinit => .isTrue trivial

/-- Every allocation of a sequence of calls succeeds: no block asked for is larger than an object can be. -/
structure AllocSucceeds (initBuffSize : Nat) (calls : BuffCalls) : Prop where
  init : initBuffSize ≤ ptrdiffMax
  calls : RunOk (fun (q : ByteQueue) (c : BuffCall × (Nat → UInt8)) => q.call c.1) (fun q c => q.Allocates c.1)
    ByteQueue.empty calls

end VfsOss
