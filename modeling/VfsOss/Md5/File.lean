import VfsOss.Md5.Digest

/-!
# Digests of files

`getfilemd5` and `getfilemd5view` of `util_misc.c`. A file that is read with `fread` is the bytes that are still to
come, and how many of them come before a read fails.
-/

namespace VfsOss

open CLib

/-- A `FILE` that is being read. -/
structure Stream where
  rest : Bytes
  failsAfter : Option Nat

/-- What one `fread` gives: the bytes, whether `feof` says afterwards that the end was met, and the file. -/
def Stream.fread (f : Stream) (n : Nat) : Bytes × Bool × Stream :=
  match f.failsAfter with
  | none => (f.rest.take n, decide (f.rest.length < n), ⟨f.rest.drop n, none⟩)
  | some k =>
    if k < n ∧ k ≤ f.rest.length then (f.rest.take k, false, ⟨f.rest.drop k, some 0⟩)
    else (f.rest.take n, decide (f.rest.length < n), ⟨f.rest.drop n, some (k - n)⟩)

/-- `BUFSIZE`. -/
def md5Bufsize : Nat := 2 ^ 20

/-- The loop of `getfilemd5`; nothing stands for the return of -1. Each round that goes on has read `BUFSIZE`
bytes, so the length of the file bounds the rounds. -/
def filemd5Loop : Nat → MD5Context → Stream → Except MemFault (Option MD5Context)
  | 0, _, _ => .ok none
  | n + 1, ctx, file => do
    let (buf, eof, file) := file.fread md5Bufsize
    if buf.length > 0 then
      let ctx ← md5Update ctx buf
      if buf.length < md5Bufsize then return some ctx
      else filemd5Loop n ctx file
    else if eof then return some ctx
    else return none

/-- `getfilemd5`, for the file `fopen64` gives. -/
def getfilemd5 (ctx : MD5Context) (file : Option Stream) : Except MemFault (Option Bytes) :=
  match file with
  | none => .ok none
  | some file => do
    match ← filemd5Loop (file.rest.length + 1) (md5Init ctx) file with
    | none => return none
    | some ctx => return some (← md5Final ctx).1

/-- A hexadecimal digit of `printf`. -/
def hexDigit (n : Nat) : UInt8 := if n < 10 then .ofNat (48 + n) else .ofNat (87 + n)

/-- `"%02x"` for each byte. -/
def hexView (bytes : Bytes) : Bytes := bytes.flatMap fun b => [hexDigit (b.toNat / 16), hexDigit (b.toNat % 16)]

/-- `getfilemd5view`: what is left in the caller's buffer, which it holds before the call. -/
def getfilemd5view (ctx : MD5Context) (file : Option Stream) (md5 : Bytes) : Except MemFault (Bool × Bytes) := do
  match ← getfilemd5 ctx file with
  | none => return (false, md5)
  | some omd5 => return (true, ← strcpy md5 0 (hexView omd5))

/-- What `getfilemd5` sees of a file: all of it, or the bytes before the failure. A failure that comes after a
whole number of buffers is noticed, any other cuts the file short. -/
def Stream.digested (f : Stream) : Option Bytes :=
  match f.failsAfter with
  | none => some f.rest
  | some k =>
    if k ≤ f.rest.length then if k % md5Bufsize = 0 then none else some (f.rest.take k)
    else some f.rest

end VfsOss
