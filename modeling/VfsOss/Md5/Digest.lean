import VfsOss.CLib.Blocks
import VfsOss.CLib.Memory

/-!
# MD5

`md5.c`. A digest is computed in a context: the state, the number of bits so far in two words, and the block that is
being filled. Nothing clears a context before `MD5Init`, and `MD5Init` leaves the block as it is. A buffer stands for
the `len` bytes that are given; `len` is an `unsigned`, so there are fewer than `2^32`.
-/

namespace VfsOss

open CLib

/-- The four words of the state. -/
structure MD5State where
  a : UInt32
  b : UInt32
  c : UInt32
  d : UInt32
  deriving DecidableEq

/-- `struct MD5Context`. -/
structure MD5Context where
  buf : MD5State
  bits0 : UInt32
  bits1 : UInt32
  input : Bytes
  full : input.length = 64

/-- A word as `memcpy` puts it into memory: lowest byte first. -/
def le32 (w : UInt32) : Bytes :=
  [.ofNat w.toNat, .ofNat (w.toNat / 2 ^ 8), .ofNat (w.toNat / 2 ^ 16), .ofNat (w.toNat / 2 ^ 24)]

/-- The `i`-th word of a block, as `(uint32_t *) ctx->in` reads it. -/
def wordAt (block : Bytes) (i : Nat) : UInt32 :=
  .ofNat (((block.drop (4 * i)).take 4).foldr (fun b n => n * 256 + b.toNat) 0)

/-! ## The compression function -/

/-- `F1`. -/
def f1 (x y z : UInt32) : UInt32 := z ^^^ (x &&& (y ^^^ z))

/-- `F2`. -/
def f2 (x y z : UInt32) : UInt32 := f1 z x y

/-- `F3`. -/
def f3 (x y z : UInt32) : UInt32 := x ^^^ y ^^^ z

/-- `F4`. -/
def f4 (x y z : UInt32) : UInt32 := y ^^^ (x ||| ~~~z)

/-- One line of `MD5Transform`: the function, the index of the word, the constant and the shift of an
`MD5STEP`. -/
structure MD5Line where
  f : UInt32 → UInt32 → UInt32 → UInt32
  word : Nat
  const : UInt32
  shift : UInt32

/-- `MD5STEP`. The lines of the program name their registers in turn (`a, b, c, d`, then `d, a, b, c`); here the
registers are renamed after each. -/
def md5Step (inp : Nat → UInt32) (s : MD5State) (l : MD5Line) : MD5State :=
  let w := s.a + (l.f s.b s.c s.d + (inp l.word + l.const))
  let w := w <<< l.shift ||| w >>> (32 - l.shift)
  ⟨s.d, w + s.b, s.b, s.c⟩

/-- The 64 lines of `MD5Transform`. -/
def md5Lines : List MD5Line :=
  [⟨f1, 0, 0xd76aa478, 7⟩, ⟨f1, 1, 0xe8c7b756, 12⟩, ⟨f1, 2, 0x242070db, 17⟩, ⟨f1, 3, 0xc1bdceee, 22⟩,
   ⟨f1, 4, 0xf57c0faf, 7⟩, ⟨f1, 5, 0x4787c62a, 12⟩, ⟨f1, 6, 0xa8304613, 17⟩, ⟨f1, 7, 0xfd469501, 22⟩,
   ⟨f1, 8, 0x698098d8, 7⟩, ⟨f1, 9, 0x8b44f7af, 12⟩, ⟨f1, 10, 0xffff5bb1, 17⟩, ⟨f1, 11, 0x895cd7be, 22⟩,
   ⟨f1, 12, 0x6b901122, 7⟩, ⟨f1, 13, 0xfd987193, 12⟩, ⟨f1, 14, 0xa679438e, 17⟩, ⟨f1, 15, 0x49b40821, 22⟩,
   ⟨f2, 1, 0xf61e2562, 5⟩, ⟨f2, 6, 0xc040b340, 9⟩, ⟨f2, 11, 0x265e5a51, 14⟩, ⟨f2, 0, 0xe9b6c7aa, 20⟩,
   ⟨f2, 5, 0xd62f105d, 5⟩, ⟨f2, 10, 0x02441453, 9⟩, ⟨f2, 15, 0xd8a1e681, 14⟩, ⟨f2, 4, 0xe7d3fbc8, 20⟩,
   ⟨f2, 9, 0x21e1cde6, 5⟩, ⟨f2, 14, 0xc33707d6, 9⟩, ⟨f2, 3, 0xf4d50d87, 14⟩, ⟨f2, 8, 0x455a14ed, 20⟩,
   ⟨f2, 13, 0xa9e3e905, 5⟩, ⟨f2, 2, 0xfcefa3f8, 9⟩, ⟨f2, 7, 0x676f02d9, 14⟩, ⟨f2, 12, 0x8d2a4c8a, 20⟩,
   ⟨f3, 5, 0xfffa3942, 4⟩, ⟨f3, 8, 0x8771f681, 11⟩, ⟨f3, 11, 0x6d9d6122, 16⟩, ⟨f3, 14, 0xfde5380c, 23⟩,
   ⟨f3, 1, 0xa4beea44, 4⟩, ⟨f3, 4, 0x4bdecfa9, 11⟩, ⟨f3, 7, 0xf6bb4b60, 16⟩, ⟨f3, 10, 0xbebfbc70, 23⟩,
   ⟨f3, 13, 0x289b7ec6, 4⟩, ⟨f3, 0, 0xeaa127fa, 11⟩, ⟨f3, 3, 0xd4ef3085, 16⟩, ⟨f3, 6, 0x04881d05, 23⟩,
   ⟨f3, 9, 0xd9d4d039, 4⟩, ⟨f3, 12, 0xe6db99e5, 11⟩, ⟨f3, 15, 0x1fa27cf8, 16⟩, ⟨f3, 2, 0xc4ac5665, 23⟩,
   ⟨f4, 0, 0xf4292244, 6⟩, ⟨f4, 7, 0x432aff97, 10⟩, ⟨f4, 14, 0xab9423a7, 15⟩, ⟨f4, 5, 0xfc93a039, 21⟩,
   ⟨f4, 12, 0x655b59c3, 6⟩, ⟨f4, 3, 0x8f0ccc92, 10⟩, ⟨f4, 10, 0xffeff47d, 15⟩, ⟨f4, 1, 0x85845dd1, 21⟩,
   ⟨f4, 8, 0x6fa87e4f, 6⟩, ⟨f4, 15, 0xfe2ce6e0, 10⟩, ⟨f4, 6, 0xa3014314, 15⟩, ⟨f4, 13, 0x4e0811a1, 21⟩,
   ⟨f4, 4, 0xf7537e82, 6⟩, ⟨f4, 11, 0xbd3af235, 10⟩, ⟨f4, 2, 0x2ad7d2bb, 15⟩, ⟨f4, 9, 0xeb86d391, 21⟩]

/-- `MD5Transform`, for the words of a block. -/
def md5Transform (buf : MD5State) (block : Bytes) : MD5State :=
  let s := md5Lines.foldl (md5Step (wordAt block)) buf
  ⟨buf.a + s.a, buf.b + s.b, buf.c + s.c, buf.d + s.d⟩

/-! ## The context -/

/-- `memcpy(ctx->in + off, src, n)` for the `n` bytes `src`. -/
def MD5Context.copy (ctx : MD5Context) (off : Nat) (src : Bytes) : Except MemFault MD5Context :=
  if h : off + src.length ≤ 64 then
    .ok { ctx with
      input := ctx.input.take off ++ src ++ ctx.input.drop (off + src.length)
      full := by
        have := ctx.full
        simp only [List.length_append, List.length_take, List.length_drop]
        omega }
  else .error .outOfBounds

/-- `MD5Transform` on the block of the context. -/
def MD5Context.transform (ctx : MD5Context) : MD5Context := { ctx with buf := md5Transform ctx.buf ctx.input }

/-- The state a digest starts from. -/
def md5Start : MD5State := ⟨0x67452301, 0xefcdab89, 0x98badcfe, 0x10325476⟩

/-- `MD5Init`. -/
def md5Init (ctx : MD5Context) : MD5Context := { ctx with buf := md5Start, bits0 := 0, bits1 := 0 }

/-- The loop of `MD5Update` over blocks of 64 bytes, and the copy of what remains. Each round takes 64 bytes, so
the length bounds the rounds. -/
def md5Blocks : Nat → MD5Context → Bytes → Except MemFault MD5Context
  | 0, ctx, buf => ctx.copy 0 buf
  | n + 1, ctx, buf =>
    if buf.length ≥ 64 then do
      let ctx ← ctx.copy 0 (buf.take 64)
      md5Blocks n ctx.transform (buf.drop 64)
    else ctx.copy 0 buf

/-- The count of bits of `MD5Update`: `len` is an `unsigned`, and what does not fit the low word is carried. -/
def MD5Context.count (ctx : MD5Context) (len : UInt32) : MD5Context :=
  let bits0 := ctx.bits0 + len <<< 3
  let bits1 := if bits0 < ctx.bits0 then ctx.bits1 + 1 else ctx.bits1
  { ctx with bits0 := bits0, bits1 := bits1 + len >>> 29 }

/-- `MD5Update`. -/
def md5Update (ctx : MD5Context) (buf : Bytes) : Except MemFault MD5Context :=
  let t := ((ctx.bits0 >>> 3) &&& 0x3f).toNat
  let ctx := ctx.count (.ofNat buf.length)
  if t ≠ 0 then
    if buf.length < 64 - t then ctx.copy t buf
    else do
      let ctx ← ctx.copy t (buf.take (64 - t))
      md5Blocks buf.length ctx.transform (buf.drop (64 - t))
  else md5Blocks buf.length ctx buf

/-- The words of the state in memory. -/
def MD5State.bytes (s : MD5State) : Bytes := le32 s.a ++ le32 s.b ++ le32 s.c ++ le32 s.d

/-- The end of `MD5Final`, when 56 bytes of the last block are there: the number of bits, and the digest. The
`memset` clears as many bytes as a pointer has, so only two words of the state. -/
def md5Finish (ctx : MD5Context) : Except MemFault (Bytes × MD5Context) := do
  let ctx ← ctx.copy 56 (le32 ctx.bits0)
  let ctx ← ctx.copy 60 (le32 ctx.bits1)
  let ctx := ctx.transform
  return (ctx.buf.bytes, { ctx with buf := { ctx.buf with a := 0, b := 0 } })

/-- `MD5Final`: the digest, and the context it leaves. -/
def md5Final (ctx : MD5Context) : Except MemFault (Bytes × MD5Context) := do
  let count := ((ctx.bits0 >>> 3) &&& 0x3f).toNat
  let ctx ← ctx.copy count [0x80]
  let room := 64 - 1 - count
  if room < 8 then do
    let ctx ← ctx.copy (count + 1) (List.replicate room 0)
    let ctx ← ctx.transform.copy 0 (List.replicate 56 0)
    md5Finish ctx
  else do
    let ctx ← ctx.copy (count + 1) (List.replicate (room - 8) 0)
    md5Finish ctx

/-- `MD5Init`, an `MD5Update` for each of some buffers, and `MD5Final`. -/
def md5Bufs (ctx : MD5Context) (bufs : List Bytes) : Except MemFault (Bytes × MD5Context) := do
  let ctx ← bufs.foldlM md5Update (md5Init ctx)
  md5Final ctx

/-- `ipad` and `opad` of `MD5HMAC`: the key in 64 bytes, with `c` added to each. -/
def hmacPad (password : Bytes) (c : UInt8) : Bytes :=
  (password ++ List.replicate (64 - password.length) 0).map (· ^^^ c)

/-- The body of `MD5HMAC` and `MD5HMAC2`, for the challenges in order: the password is digested when it is longer
than a block. One context serves all the digests. -/
def md5HmacOf (ctx : MD5Context) (password : Bytes) (challenges : List Bytes) : Except MemFault Bytes := do
  let (password, ctx) ← if password.length > 64 then md5Bufs ctx [password] else .ok (password, ctx)
  let (response, ctx) ← md5Bufs ctx (hmacPad password 0x36 :: challenges)
  let (response, _) ← md5Bufs ctx [hmacPad password 0x5c, response]
  return response

/-- `MD5HMAC`. -/
def md5Hmac (ctx : MD5Context) (password challenge : Bytes) : Except MemFault Bytes :=
  md5HmacOf ctx password [challenge]

/-- `MD5HMAC2`. -/
def md5Hmac2 (ctx : MD5Context) (password challenge challenge2 : Bytes) : Except MemFault Bytes :=
  md5HmacOf ctx password [challenge, challenge2]

/-! ## What a digest is -/

/-- The padding of a message of `n` bytes: a bit, zeros up to eight bytes before the end of a block, and the
number of bits. -/
def md5Padding (n : Nat) : Bytes :=
  0x80 :: List.replicate ((119 - n % 64) % 64) 0 ++ le32 (.ofNat (8 * n)) ++ le32 (.ofNat (8 * n / 2 ^ 32))

/-- The digest of a message: the compression function over the blocks of the padded message. -/
def md5 (m : Bytes) : Bytes := (compress md5Transform 64 md5Start (m ++ md5Padding m.length)).bytes

/-- The code with key and message that is made of a digest. -/
def hmacMd5 (key m : Bytes) : Bytes :=
  let key := if key.length > 64 then md5 key else key
  md5 (hmacPad key 0x5c ++ md5 (hmacPad key 0x36 ++ m))

end VfsOss
