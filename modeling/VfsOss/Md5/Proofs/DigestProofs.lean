import VfsOss.Md5.Digest

/-!
# Proofs: digests

Between two calls the context holds the message so far: its state is the compression function over the complete
blocks, the block that is being filled starts with what is left, and the two words count the bits.
-/

namespace VfsOss

open CLib

variable {ctx ctx' : MD5Context} {m buf : Bytes}

/-- The context holds a message. -/
structure MD5Context.Holds (ctx : MD5Context) (m : Bytes) : Prop where
  state : ctx.buf = compress md5Transform 64 md5Start m
  pending : ctx.input.take (m.length % 64) = leftover 64 m
  bits : ctx.bits0.toNat + 2 ^ 32 * ctx.bits1.toNat = 8 * m.length % 2 ^ 64

/-! ## Copies -/

/-- What a copy does to a context. -/
structure MD5Context.Copied (ctx : MD5Context) (off : Nat) (src : Bytes) (ctx' : MD5Context) : Prop where
  input : ctx'.input = ctx.input.take off ++ src ++ ctx.input.drop (off + src.length)
  buf : ctx'.buf = ctx.buf
  bits0 : ctx'.bits0 = ctx.bits0
  bits1 : ctx'.bits1 = ctx.bits1

theorem MD5Context.copy_ok (ctx : MD5Context) (off : Nat) (src : Bytes) (h : off + src.length ≤ 64) :
    ∃ ctx', ctx.copy off src = .ok ctx' ∧ ctx.Copied off src ctx' :=
  ⟨_, dif_pos h, rfl, rfl, rfl, rfl⟩

/-- A copy goes on where the block was filled up to. -/
theorem MD5Context.Copied.take {off : Nat} {src : Bytes} (h : ctx.Copied off src ctx') (hoff : off ≤ 64) :
    ctx'.input.take (off + src.length) = ctx.input.take off ++ src := by
  have hlen : (ctx.input.take off ++ src).length = off + src.length := by
    rw [List.length_append, List.length_take, ctx.full, Nat.min_eq_left hoff]
  rw [h.input, List.take_left' hlen]

/-- A copy that reaches the end fills the block. -/
theorem MD5Context.Copied.filled {off : Nat} {src : Bytes} (h : ctx.Copied off src ctx')
    (hoff : off + src.length = 64) : ctx'.input = ctx.input.take off ++ src := by
  rw [← h.take (by omega), hoff, List.take_of_length_le ctx'.full.le]

@[simp] theorem MD5Context.bits0_transform (ctx : MD5Context) : ctx.transform.bits0 = ctx.bits0 := by
  rw [MD5Context.transform]

@[simp] theorem MD5Context.bits1_transform (ctx : MD5Context) : ctx.transform.bits1 = ctx.bits1 := by
  rw [MD5Context.transform]

theorem MD5Context.buf_transform (ctx : MD5Context) : ctx.transform.buf = md5Transform ctx.buf ctx.input := by
  rw [MD5Context.transform]

/-! ## The loop over blocks -/

theorem md5Blocks_ok : ∀ (n : Nat) (ctx : MD5Context) (buf : Bytes), buf.length ≤ n → ∃ ctx',
    md5Blocks n ctx buf = .ok ctx' ∧ ctx'.buf = compress md5Transform 64 ctx.buf buf ∧
    ctx'.input.take (buf.length % 64) = leftover 64 buf ∧ ctx'.bits0 = ctx.bits0 ∧ ctx'.bits1 = ctx.bits1 := by
  intro n
  induction n with
  | zero =>
    intro ctx buf hn
    obtain rfl : buf = [] := List.eq_nil_of_length_eq_zero (by omega)
    obtain ⟨ctx', hcopy, hc⟩ := ctx.copy_ok 0 [] (by decide)
    refine ⟨ctx', hcopy, ?_, rfl, hc.bits0, hc.bits1⟩
    rw [hc.buf, compress_of_short (by decide)]
  | succ n ih =>
    intro ctx buf hn
    unfold md5Blocks
    split
    · next hlong =>
      have hblock : (buf.take 64).length = 64 := List.length_take_of_le hlong
      obtain ⟨ctx1, hcopy, hc⟩ := ctx.copy_ok 0 (buf.take 64) (by omega)
      obtain ⟨ctx', hrest, hbuf, htake, h0, h1⟩ := ih ctx1.transform (buf.drop 64)
        (by rw [List.length_drop]; omega)
      have hin : ctx1.input = buf.take 64 := by
        rw [hc.filled (by omega), List.take_zero, List.nil_append]
      have hstep : ctx1.transform.buf = md5Transform ctx.buf (buf.take 64) := by
        rw [MD5Context.buf_transform, hin, hc.buf]
      have hmod : (buf.drop 64).length % 64 = buf.length % 64 := by
        rw [List.length_drop]
        omega
      have hsplit : buf = buf.take 64 ++ buf.drop 64 := (List.take_append_drop 64 buf).symm
      rw [MD5Context.bits0_transform, hc.bits0] at h0
      rw [MD5Context.bits1_transform, hc.bits1] at h1
      refine ⟨ctx', ?_, ?_, ?_, h0, h1⟩
      · rw [hcopy]
        exact hrest
      · rw [hbuf, hstep]
        conv_rhs => rw [hsplit]
        exact (compress_block (by decide) hblock).symm
      · rw [← hmod, htake]
        conv_rhs => rw [hsplit]
        exact (leftover_block (by decide) hblock).symm
    · next hshort =>
      have hlt : buf.length < 64 := by omega
      obtain ⟨ctx', hcopy, hc⟩ := ctx.copy_ok 0 buf (by omega)
      have htake := hc.take (by decide)
      rw [Nat.zero_add, List.take_zero, List.nil_append] at htake
      refine ⟨ctx', hcopy, ?_, ?_, hc.bits0, hc.bits1⟩
      · rw [hc.buf, compress_of_short hlt]
      · rw [Nat.mod_eq_of_lt hlt, htake, leftover_of_short hlt]

/-! ## The bits -/

theorem MD5Context.Holds.length_mod (h : ctx.Holds m) : ((ctx.bits0 >>> 3) &&& 0x3f).toNat = m.length % 64 := by
  have hbits := h.bits
  have hand : ((ctx.bits0 >>> 3) &&& 0x3f).toNat = ctx.bits0.toNat / 8 % 64 := by
    rw [UInt32.toNat_and, UInt32.toNat_shiftRight]
    show ctx.bits0.toNat >>> 3 &&& (2 ^ 6 - 1) = _
    rw [Nat.and_two_pow_sub_one_eq_mod, Nat.shiftRight_eq_div_pow]
  rw [hand]
  have := ctx.bits0.toNat_lt
  omega

theorem MD5Context.count_bits (len : Nat) (hlen : len < 2 ^ 32)
    (h : ctx.bits0.toNat + 2 ^ 32 * ctx.bits1.toNat = 8 * m.length % 2 ^ 64) :
    (ctx.count (.ofNat len)).bits0.toNat + 2 ^ 32 * (ctx.count (.ofNat len)).bits1.toNat =
      8 * (m.length + len) % 2 ^ 64 := by
  have h0 := ctx.bits0.toNat_lt
  have h1 := ctx.bits1.toNat_lt
  have hofNat : (UInt32.ofNat len).toNat = len := UInt32.toNat_ofNat_of_lt' hlen
  have hleft : (UInt32.ofNat len <<< 3).toNat = 8 * len % 2 ^ 32 := by
    rw [UInt32.toNat_shiftLeft, hofNat]
    show len <<< 3 % 2 ^ 32 = _
    rw [Nat.shiftLeft_eq, Nat.mul_comm]
  have hright : (UInt32.ofNat len >>> 29).toNat = len / 2 ^ 29 := by
    rw [UInt32.toNat_shiftRight, hofNat]
    exact Nat.shiftRight_eq_div_pow len 29
  have hlow : (ctx.count (.ofNat len)).bits0.toNat = (ctx.bits0.toNat + 8 * len % 2 ^ 32) % 2 ^ 32 := by
    show (ctx.bits0 + UInt32.ofNat len <<< 3).toNat = _
    rw [UInt32.toNat_add, hleft]
  by_cases hcarry : ctx.bits0 + UInt32.ofNat len <<< 3 < ctx.bits0
  · have hlt := UInt32.lt_iff_toNat_lt.mp hcarry
    have hhigh : (ctx.count (.ofNat len)).bits1.toNat = (ctx.bits1.toNat + 1 + len / 2 ^ 29) % 2 ^ 32 := by
      unfold MD5Context.count
      dsimp only
      rw [if_pos hcarry, UInt32.toNat_add, UInt32.toNat_add, hright]
      show (((ctx.bits1.toNat + 1) % 2 ^ 32) + _) % 2 ^ 32 = _
      omega
    rw [UInt32.toNat_add, hleft] at hlt
    rw [hlow, hhigh]
    omega
  · have hge := UInt32.not_lt.mp hcarry
    have hge := UInt32.le_iff_toNat_le.mp hge
    have hhigh : (ctx.count (.ofNat len)).bits1.toNat = (ctx.bits1.toNat + len / 2 ^ 29) % 2 ^ 32 := by
      unfold MD5Context.count
      dsimp only
      rw [if_neg hcarry, UInt32.toNat_add, hright]
    rw [UInt32.toNat_add, hleft] at hge
    rw [hlow, hhigh]
    omega

/-! ## Updates -/

/-- **One update**: the message goes on. -/
theorem MD5Context.Holds.update (h : ctx.Holds m) (hlen : buf.length < 2 ^ 32) :
    ∃ ctx', md5Update ctx buf = .ok ctx' ∧ ctx'.Holds (m ++ buf) := by
  have hbits := ctx.count_bits buf.length hlen h.bits
  have hpos : 0 < 64 := by decide
  have hmodlt : m.length % 64 < 64 := Nat.mod_lt _ hpos
  have hpend : (leftover 64 m).length = m.length % 64 := length_leftover
  unfold md5Update
  rw [h.length_mod]
  dsimp only
  split
  · split
    · next hshort =>
      -- the bytes do not fill the block
      obtain ⟨ctx', hcopy, hc⟩ := (ctx.count (.ofNat buf.length)).copy_ok (m.length % 64) buf (by omega)
      have hlt : (leftover 64 m ++ buf).length < 64 := by
        rw [List.length_append, hpend]
        omega
      refine ⟨ctx', hcopy, ?_, ?_, ?_⟩
      · rw [hc.buf, compress_append hpos, compress_of_short hlt]
        exact h.state
      · have hmod : (m ++ buf).length % 64 = m.length % 64 + buf.length := by
          rw [List.length_append]
          omega
        rw [hmod, hc.take (by omega), leftover_append hpos, leftover_of_short hlt, ← h.pending]
        rfl
      · rw [hc.bits0, hc.bits1, List.length_append]
        exact hbits
    · next hlong =>
      -- the block is filled, and the loop goes on with the rest
      have hfill : (buf.take (64 - m.length % 64)).length = 64 - m.length % 64 := List.length_take_of_le (by omega)
      obtain ⟨ctx1, hcopy, hc⟩ := (ctx.count (.ofNat buf.length)).copy_ok (m.length % 64)
        (buf.take (64 - m.length % 64)) (by omega)
      obtain ⟨ctx', hrest, hbuf, htake, h0, h1⟩ := md5Blocks_ok buf.length ctx1.transform
        (buf.drop (64 - m.length % 64)) (by rw [List.length_drop]; omega)
      have hin : ctx1.input = leftover 64 m ++ buf.take (64 - m.length % 64) := by
        rw [hc.filled (by omega), ← h.pending]
        rfl
      have hblock : (leftover 64 m ++ buf.take (64 - m.length % 64)).length = 64 := by
        rw [← hin, ctx1.full]
      have hsplit : leftover 64 m ++ buf =
          (leftover 64 m ++ buf.take (64 - m.length % 64)) ++ buf.drop (64 - m.length % 64) := by
        rw [List.append_assoc, List.take_append_drop]
      have hstep : ctx1.transform.buf = md5Transform (compress md5Transform 64 md5Start m)
          (leftover 64 m ++ buf.take (64 - m.length % 64)) := by
        rw [MD5Context.buf_transform, hin, hc.buf, ← h.state]
        rfl
      refine ⟨ctx', ?_, ?_, ?_, ?_⟩
      · rw [hcopy]
        exact hrest
      · rw [hbuf, hstep, compress_append hpos, hsplit, compress_block hpos hblock]
      · have hmod : (m ++ buf).length % 64 = (buf.drop (64 - m.length % 64)).length % 64 := by
          rw [List.length_append, List.length_drop]
          omega
        rw [hmod, htake, leftover_append hpos, hsplit, leftover_block hpos hblock]
      · rw [h0, h1, MD5Context.bits0_transform, MD5Context.bits1_transform, hc.bits0, hc.bits1, List.length_append]
        exact hbits
  · next hzero =>
    have hnil : leftover 64 m = [] := leftover_eq_nil (not_not.mp hzero)
    obtain ⟨ctx', hrest, hbuf, htake, h0, h1⟩ := md5Blocks_ok buf.length
      (ctx.count (.ofNat buf.length)) buf (Nat.le_refl _)
    refine ⟨ctx', hrest, ?_, ?_, ?_⟩
    · rw [hbuf, compress_append hpos, hnil, List.nil_append]
      exact congrArg (compress md5Transform 64 · buf) h.state
    · have hmod : (m ++ buf).length % 64 = buf.length % 64 := by
        rw [List.length_append]
        omega
      rw [hmod, htake, leftover_append hpos, hnil, List.nil_append]
    · rw [h0, h1, List.length_append]
      exact hbits

theorem holds_md5Init (ctx : MD5Context) : (md5Init ctx).Holds [] := by
  refine ⟨?_, ?_, rfl⟩
  · rw [compress_of_short (by decide)]
    rfl
  · rw [leftover_of_short (by decide)]
    rfl

/-- **A run of updates**: the message is all the buffers. -/
theorem MD5Context.Holds.updates : ∀ {bufs : List Bytes} {ctx : MD5Context} {m : Bytes}, ctx.Holds m →
    (∀ b ∈ bufs, b.length < 2 ^ 32) →
    ∃ ctx', bufs.foldlM md5Update ctx = .ok ctx' ∧ ctx'.Holds (m ++ bufs.flatten) := by
  intro bufs
  induction bufs with
  | nil =>
    intro ctx m h _
    rw [List.flatten_nil, List.append_nil]
    exact ⟨ctx, rfl, h⟩
  | cons b bufs ih =>
    intro ctx m h hlen
    obtain ⟨ctx1, hb, h1⟩ := h.update (hlen b List.mem_cons_self)
    obtain ⟨ctx', hrest, h'⟩ := ih h1 (fun b hb => hlen b (List.mem_cons_of_mem _ hb))
    refine ⟨ctx', ?_, ?_⟩
    · rw [List.foldlM_cons, hb]
      exact hrest
    · rw [List.flatten_cons, ← List.append_assoc]
      exact h'

/-! ## The end -/

/-- The number of bits in the last eight bytes. -/
def MD5Context.bitBytes (ctx : MD5Context) : Bytes := le32 ctx.bits0 ++ le32 ctx.bits1

theorem MD5Context.Holds.bitBytes (h : ctx.Holds m) :
    ctx.bitBytes = le32 (.ofNat (8 * m.length)) ++ le32 (.ofNat (8 * m.length / 2 ^ 32)) := by
  have hbits := h.bits
  have h0 := ctx.bits0.toNat_lt
  have h1 := ctx.bits1.toNat_lt
  have hlow : ctx.bits0 = .ofNat (8 * m.length) := by
    apply UInt32.toNat.inj
    rw [UInt32.toNat_ofNat']
    omega
  have hhigh : ctx.bits1 = .ofNat (8 * m.length / 2 ^ 32) := by
    apply UInt32.toNat.inj
    rw [UInt32.toNat_ofNat']
    omega
  rw [MD5Context.bitBytes, hlow, hhigh]

/-- The last block: 56 bytes are there, and the number of bits is put behind them. -/
theorem md5Finish_ok (ctx : MD5Context) (hin : ctx.input.take 56 = m) :
    ∃ ctx', md5Finish ctx = .ok ((md5Transform ctx.buf (m ++ ctx.bitBytes)).bytes, ctx') := by
  have hle (w : UInt32) : (le32 w).length = 4 := rfl
  obtain ⟨ctx1, hcopy1, hc1⟩ := ctx.copy_ok 56 (le32 ctx.bits0) (by have := hle ctx.bits0; omega)
  obtain ⟨ctx2, hcopy2, hc2⟩ := ctx1.copy_ok 60 (le32 ctx1.bits1) (by have := hle ctx1.bits1; omega)
  have hin1 : ctx1.input.take 60 = m ++ le32 ctx.bits0 := by
    rw [← hin]
    exact hc1.take (by decide)
  have hin2 : ctx2.input = m ++ ctx.bitBytes := by
    rw [hc2.filled rfl, hin1, hc1.bits1, List.append_assoc, MD5Context.bitBytes]
  have hdone : md5Finish ctx = .ok (ctx2.transform.buf.bytes,
      { ctx2.transform with buf := { ctx2.transform.buf with a := 0, b := 0 } }) := by
    rw [md5Finish, hcopy1, ok_bind, hcopy2, ok_bind]
    rfl
  rw [MD5Context.buf_transform, hin2, hc2.buf, hc1.buf] at hdone
  exact ⟨_, hdone⟩

/-- **The digest**: what `MD5Final` returns is the digest of the message the context holds. -/
theorem MD5Context.Holds.final (h : ctx.Holds m) : ∃ ctx', md5Final ctx = .ok (md5 m, ctx') := by
  have hpos : 0 < 64 := by decide
  have hpend : (leftover 64 m).length = m.length % 64 := length_leftover
  have hlt : m.length % 64 < 64 := Nat.mod_lt _ hpos
  obtain ⟨ctx1, hcopy1, hc1⟩ := ctx.copy_ok (m.length % 64) [0x80]
    (by rw [List.length_singleton]; omega)
  have htake1 : ctx1.input.take (m.length % 64 + 1) = leftover 64 m ++ [0x80] := by
    rw [← h.pending]
    exact hc1.take (by omega)
  have hdigest : md5 m = (compress md5Transform 64 ctx.buf (leftover 64 m ++ md5Padding m.length)).bytes := by
    rw [md5, compress_append hpos, ← h.state]
  unfold md5Final
  rw [h.length_mod]
  dsimp only
  rw [hcopy1, ok_bind]
  split
  · next hroom =>
    -- two blocks: the first is filled with zeros
    obtain ⟨ctx2, hcopy2, hc2⟩ := ctx1.copy_ok (m.length % 64 + 1)
      (List.replicate (64 - 1 - m.length % 64) 0) (by rw [List.length_replicate]; omega)
    obtain ⟨ctx3, hcopy3, hc3⟩ := ctx2.transform.copy_ok 0 (List.replicate 56 0)
      (by rw [List.length_replicate]; omega)
    have hin2 : ctx2.input = leftover 64 m ++ [0x80] ++ List.replicate (64 - 1 - m.length % 64) 0 := by
      rw [hc2.filled (by rw [List.length_replicate]; omega), htake1]
    have hin3 : ctx3.input.take 56 = List.replicate 56 0 := hc3.take (by decide)
    have hbytes : ctx3.bitBytes = ctx.bitBytes := by
      rw [MD5Context.bitBytes, hc3.bits0, hc3.bits1, MD5Context.bits0_transform, MD5Context.bits1_transform, hc2.bits0,
        hc2.bits1, hc1.bits0, hc1.bits1, MD5Context.bitBytes]
    have hlast : (List.replicate 56 (0 : UInt8) ++ ctx3.bitBytes).length = 64 := by
      rw [List.length_append, List.length_replicate]
      rfl
    have hpad : leftover 64 m ++ md5Padding m.length =
        ctx2.input ++ (List.replicate 56 0 ++ ctx3.bitBytes ++ []) := by
      have hzeros : (119 - m.length % 64) % 64 = (64 - 1 - m.length % 64) + 56 := by omega
      rw [md5Padding, hin2, hbytes, h.bitBytes, hzeros, List.replicate_add]
      simp only [List.append_assoc, List.cons_append, List.append_nil, List.nil_append]
    obtain ⟨ctx', hfinish⟩ := md5Finish_ok ctx3 hin3
    refine ⟨ctx', ?_⟩
    rw [hcopy2, ok_bind, hcopy3, ok_bind, hfinish, hdigest, hpad, compress_block hpos ctx2.full,
      compress_block hpos hlast, compress_of_short (by decide), hc3.buf, MD5Context.buf_transform, hc2.buf, hc1.buf]
  · next hroom =>
    obtain ⟨ctx2, hcopy2, hc2⟩ := ctx1.copy_ok (m.length % 64 + 1)
      (List.replicate (64 - 1 - m.length % 64 - 8) 0) (by rw [List.length_replicate]; omega)
    have hin2 : ctx2.input.take 56 = leftover 64 m ++ [0x80] ++ List.replicate (64 - 1 - m.length % 64 - 8) 0 := by
      have htake := hc2.take (by omega)
      rw [List.length_replicate, show m.length % 64 + 1 + (64 - 1 - m.length % 64 - 8) = 56 by omega, htake1] at htake
      exact htake
    have hlen : (leftover 64 m ++ [0x80] ++ List.replicate (64 - 1 - m.length % 64 - 8) (0 : UInt8)).length = 56 := by
      rw [List.length_append, List.length_append, List.length_singleton, List.length_replicate, hpend]
      omega
    have hbytes : ctx2.bitBytes = ctx.bitBytes := by
      rw [MD5Context.bitBytes, hc2.bits0, hc2.bits1, hc1.bits0, hc1.bits1, MD5Context.bitBytes]
    have hlast : (leftover 64 m ++ [0x80] ++ List.replicate (64 - 1 - m.length % 64 - 8) 0 ++ ctx2.bitBytes).length =
        64 := by
      rw [List.length_append, hlen]
      rfl
    have hpad : leftover 64 m ++ md5Padding m.length =
        leftover 64 m ++ [0x80] ++ List.replicate (64 - 1 - m.length % 64 - 8) 0 ++ ctx2.bitBytes ++ [] := by
      have hzeros : (119 - m.length % 64) % 64 = 64 - 1 - m.length % 64 - 8 := by omega
      rw [md5Padding, hbytes, h.bitBytes, hzeros]
      simp only [List.append_assoc, List.cons_append, List.append_nil, List.nil_append]
    obtain ⟨ctx', hfinish⟩ := md5Finish_ok ctx2 hin2
    refine ⟨ctx', ?_⟩
    rw [hcopy2, ok_bind, hfinish, hdigest, hpad, compress_block hpos hlast, compress_of_short (by decide), hc2.buf,
      hc1.buf]

/-- `MD5Init`, the updates and `MD5Final`, whatever the context was used for before. -/
theorem md5Bufs_ok (ctx : MD5Context) (bufs : List Bytes) (hlen : ∀ b ∈ bufs, b.length < 2 ^ 32) :
    ∃ ctx', md5Bufs ctx bufs = .ok (md5 bufs.flatten, ctx') := by
  obtain ⟨ctx1, hrun, h1⟩ := (holds_md5Init ctx).updates hlen
  obtain ⟨ctx', hfinal⟩ := h1.final
  refine ⟨ctx', ?_⟩
  rw [md5Bufs, hrun]
  exact hfinal

end VfsOss
