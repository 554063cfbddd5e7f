import VfsOss.Md5.File
import VfsOss.Md5.Proofs.DigestProofs

/-!
# Proofs: digests of files and of buffers

The calls of `fread` cut a file into buffers; whatever the buffers are, the digest is that of the bytes in order.
-/

namespace VfsOss

open CLib

variable {f : Stream} {ctx : MD5Context} {m : Bytes}

/-! ## One read -/

theorem md5Bufsize_pos : 0 < md5Bufsize := by decide

theorem md5Bufsize_lt : md5Bufsize < 2 ^ 32 := by decide

theorem Stream.length_fread_le (f : Stream) (n : Nat) : (f.fread n).1.length ≤ n := by
  obtain ⟨rest, failsAfter⟩ := f
  cases failsAfter with
  | none => exact List.length_take_le n rest
  | some k =>
    unfold Stream.fread
    dsimp only
    split
    · next h => exact (List.length_take_le k rest).trans (Nat.le_of_lt h.1)
    · exact List.length_take_le n rest

/-- A read that fills the buffer: the file goes on behind it. -/
theorem Stream.fread_full (h : (f.fread md5Bufsize).1.length = md5Bufsize) :
    f.digested = (f.fread md5Bufsize).2.2.digested.map ((f.fread md5Bufsize).1 ++ ·) ∧
      (f.fread md5Bufsize).2.2.rest.length < f.rest.length := by
  have hpos := md5Bufsize_pos
  obtain ⟨rest, failsAfter⟩ := f
  cases failsAfter with
  | none =>
    have hle : md5Bufsize ≤ rest.length := by
      rw [← h]
      exact List.length_take_le' md5Bufsize rest
    refine ⟨?_, ?_⟩
    · exact congrArg some (List.take_append_drop md5Bufsize rest).symm
    · show (rest.drop md5Bufsize).length < rest.length
      rw [List.length_drop]
      omega
  | some k =>
    unfold Stream.fread at h ⊢
    dsimp only at h ⊢
    split at h
    · next hfail =>
      rw [List.length_take_of_le hfail.2] at h
      omega
    · next hgoes =>
      have hle : md5Bufsize ≤ rest.length := by
        rw [← h]
        exact List.length_take_le' md5Bufsize rest
      have hk : md5Bufsize ≤ k := by omega
      rw [if_neg hgoes]
      refine ⟨?_, ?_⟩
      · unfold Stream.digested
        dsimp only
        rw [List.length_drop, ← Nat.mod_eq_sub_mod hk]
        by_cases hin : k ≤ rest.length
        · rw [if_pos hin, if_pos (show k - md5Bufsize ≤ rest.length - md5Bufsize by omega)]
          split
          · rfl
          · rw [Option.map_some, ← List.take_add, Nat.add_sub_cancel' hk]
        · rw [if_neg hin, if_neg (show ¬ k - md5Bufsize ≤ rest.length - md5Bufsize by omega), Option.map_some,
            List.take_append_drop]
      · rw [List.length_drop]
        omega

/-- A read that does not fill the buffer is the last one. -/
theorem Stream.fread_short (h : (f.fread md5Bufsize).1.length < md5Bufsize) (hpos : 0 < (f.fread md5Bufsize).1.length) :
    f.digested = some (f.fread md5Bufsize).1 := by
  obtain ⟨rest, failsAfter⟩ := f
  cases failsAfter with
  | none =>
    have hlen : rest.length < md5Bufsize := by
      by_contra hge
      rw [show ((⟨rest, none⟩ : Stream).fread md5Bufsize).1 = rest.take md5Bufsize from rfl,
        List.length_take_of_le (by omega)] at h
      omega
    exact congrArg some (List.take_of_length_le hlen.le).symm
  | some k =>
    unfold Stream.fread at h hpos ⊢
    unfold Stream.digested
    dsimp only at h hpos ⊢
    split at h
    · next hfail =>
      rw [if_pos hfail, List.length_take_of_le hfail.2] at hpos
      rw [if_pos hfail, if_pos hfail.2, Nat.mod_eq_of_lt hfail.1, if_neg (by omega)]
    · next hgoes =>
      have hlen : rest.length < md5Bufsize := by
        by_contra hge
        rw [List.length_take_of_le (by omega)] at h
        omega
      rw [if_neg hgoes, if_neg (by omega), List.take_of_length_le hlen.le]

/-- A read that gives nothing: the end of the file, or a failure. -/
theorem Stream.fread_nothing (h : (f.fread md5Bufsize).1.length = 0) :
    f.digested = if (f.fread md5Bufsize).2.1 then some [] else none := by
  have hpos := md5Bufsize_pos
  obtain ⟨rest, failsAfter⟩ := f
  cases failsAfter with
  | none =>
    have hnil : rest = [] := by
      rw [show ((⟨rest, none⟩ : Stream).fread md5Bufsize).1 = rest.take md5Bufsize from rfl, List.length_take] at h
      exact List.eq_nil_of_length_eq_zero (by omega)
    subst hnil
    exact (if_pos (decide_eq_true hpos)).symm
  | some k =>
    by_cases hfail : k < md5Bufsize ∧ k ≤ rest.length
    · simp only [Stream.fread, if_pos hfail, List.length_take_of_le hfail.2] at h ⊢
      rw [Stream.digested, if_neg Bool.false_ne_true]
      dsimp only
      rw [if_pos hfail.2, h, Nat.zero_mod, if_pos rfl]
    · simp only [Stream.fread, if_neg hfail, List.length_take] at h ⊢
      have hnil : rest = [] := List.eq_nil_of_length_eq_zero (by omega)
      subst hnil
      rw [List.length_nil] at hfail ⊢
      rw [if_pos (decide_eq_true hpos), Stream.digested]
      dsimp only
      rw [List.length_nil, if_neg (by omega)]

/-! ## The loop -/

/-- **The loop**: the context holds what `getfilemd5` sees of the file. -/
theorem filemd5Loop_ok : ∀ {n : Nat} {ctx : MD5Context} {m : Bytes} {f : Stream}, f.rest.length < n → ctx.Holds m →
    ∃ r, filemd5Loop n ctx f = .ok r ∧
      match f.digested with
      | none => r = none
      | some d => ∃ ctx', r = some ctx' ∧ ctx'.Holds (m ++ d) := by
  intro n
  induction n with
  | zero =>
    intro ctx m f hn
    omega
  | succ n ih =>
    intro ctx m f hn h
    have hle := f.length_fread_le md5Bufsize
    unfold filemd5Loop
    dsimp only
    split
    · next hpos =>
      obtain ⟨ctx1, hupdate, h1⟩ := h.update (Nat.lt_of_le_of_lt hle md5Bufsize_lt)
      rw [hupdate, ok_bind]
      split
      · next hshort =>
        rw [Stream.fread_short hshort hpos]
        exact ⟨some ctx1, rfl, ctx1, rfl, h1⟩
      · next hfull =>
        obtain ⟨hdigested, hlen⟩ := Stream.fread_full (f := f) (by omega)
        obtain ⟨r, hloop, hr⟩ := ih (f := (f.fread md5Bufsize).2.2) (by omega) h1
        refine ⟨r, hloop, ?_⟩
        rw [hdigested]
        cases hrest : (f.fread md5Bufsize).2.2.digested with
        | none =>
          rw [hrest] at hr
          exact hr
        | some d =>
          rw [hrest] at hr
          obtain ⟨ctx', hctx, h'⟩ := hr
          rw [List.append_assoc] at h'
          exact ⟨ctx', hctx, h'⟩
    · next hnothing =>
      rw [Stream.fread_nothing (by omega)]
      split
      · exact ⟨some ctx, rfl, ctx, rfl, by rw [List.append_nil]; exact h⟩
      · exact ⟨none, rfl, rfl⟩

theorem getfilemd5_eq (ctx : MD5Context) (f : Stream) : getfilemd5 ctx (some f) = .ok (f.digested.map md5) := by
  obtain ⟨r, hloop, hr⟩ := filemd5Loop_ok (Nat.lt_succ_self f.rest.length) (holds_md5Init ctx)
  unfold getfilemd5
  dsimp only
  rw [hloop, ok_bind]
  cases hd : f.digested with
  | none =>
    rw [hd] at hr
    rw [hr]
    rfl
  | some d =>
    rw [hd] at hr
    obtain ⟨ctx1, rfl, h1⟩ := hr
    obtain ⟨ctx', hfinal⟩ := h1.final
    dsimp only
    rw [hfinal]
    rfl

/-! ## The view -/

theorem hexDigit_ne_zero {n : Nat} (h : n < 16) : hexDigit n ≠ 0 := by
  unfold hexDigit
  intro h0
  have h0 := congrArg UInt8.toNat h0
  split at h0 <;> rw [UInt8.toNat_ofNat'] at h0 <;> simp only [UInt8.toNat_zero] at h0 <;> omega

theorem length_hexView (bytes : Bytes) : (hexView bytes).length = 2 * bytes.length := by
  induction bytes with
  | nil => rfl
  | cons b bytes ih =>
    have hstep : (hexView (b :: bytes)).length = 2 + (hexView bytes).length := by
      rw [hexView, List.flatMap_cons, List.length_append]
      rfl
    rw [hstep, ih, List.length_cons]
    omega

theorem zero_not_mem_hexView (bytes : Bytes) : (0 : UInt8) ∉ hexView bytes := by
  intro h
  obtain ⟨b, -, hb⟩ := List.mem_flatMap.mp h
  have hlt := b.toNat_lt
  rcases List.mem_pair.mp hb with h | h
  · exact hexDigit_ne_zero (by omega) h.symm
  · exact hexDigit_ne_zero (by omega) h.symm

theorem length_md5 (m : Bytes) : (md5 m).length = 16 := rfl

/-! ## What the callers get -/

/-- **Digests of buffers.** A digest is that of the bytes of the buffers in order, however they are cut and whatever the
context was used for before; no copy leaves the block. -/
theorem md5Bufs_exact (ctx : MD5Context) (bufs : List Bytes) (hlen : ∀ b ∈ bufs, b.length < 2 ^ 32) :
    Prod.fst <$> md5Bufs ctx bufs = .ok (md5 bufs.flatten) := by
  obtain ⟨ctx', hrun⟩ := md5Bufs_ok ctx bufs hlen
  rw [hrun]
  rfl

/-- A context nothing has been done with. -/
def MD5Context.blank : MD5Context := ⟨⟨0, 0, 0, 0⟩, 0, 0, List.replicate 64 0, List.length_replicate⟩

/-- Eighty digits, the first block of which ends inside the third buffer. -/
def eightyDigits : List Bytes :=
  [txt "1234567890123456789012345678901234567890", [], txt "12345678901234567890123456789012345",
    txt "67890"]

theorem md5Bufs_exact_eighty : hexView <$> Prod.fst <$> md5Bufs .blank eightyDigits =
    .ok (txt "57edf4a22be3c955ac49da2e2107b67a") := by
  have hdigest : hexView (md5 eightyDigits.flatten) = txt "57edf4a22be3c955ac49da2e2107b67a" := by
    decide +kernel
  rw [md5Bufs_exact .blank eightyDigits (by decide), ← hdigest]
  rfl

/-- **Digests of files.** The caller's buffer gets the 32 digits of the digest of what is seen of the file, and stays as
it is when there is no file or a failure is noticed. -/
theorem getfilemd5view_exact (ctx : MD5Context) (file : Option Stream) (view : Bytes) (hroom : 33 ≤ view.length) :
    ∃ r, getfilemd5view ctx file view = .ok r ∧
      match file.bind Stream.digested with
      | none => r = (false, view)
      | some seen => r.1 = true ∧ cstr r.2 = hexView (md5 seen) ∧ (cstr r.2).length = 32 := by
  have hget : getfilemd5 ctx file = .ok ((file.bind Stream.digested).map md5) := by
    cases file with
    | none => rfl
    | some f => exact getfilemd5_eq ctx f
  unfold getfilemd5view
  rw [hget, ok_bind]
  cases file.bind Stream.digested with
  | none => exact ⟨_, rfl, rfl⟩
  | some seen =>
    have hlen : (hexView (md5 seen)).length = 32 := length_hexView _
    have hfits : 0 + (hexView (md5 seen)).length + 1 ≤ view.length := by omega
    obtain ⟨view', hcopy⟩ := strcpy_ok_iff.mpr hfits
    have hview : cstr view' = hexView (md5 seen) := by
      unfold strcpy at hcopy
      rw [memcpy_eq (by rw [List.length_append, hlen, List.length_singleton]; omega)] at hcopy
      rw [← Except.ok.inj hcopy, List.take_zero, List.nil_append, List.append_assoc]
      exact cstr_append_zero (zero_not_mem_hexView _) _
    refine ⟨(true, view'), ?_, rfl, hview, ?_⟩
    · show (strcpy view 0 (hexView (md5 seen)) >>= fun v => .ok (true, v)) = _
      rw [hcopy]
      rfl
    · rw [hview]
      exact hlen

theorem getfilemd5view_exact_short :
    ∃ r, getfilemd5view .blank (some ⟨txt "abc", some 2⟩) (List.replicate 36 0) = .ok r ∧
      r.1 = true ∧ cstr r.2 = hexView (md5 (txt "ab")) ∧ (cstr r.2).length = 32 :=
  getfilemd5view_exact .blank (some ⟨txt "abc", some 2⟩) (List.replicate 36 0) (by decide)

/-! ## Codes with a key -/

theorem length_hmacPad {key : Bytes} (h : key.length ≤ 64) (c : UInt8) : (hmacPad key c).length = 64 := by
  rw [hmacPad, List.length_map, List.length_append, List.length_replicate]
  omega

/-- The challenges may come in several buffers. -/
theorem md5HmacOf_ok (ctx : MD5Context) {password : Bytes} (challenges : List Bytes) (hkey : password.length < 2 ^ 32)
    (hlen : ∀ c ∈ challenges, c.length < 2 ^ 32) :
    md5HmacOf ctx password challenges = .ok (hmacMd5 password challenges.flatten) := by
  have hdigests : ∀ (ctx : MD5Context) (key : Bytes), key.length ≤ 64 →
      ∃ ctx1 ctx2, md5Bufs ctx (hmacPad key 0x36 :: challenges) =
          .ok (md5 (hmacPad key 0x36 ++ challenges.flatten), ctx1) ∧
        md5Bufs ctx1 [hmacPad key 0x5c, md5 (hmacPad key 0x36 ++ challenges.flatten)] =
          .ok (md5 (hmacPad key 0x5c ++ md5 (hmacPad key 0x36 ++ challenges.flatten)), ctx2) := by
    intro ctx key hkey
    obtain ⟨ctx1, hinner⟩ := md5Bufs_ok ctx (hmacPad key 0x36 :: challenges) (by
      intro b hb
      rcases List.mem_cons.mp hb with rfl | hb
      · rw [length_hmacPad hkey]
        decide
      · exact hlen b hb)
    obtain ⟨ctx2, houter⟩ := md5Bufs_ok ctx1
      [hmacPad key 0x5c, md5 (hmacPad key 0x36 :: challenges).flatten] (by
      intro b hb
      rcases List.mem_pair.mp hb with rfl | rfl
      · rw [length_hmacPad hkey]
        decide
      · rw [length_md5]
        decide)
    rw [List.flatten_cons] at hinner houter
    rw [List.flatten_cons, List.flatten_cons, List.flatten_nil, List.append_nil] at houter
    exact ⟨ctx1, ctx2, hinner, houter⟩
  unfold md5HmacOf hmacMd5
  by_cases hlong : password.length > 64
  · obtain ⟨ctx1, hpass⟩ := md5Bufs_ok ctx [password] (by
      intro b hb
      rw [List.mem_singleton.mp hb]
      exact hkey)
    rw [List.flatten_cons, List.flatten_nil, List.append_nil] at hpass
    obtain ⟨ctx2, ctx3, hinner, houter⟩ := hdigests ctx1 (md5 password) (by rw [length_md5]; decide)
    rw [if_pos hlong, if_pos hlong, hpass, ok_bind]
    dsimp only
    rw [hinner, ok_bind]
    dsimp only
    rw [houter]
    rfl
  · obtain ⟨ctx2, ctx3, hinner, houter⟩ := hdigests ctx password (by omega)
    rw [if_neg hlong, if_neg hlong, ok_bind]
    dsimp only
    rw [hinner, ok_bind]
    dsimp only
    rw [houter]
    rfl

/-- **Codes with a key.** The code is the keyed hash of the message, whatever the length of the password; the
message may be given in two buffers. -/
theorem md5Hmac_exact (ctx : MD5Context) (password challenge challenge2 : Bytes) (hkey : password.length < 2 ^ 32)
    (h1 : challenge.length < 2 ^ 32) (h2 : challenge2.length < 2 ^ 32) :
    md5Hmac ctx password challenge = .ok (hmacMd5 password challenge) ∧
      md5Hmac2 ctx password challenge challenge2 = .ok (hmacMd5 password (challenge ++ challenge2)) := by
  have hone := md5HmacOf_ok ctx [challenge] hkey (by
    intro c hc
    rw [List.mem_singleton.mp hc]
    exact h1)
  have htwo := md5HmacOf_ok ctx [challenge, challenge2] hkey (by
    intro c hc
    rcases List.mem_pair.mp hc with rfl | rfl
    · exact h1
    · exact h2)
  rw [List.flatten_cons, List.flatten_nil, List.append_nil] at hone
  rw [List.flatten_cons, List.flatten_cons, List.flatten_nil, List.append_nil] at htwo
  exact ⟨hone, htwo⟩

/-- A key of more than a block; the message in two buffers makes the code of the whole. -/
theorem md5Hmac_exact_long :
    let key := List.replicate 80 0xaa
    let challenge := txt "Test Using Larger Than Block-Size Key"
    let challenge2 := txt " - Hash Key First"
    hexView <$> md5Hmac .blank key (challenge ++ challenge2) = .ok (txt "6b1ab7fe4bd7bf8f0b62e6ce61b9d0cd") ∧
      hexView <$> md5Hmac2 .blank key challenge challenge2 = .ok (txt "6b1ab7fe4bd7bf8f0b62e6ce61b9d0cd") := by
  intro key challenge challenge2
  have hcode : hexView (hmacMd5 key (challenge ++ challenge2)) = txt "6b1ab7fe4bd7bf8f0b62e6ce61b9d0cd" := by
    decide +kernel
  rw [(md5Hmac_exact .blank key (challenge ++ challenge2) [] (by decide) (by decide) (by decide)).1,
    (md5Hmac_exact .blank key challenge challenge2 (by decide) (by decide) (by decide)).2, ← hcode]
  exact ⟨rfl, rfl⟩

end VfsOss
