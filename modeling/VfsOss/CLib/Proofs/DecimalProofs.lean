import VfsOss.CLib.Decimal
import Mathlib.Data.Nat.Digits.Lemmas
import Mathlib.Data.List.TakeWhile

/-!
# Proofs: reading back what was printed

`atol` and `atoi` return the number whose decimal text they are given, and that text holds nothing
but digits and a sign.
-/

namespace CLib

theorem isDigit_ofNat {d : Nat} (h : d < 10) : isDigit (UInt8.ofNat (48 + d)) = true := by
  interval_cases d <;> decide

theorem toNat_ofNat_digit {d : Nat} (h : d < 10) : (UInt8.ofNat (48 + d)).toNat - 48 = d := by
  interval_cases d <;> decide

/-- Every byte of a printed number is a digit. -/
theorem isDigit_of_mem_dec {n : Nat} {b : UInt8} (h : b ∈ dec n) : isDigit b = true := by
  unfold dec at h
  split at h
  · obtain rfl := List.mem_singleton.mp h
    decide
  · obtain ⟨d, hd, rfl⟩ := List.mem_map.mp h
    exact isDigit_ofNat (Nat.digits_lt_base (by omega) (List.mem_reverse.mp hd))

theorem foldl_digits (ds : List Nat) (h : ∀ d ∈ ds, d < 10) :
    (ds.reverse.map fun d => UInt8.ofNat (48 + d)).foldl (fun n b => (b.toNat - 48) + 10 * n) 0 =
      Nat.ofDigits 10 ds := by
  induction ds with
  | nil => rfl
  | cons d ds ih =>
    rw [List.reverse_cons, List.map_append, List.foldl_append, ih fun e he => h e (by simp [he])]
    simp only [List.map_cons, List.map_nil, List.foldl_cons, List.foldl_nil, Nat.ofDigits_cons]
    rw [toNat_ofNat_digit (h d (by simp))]

theorem readDigits_dec (n : Nat) : readDigits (dec n) = n := by
  rw [readDigits, List.takeWhile_eq_self_iff.mpr fun b hb => isDigit_of_mem_dec hb, dec]
  split
  · next h => simp [h]
  · rw [foldl_digits _ fun d hd => Nat.digits_lt_base (by omega) hd, Nat.ofDigits_digits]

theorem dec_ne_nil (n : Nat) : dec n ≠ [] := by
  unfold dec
  split
  · simp
  · next h => simpa using Nat.digits_ne_nil_iff_ne_zero.mpr h

/-- A printed number starts with a digit or a minus sign, so `strtol` skips nothing. -/
theorem strtol_fmtInt {n : Int} (hlo : -2 ^ 63 ≤ n) (hhi : n < 2 ^ 63) : strtol (fmtInt n) = n := by
  have hclamp : clampLong n = n := by unfold clampLong; omega
  by_cases hn : n < 0
  · have hs : (fmtInt n).dropWhile isSpace = 45 :: dec n.natAbs := by
      simp [fmtInt, hn, isSpace]
    unfold strtol
    rw [hs]
    simp only [readDigits_dec]
    rw [show -(n.natAbs : Int) = n by omega, hclamp]
  · obtain ⟨b, r, hbr⟩ := List.exists_cons_of_ne_nil (dec_ne_nil n.natAbs)
    have hb : isDigit b = true := isDigit_of_mem_dec (n := n.natAbs) (by simp [hbr])
    have hsp : isSpace b = false := by
      simp only [isDigit, Bool.and_eq_true, decide_eq_true_eq, UInt8.le_iff_toNat_le] at hb
      have h1 : b ≠ 32 := fun e => by subst e; exact absurd hb (by decide)
      have h2 : ¬ b ≤ 13 := by
        rw [UInt8.le_iff_toNat_le]
        have := hb.1
        simp at this ⊢
        omega
      simp [isSpace, h1, h2]
    have hs : (fmtInt n).dropWhile isSpace = b :: r := by
      simp [fmtInt, hn, hbr, hsp]
    have h45 : b ≠ 45 := fun e => by subst e; exact absurd hb (by decide)
    have h43 : b ≠ 43 := fun e => by subst e; exact absurd hb (by decide)
    unfold strtol
    rw [hs]
    split
    · next heq => exact absurd (List.cons.inj heq).1 h45
    · next heq => exact absurd (List.cons.inj heq).1 h43
    · rw [← hbr, readDigits_dec, show ((n.natAbs : Nat) : Int) = n by omega, hclamp]

theorem atol_fmtInt {n : Int} (hlo : -2 ^ 63 ≤ n) (hhi : n < 2 ^ 63) : atol (fmtInt n) = n :=
  strtol_fmtInt hlo hhi

theorem toInt32_of_range {n : Int} (hlo : -2 ^ 31 ≤ n) (hhi : n < 2 ^ 31) : toInt32 n = n := by
  unfold toInt32
  rw [Int.bmod_def]
  split <;> omega

theorem toInt64_of_range {n : Int} (hlo : -2 ^ 63 ≤ n) (hhi : n < 2 ^ 63) : toInt64 n = n := by
  unfold toInt64
  rw [Int.bmod_def]
  split <;> omega

theorem toInt32_lt (n : Int) : toInt32 n < 2 ^ 31 := by
  unfold toInt32
  rw [Int.bmod_def]
  split <;> omega

/-- A size, as an `int`, is not above it. -/
theorem toInt32_toNat_le (n : Nat) : (toInt32 n).toNat ≤ n := by
  unfold toInt32
  rw [Int.bmod_def]
  split <;> omega

theorem toInt32_of_large {n : Nat} (h : 2 ^ 31 ≤ n) : toInt32 n ≤ (n : Int) - 2 ^ 32 := by
  unfold toInt32
  rw [Int.bmod_def]
  split <;> omega

theorem atoi_fmtInt {n : Int} (hlo : -2 ^ 31 ≤ n) (hhi : n < 2 ^ 31) : atoi (fmtInt n) = n := by
  unfold atoi
  rw [strtol_fmtInt (by omega) (by omega)]
  exact toInt32_of_range hlo hhi

/-- A printed number holds only digits and the minus sign. -/
theorem mem_fmtInt {n : Int} {b : UInt8} (h : b ∈ fmtInt n) : b = 45 ∨ isDigit b = true := by
  unfold fmtInt at h
  split at h
  · rcases List.mem_cons.mp h with h | h
    · exact Or.inl h
    · exact Or.inr (isDigit_of_mem_dec h)
  · exact Or.inr (isDigit_of_mem_dec h)

theorem not_mem_fmtInt {n : Int} {b : UInt8} (h1 : b ≠ 45) (h2 : isDigit b = false) :
    b ∉ fmtInt n := by
  intro h
  rcases mem_fmtInt h with h | h
  · exact h1 h
  · rw [h2] at h; exact absurd h (by simp)

theorem fmtInt_ne_nil (n : Int) : fmtInt n ≠ [] := by
  unfold fmtInt
  split
  · simp
  · exact dec_ne_nil _

/-- Different numbers are printed differently. -/
theorem fmtInt_injective : Function.Injective fmtInt := by
  have hdec : ∀ {m n : Nat}, dec m = dec n → m = n := by
    intro m n h
    rw [← readDigits_dec m, h, readDigits_dec]
  have hsign : ∀ {m n : Nat}, 45 :: dec m ≠ dec n := by
    intro m n h
    exact absurd (isDigit_of_mem_dec (h ▸ List.mem_cons_self : (45 : UInt8) ∈ dec n)) (by decide)
  intro a b h
  unfold fmtInt at h
  split at h <;> split at h
  · have := hdec (List.cons.inj h).2
    omega
  · exact absurd h hsign
  · exact absurd h.symm hsign
  · have := hdec h
    omega

/-! ## Lengths -/

theorem dec_length_le {n k : Nat} (hk : 1 ≤ k) (h : n < 10 ^ k) : (dec n).length ≤ k := by
  unfold dec
  split
  · simpa using hk
  · simpa using (Nat.digits_length_le_iff (by omega) n).mpr h

theorem fmtInt_length_le {n : Int} {k : Nat} (hk : 1 ≤ k) (h : n.natAbs < 10 ^ k) :
    (fmtInt n).length ≤ k + 1 := by
  have := dec_length_le hk h
  unfold fmtInt
  split
  · simpa using this
  · omega

/-- A 64-bit number takes at most 20 characters. -/
theorem fmtInt_long_length {n : Int} (hlo : -2 ^ 63 ≤ n) (hhi : n < 2 ^ 63) :
    (fmtInt n).length ≤ 20 :=
  fmtInt_length_le (k := 19) (by omega) (by omega)

/-- A 32-bit number takes at most 11 characters. -/
theorem fmtInt_int_length {n : Int} (hlo : -2 ^ 31 ≤ n) (hhi : n < 2 ^ 31) :
    (fmtInt n).length ≤ 11 :=
  fmtInt_length_le (k := 10) (by omega) (by omega)

/-! ## Numbers in front of other text -/

theorem readDigits_append {c : UInt8} (hc : isDigit c = false) (r rest : Bytes) :
    readDigits (r ++ c :: rest) = readDigits r := by
  have hnil : (c :: rest).takeWhile isDigit = [] := by rw [List.takeWhile_cons, hc]; rfl
  rw [readDigits, readDigits, List.takeWhile_append, hnil, List.append_nil]
  split
  · next h => rw [List.takeWhile_prefix _ |>.eq_of_length h]
  · rfl

/-- What `strtol` makes of a text that does not start with a blank. -/
theorem strtol_cons {b : UInt8} (hb : isSpace b = false) (r : Bytes) : strtol (b :: r) =
    clampLong (if b = 45 then -(readDigits r : Int) else if b = 43 then readDigits r else readDigits (b :: r)) := by
  have hdrop : (b :: r).dropWhile isSpace = b :: r := by rw [List.dropWhile_cons, hb]; rfl
  unfold strtol
  rw [hdrop]
  by_cases h45 : b = 45
  · subst h45
    rfl
  · by_cases h43 : b = 43
    · subst h43
      rfl
    · rw [if_neg h45, if_neg h43]
      split
      · next heq => exact absurd (List.cons.inj heq).1 h45
      · next heq => exact absurd (List.cons.inj heq).1 h43
      · rfl

/-- `strtol` stops behind the digits. -/
theorem strtol_append {b c : UInt8} (hb : isSpace b = false) (hc : isDigit c = false) (r rest : Bytes) :
    strtol (b :: r ++ c :: rest) = strtol (b :: r) := by
  have hone := readDigits_append hc (b :: r) rest
  rw [List.cons_append] at hone ⊢
  rw [strtol_cons hb, strtol_cons hb, readDigits_append hc r rest, hone]

theorem fmtInt_head (n : Int) : ∃ b r, fmtInt n = b :: r ∧ isSpace b = false := by
  obtain ⟨b, r, hbr⟩ := List.exists_cons_of_ne_nil (fmtInt_ne_nil n)
  refine ⟨b, r, hbr, ?_⟩
  rcases mem_fmtInt (n := n) (b := b) (by rw [hbr]; exact List.mem_cons_self) with rfl | hb
  · rfl
  · simp only [isDigit, Bool.and_eq_true, decide_eq_true_eq, UInt8.le_iff_toNat_le] at hb
    have hne : b ≠ 32 := by
      rintro rfl
      exact absurd hb.1 (by decide)
    have hle : ¬ b ≤ 13 := by
      rw [UInt8.le_iff_toNat_le]
      have h48 : (48 : UInt8).toNat = 48 := rfl
      have h13 : (13 : UInt8).toNat = 13 := rfl
      omega
    simp [isSpace, hne, hle]

theorem strtol_fmtInt_append {n : Int} (hlo : -2 ^ 63 ≤ n) (hhi : n < 2 ^ 63) {c : UInt8} (hc : isDigit c = false)
    (rest : Bytes) : strtol (fmtInt n ++ c :: rest) = n := by
  obtain ⟨b, r, hbr, hb⟩ := fmtInt_head n
  rw [hbr, strtol_append hb hc, ← hbr, strtol_fmtInt hlo hhi]

theorem atol_fmtInt_append {n : Int} (hlo : -2 ^ 63 ≤ n) (hhi : n < 2 ^ 63) {c : UInt8} (hc : isDigit c = false)
    (rest : Bytes) : atol (fmtInt n ++ c :: rest) = n :=
  strtol_fmtInt_append hlo hhi hc rest

theorem atoi_fmtInt_append {n : Int} (hlo : -2 ^ 31 ≤ n) (hhi : n < 2 ^ 31) {c : UInt8} (hc : isDigit c = false)
    (rest : Bytes) : atoi (fmtInt n ++ c :: rest) = n := by
  rw [atoi, strtol_fmtInt_append (by omega) (by omega) hc]
  exact toInt32_of_range hlo hhi

end CLib
