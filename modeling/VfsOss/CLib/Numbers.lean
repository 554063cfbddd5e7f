import VfsOss.CLib.Decimal
import Mathlib.Data.List.TakeWhile

/-!
# Unsigned numbers in C

What `strtoul` reads with base 0 from a text that starts with a digit: a number in base sixteen, eight or ten, as
constants of the language are written.
-/

namespace CLib

/-- The number a digit stands for; letters go on from ten. -/
def digitOf (b : UInt8) : Option Nat :=
  if isDigit b then some (b.toNat - 48)
  else if 97 ≤ b && b ≤ 122 then some (b.toNat - 87)
  else if 65 ≤ b && b ≤ 90 then some (b.toNat - 55)
  else none

/-- A digit of a base. -/
def isDigitIn (base : Nat) (b : UInt8) : Bool := (digitOf b).any (· < base)

/-- The number that some digits of a base write. -/
def ofDigits (base : Nat) (s : Bytes) : Nat := s.foldl (fun n b => n * base + (digitOf b).getD 0) 0

/-- The base of the number at the start of a text, and how many characters stand before its digits. -/
def numeralBase : Bytes → Nat × Nat
  | 48 :: x :: d :: _ => if (x = 120 || x = 88) && isDigitIn 16 d then (16, 2) else (8, 0)
  | 48 :: _ => (8, 0)
  | _ => (10, 0)

/-- The characters of the number at the start of a text. -/
def numeral (s : Bytes) : Bytes :=
  let base := numeralBase s
  s.take base.2 ++ (s.drop base.2).takeWhile (isDigitIn base.1)

/-- The number at the start of a text. -/
def readNumber (s : Bytes) : Nat :=
  let base := numeralBase s
  ofDigits base.1 ((s.drop base.2).takeWhile (isDigitIn base.1))

/-- `ULONG_MAX`. -/
def ulongMax : Nat := 2 ^ 64 - 1

/-- `strtoul(s, &end, 0)`, for a text that starts with a digit: the number, and the text at `end`. -/
def strtoul (s : Bytes) : Nat × Bytes := (min (readNumber s) ulongMax, s.drop (numeral s).length)

section Lemmas

variable {s p r : Bytes} {base : Nat} {b : UInt8}

theorem isDigitIn_of_digitOf (h : digitOf b = none) : isDigitIn base b = false := by
  unfold isDigitIn
  rw [h]
  rfl

/-- A text that is no hexadecimal number. -/
theorem numeralBase_octal (h : ∀ y ∈ s.head?, ¬ (y = 120 ∨ y = 88)) : numeralBase (48 :: s) = (8, 0) := by
  match s with
  | [] => rfl
  | [_] => rfl
  | y :: d :: t =>
    have hy : (decide (y = 120) || decide (y = 88)) = false := by simpa using h y rfl
    rw [numeralBase, hy, Bool.false_and]
    rfl

/-- A text that does not start with a zero. -/
theorem numeralBase_decimal (h : ∀ y ∈ s.head?, y ≠ 48) : numeralBase s = (10, 0) := by
  match s with
  | [] => rfl
  | y :: t =>
    have hy : y ≠ 48 := h y rfl
    unfold numeralBase
    split
    · next heq => exact absurd (List.cons.inj heq).1 hy
    · next heq => exact absurd (List.cons.inj heq).1 hy
    · rfl

/-- What a text starts with when its number is in base sixteen, eight and ten. -/
theorem numeralBase_cases (s : Bytes) :
    (numeralBase s = (16, 2) ∧ ∃ x d t, s = 48 :: x :: d :: t ∧ (x = 120 ∨ x = 88) ∧ isDigitIn 16 d = true) ∨
      (numeralBase s = (8, 0) ∧ ∃ t, s = 48 :: t) ∨ (numeralBase s = (10, 0) ∧ ∀ y ∈ s.head?, y ≠ 48) := by
  match s with
  | [] => exact .inr (.inr ⟨rfl, nofun⟩)
  | y :: t =>
    by_cases hy : y = 48
    · subst hy
      match t with
      | [] => exact .inr (.inl ⟨rfl, _, rfl⟩)
      | [_] => exact .inr (.inl ⟨rfl, _, rfl⟩)
      | x :: d :: t =>
        by_cases hx : ((decide (x = 120) || decide (x = 88)) && isDigitIn 16 d) = true
        · refine .inl ⟨by rw [numeralBase, if_pos hx], x, d, t, rfl, ?_⟩
          simpa using hx
        · exact .inr (.inl ⟨by rw [numeralBase, if_neg hx], _, rfl⟩)
    · have hhead : ∀ z ∈ (y :: t).head?, z ≠ 48 := fun z hz => (Option.some.inj hz) ▸ hy
      exact .inr (.inr ⟨numeralBase_decimal hhead, hhead⟩)

/-- Digits up to a character that is none. -/
theorem takeWhile_digits (hs : ∀ y ∈ s, isDigitIn base y = true) (hr : ∀ y ∈ r.head?, digitOf y = none) :
    (s ++ r).takeWhile (isDigitIn base) = s := by
  rw [List.takeWhile_append_of_pos hs]
  have hnil : r.takeWhile (isDigitIn base) = [] := by
    match r with
    | [] => rfl
    | y :: t => exact List.takeWhile_cons_of_neg (by rw [isDigitIn_of_digitOf (hr y rfl)]; decide)
  rw [hnil, List.append_nil]

/-- The base of a number is told by its characters alone. -/
theorem numeralBase_numeral (s : Bytes) (hr : ∀ y ∈ r.head?, digitOf y = none) :
    numeralBase (numeral s ++ r) = numeralBase s := by
  rcases numeralBase_cases s with ⟨hbase, x, d, t, rfl, hx, hd⟩ | ⟨hbase, t, rfl⟩ | ⟨hbase, hhead⟩
  · unfold numeral
    rw [hbase]
    show numeralBase (48 :: x :: ((d :: t).takeWhile (isDigitIn 16) ++ r)) = _
    rw [List.takeWhile_cons_of_pos hd, List.cons_append, numeralBase, if_pos]
    rcases hx with rfl | rfl
    · rw [hd]
      rfl
    · rw [hd]
      rfl
  · unfold numeral
    rw [hbase]
    show numeralBase ((48 :: t).takeWhile (isDigitIn 8) ++ r) = _
    rw [List.takeWhile_cons_of_pos (by decide), List.cons_append]
    refine numeralBase_octal fun y hy => ?_
    -- a digit of base eight is no x, and neither is what follows the number
    have hnone : isDigitIn 8 y = true ∨ digitOf y = none := by
      match htw : t.takeWhile (isDigitIn 8) with
      | [] =>
        rw [htw] at hy
        exact .inr (hr y hy)
      | z :: u =>
        rw [htw] at hy
        have hz : z ∈ t.takeWhile (isDigitIn 8) := htw ▸ List.mem_cons_self
        exact .inl (Option.some.inj hy ▸ List.mem_takeWhile_imp hz)
    rintro (rfl | rfl)
    · exact absurd hnone (by decide)
    · exact absurd hnone (by decide)
  · unfold numeral
    rw [hbase]
    show numeralBase (s.takeWhile (isDigitIn 10) ++ r) = _
    refine numeralBase_decimal fun y hy => ?_
    match htw : s.takeWhile (isDigitIn 10) with
    | [] =>
      rw [htw] at hy
      have hy := hr y hy
      rintro rfl
      exact absurd hy (by decide)
    | z :: u =>
      rw [htw] at hy
      obtain rfl : z = y := Option.some.inj hy
      match s with
      | [] => exact nomatch htw
      | w :: v =>
        by_cases hw : isDigitIn 10 w = true
        · rw [List.takeWhile_cons_of_pos hw] at htw
          exact hhead z (congrArg some (List.cons.inj htw).1)
        · rw [List.takeWhile_cons_of_neg hw] at htw
          exact nomatch htw

/-- **A number is read up to the first character that is no digit**, whatever it is followed by. -/
theorem numeral_append (s : Bytes) (hr : ∀ y ∈ r.head?, digitOf y = none) :
    numeral (numeral s ++ r) = numeral s ∧ readNumber (numeral s ++ r) = readNumber s := by
  have hbase := numeralBase_numeral s hr
  have hlen : (s.take (numeralBase s).2).length = (numeralBase s).2 := by
    rcases numeralBase_cases s with ⟨h, x, d, t, rfl, -⟩ | ⟨h, -⟩ | ⟨h, -⟩ <;> rw [h] <;> rfl
  have hdigits : ((numeral s ++ r).drop (numeralBase s).2).takeWhile (isDigitIn (numeralBase s).1) =
      (s.drop (numeralBase s).2).takeWhile (isDigitIn (numeralBase s).1) := by
    unfold numeral
    rw [List.append_assoc, List.drop_left' hlen]
    exact takeWhile_digits (fun y hy => List.mem_takeWhile_imp hy) hr
  constructor
  · rw [numeral, hbase, hdigits, numeral, List.append_assoc, List.take_left' hlen]
  · rw [readNumber, hbase, hdigits, readNumber]

/-- A text is the number at its start and what follows. -/
theorem numeral_append_drop (s : Bytes) : numeral s ++ s.drop (numeral s).length = s := by
  have hsplit : numeral s ++ (s.drop (numeralBase s).2).dropWhile (isDigitIn (numeralBase s).1) = s := by
    rw [numeral, List.append_assoc, List.takeWhile_append_dropWhile, List.take_append_drop]
  generalize numeral s = p at hsplit ⊢
  rw [← hsplit, List.drop_left]

/-- No dot stands in a number. -/
theorem dot_notMem_numeral (s : Bytes) : (46 : UInt8) ∉ numeral s := by
  have hdigits : (46 : UInt8) ∉ (s.drop (numeralBase s).2).takeWhile (isDigitIn (numeralBase s).1) := by
    intro hmem
    have hdigit : isDigitIn (numeralBase s).1 46 = true := List.mem_takeWhile_imp hmem
    rw [isDigitIn_of_digitOf (by decide)] at hdigit
    exact nomatch hdigit
  have hpre : (46 : UInt8) ∉ s.take (numeralBase s).2 := by
    rcases numeralBase_cases s with ⟨hbase, x, d, t, rfl, rfl | rfl, -⟩ | ⟨hbase, -⟩ | ⟨hbase, -⟩
    · rw [hbase]
      simp
    · rw [hbase]
      simp
    · rw [hbase]
      exact List.not_mem_nil
    · rw [hbase]
      exact List.not_mem_nil
  unfold numeral
  rw [List.mem_append]
  exact not_or.mpr ⟨hpre, hdigits⟩

end Lemmas

end CLib
