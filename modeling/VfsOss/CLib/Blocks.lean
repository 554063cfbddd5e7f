import Mathlib.Tactic.Common
import Mathlib.Data.List.Basic

/-!
# Iterated compression

A function that takes a state and a block of `n` symbols is iterated over the blocks of a message. A machine
that is given the message in pieces, whatever the pieces are, keeps the state behind the complete blocks and
the symbols that do not fill the next one.
-/

namespace CLib

variable {α σ : Type}

/-- The state behind the first `k` blocks of a message. -/
def compressN (f : σ → List α → σ) (n : Nat) : Nat → σ → List α → σ
  | 0, s, _ => s
  | k + 1, s, m => compressN f n k (f s (m.take n)) (m.drop n)

/-- The state behind all the complete blocks. -/
def compress (f : σ → List α → σ) (n : Nat) (s : σ) (m : List α) : σ := compressN f n (m.length / n) s m

/-- What is left behind the last complete block. -/
def leftover (n : Nat) (m : List α) : List α := m.drop (m.length / n * n)

variable {f : σ → List α → σ} {n : Nat} {s : σ} {m b : List α}

/-- Only the blocks that are counted matter. -/
theorem compressN_append (m' : List α) : ∀ {k : Nat} {s : σ} {m : List α}, k * n ≤ m.length →
    compressN f n k s (m ++ m') = compressN f n k s m := by
  intro k
  induction k with
  | zero =>
    intro s m h
    rfl
  | succ k ih =>
    intro s m h
    rw [Nat.succ_mul] at h
    rw [compressN, compressN, List.take_append_of_le_length (by omega), List.drop_append_of_le_length (by omega)]
    exact ih (by rw [List.length_drop]; omega)

/-- The blocks may be taken in two lots. -/
theorem compressN_add : ∀ {j : Nat} (k : Nat) {s : σ} {m : List α},
    compressN f n (j + k) s m = compressN f n k (compressN f n j s m) (m.drop (j * n)) := by
  intro j
  induction j with
  | zero =>
    intro k s m
    rw [Nat.zero_add, Nat.zero_mul, List.drop_zero, compressN]
  | succ j ih =>
    intro k s m
    rw [show j + 1 + k = (j + k) + 1 by omega, compressN, compressN, ih, List.drop_drop, Nat.succ_mul,
      Nat.add_comm (j * n)]

theorem length_leftover : (leftover n m).length = m.length % n := by
  rw [leftover, List.length_drop, Nat.mod_def, Nat.mul_comm]

theorem compress_of_short (h : m.length < n) : compress f n s m = s := by
  rw [compress, Nat.div_eq_of_lt h, compressN]

theorem leftover_of_short (h : m.length < n) : leftover n m = m := by
  rw [leftover, Nat.div_eq_of_lt h, Nat.zero_mul, List.drop_zero]

/-- A complete block in front of a message goes first. -/
theorem compress_block (hn : 0 < n) (hb : b.length = n) : compress f n s (b ++ m) = compress f n (f s b) m := by
  have hlen : (b ++ m).length / n = m.length / n + 1 := by
    rw [List.length_append, hb, Nat.add_div_left _ hn]
  rw [compress, hlen, compressN, List.take_left' hb, List.drop_left' hb, compress]

theorem leftover_block (hn : 0 < n) (hb : b.length = n) : leftover n (b ++ m) = leftover n m := by
  have hlen : (b ++ m).length / n * n = b.length + m.length / n * n := by
    rw [List.length_append, hb, Nat.add_div_left _ hn, Nat.succ_mul, Nat.add_comm]
  rw [leftover, hlen, List.drop_length_add_append, leftover]

/-- **A message that goes on**: the machine may forget all but the state and what is left. -/
theorem compress_append (hn : 0 < n) (m' : List α) :
    compress f n s (m ++ m') = compress f n (compress f n s m) (leftover n m ++ m') := by
  have hsplit : m.length / n * n ≤ m.length := Nat.div_mul_le_self _ _
  have hlen : (m ++ m').length / n = m.length / n + (leftover n m ++ m').length / n := by
    have hdvd : (m ++ m').length = m.length / n * n + (leftover n m ++ m').length := by
      rw [List.length_append, List.length_append, leftover, List.length_drop]
      omega
    rw [hdvd, Nat.mul_comm (m.length / n), Nat.mul_add_div hn]
  rw [compress, hlen, compressN_add, compressN_append m' hsplit, List.drop_append_of_le_length hsplit]
  rfl

theorem leftover_append (hn : 0 < n) (m' : List α) : leftover n (m ++ m') = leftover n (leftover n m ++ m') := by
  have hsplit : m.length / n * n ≤ m.length := Nat.div_mul_le_self _ _
  have hdvd : (m ++ m').length = m.length / n * n + (leftover n m ++ m').length := by
    rw [List.length_append, List.length_append, leftover, List.length_drop]
    omega
  have hlen : (m ++ m').length / n * n = m.length / n * n + (leftover n m ++ m').length / n * n := by
    rw [hdvd, Nat.mul_comm (m.length / n), Nat.mul_add_div hn, Nat.add_mul, Nat.mul_comm n]
  rw [leftover, hlen, ← List.drop_drop, List.drop_append_of_le_length hsplit]
  rfl

/-- A message of complete blocks leaves nothing. -/
theorem leftover_eq_nil (h : m.length % n = 0) : leftover n m = [] :=
  List.eq_nil_of_length_eq_zero (length_leftover.trans h)

end CLib
