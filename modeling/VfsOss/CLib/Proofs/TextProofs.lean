import VfsOss.CLib.Text
import Mathlib.Data.List.TakeWhile

/-!
# Proofs: first occurrences

`strstr` returns the first occurrence, does not depend on what follows it, and skips any text that
cannot start the needle.
-/

namespace CLib

section Search

variable {α : Type} [DecidableEq α] {hay needle : List α}

theorem strstr_spec {i : Nat} (h : strstr hay needle = some i) : needle <+: hay.drop i := by
  induction hay generalizing i with
  | nil =>
    simp only [strstr] at h
    split at h
    · next hn => simp [hn]
    · exact absurd h (by simp)
  | cons c hay ih =>
    simp only [strstr] at h
    split at h
    · next hp => obtain rfl := Option.some.inj h; simpa using hp
    · obtain ⟨j, hj, rfl⟩ := Option.map_eq_some_iff.mp h
      simpa using ih hj

theorem strstr_le {i : Nat} (h : strstr hay needle = some i) :
    i + needle.length ≤ hay.length := by
  induction hay generalizing i with
  | nil =>
    simp only [strstr] at h
    split at h
    · next hn => simp [hn, ← Option.some.inj h]
    · exact absurd h (by simp)
  | cons c hay ih =>
    simp only [strstr] at h
    split at h
    · next hp =>
      obtain rfl := Option.some.inj h
      have := hp.length_le
      omega
    · obtain ⟨j, hj, rfl⟩ := Option.map_eq_some_iff.mp h
      have := ih hj
      simp only [List.length_cons]
      omega

/-- The text around a first occurrence. -/
theorem strstr_split {i : Nat} (h : strstr hay needle = some i) :
    hay = hay.take i ++ needle ++ hay.drop (i + needle.length) := by
  obtain ⟨t, ht⟩ := strstr_spec h
  have hd : hay.drop (i + needle.length) = t := by
    rw [← List.drop_drop, ← ht, List.drop_left]
  rw [hd, List.append_assoc, ht, List.take_append_drop]

/-- Nothing occurs before the first occurrence. -/
theorem strstr_first {i j : Nat} (h : strstr hay needle = some i) (hj : j < i) :
    ¬ needle <+: hay.drop j := by
  induction hay generalizing i j with
  | nil =>
    have := strstr_le h
    simp only [List.length_nil] at this
    omega
  | cons c hay ih =>
    simp only [strstr] at h
    split at h
    · obtain rfl := Option.some.inj h
      omega
    · next hp =>
      obtain ⟨k, hk, rfl⟩ := Option.map_eq_some_iff.mp h
      cases j with
      | zero => simpa using hp
      | succ j => simpa using ih hk (by omega : j < k)

theorem strstr_none {i : Nat} (h : strstr hay needle = none) : ¬ needle <+: hay.drop i := by
  induction hay generalizing i with
  | nil =>
    simp only [strstr] at h
    split at h
    · exact absurd h (by simp)
    · next hn => simpa using hn
  | cons c hay ih =>
    simp only [strstr] at h
    split at h
    · exact absurd h (by simp)
    · next hp =>
      rw [Option.map_eq_none_iff] at h
      cases i with
      | zero => simpa using hp
      | succ i => simpa using ih h

/-- An occurrence with none before it is the one `strstr` returns. -/
theorem strstr_eq_some {i : Nat} (hp : needle <+: hay.drop i)
    (hf : ∀ j < i, ¬ needle <+: hay.drop j) (hi : i ≤ hay.length) :
    strstr hay needle = some i := by
  cases h : strstr hay needle with
  | none => exact absurd hp (strstr_none h)
  | some k =>
    have hk := strstr_spec h
    rcases Nat.lt_trichotomy k i with hlt | rfl | hlt
    · exact absurd hk (hf k hlt)
    · rfl
    · exact absurd hp (strstr_first h hlt)

/-- A first occurrence stays the first one whatever is appended. -/
theorem strstr_append {i : Nat} (h : strstr hay needle = some i) (tail : List α) :
    strstr (hay ++ tail) needle = some i := by
  have hle := strstr_le h
  refine strstr_eq_some ?_ ?_ (by simp only [List.length_append]; omega)
  · rw [List.drop_append_of_le_length (by omega)]
    exact (strstr_spec h).trans (List.prefix_append _ _)
  · intro j hj hp
    rw [List.drop_append_of_le_length (by omega)] at hp
    refine strstr_first h hj (List.prefix_of_prefix_length_le hp (List.prefix_append _ _) ?_)
    rw [List.length_drop]
    omega

/-- A text that does not contain the first byte of the needle is skipped. -/
theorem strstr_skip {a r : List α} {c : α} {needle : List α} (h : c ∉ a) :
    strstr (a ++ r) (c :: needle) = (strstr r (c :: needle)).map (a.length + ·) := by
  induction a with
  | nil => cases h : strstr r (c :: needle) <;> simp [h]
  | cons d a ih =>
    have hcd : c ≠ d := fun e => h (by simp [e])
    have ha : c ∉ a := fun hc => h (by simp [hc])
    rw [List.cons_append, strstr, if_neg (by simp [List.cons_prefix_cons, hcd]), ih ha]
    cases strstr r (c :: needle) with
    | none => simp
    | some k => simp; omega

/-- A text at no place of which the needle can start, even with more behind it, is skipped. -/
theorem strstr_skip_apart {a : List α}
    (h : ∀ j < a.length, ¬ a.drop j <+: needle ∧ ¬ needle <+: a.drop j) (r : List α) :
    strstr (a ++ r) needle = (strstr r needle).map (a.length + ·) := by
  induction a with
  | nil => cases hr : strstr r needle <;> simp [hr]
  | cons c a ih =>
    have h0 := h 0 (by simp)
    rw [List.drop_zero] at h0
    rw [List.cons_append, strstr, if_neg, ih fun j hj => h (j + 1) (by simpa using hj)]
    · cases strstr r needle with
      | none => simp
      | some k => simp; omega
    · rintro hp
      rcases List.prefix_or_prefix_of_prefix hp (List.prefix_append (c :: a) r) with hp | hp
      · exact h0.2 hp
      · exact h0.1 hp

/-- A needle at the start is found at once. -/
theorem strstr_here (r : List α) : strstr (needle ++ r) needle = some 0 :=
  strstr_eq_some (by simp) (by omega) (by simp)

/-- A needle is found right after a text that does not contain its first byte. -/
theorem strstr_at {a r : List α} {c : α} {needle : List α} (h : c ∉ a) :
    strstr (a ++ (c :: needle ++ r)) (c :: needle) = some a.length := by
  rw [strstr_skip h, strstr_here]
  simp

/-- A needle that is not in a text is not in any part of it. -/
theorem strstr_none_of_append {tail : List α} (h : strstr (hay ++ tail) needle = none) :
    strstr hay needle = none := by
  cases hs : strstr hay needle with
  | none => rfl
  | some i => rw [strstr_append hs] at h; exact absurd h (by simp)

/-- A proper prefix of a text whose only occurrence of the needle is at its end has none. -/
theorem strstr_take_none {i n : Nat} (h : strstr hay needle = some i)
    (hn : n < i + needle.length) : strstr (hay.take n) needle = none := by
  cases hs : strstr (hay.take n) needle with
  | none => rfl
  | some k =>
    have hk := strstr_append hs (hay.drop n)
    rw [List.take_append_drop, h] at hk
    have hle := strstr_le hs
    obtain rfl := Option.some.inj hk
    simp only [List.length_take] at hle
    omega

/-- An occurrence that ends in the first part of a text is found in that part. -/
theorem strstr_of_append {i : Nat} {tail : List α} (h : strstr (hay ++ tail) needle = some i)
    (hi : i + needle.length ≤ hay.length) : strstr hay needle = some i := by
  cases hs : strstr hay needle with
  | some k => rw [← strstr_append hs tail, h]
  | none =>
    have hp := strstr_spec h
    rw [List.drop_append_of_le_length (by omega)] at hp
    refine absurd (List.prefix_of_prefix_length_le hp (List.prefix_append _ _) ?_) (strstr_none hs)
    rw [List.length_drop]
    omega

/-- The first occurrence of a byte, with the text around it. -/
theorem strchr_append {a r : List α} {c : α} (h : c ∉ a) :
    strchr (a ++ c :: r) c = some a.length := by
  induction a with
  | nil => simp [strchr]
  | cons d a ih =>
    have hcd : d ≠ c := fun e => h (by simp [e])
    simp [strchr, hcd, ih fun hc => h (by simp [hc])]

theorem strchr_eq_none {s : List α} {c : α} : strchr s c = none ↔ c ∉ s := by
  induction s with
  | nil => simp [strchr]
  | cons d s ih =>
    by_cases hd : d = c
    · simp [strchr, hd]
    · simp [strchr, hd, ih, Ne.symm hd]

/-- A text around the first occurrence of a byte. -/
theorem strchr_eq_some {s : List α} {c : α} {k : Nat} (h : strchr s c = some k) :
    ∃ a r, s = a ++ c :: r ∧ c ∉ a ∧ a.length = k := by
  have hmem : c ∈ s := by
    by_contra hc
    rw [strchr_eq_none.mpr hc] at h
    exact nomatch h
  obtain ⟨a, r, rfl, ha⟩ := List.eq_append_cons_of_mem hmem
  rw [strchr_append ha] at h
  exact ⟨a, r, rfl, ha, Option.some.inj h⟩

/-- A text around the offset of a byte. -/
theorem strchr_split {s : List α} {c : α} {k : Nat} (h : strchr s c = some k) :
    s = s.take k ++ c :: s.drop (k + 1) ∧ (s.take k).length = k := by
  obtain ⟨a, r, rfl, -, rfl⟩ := strchr_eq_some h
  have hdrop : (a ++ c :: r).drop (a.length + 1) = r := by
    rw [← List.drop_drop, List.drop_left]
    rfl
  rw [List.take_left, hdrop]
  exact ⟨rfl, rfl⟩

end Search

/-! ## C strings in memory -/

/-- A terminated text is the C string at the start of its block. -/
theorem cstr_append_zero {s : Bytes} (h : (0 : UInt8) ∉ s) (rest : Bytes) :
    cstr (s ++ 0 :: rest) = s := by
  rw [cstr, List.takeWhile_append_of_pos, List.takeWhile_cons_of_neg (by simp), List.append_nil]
  intro b hb
  simpa using fun e : b = 0 => h (e ▸ hb)

theorem cstr_append_of_not_mem {s : Bytes} (h : (0 : UInt8) ∉ s) (rest : Bytes) :
    cstr (s ++ rest) = s ++ cstr rest := by
  rw [cstr, List.takeWhile_append_of_pos]
  · rfl
  · intro b hb
    simpa using fun e : b = 0 => h (e ▸ hb)

/-- What lies after a NUL does not matter. -/
theorem cstr_append_of_mem {s : Bytes} (h : (0 : UInt8) ∈ s) (rest : Bytes) :
    cstr (s ++ rest) = cstr s := by
  induction s with
  | nil => simp at h
  | cons b s ih =>
    by_cases hb : b = 0
    · simp [cstr, hb]
    · have hs : (0 : UInt8) ∈ s := by simpa [Ne.symm hb] using h
      simpa [cstr, hb] using ih hs

theorem zero_not_mem_cstr (s : Bytes) : (0 : UInt8) ∉ cstr s := by
  intro h
  simpa using List.mem_takeWhile_imp (p := fun b : UInt8 => b ≠ 0) h

/-- A C string is the start of its block. -/
theorem cstr_split (s : Bytes) : s = cstr s ++ s.drop (cstr s).length := by
  have hp : cstr s <+: s := List.takeWhile_prefix _
  exact (List.prefix_iff_eq_append.mp hp).symm

theorem crlf_not_mem_at {v r : Bytes} (h : (13 : UInt8) ∉ v) :
    strstr (v ++ (crlf ++ r)) crlf = some v.length :=
  strstr_at h

/-! ## Lines -/

theorem snprintf_of_le {n : Nat} {s : Bytes} (h : s.length < n) : snprintf n s = s := by
  rw [snprintf, List.take_of_length_le (by omega)]

/-- A line ends at the first end of line behind it. -/
theorem strstr_line {v : Bytes} (h : ¬ crlf <:+: v) (r : Bytes) :
    strstr (v ++ (crlf ++ r)) crlf = some v.length := by
  refine strstr_eq_some (by rw [List.drop_left]; exact List.prefix_append _ _) (fun j hj hp => ?_)
    (by simp only [List.length_append]; omega)
  rw [List.drop_append_of_le_length (by omega)] at hp
  obtain ⟨c, w, hw⟩ : ∃ c w, v.drop j = c :: w :=
    List.exists_cons_of_ne_nil (by rw [ne_eq, List.drop_eq_nil_iff]; omega)
  rw [hw] at hp
  rcases w with _ | ⟨d, w⟩
  · exact absurd hp (by simp [crlf])
  · refine h ((List.IsPrefix.isInfix ?_).trans (List.drop_suffix j v).isInfix)
    rw [hw]
    have hp : 13 :: [10] <+: c :: ((d :: w) ++ (crlf ++ r)) := hp
    simp only [List.cons_append, List.cons_prefix_cons] at hp
    show 13 :: [10] <+: c :: d :: w
    simp only [List.cons_prefix_cons]
    exact ⟨hp.1, hp.2.1, List.nil_prefix⟩

/-- The first double end of line is not at a line end with a further line behind it. -/
theorem strstr_skip_line {a r : Bytes} {c : UInt8} (ha : (13 : UInt8) ∉ a) (hc : c ≠ 13) :
    strstr (a ++ (crlf ++ c :: r)) (crlf ++ crlf) =
      (strstr (c :: r) (crlf ++ crlf)).map ((a ++ crlf).length + ·) := by
  have hcrlf : strstr (crlf ++ c :: r) (crlf ++ crlf) = (strstr (c :: r) (crlf ++ crlf)).map (2 + ·) := by
    show strstr (13 :: 10 :: c :: r) (13 :: [10, 13, 10]) = (strstr (c :: r) (13 :: [10, 13, 10])).map _
    rw [strstr, if_neg (by simp [Ne.symm hc]), strstr, if_neg (by simp), Option.map_map]
    congr 1
    funext k
    show k + 1 + 1 = 2 + k
    omega
  rw [show crlf ++ crlf = 13 :: [10, 13, 10] from rfl] at hcrlf ⊢
  rw [strstr_skip ha, hcrlf, Option.map_map]
  congr 1
  funext k
  show a.length + (2 + k) = (a ++ crlf).length + k
  rw [List.length_append, show crlf.length = 2 from rfl]
  omega
/-- A byte of a C string in its block, and the block with a NUL stored over it. -/
theorem cstr_strchr {s : Bytes} {c : UInt8} {k : Nat} (h : strchr (cstr s) c = some k) :
    ∃ a r, s = a ++ c :: r ∧ c ∉ a ∧ (0 : UInt8) ∉ a ∧ cstr s = a ++ c :: cstr r ∧
      s.set k 0 = a ++ 0 :: r ∧ (s.set k 0).drop (k + 1) = r := by
  obtain ⟨a, b, hs, hc, rfl⟩ := strchr_eq_some h
  have hzero := zero_not_mem_cstr s
  rw [hs] at hzero
  obtain ⟨r, hbytes⟩ : ∃ r, s = a ++ c :: r := by
    have hsplit := cstr_split s
    rw [hs, List.append_assoc, List.cons_append] at hsplit
    exact ⟨_, hsplit⟩
  have hset : s.set a.length 0 = a ++ 0 :: r := by
    rw [hbytes]
    simp
  refine ⟨a, r, hbytes, hc, fun ha => hzero (by simp [ha]), ?_, hset, ?_⟩
  · have hc0 : c ≠ 0 := fun h0 => hzero (by simp [h0])
    rw [hbytes, cstr_append_of_not_mem fun ha => hzero (by simp [ha])]
    simp [cstr, hc0]
  · rw [hset]
    simp

end CLib
