import VfsOss.Conf.Load
import VfsOss.Conf.Proofs.LawProofs
import VfsOss.CLib.Proofs.DecimalProofs

/-!
# The loader and the lines of a file

The loop is followed from line to line. A line is taken apart inside its own bytes, so what was read before it, the
text of the section among it, stays.
-/

namespace VfsOss

open CLib

section Bytes

variable {a m r s : Bytes} {b : UInt8}

theorem length_snoc (a : Bytes) (b : UInt8) : (a ++ [b]).length = a.length + 1 := List.length_append

/-- The separators before the end of a section, up to a byte that is none. -/
theorem backSeps_append (a r : Bytes) (hb : isSep b = false) (hm : ∀ x ∈ m, isSep x = true) :
    backSeps (a ++ b :: (m ++ r)) (a ++ b :: m).length = .ok (a.length + 1) := by
  induction m using List.reverseRecOn generalizing r with
  | nil =>
    rw [List.length_append, List.length_singleton, backSeps, List.nil_append, readByte_append, ok_bind, if_neg]
    · rfl
    · rw [hb]
      decide
  | append_singleton m x ih =>
    have hx : isSep x = true := hm x (List.mem_append_right _ List.mem_cons_self)
    have hlen : (a ++ b :: (m ++ [x])).length = (a ++ b :: m).length + 1 := by
      simp only [List.length_append, List.length_cons, List.length_nil]
      omega
    have hshape : a ++ b :: (m ++ [x] ++ r) = (a ++ b :: m) ++ x :: r := by simp
    have ih := ih (x :: r) fun y hy => hm y (List.mem_append_left _ hy)
    rw [hlen, backSeps, hshape, readByte_append, ok_bind, if_pos hx, ← ih]
    simp

/-- The blanks before the end of a line are overwritten, up to a byte that is none. -/
theorem stripBlanks_append (a r : Bytes) (hb : isBlank b = false) (hm : ∀ x ∈ m, isBlank x = true) :
    stripBlanks (a ++ b :: m).length (a ++ b :: (m ++ r)) =
      .ok (a ++ b :: (List.replicate m.length 0 ++ r)) := by
  induction m using List.reverseRecOn generalizing r with
  | nil =>
    rw [List.length_append, List.length_singleton, stripBlanks, List.nil_append, readByte_append, ok_bind, if_neg]
    · rfl
    · rw [hb]
      decide
  | append_singleton m x ih =>
    have hx : isBlank x = true := hm x (List.mem_append_right _ List.mem_cons_self)
    have hlen : (a ++ b :: (m ++ [x])).length = (a ++ b :: m).length + 1 := by
      simp only [List.length_append, List.length_cons, List.length_nil]
      omega
    have hshape : a ++ b :: (m ++ [x] ++ r) = (a ++ b :: m) ++ x :: r := by simp
    have hset : ((a ++ b :: m) ++ x :: r).set (a ++ b :: m).length 0 = a ++ b :: (m ++ 0 :: r) := by
      rw [List.set_append_right _ _ (Nat.le_refl _), Nat.sub_self]
      simp
    rw [hlen, stripBlanks, hshape, readByte_append, ok_bind, if_pos hx, hset,
      ih (0 :: r) fun y hy => hm y (List.mem_append_left _ hy), List.length_append, List.length_singleton,
      List.replicate_succ']
    simp

/-- What is left of some bytes whose first ones are dropped starts with one that is not. -/
theorem dropWhile_split {p : UInt8 → Bool} {n : Bytes} (h : s.dropWhile p = b :: n) :
    ∃ l, s = l ++ b :: n ∧ (∀ x ∈ l, p x = true) ∧ p b = false := by
  refine ⟨s.takeWhile p, ?_, fun x hx => List.mem_takeWhile_imp hx, ?_⟩
  · rw [← h, List.takeWhile_append_dropWhile]
  · have hhead := List.head?_dropWhile_not p s
    rw [h] at hhead
    simpa using hhead

/-- What is left of some bytes whose last ones are dropped ends in one that is not. -/
theorem rdropWhile_cases (p : UInt8 → Bool) (s : Bytes) :
    s.rdropWhile p = [] ∨ ∃ t b, s.rdropWhile p = t ++ [b] ∧ p b = false := by
  rcases List.eq_nil_or_concat (s.rdropWhile p) with h | ⟨t, b, h⟩
  · exact .inl h
  · rw [List.concat_eq_append] at h
    refine .inr ⟨t, b, h, ?_⟩
    have hne : s.rdropWhile p ≠ [] := by
      rw [h]
      exact List.concat_ne_nil b t
    have hlast := List.rdropWhile_last_not p s hne
    simpa [h] using hlast

theorem dropWhile_eq_nil_of_rdropWhile {p : UInt8 → Bool} (h : (s.dropWhile p).rdropWhile p = []) :
    s.dropWhile p = [] := by
  match hs : s.dropWhile p with
  | [] => rfl
  | b :: t =>
    rw [hs] at h
    have hb := List.rdropWhile_eq_nil_iff.mp h b List.mem_cons_self
    rw [(dropWhile_split hs).choose_spec.2.2] at hb
    exact nomatch hb

theorem rdropWhile_append_of_ne_nil {p : UInt8 → Bool} (h : s.rdropWhile p ≠ []) (a : Bytes) :
    (a ++ s).rdropWhile p = a ++ s.rdropWhile p := by
  have hne : ¬ (s.reverse.dropWhile p).isEmpty = true := fun hempty =>
    h (by rw [List.rdropWhile, List.isEmpty_iff.mp hempty, List.reverse_nil])
  rw [List.rdropWhile, List.reverse_append, List.dropWhile_append, if_neg hne, List.reverse_append,
    List.reverse_reverse]
  rfl

/-- The blanks at the end of a part of the block that a NUL stands before. -/
theorem stripBlanks_zero (a m r : Bytes) : stripBlanks (a ++ 0 :: m).length (a ++ 0 :: (m ++ r)) =
    .ok (a ++ 0 :: (m.rdropWhile isBlank ++ (List.replicate (m.rtakeWhile isBlank).length 0 ++ r))) := by
  have hblank : ∀ x ∈ m.rtakeWhile isBlank, isBlank x = true := fun x hx => List.mem_rtakeWhile_imp hx
  have hm := List.rdropWhile_append_rtakeWhile (p := isBlank) (l := m)
  rcases rdropWhile_cases isBlank m with hnil | ⟨t, b, ht, hb⟩
  · rw [hnil, List.nil_append] at hm
    rw [hnil, List.nil_append]
    have hstrip := stripBlanks_append (b := 0) a r rfl hblank
    rwa [hm] at hstrip ⊢
  · rw [ht] at hm ⊢
    have hstrip := stripBlanks_append (a ++ 0 :: t) r hb hblank
    have hshape (l : Bytes) : (a ++ 0 :: t) ++ b :: l = a ++ 0 :: (t ++ [b] ++ l) := by simp
    rw [hshape, hshape, hshape, ← List.append_assoc (t ++ [b]), hm] at hstrip
    exact hstrip

end Bytes

/-! ## Sections -/

section Sections

variable {a r s : Bytes}

theorem readSection_open (a r : Bytes) (sect : Option Nat) (h0 : (0 : UInt8) ∉ s) (h : (93 : UInt8) ∉ s) :
    readSection (a ++ (s ++ 0 :: r)) a.length sect = .ok (a ++ (s ++ 0 :: r), sect) := by
  unfold readSection
  rw [textAt_append a r h0, ok_bind, strchr_eq_none.mpr h]
  rfl

/-- The search back from the bracket that closes a section ends behind its name, or behind the bracket that opens
it. -/
theorem backSeps_section (a x r : Bytes) : backSeps (a ++ 91 :: (x ++ r)) (a ++ 91 :: x).length =
    .ok (a ++ 91 :: x.rdropWhile isSep).length := by
  have hsep : ∀ b ∈ x.rtakeWhile isSep, isSep b = true := fun b hb => List.mem_rtakeWhile_imp hb
  have hx := List.rdropWhile_append_rtakeWhile (p := isSep) (l := x)
  rcases rdropWhile_cases isSep x with hnil | ⟨t, b, ht, hb⟩
  · rw [hnil, List.nil_append] at hx
    have hback := backSeps_append (b := 91) a r rfl hsep
    rw [hx] at hback
    rw [hback, hnil, List.length_append]
    rfl
  · rw [ht] at hx
    have hback := backSeps_append (a ++ 91 :: t) r hb hsep
    have hshape (l : Bytes) : (a ++ 91 :: t) ++ b :: l = a ++ 91 :: (t ++ [b] ++ l) := by simp
    rw [hshape, hshape, ← List.append_assoc (t ++ [b]), hx] at hback
    rw [hback, ht]
    simp only [List.length_append, List.length_cons, List.length_nil]
    rfl

/-- Two bytes written at the start of what a line has left, behind which its NUL still stands. -/
theorem overwrite_two (m r : Bytes) (hm : m ≠ []) : ∃ m' d e tail w, m ++ 0 :: r = d :: e :: tail ∧
    45 :: 0 :: tail = m' ++ 0 :: r ∧ m' ++ [0] = 45 :: 0 :: w ∧ m'.length = m.length := by
  match m with
  | [] => exact absurd rfl hm
  | [d] => exact ⟨[45], d, 0, r, [], rfl, rfl, rfl, rfl⟩
  | d :: e :: m => exact ⟨45 :: 0 :: m, d, e, m ++ 0 :: r, m ++ [0], rfl, rfl, rfl, rfl⟩

/-- **A section that is closed** is the text that `section` points to, inside its line. -/
theorem readSection_closed (a r : Bytes) (sect : Option Nat) (h0 : (0 : UInt8) ∉ s) (h : (93 : UInt8) ∈ s) :
    ∃ s' sect', s'.length = s.length ∧
      readSection (a ++ 91 :: (s ++ 0 :: r)) (a.length + 1) sect = .ok (a ++ 91 :: (s' ++ 0 :: r), sect') ∧
      sectionAt (a ++ 91 :: (s' ++ [0])) sect' = .ok (sectionText (s.takeWhile (· ≠ 93))) := by
  obtain ⟨x, y, rfl, hx⟩ := List.eq_append_cons_of_mem h
  have h0x : (0 : UInt8) ∉ x := fun hmem => h0 (List.mem_append_left _ hmem)
  have htake : (x ++ 93 :: y).takeWhile (· ≠ 93) = x := by
    rw [List.takeWhile_append_of_pos, List.takeWhile_cons_of_neg (by decide), List.append_nil]
    intro b hb
    simpa using fun heq : b = 93 => hx (heq ▸ hb)
  rw [htake]
  -- the name with the separators behind it
  have hname := List.rdropWhile_append_rtakeWhile (p := isSep) (l := x)
  obtain ⟨m', d, e, tail, w, hm, hm', hw, hlen⟩ :=
    overwrite_two (x.rtakeWhile isSep ++ 93 :: y) r (List.append_ne_nil_of_right_ne_nil _ (List.cons_ne_nil _ _))
  have hback := backSeps_section a x (93 :: y ++ 0 :: r)
  generalize hx1 : x.rdropWhile isSep = x1 at hname hback
  generalize x.rtakeWhile isSep = x2 at hname hm hlen
  have h01 : (0 : UInt8) ∉ x1 ++ [45] := by
    rintro hmem
    rcases List.mem_append.mp hmem with hmem | hmem
    · exact h0x (hname ▸ List.mem_append_left _ hmem)
    · exact absurd (List.mem_singleton.mp hmem) (by decide)
  have hshape : a ++ 91 :: (x ++ (93 :: y ++ 0 :: r)) = (a ++ 91 :: x1) ++ d :: e :: tail := by
    rw [← hm, ← hname]
    simp
  have hread (q : Nat) (b : UInt8) (hskip : skipBytes isSep (a ++ 91 :: (x1 ++ 45 :: 0 :: tail)) (a.length + 1) = .ok q)
      (hb : readByte (a ++ 91 :: (x1 ++ 45 :: 0 :: tail)) q = .ok b) :
      readSection (a ++ 91 :: (x ++ 93 :: y ++ 0 :: r)) (a.length + 1) sect =
        .ok (a ++ 91 :: (x1 ++ m' ++ 0 :: r), if b = 0 then none else some q) := by
    have htext : textAt (a ++ 91 :: (x ++ 93 :: y ++ 0 :: r)) (a.length + 1) = .ok (x ++ 93 :: y) := by
      rw [← length_snoc a 91, List.append_cons]
      exact textAt_append _ r h0
    have hpos : a.length + 1 + x.length = (a ++ 91 :: x).length := by
      simp only [List.length_append, List.length_cons]
      omega
    have hpos1 : (a ++ 91 :: x1).length + 1 = ((a ++ 91 :: x1) ++ [(45 : UInt8)]).length := (length_snoc _ 45).symm
    have hfinal : (a ++ 91 :: x1) ++ 45 :: 0 :: tail = a ++ 91 :: (x1 ++ 45 :: 0 :: tail) := by simp
    unfold readSection
    rw [htext, ok_bind, strchr_append hx]
    dsimp only
    rw [hpos, List.append_assoc x, hback, ok_bind, hshape, writeByte_append, ok_bind, hpos1,
      List.append_cons _ 45, writeByte_append, ok_bind, ← List.append_cons, hfinal, hskip, ok_bind, hb, ok_bind,
      hm', ← List.append_assoc x1]
    rfl
  have hskip : skipBytes isSep (a ++ 91 :: (x1 ++ 45 :: 0 :: tail)) (a.length + 1) =
      .ok ((a ++ [91]) ++ (x1 ++ [(45 : UInt8)]).takeWhile isSep).length := by
    rw [← length_snoc a 91, List.append_cons a, List.append_cons x1]
    exact skipBytes_append _ (a ++ [91]) h01 tail
  have hlens : (x1 ++ m').length = (x ++ 93 :: y).length := by
    rw [← hname, List.length_append, hlen]
    simp only [List.length_append, List.length_cons]
    omega
  have htrim : sectionText x = if x1.dropWhile isSep = [] then [] else x1.dropWhile isSep ++ [45] := by
    rw [← hx1]
    rfl
  rcases rdropWhile_cases isSep x with hnil | ⟨t, b, ht, hb⟩
  · -- nothing but separators: the dash that was written is one more
    obtain rfl : x1 = [] := hx1.symm.trans hnil
    have hbyte : readByte (a ++ 91 :: ([] ++ 45 :: 0 :: tail)) ((a ++ [91]) ++ [45]).length = .ok 0 := by
      have hshape : a ++ 91 :: ([] ++ 45 :: 0 :: tail) = (a ++ [91] ++ [45]) ++ 0 :: tail := by simp
      rw [hshape]
      exact readByte_append _ tail 0
    refine ⟨[] ++ m', none, hlens, hread _ 0 hskip hbyte, ?_⟩
    rw [htrim]
    rfl
  · obtain rfl : x1 = t ++ [b] := hx1.symm.trans ht
    have hne : (t ++ [b]).dropWhile isSep ≠ [] := fun hnil => by
      have hall := List.dropWhile_eq_nil_iff.mp hnil b (List.mem_append_right _ List.mem_cons_self)
      rw [hb] at hall
      exact nomatch hall
    obtain ⟨z, n, hz⟩ := List.exists_cons_of_ne_nil hne
    obtain ⟨l, hsplit, hl, hzsep⟩ := dropWhile_split hz
    have hkeep (r : Bytes) : (t ++ [b] ++ r).takeWhile isSep = l := by
      rw [hsplit, List.append_assoc, List.takeWhile_append_of_pos hl, List.cons_append,
        List.takeWhile_cons_of_neg (by rw [hzsep]; decide), List.append_nil]
    have h0z : (0 : UInt8) ∉ z :: n ++ [45] := fun hmem => h01 (by
      rw [hsplit, List.append_assoc]
      exact List.mem_append_right _ hmem)
    have hbyte : readByte (a ++ 91 :: (t ++ [b] ++ 45 :: 0 :: tail)) ((a ++ [91]) ++ l).length = .ok z := by
      have hshape : a ++ 91 :: (t ++ [b] ++ 45 :: 0 :: tail) = (a ++ [91] ++ l) ++ z :: (n ++ 45 :: 0 :: tail) := by
        rw [hsplit]
        simp
      rw [hshape]
      exact readByte_append _ _ z
    rw [hkeep] at hskip
    have hz0 : z ≠ 0 := fun heq => h0z (heq ▸ List.mem_cons_self)
    have hpoints := hread _ z hskip hbyte
    rw [if_neg hz0] at hpoints
    refine ⟨t ++ [b] ++ m', some _, hlens, hpoints, ?_⟩
    have hshape : a ++ 91 :: (t ++ [b] ++ m' ++ [0]) = (a ++ [91] ++ l) ++ ((z :: n ++ [45]) ++ 0 :: w) := by
      rw [List.append_assoc (t ++ [b]), hw, hsplit]
      simp
    rw [htrim, hz, if_neg (List.cons_ne_nil z n), sectionAt, hshape]
    exact textAt_append _ w h0z

end Sections

/-! ## Keys and values -/

section Entries

variable {a r s q t : Bytes}

/-- The equals signs between a key and its value, if there are any. -/
theorem skipEquals_append (a : Bytes) (h0 : (0 : UInt8) ∉ q) (r : Bytes) :
    skipEquals (a ++ (q ++ 0 :: r)) a.length = .ok (a ++ q.takeWhile (· = 61)).length := by
  unfold skipEquals
  match q with
  | [] =>
    rw [List.nil_append, readByte_append, ok_bind, if_neg (by decide), List.takeWhile_nil, List.append_nil]
    rfl
  | b :: q =>
    rw [List.cons_append, readByte_append, ok_bind]
    by_cases hb : b = 61
    · subst hb
      rw [if_pos rfl, List.takeWhile_cons_of_pos (by decide), ← length_snoc a 61, List.append_cons a 61 (q ++ 0 :: r),
        List.append_cons a 61 (q.takeWhile _)]
      exact skipBytes_append _ _ (fun hmem => h0 (List.mem_cons_of_mem _ hmem)) r
    · rw [if_neg hb, List.takeWhile_cons_of_neg (by simpa using hb), List.append_nil]
      rfl

/-- The bytes that end a key. -/
theorem not_isKeyByte {b : UInt8} (h : isKeyByte b = false) : isBlank b = true ∨ b = 61 := by
  unfold isKeyByte at h
  cases hb : isBlank b with
  | true => exact .inl rfl
  | false =>
    rw [hb] at h
    exact .inr (by simpa using h)

theorem isBlank_of_isKeyByte {b : UInt8} (h : isKeyByte b = true) : isBlank b = false := by
  unfold isKeyByte at h
  cases hb : isBlank b with
  | false => rfl
  | true =>
    rw [hb] at h
    exact nomatch h

/-- What is done with a line, from the end of its key at `v` and the first byte behind the equals signs at `p`. -/
theorem readEntry_eq {buf buf' buf'' text : Bytes} {k v p p' e w : Nat} {b d : UInt8}
    (hv : skipBytes isKeyByte buf k = .ok v) (hp : skipBytes isBlank buf v = .ok p) (hp' : skipEquals buf p = .ok p')
    (hbuf' : writeByte buf v 0 = .ok buf') (hw : skipBytes isBlank buf' p' = .ok w)
    (htext : textAt buf' p' = .ok text) (hstrip : stripBlanks e buf' = .ok buf'') (hb : readByte buf'' k = .ok b)
    (hd : readByte buf'' w = .ok d) :
    readEntry buf k (some (e + 1)) =
      if isAlnum b && d ≠ 0 then do
        let key ← textAt buf'' k
        let val ← textAt buf'' w
        return (buf'', some (key, val))
      else .ok (buf'', none) := by
  unfold readEntry
  rw [hv, ok_bind, hp, ok_bind, hp', ok_bind, hbuf', ok_bind, hw, ok_bind, htext, ok_bind]
  dsimp only
  rw [Nat.add_sub_cancel, hstrip, ok_bind, hb, ok_bind, hd, ok_bind]
  rfl

/-- A line that holds nothing but a key. -/
theorem readEntry_bare (a r : Bytes) (hne : s ≠ []) (h0 : (0 : UInt8) ∉ s) (hs : ∀ b ∈ s, isKeyByte b = true) :
    readEntry (a ++ (s ++ 0 :: r)) a.length (some (a.length + s.length + 1)) = .ok (a ++ (s ++ 0 :: r), none) := by
  have hbuf : a ++ (s ++ 0 :: r) = (a ++ s) ++ ([] ++ 0 :: r) := by simp
  have hv : skipBytes isKeyByte (a ++ (s ++ 0 :: r)) a.length = .ok (a ++ s).length := by
    have hskip := skipBytes_append isKeyByte a h0 r
    rwa [List.takeWhile_eq_self_iff.mpr hs] at hskip
  have hblank : skipBytes isBlank (a ++ (s ++ 0 :: r)) (a ++ s).length = .ok (a ++ s).length := by
    have hskip := skipBytes_append isBlank (a ++ s) (List.not_mem_nil (a := 0)) r
    rwa [← hbuf, List.takeWhile_nil, List.append_nil] at hskip
  have hequals : skipEquals (a ++ (s ++ 0 :: r)) (a ++ s).length = .ok (a ++ s).length := by
    have hskip := skipEquals_append (a ++ s) (List.not_mem_nil (a := 0)) r
    rwa [← hbuf, List.takeWhile_nil, List.append_nil] at hskip
  have hwrite : writeByte (a ++ (s ++ 0 :: r)) (a ++ s).length 0 = .ok (a ++ (s ++ 0 :: r)) := by
    have hput := writeByte_append (a ++ s) r 0 0
    rwa [List.append_assoc] at hput
  have htext : textAt (a ++ (s ++ 0 :: r)) (a ++ s).length = .ok [] := by
    have hnil := textAt_append (a ++ s) r (List.not_mem_nil (a := 0))
    rwa [← hbuf] at hnil
  have hend : readByte (a ++ (s ++ 0 :: r)) (a ++ s).length = .ok 0 := by
    have hbyte := readByte_append (a ++ s) r 0
    rwa [List.append_assoc] at hbyte
  have hstrip : stripBlanks (a ++ s).length (a ++ (s ++ 0 :: r)) = .ok (a ++ (s ++ 0 :: r)) := by
    obtain ⟨t, b, rfl⟩ := List.eq_nil_or_concat' s |>.resolve_left hne
    have hb : isBlank b = false := isBlank_of_isKeyByte (hs b (List.mem_append_right _ List.mem_cons_self))
    have hstrip := stripBlanks_append (m := []) (a ++ t) (0 :: r) hb (fun _ h => absurd h List.not_mem_nil)
    simpa using hstrip
  obtain ⟨b, t, rfl⟩ := List.exists_cons_of_ne_nil hne
  have hread := readEntry_eq hv hblank hequals hwrite hblank htext hstrip (readByte_append a (t ++ 0 :: r) b) hend
  rw [List.length_append] at hread
  rw [hread, if_neg (by simp)]

/-- Behind a key stand blanks or equals signs, and then what the value is found in. -/
theorem gap_split {c : UInt8} (hc : isKeyByte c = false) (q : Bytes) : ∃ gap t,
    (c :: q).takeWhile isBlank ++ ((c :: q).dropWhile isBlank).takeWhile (· = 61) = c :: gap ∧
      ((c :: q).dropWhile isBlank).dropWhile (· = 61) = t ∧ q = gap ++ t := by
  rcases not_isKeyByte hc with hblank | rfl
  · refine ⟨q.takeWhile isBlank ++ (q.dropWhile isBlank).takeWhile (· = 61), _, ?_, rfl, ?_⟩
    · rw [List.takeWhile_cons_of_pos hblank, List.dropWhile_cons_of_pos hblank]
      rfl
    · rw [List.dropWhile_cons_of_pos hblank, List.append_assoc, List.takeWhile_append_dropWhile,
        List.takeWhile_append_dropWhile]
  · refine ⟨q.takeWhile (· = 61), _, ?_, rfl, ?_⟩
    · rw [List.takeWhile_cons_of_neg (by decide), List.dropWhile_cons_of_neg (by decide),
        List.takeWhile_cons_of_pos (by decide)]
      rfl
    · rw [List.dropWhile_cons_of_neg (by decide), List.dropWhile_cons_of_pos (by decide),
        List.takeWhile_append_dropWhile]

/-- The first byte of a text, which is its NUL when it is empty. -/
theorem readByte_text (a s r : Bytes) : readByte (a ++ (s ++ 0 :: r)) a.length = .ok (s.headD 0) := by
  match s with
  | [] => exact readByte_append a r 0
  | b :: s => exact readByte_append a (s ++ 0 :: r) b

/-- What a line says that has something behind its key. -/
theorem entryOf_split {k q : Bytes} {c : UInt8} (hk : ∀ b ∈ k, isKeyByte b = true) (hc : isKeyByte c = false) :
    entryOf (k ++ c :: q) =
      if isAlnum (k.headD 0) && valueText (c :: q) ≠ [] then some (k, valueText (c :: q)) else none := by
  have hhead : (k ++ c :: q).head?.any isAlnum = isAlnum (k.headD 0) := by
    match k with
    | [] =>
      rcases not_isKeyByte hc with hblank | rfl
      · have hcases : c = 32 ∨ c = 9 ∨ c = 13 := by simpa [isBlank, or_assoc] using hblank
        rcases hcases with rfl | rfl | rfl <;> rfl
      · rfl
    | b :: k => rfl
  unfold entryOf
  rw [hhead, List.dropWhile_append_of_pos hk, List.dropWhile_cons_of_neg (by rw [hc]; decide),
    List.takeWhile_append_of_pos hk, List.takeWhile_cons_of_neg (by rw [hc]; decide), List.append_nil]

theorem zeros_cons (n : Nat) (r : Bytes) : List.replicate n 0 ++ 0 :: r = 0 :: (List.replicate n 0 ++ r) := by
  rw [List.append_cons, ← List.replicate_succ', List.replicate_succ, List.cons_append]

/-- A line with something behind its key: the NUL behind the key and the blanks at the end are written. -/
theorem readEntry_more (a r : Bytes) {k q : Bytes} {c : UInt8} (h0 : (0 : UInt8) ∉ k ++ c :: q)
    (hk : ∀ b ∈ k, isKeyByte b = true) (hc : isKeyByte c = false) :
    ∃ q', q'.length = q.length ∧
      readEntry (a ++ (k ++ c :: q ++ 0 :: r)) a.length (some (a.length + (k ++ c :: q).length + 1)) =
      .ok (a ++ (k ++ 0 :: q' ++ 0 :: r), entryOf (k ++ c :: q)) := by
  have h0k : (0 : UInt8) ∉ k := fun h => h0 (List.mem_append_left _ h)
  have h0c : (0 : UInt8) ∉ c :: q := fun h => h0 (List.mem_append_right _ h)
  obtain ⟨gap, t, hgap, ht, hq⟩ := gap_split hc q
  have h0t : (0 : UInt8) ∉ t := fun h => h0c (List.mem_cons_of_mem _ (hq ▸ List.mem_append_right _ h))
  have hbuf : a ++ (k ++ c :: q ++ 0 :: r) = (a ++ k) ++ (c :: q ++ 0 :: r) := by simp
  have htakeKey : (k ++ c :: q).takeWhile isKeyByte = k := by
    rw [List.takeWhile_append_of_pos hk, List.takeWhile_cons_of_neg (by rw [hc]; decide), List.append_nil]
  -- the pointers forwards
  have hv : skipBytes isKeyByte (a ++ (k ++ c :: q ++ 0 :: r)) a.length = .ok (a ++ k).length := by
    have hskip := skipBytes_append isKeyByte a h0 r
    rwa [htakeKey] at hskip
  have hp : skipBytes isBlank (a ++ (k ++ c :: q ++ 0 :: r)) (a ++ k).length =
      .ok (a ++ k ++ (c :: q).takeWhile isBlank).length := by
    rw [hbuf]
    exact skipBytes_append _ (a ++ k) h0c r
  have hp' : skipEquals (a ++ (k ++ c :: q ++ 0 :: r)) (a ++ k ++ (c :: q).takeWhile isBlank).length =
      .ok (a ++ k ++ 0 :: gap).length := by
    have h0q : (0 : UInt8) ∉ (c :: q).dropWhile isBlank := fun h => h0c ((List.dropWhile_suffix _).mem h)
    have hskip := skipEquals_append (a ++ k ++ (c :: q).takeWhile isBlank) h0q r
    rw [List.append_assoc (a ++ k) _ (List.takeWhile _ _), hgap, List.append_assoc (a ++ k),
      ← List.append_assoc (List.takeWhile _ _), List.takeWhile_append_dropWhile, ← hbuf] at hskip
    rw [hskip]
    simp only [List.length_append, List.length_cons]
  -- the block behind the NUL
  have hbuf' : a ++ k ++ 0 :: (q ++ 0 :: r) = (a ++ k ++ 0 :: gap) ++ (t ++ 0 :: r) := by
    rw [hq]
    simp
  have hwrite : writeByte (a ++ (k ++ c :: q ++ 0 :: r)) (a ++ k).length 0 = .ok (a ++ k ++ 0 :: (q ++ 0 :: r)) := by
    rw [hbuf]
    exact writeByte_append (a ++ k) (q ++ 0 :: r) c 0
  have hw : skipBytes isBlank (a ++ k ++ 0 :: (q ++ 0 :: r)) (a ++ k ++ 0 :: gap).length =
      .ok (a ++ k ++ 0 :: gap ++ t.takeWhile isBlank).length := by
    rw [hbuf']
    exact skipBytes_append _ (a ++ k ++ 0 :: gap) h0t r
  have htext : textAt (a ++ k ++ 0 :: (q ++ 0 :: r)) (a ++ k ++ 0 :: gap).length = .ok t := by
    rw [hbuf']
    exact textAt_append (a ++ k ++ 0 :: gap) r h0t
  have hstrip := stripBlanks_zero (a ++ k) q (0 :: r)
  have hend : (a ++ k ++ 0 :: q).length = a.length + (k ++ c :: q).length := by
    simp only [List.length_append, List.length_cons]
    omega
  rw [hend] at hstrip
  have hlen : (q.rdropWhile isBlank ++ List.replicate (q.rtakeWhile isBlank).length 0).length = q.length := by
    rw [List.length_append, List.length_replicate, ← List.length_append, List.rdropWhile_append_rtakeWhile]
  -- the key and the value
  have hkey : textAt (a ++ k ++ 0 :: (q.rdropWhile isBlank ++ (List.replicate (q.rtakeWhile isBlank).length 0 ++ 0 :: r)))
      a.length = .ok k := by
    rw [List.append_assoc]
    exact textAt_append a _ h0k
  have hfirst : readByte (a ++ k ++ 0 :: (q.rdropWhile isBlank ++
      (List.replicate (q.rtakeWhile isBlank).length 0 ++ 0 :: r))) a.length = .ok (k.headD 0) := by
    rw [List.append_assoc]
    exact readByte_text a k _
  obtain ⟨w, r', hwlen, hval⟩ : ∃ w r', w.length = (a ++ k ++ 0 :: gap ++ t.takeWhile isBlank).length ∧
      a ++ k ++ 0 :: (q.rdropWhile isBlank ++ (List.replicate (q.rtakeWhile isBlank).length 0 ++ 0 :: r)) =
        w ++ ((t.dropWhile isBlank).rdropWhile isBlank ++ 0 :: r') := by
    by_cases hnil : (t.dropWhile isBlank).rdropWhile isBlank = []
    · -- no value: the NUL of the line is all there is
      refine ⟨a ++ k ++ 0 :: (q.rdropWhile isBlank ++ List.replicate (q.rtakeWhile isBlank).length 0), r, ?_, ?_⟩
      · have hblank : t.takeWhile isBlank = t := by
          have hsplit := List.takeWhile_append_dropWhile (p := isBlank) (l := t)
          rwa [dropWhile_eq_nil_of_rdropWhile hnil, List.append_nil] at hsplit
        rw [hblank, List.append_assoc (a ++ k), List.cons_append, ← hq]
        simp only [List.length_append, List.length_cons] at hlen ⊢
        omega
      · rw [hnil]
        simp
    · have hdrop : q.rdropWhile isBlank =
          gap ++ (t.takeWhile isBlank ++ (t.dropWhile isBlank).rdropWhile isBlank) := by
        rw [← rdropWhile_append_of_ne_nil hnil, List.takeWhile_append_dropWhile, hq, rdropWhile_append_of_ne_nil]
        rw [← List.takeWhile_append_dropWhile (p := isBlank) (l := t), rdropWhile_append_of_ne_nil hnil]
        exact List.append_ne_nil_of_right_ne_nil _ hnil
      refine ⟨a ++ k ++ 0 :: gap ++ t.takeWhile isBlank, List.replicate (q.rtakeWhile isBlank).length 0 ++ r, rfl, ?_⟩
      rw [hdrop, zeros_cons]
      simp
  have h0val : (0 : UInt8) ∉ (t.dropWhile isBlank).rdropWhile isBlank := fun h =>
    h0t ((List.dropWhile_suffix _).mem ((List.rdropWhile_prefix _ _).mem h))
  have hread := readEntry_eq hv hp hp' hwrite hw htext hstrip hfirst
    (by rw [hval, ← hwlen]; exact readByte_text w _ r')
  have hvaltext := textAt_append w r' h0val
  rw [← hval, hwlen] at hvaltext
  refine ⟨_, hlen, ?_⟩
  have hfinal : a ++ k ++ 0 :: (q.rdropWhile isBlank ++ (List.replicate (q.rtakeWhile isBlank).length 0 ++ 0 :: r)) =
      a ++ (k ++ 0 :: (q.rdropWhile isBlank ++ List.replicate (q.rtakeWhile isBlank).length 0) ++ 0 :: r) := by simp
  have hsays : valueText (c :: q) = (t.dropWhile isBlank).rdropWhile isBlank := by
    rw [← ht]
    rfl
  rw [hread, hkey, ok_bind, hvaltext, ok_bind, hfinal, entryOf_split hk hc, hsays]
  generalize (t.dropWhile isBlank).rdropWhile isBlank = val at h0val
  have hthere : decide (val.headD 0 ≠ 0) = decide (val ≠ []) := by
    match val with
    | [] => rfl
    | b :: val =>
      have hb : b ≠ 0 := fun heq => h0val (heq ▸ List.mem_cons_self)
      simp [hb]
  rw [hthere]
  split
  · rfl
  · rfl

/-- **A line with a key** is taken apart inside its own bytes, and the key and the value are read if they are there. -/
theorem readEntry_spec (a r : Bytes) (hne : s ≠ []) (h0 : (0 : UInt8) ∉ s) :
    ∃ s', s'.length = s.length ∧ readEntry (a ++ (s ++ 0 :: r)) a.length (some (a.length + s.length + 1)) =
      .ok (a ++ (s' ++ 0 :: r), entryOf s) := by
  match hq : s.dropWhile isKeyByte with
  | [] =>
    have hs := List.dropWhile_eq_nil_iff.mp hq
    refine ⟨s, rfl, ?_⟩
    rw [readEntry_bare a r hne h0 hs, entryOf, hq]
    simp [valueText]
  | c :: q =>
    obtain ⟨k, rfl, hk, hc⟩ := dropWhile_split hq
    obtain ⟨q', hlen, hread⟩ := readEntry_more a r h0 hk hc
    refine ⟨k ++ 0 :: q', ?_, hread⟩
    rw [List.length_append, List.length_append, List.length_cons, List.length_cons, hlen]

end Entries

/-! ## Lines -/

section Lines

variable {a r line pre : Bytes} {sect : Option Nat} {n : Nat} {c : ConfLists} {env : LoadEnv}

/-- The text of the section stays when something is read behind it. -/
theorem sectionAt_append (h : sectionAt a sect = .ok pre) (r : Bytes) : sectionAt (a ++ r) sect = .ok pre := by
  cases sect with
  | none => exact h
  | some q => exact textAt_append_left h r

theorem putEntries_append (l l' : List ConfEntry) : putEntries env n (l ++ l') c =
    (putEntries env n l c >>= fun c => putEntries env (n + l.length) l' c) := by
  induction l generalizing n c with
  | nil => rfl
  | cons e l ih =>
    rw [List.cons_append, putEntries, putEntries, List.length_cons, Nat.add_comm l.length 1, ← Nat.add_assoc]
    cases putEntry env n e c with
    | error f => rfl
    | ok c' => exact ih

/-- What a line says that starts with some byte. -/
theorem confLine_eq {b : UInt8} {s : Bytes} (hs : line.dropWhile isBlank = b :: s) : confLine line =
    if b = 91 then if 93 ∈ s then .sect (sectionText (s.takeWhile (· ≠ 93))) else .other
    else if b = 35 || b = 59 then .other
    else
      match entryOf (b :: s) with
      | some (key, val) => .entry key val
      | none => .other := by
  unfold confLine
  generalize line.dropWhile isBlank = l at hs ⊢
  subst hs
  rfl

/-- A line that leaves everything as it is. -/
theorem loadLine_other (buf : Bytes) (hline : confLine line = .other) (hsect : sectionAt a sect = .ok pre) :
    sectionAt (a ++ (line ++ [0])) sect = .ok (sectionBelow pre line) ∧
      (.ok ⟨buf, sect, n, c⟩ : Except MemFault LoadState) = (putEntries env n (lineEntries pre line) c >>= fun c =>
        .ok ⟨buf, sect, n + (lineEntries pre line).length, c⟩) := by
  rw [sectionBelow, lineEntries, hline]
  exact ⟨sectionAt_append hsect _, rfl⟩

variable (env) in
/-- **A line** is taken apart inside its own bytes; its entry is put, and its section is kept. -/
theorem loadLine_spec (r : Bytes) (h0 : (0 : UInt8) ∉ line) (hsect : sectionAt a sect = .ok pre) :
    ∃ line' sect', line'.length = line.length ∧
      sectionAt (a ++ (line' ++ [0])) sect' = .ok (sectionBelow pre line) ∧
      loadLine env a.length (some (a.length + line.length + 1)) ⟨a ++ (line ++ 0 :: r), sect, n, c⟩ =
        (putEntries env n (lineEntries pre line) c >>= fun c =>
          .ok ⟨a ++ (line' ++ 0 :: r), sect', n + (lineEntries pre line).length, c⟩) := by
  have hskip := skipBytes_append isBlank a h0 r
  have hsplit := List.takeWhile_append_dropWhile (p := isBlank) (l := line)
  have h0s : (0 : UInt8) ∉ line.dropWhile isBlank := fun h => h0 ((List.dropWhile_suffix _).mem h)
  have hbyte := readByte_text (a ++ line.takeWhile isBlank) (line.dropWhile isBlank) r
  rw [List.append_assoc, ← List.append_assoc _ _ (0 :: r), hsplit] at hbyte
  unfold loadLine
  dsimp only
  rw [hskip, ok_bind, hbyte, ok_bind]
  match hs : line.dropWhile isBlank with
  | [] =>
    have hline : confLine line = .other := by
      unfold confLine
      rw [hs]
    exact ⟨line, sect, rfl, loadLine_other _ hline hsect⟩
  | b :: s =>
    rw [hs] at hsplit h0s
    have hb0 : b ≠ 0 := fun heq => h0s (heq ▸ List.mem_cons_self)
    have h0s' : (0 : UInt8) ∉ s := fun h => h0s (List.mem_cons_of_mem _ h)
    have hline := confLine_eq hs
    generalize line.takeWhile isBlank = blanks at hsplit
    subst hsplit
    rw [List.headD_cons]
    by_cases h91 : b = 91
    · subst h91
      rw [if_pos rfl] at hline ⊢
      by_cases h93 : (93 : UInt8) ∈ s
      · rw [if_pos h93] at hline
        obtain ⟨s', sect', hlen, hread, htext⟩ := readSection_closed (a ++ blanks) r sect h0s' h93
        refine ⟨blanks ++ 91 :: s', sect', ?_, ?_, ?_⟩
        · rw [List.length_append, List.length_append, List.length_cons, List.length_cons, hlen]
        · rw [sectionBelow, hline, ← htext]
          simp
        · have hshape (s : Bytes) : a ++ (blanks ++ 91 :: s ++ 0 :: r) = a ++ blanks ++ 91 :: (s ++ 0 :: r) := by simp
          rw [hshape, hread, ok_bind, lineEntries, hline, hshape]
          rfl
      · rw [if_neg h93] at hline
        obtain ⟨htext, hsame⟩ := loadLine_other (n := n) (c := c) (a ++ (blanks ++ 91 :: s ++ 0 :: r)) hline hsect
        refine ⟨blanks ++ 91 :: s, sect, rfl, htext, ?_⟩
        have hread := readSection_open (a ++ blanks ++ [91]) r sect h0s' h93
        have hshape : a ++ (blanks ++ 91 :: s ++ 0 :: r) = a ++ blanks ++ [91] ++ (s ++ 0 :: r) := by simp
        rw [hshape, ← length_snoc _ 91, hread, ok_bind, ← hshape]
        exact hsame
    · rw [if_neg h91] at hline ⊢
      by_cases hcomment : b = 35 ∨ b = 59
      · rw [if_pos (by simpa using hcomment)] at hline
        rw [if_neg (fun h => hcomment.elim h.2.1 h.2.2)]
        exact ⟨blanks ++ b :: s, sect, rfl, loadLine_other _ hline hsect⟩
      · rw [if_neg (by simpa using hcomment)] at hline
        rw [if_pos ⟨hb0, not_or.mp hcomment⟩]
        obtain ⟨s', hlen, hread⟩ := readEntry_spec (a ++ blanks) r (List.cons_ne_nil b s) h0s
        have hpn : a.length + (blanks ++ b :: s).length + 1 = (a ++ blanks).length + (b :: s).length + 1 := by
          simp only [List.length_append]
          omega
        have hshape (s : Bytes) : a ++ (blanks ++ s ++ 0 :: r) = a ++ blanks ++ (s ++ 0 :: r) := by simp
        have hlen' : (blanks ++ s').length = (blanks ++ b :: s).length := by
          rw [List.length_append, List.length_append, hlen]
        match hentry : entryOf (b :: s) with
        | none =>
          rw [hentry] at hline hread
          refine ⟨blanks ++ s', sect, hlen', ?_, ?_⟩
          · rw [sectionBelow, hline]
            exact sectionAt_append hsect _
          · rw [hpn, hshape, hread, ok_bind, lineEntries, hline, hshape]
            rfl
        | some (key, val) =>
          rw [hentry] at hline hread
          refine ⟨blanks ++ s', sect, hlen', ?_, ?_⟩
          · rw [sectionBelow, hline]
            exact sectionAt_append hsect _
          · rw [hpn, hshape, hread, ok_bind, lineEntries, hline, hshape]
            dsimp only
            rw [List.append_assoc, sectionAt_append hsect, ok_bind, putEntries]
            cases putEntry env n ⟨pre, key, val⟩ c with
            | error f => rfl
            | ok c' => rfl

/-- Lines that all end, behind one that does. -/
theorem ended_append (h0 : (0 : UInt8) ∉ line) (rest : Bytes) : Ended (line ++ 10 :: rest) ↔ Ended rest := by
  unfold Ended
  have hne : line ++ 10 :: rest ≠ [] := List.append_ne_nil_of_right_ne_nil _ (List.cons_ne_nil _ _)
  have h0' : (0 : UInt8) ∈ line ++ 10 :: rest ↔ (0 : UInt8) ∈ rest := by simp [h0]
  rw [or_iff_right hne, h0', List.getLast?_append, List.getLast?_cons]
  match rest with
  | [] => simp
  | b :: rest => simp [List.getLast?_cons]

theorem not_ended (h10 : (10 : UInt8) ∉ line) (hne : line ≠ []) : ¬ Ended line := fun h => by
  rcases h with h | ⟨-, hlast⟩
  · exact hne h
  · exact h10 (List.mem_of_getLast? hlast)

theorem entriesBelow_append (h10 : (10 : UInt8) ∉ line) (rest : Bytes) :
    entriesBelow pre ((line ++ 10 :: rest).splitOn 10) =
      lineEntries pre line ++ entriesBelow (sectionBelow pre line) (rest.splitOn 10) := by
  rw [List.splitOn_append_cons_self_of_not_mem h10]
  rfl

/-- Where no line ends, the pointer becomes a null pointer, and the loop goes on. -/
theorem loadLoop_null {len : Nat} {s : LoadState} {text : Bytes} (hlt : a.length < len)
    (htext : textAt s.buf a.length = .ok text) (h10 : (10 : UInt8) ∉ text) (c' : ConfLists) :
    loadLoop env len a.length s ≠ .ok c' := by
  rw [loadLoop, if_pos hlt, htext, ok_bind, strchr_eq_none.mpr h10]
  dsimp only
  cases loadLine env a.length none s with
  | error f => exact nofun
  | ok s' => exact nofun

variable (env) in
/-- **The loop** puts the entries of the lines that are left, when all of them end; else it does not come back. -/
theorem loadLoop_spec (rest : Bytes) (hsect : sectionAt a sect = .ok pre) :
    (Ended rest → loadLoop env (a ++ rest).length a.length ⟨a ++ (rest ++ [0]), sect, n, c⟩ =
        putEntries env n (entriesBelow pre (rest.splitOn 10)) c) ∧
      (¬ Ended rest → ∀ c', loadLoop env (a ++ rest).length a.length ⟨a ++ (rest ++ [0]), sect, n, c⟩ ≠ .ok c') := by
  induction rest using split_induction (p := fun b : UInt8 => b == 10) generalizing a pre sect n c with
  | last xs hxs =>
    have h10 : (10 : UInt8) ∉ xs := fun hmem => by simpa using hxs 10 hmem
    match xs with
    | [] =>
      refine ⟨fun _ => ?_, fun h => absurd (.inl rfl) h⟩
      rw [loadLoop, List.append_nil, if_neg (Nat.lt_irrefl _), List.splitOn_nil]
      rfl
    | b :: xs =>
      refine ⟨fun h => absurd h (not_ended h10 (List.cons_ne_nil b xs)), fun _ => ?_⟩
      have hlt : a.length < (a ++ b :: xs).length := by
        rw [List.length_append, List.length_cons]
        omega
      refine loadLoop_null hlt (textAt_of_mem a (List.mem_append_right _ List.mem_cons_self)) fun hmem => ?_
      have hmem : 10 ∈ b :: xs ++ [0] := (List.takeWhile_prefix _).mem hmem
      rcases List.mem_append.mp hmem with hmem | hmem
      · exact h10 hmem
      · exact absurd (List.mem_singleton.mp hmem) (by decide)
  | cons xs b rest hxs hb ih =>
    have h10 : (10 : UInt8) ∉ xs := fun hmem => by simpa using hxs 10 hmem
    obtain rfl : b = 10 := by simpa using hb
    have hlt : a.length < (a ++ (xs ++ 10 :: rest)).length := by
      rw [List.length_append, List.length_append, List.length_cons]
      omega
    by_cases h0 : (0 : UInt8) ∈ xs
    · refine ⟨fun h => ?_, fun _ => ?_⟩
      · rcases h with h | ⟨h, -⟩
        · exact absurd h (List.append_ne_nil_of_right_ne_nil _ (List.cons_ne_nil _ _))
        · exact absurd (List.mem_append_left _ h0) h
      · refine loadLoop_null hlt (textAt_of_mem a (List.mem_append_left _ (List.mem_append_left _ h0))) fun hmem => ?_
        rw [List.append_assoc, cstr_append_of_mem h0] at hmem
        exact h10 ((List.takeWhile_prefix _).mem hmem)
    · obtain ⟨line', sect', hlen, hsect', hline⟩ := loadLine_spec (n := n) (c := c) env (rest ++ [0]) h0 hsect
      have ih (c : ConfLists) := @ih _ _ _ (n + (lineEntries pre xs).length) c hsect'
      have hlen' : (a ++ (line' ++ [0])).length = a.length + xs.length + 1 := by
        rw [List.length_append, List.length_append, List.length_singleton, hlen, Nat.add_assoc]
      have hlenEnd : (a ++ (line' ++ [0]) ++ rest).length = (a ++ (xs ++ 10 :: rest)).length := by
        simp only [List.length_append, List.length_cons, List.length_nil, hlen]
        omega
      have hbuf : a ++ (line' ++ [0]) ++ (rest ++ [0]) = a ++ (line' ++ 0 :: (rest ++ [0])) := by simp
      simp only [hbuf, hlenEnd, hlen'] at ih
      have hstart : loadLoop env (a ++ (xs ++ 10 :: rest)).length a.length ⟨a ++ (xs ++ 10 :: rest ++ [0]), sect, n, c⟩ =
          (putEntries env n (lineEntries pre xs) c >>= fun c => loadLoop env (a ++ (xs ++ 10 :: rest)).length
            (a.length + xs.length + 1) ⟨a ++ (line' ++ 0 :: (rest ++ [0])), sect', n + (lineEntries pre xs).length, c⟩) := by
        have htext : textAt (a ++ (xs ++ 10 :: rest ++ [0])) a.length = .ok (xs ++ 10 :: cstr (rest ++ [0])) := by
          have hstop : cstr (xs ++ 10 :: rest ++ [0]) = xs ++ 10 :: cstr (rest ++ [0]) := by
            rw [List.append_assoc, cstr_append_of_not_mem h0]
            rfl
          rw [← hstop]
          exact textAt_of_mem a (List.mem_append_right _ List.mem_cons_self)
        have hwrite : writeByte (a ++ (xs ++ 10 :: rest ++ [0])) (a.length + xs.length) 0 =
            .ok (a ++ (xs ++ 0 :: (rest ++ [0]))) := by
          have hput := writeByte_append (a ++ xs) (rest ++ [0]) 10 0
          simpa using hput
        rw [loadLoop, if_pos hlt, htext, ok_bind, strchr_append h10]
        dsimp only
        rw [hwrite, ok_bind, hline]
        cases putEntries env n (lineEntries pre xs) c with
        | error f => rfl
        | ok c' => rfl
      rw [hstart, ended_append h0, entriesBelow_append h10, putEntries_append]
      cases hput : putEntries env n (lineEntries pre xs) c with
      | error f => exact ⟨fun _ => rfl, fun _ => nofun⟩
      | ok c' => exact ih c'

theorem rightpad_succ {s : Bytes} {n : Nat} (h : s.length ≤ n) : s.rightpad (n + 1) 0 = s.rightpad n 0 ++ [0] := by
  rw [List.rightpad, List.rightpad, Nat.succ_sub h, List.replicate_succ', List.append_assoc]

variable (env) in
/-- A text that is read from its start. -/
theorem loadLoop_text (text : Bytes) (c' : ConfLists) : loadLoop env text.length 0 ⟨text ++ [0], none, 0, c⟩ = .ok c' ↔
    Ended text ∧ putEntries env 0 (fileEntries text) c = .ok c' := by
  obtain ⟨hended, hnot⟩ := loadLoop_spec (n := 0) (c := c) env text (rfl : sectionAt [] none = .ok [])
  by_cases h : Ended text
  · rw [and_iff_right h, fileEntries, ← hended h]
    rfl
  · exact ⟨fun hok => absurd hok (hnot h c'), fun hok => absurd hok.1 h⟩

variable (env) in
/-- The block that was read to: what `read` left of it is zero. -/
theorem loadLoop_block {content : Bytes} {len : Nat} (got : Nat) (hle : len ≤ content.length) (c' : ConfLists) :
    loadLoop env len 0 ⟨(content.take (min got len)).rightpad (len + 1) 0, none, 0, c⟩ = .ok c' ↔
      len ≤ got ∧ Ended (content.take len) ∧ putEntries env 0 (fileEntries (content.take len)) c = .ok c' := by
  have hpad : (content.take (min got len)).rightpad (len + 1) 0 =
      (content.take (min got len)).rightpad len 0 ++ [0] := rightpad_succ (by rw [List.length_take]; omega)
  have hlen : ((content.take (min got len)).rightpad len 0).length = len := by
    rw [List.rightpad, List.length_append, List.length_replicate, List.length_take]
    omega
  have hloop := loadLoop_text (c := c) env ((content.take (min got len)).rightpad len 0) c'
  rw [hlen] at hloop
  rw [hpad, hloop]
  by_cases hgot : len ≤ got
  · have hall : (content.take (min got len)).rightpad len 0 = content.take len := by
      rw [Nat.min_eq_right hgot, List.rightpad, List.length_take, Nat.min_eq_left hle, Nat.sub_self]
      exact List.append_nil _
    rw [hall, and_iff_right hgot]
  · -- a NUL stands behind what was read
    have h0 : (0 : UInt8) ∈ (content.take (min got len)).rightpad len 0 := by
      refine List.mem_append_right _ (List.mem_replicate.mpr ⟨?_, rfl⟩)
      rw [List.length_take]
      omega
    refine ⟨fun h => ?_, fun h => absurd h.1 hgot⟩
    rcases h.1 with hnil | ⟨hfree, -⟩
    · rw [hnil] at h0
      exact absurd h0 List.not_mem_nil
    · exact absurd h0 hfree

theorem mapped_of_not_refused {size : Nat} (h : ¬ Refused env size) :
    env.mmap = true ∧ 0 < toInt32 (toInt32 size + 1) := by
  unfold Refused at h
  rw [not_or, not_or] at h
  exact ⟨by simpa using h.1, Int.not_le.mp h.2.1⟩

/-- A load that is refused leaves the store. -/
theorem loadfile_refused {content : Bytes} (h : Refused env content.length) :
    myconfigLoadfile0 env (some content) c = .ok (-1, c) := by
  unfold myconfigLoadfile0
  dsimp only
  split
  · rfl
  · next hmap =>
    have hmap' : env.mmap = true ∧ 0 < toInt32 (toInt32 content.length + 1) := by simpa using hmap
    have hnone : env.read = none := by
      rcases h with hmmap | hlen | hnone
      · exact absurd (hmap'.1.symm.trans hmmap) (by simp)
      · omega
      · exact hnone
    rw [hnone]

/-- A load that comes back from reading returns 0. -/
theorem loadfile_zero {content : Bytes} {r : Int} {c' : ConfLists} (h : ¬ Refused env content.length)
    (hload : myconfigLoadfile0 env (some content) c = .ok (r, c')) : r = 0 := by
  obtain ⟨hmmap, hlen⟩ := mapped_of_not_refused h
  unfold myconfigLoadfile0 at hload
  dsimp only at hload
  rw [if_neg (by simpa using ⟨hmmap, hlen⟩)] at hload
  cases hread : env.read with
  | none => exact absurd (Or.inr (Or.inr hread)) h
  | some got =>
    rw [hread] at hload
    obtain ⟨c₁, -, heq⟩ := bind_ok_iff.mp hload
    exact (congrArg Prod.fst (Except.ok.inj heq)).symm

/-- **A load that comes back** has put the entries of what it read. -/
theorem loadfile_ok_iff {content : Bytes} {c' : ConfLists} : myconfigLoadfile0 env (some content) c = .ok (0, c') ↔
    env.mmap = true ∧ 0 < toInt32 (toInt32 content.length + 1) ∧
      (∃ got, env.read = some got ∧ (filePart content).length ≤ got) ∧ Ended (filePart content) ∧
      putEntries env 0 (fileEntries (filePart content)) c = .ok c' := by
  have hle : countedLen content ≤ content.length := toInt32_toNat_le content.length
  have hlen : (filePart content).length = countedLen content := by
    rw [filePart, List.length_take]
    exact Nat.min_eq_left hle
  unfold myconfigLoadfile0
  dsimp only
  by_cases hmap : (!env.mmap || decide (toInt32 (toInt32 content.length + 1) ≤ 0)) = true
  · rw [if_pos hmap]
    refine ⟨nofun, fun ⟨hm, hl, _⟩ => ?_⟩
    rw [hm, Bool.not_true, Bool.false_or, decide_eq_true_eq] at hmap
    exact absurd hmap (Int.not_le.mpr hl)
  · have hmap' : env.mmap = true ∧ 0 < toInt32 (toInt32 content.length + 1) := by simpa using hmap
    rw [if_neg hmap, and_iff_right hmap'.1, and_iff_right hmap'.2, hlen]
    cases env.read with
    | none => exact ⟨nofun, fun ⟨⟨_, h, _⟩, _⟩ => nomatch h⟩
    | some got =>
      have hblock := loadLoop_block (c := c) env got hle c'
      constructor
      · intro hok
        obtain ⟨c₁, hrun, heq⟩ := bind_ok_iff.mp hok
        obtain rfl : c₁ = c' := congrArg Prod.snd (Except.ok.inj heq)
        obtain ⟨hgot, hrest⟩ := hblock.mp hrun
        exact ⟨⟨got, rfl, hgot⟩, hrest⟩
      · rintro ⟨⟨got', hgot', hle'⟩, hrest⟩
        obtain rfl := Option.some.inj hgot'
        exact bind_ok_iff.mpr ⟨c', hblock.mpr ⟨hle', hrest⟩, rfl⟩

end Lines

end VfsOss
