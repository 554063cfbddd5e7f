import VfsOss.Util.Ip

/-!
# Proofs: which texts are taken for addresses

`str2ip` as a function of the numbers it reads, and those numbers for a text that is an address.
-/

namespace VfsOss

open CLib

variable {s p r : Bytes} {vs : List Nat} {v : Nat}

/-! ## What is read and what is made of it -/

/-- The address that is put together from the numbers. -/
def addressOf : List Nat → Nat
  | [a] => htonl (seen a)
  | [a, b] => (seen a + htonl (seen b)) % 2 ^ 32
  | [a, b, c] => ((seen a + seen b * 2 ^ 8) % 2 ^ 32 + htonl (seen c)) % 2 ^ 32
  | [a, b, c, d] =>
    (((seen a + seen b * 2 ^ 8) % 2 ^ 32 + seen c * 2 ^ 16) % 2 ^ 32 + seen d * 2 ^ 24) % 2 ^ 32
  | _ => 0

/-- A number behind which another one follows. -/
theorem leadingNumbers_more {n : Nat} (hs : startsDigit s = true) (hr : s.drop (numeral s).length = r) (hn : n ≠ 0)
    (hdot : r.head? = some 46) (hdigit : startsDigit r.tail = true) : leadingNumbers (n + 1) s =
      (readNumber s :: (leadingNumbers n r.tail).1, (leadingNumbers n r.tail).2) := by
  subst hr
  have hmore : n ≠ 0 ∧ (s.drop (numeral s).length).head? = some 46 ∧
      startsDigit (s.drop (numeral s).length).tail = true := ⟨hn, hdot, hdigit⟩
  rw [leadingNumbers, hs]
  exact if_pos hmore

/-- The last number that is read. -/
theorem leadingNumbers_last {n : Nat} (hs : startsDigit s = true) (hr : s.drop (numeral s).length = r)
    (hlast : ¬ (n ≠ 0 ∧ r.head? = some 46 ∧ startsDigit r.tail = true)) :
    leadingNumbers (n + 1) s = ([readNumber s], r) := by
  subst hr
  rw [leadingNumbers, hs]
  exact if_neg hlast

theorem accepted_iff (h : r.head? ≠ some 46) : Accepted (vs, r) ↔ PassesChecks vs := and_iff_right fun _ => h

theorem accepted_four {a b c d : Nat} : Accepted ([a, b, c, d], r) ↔ PassesChecks [a, b, c, d] :=
  and_iff_right fun h => absurd h (by simp)

theorem not_accepted (h : r.head? = some 46) (hlen : vs.length < 4) : ¬ Accepted (vs, r) := fun hacc => hacc.1 hlen h

theorem passes_first {a b : Nat} (h : PassesChecks (a :: b :: vs)) : 1 ≤ seen a ∧ seen a < 224 := by
  match vs, h with
  | [], h => exact h.1
  | [_], h => exact h.1
  | [_, _], h => exact h.1

theorem passes_second {a b c : Nat} (h : PassesChecks (a :: b :: c :: vs)) : seen b < 256 := by
  match vs, h with
  | [], h => exact h.2.1
  | [_], h => exact h.2.1

/-- Where a digit stands there is a number to read. -/
theorem exists_leadingNumbers {n : Nat} (hs : startsDigit s = true) :
    ∃ vs, (leadingNumbers (n + 1) s).1 = readNumber s :: vs := by
  by_cases hmore : n ≠ 0 ∧ (s.drop (numeral s).length).head? = some 46 ∧
      startsDigit (s.drop (numeral s).length).tail = true
  · rw [leadingNumbers_more hs rfl hmore.1 hmore.2.1 hmore.2.2]
    exact ⟨_, rfl⟩
  · rw [leadingNumbers_last hs rfl hmore]
    exact ⟨_, rfl⟩

/-- `str2ip` as a function of the numbers it reads. -/
theorem str2ip_eq (s : Bytes) : str2ip s =
    if Accepted (leadingNumbers 4 s) then addressOf (leadingNumbers 4 s).1 else inaddrNone := by
  have hseen : ∀ v, min v ulongMax % 2 ^ 32 = seen v := fun _ => rfl
  unfold str2ip
  simp only [strtoul, hseen]
  by_cases h₀ : startsDigit s = true
  swap
  · rw [Bool.not_eq_true] at h₀
    rw [leadingNumbers, h₀]
    exact (if_neg fun h : Accepted ([], s) => h.2).symm
  rw [if_neg (by rw [h₀]; decide)]
  obtain ⟨r₁, hr₁⟩ : ∃ r₁, s.drop (numeral s).length = r₁ := ⟨_, rfl⟩
  simp only [hr₁]
  by_cases h₁ : r₁.head? = some 46
  swap
  · rw [leadingNumbers_last h₀ hr₁ fun h => h₁ h.2.1, if_pos h₁]
    have hpasses : Accepted ([readNumber s], r₁) ↔
        ¬ (seen (readNumber s) / 2 ^ 24 = 0 ∨ seen (readNumber s) / 2 ^ 24 ≥ 224) := by
      rw [accepted_iff h₁, PassesChecks]
      omega
    rw [if_congr hpasses rfl rfl, ite_not]
    rfl
  rw [if_neg (not_not.mpr h₁)]
  by_cases h₁' : startsDigit r₁.tail = true
  swap
  · rw [leadingNumbers_last h₀ hr₁ fun h => h₁' h.2.2, if_neg (not_accepted h₁ (by simp))]
    exact if_pos (by simpa using h₁')
  rw [if_neg (by rw [h₁']; decide), leadingNumbers_more h₀ hr₁ (by decide) h₁ h₁']
  by_cases ha : seen (readNumber s) = 0 ∨ seen (readNumber s) ≥ 224
  · rw [if_pos ha, if_neg]
    obtain ⟨vs, hvs⟩ := exists_leadingNumbers (n := 2) h₁'
    rintro ⟨-, hpasses⟩
    dsimp only at hpasses
    rw [hvs] at hpasses
    have hfirst := passes_first hpasses
    omega
  rw [if_neg ha]
  obtain ⟨r₂, hr₂⟩ : ∃ r₂, r₁.tail.drop (numeral r₁.tail).length = r₂ := ⟨_, rfl⟩
  simp only [hr₂]
  by_cases h₂ : r₂.head? = some 46
  swap
  · rw [leadingNumbers_last h₁' hr₂ fun h => h₂ h.2.1, if_pos h₂]
    have hpasses : Accepted ([readNumber s, readNumber r₁.tail], r₂) ↔ ¬ seen (readNumber r₁.tail) ≥ 2 ^ 24 := by
      rw [accepted_iff h₂, PassesChecks]
      omega
    rw [if_congr hpasses rfl rfl, ite_not]
    rfl
  rw [if_neg (not_not.mpr h₂)]
  by_cases h₂' : startsDigit r₂.tail = true
  swap
  · rw [leadingNumbers_last h₁' hr₂ fun h => h₂' h.2.2, if_neg (not_accepted h₂ (by simp))]
    exact if_pos (by simpa using h₂')
  rw [if_neg (by rw [h₂']; decide), leadingNumbers_more h₁' hr₂ (by decide) h₂ h₂']
  by_cases hb : seen (readNumber r₁.tail) ≥ 256
  · rw [if_pos hb, if_neg]
    obtain ⟨vs, hvs⟩ := exists_leadingNumbers (n := 1) h₂'
    rintro ⟨-, hpasses⟩
    dsimp only at hpasses
    rw [hvs] at hpasses
    have hsecond := passes_second hpasses
    omega
  rw [if_neg hb]
  obtain ⟨r₃, hr₃⟩ : ∃ r₃, r₂.tail.drop (numeral r₂.tail).length = r₃ := ⟨_, rfl⟩
  simp only [hr₃]
  by_cases h₃ : r₃.head? = some 46
  swap
  · rw [leadingNumbers_last h₂' hr₃ fun h => h₃ h.2.1, if_pos h₃]
    have hpasses : Accepted ([readNumber s, readNumber r₁.tail, readNumber r₂.tail], r₃) ↔
        ¬ seen (readNumber r₂.tail) ≥ 2 ^ 16 := by
      rw [accepted_iff h₃, PassesChecks]
      omega
    rw [if_congr hpasses rfl rfl, ite_not]
    rfl
  rw [if_neg (not_not.mpr h₃)]
  by_cases h₃' : startsDigit r₃.tail = true
  swap
  · rw [leadingNumbers_last h₂' hr₃ fun h => h₃' h.2.2, if_neg (not_accepted h₃ (by simp))]
    exact if_pos (by simpa using h₃')
  rw [if_neg (by rw [h₃']; decide), leadingNumbers_more h₂' hr₃ (by decide) h₃ h₃',
    leadingNumbers_last h₃' rfl fun h => h.1 rfl]
  have hpasses : Accepted ([readNumber s, readNumber r₁.tail, readNumber r₂.tail, readNumber r₃.tail],
      r₃.tail.drop (numeral r₃.tail).length) ↔ ¬ seen (readNumber r₃.tail) ≥ 256 := by
    rw [accepted_four, PassesChecks]
    omega
  rw [if_congr hpasses rfl rfl, ite_not]
  rfl

/-! ## Texts that are addresses -/

/-- A number starts with the digit its text starts with. -/
theorem startsDigit_numeral (hs : startsDigit s = true) : startsDigit (numeral s) = true := by
  match s, hs with
  | d :: t, hd =>
    have hdigit : isDigit d = true := hd
    have h10 : isDigitIn 10 d = true := by
      have hrange : 48 ≤ d ∧ d ≤ 57 := by simpa [isDigit] using hdigit
      unfold isDigitIn digitOf
      rw [if_pos hdigit]
      have hlo := UInt8.le_iff_toNat_le.mp hrange.1
      have hhi := UInt8.le_iff_toNat_le.mp hrange.2
      simp at hlo hhi ⊢
      omega
    rcases numeralBase_cases (d :: t) with ⟨hbase, x, e, u, heq, -⟩ | ⟨hbase, u, heq⟩ | ⟨hbase, -⟩
    · unfold numeral
      rw [hbase, heq]
      rfl
    · unfold numeral
      rw [hbase, heq]
      rfl
    · unfold numeral
      rw [hbase]
      show startsDigit ((d :: t).takeWhile (isDigitIn 10)) = true
      rw [List.takeWhile_cons_of_pos h10]
      exact hdigit

theorem wholeNumber_numeral (hs : startsDigit s = true) : wholeNumber (numeral s) = some (readNumber s) := by
  have happend := numeral_append s (r := []) nofun
  rw [List.append_nil] at happend
  unfold wholeNumber
  rw [startsDigit_numeral hs, happend.1, happend.2]
  simp

theorem wholeNumber_eq_some (h : wholeNumber p = some v) : startsDigit p = true ∧ numeral p = p ∧ readNumber p = v := by
  unfold wholeNumber at h
  split at h
  · next hp =>
    rw [Bool.and_eq_true, decide_eq_true_eq] at hp
    exact ⟨hp.1, hp.2, Option.some.inj h⟩
  · exact nomatch h

theorem dotted_single (h : (46 : UInt8) ∉ s) : dotted s = (wholeNumber s).map fun v => [v] := by
  rw [dotted, List.splitOn_eq_singleton h, List.mapM_cons, List.mapM_nil]
  cases wholeNumber s <;> rfl

theorem dotted_append (h : (46 : UInt8) ∉ p) :
    dotted (p ++ 46 :: r) = (wholeNumber p).bind fun v => (dotted r).map (v :: ·) := by
  rw [dotted, List.splitOn_append_cons_self, List.splitOn_eq_singleton h, List.singleton_append, List.mapM_cons, dotted]
  cases wholeNumber p with
  | none => rfl
  | some v => cases (r.splitOn 46).mapM wholeNumber <;> rfl

/-- A text that is numbers with dots between them is one number, or one before the first dot. -/
theorem dotted_cases (h : dotted s = some vs) :
    (∃ v, wholeNumber s = some v ∧ vs = [v]) ∨ ∃ p r v vs', s = p ++ 46 :: r ∧ wholeNumber p = some v ∧
      dotted r = some vs' ∧ vs = v :: vs' := by
  by_cases hdot : (46 : UInt8) ∈ s
  · obtain ⟨p, r, rfl, hp⟩ := List.eq_append_cons_of_mem hdot
    rw [dotted_append hp, Option.bind_eq_some_iff] at h
    obtain ⟨v, hv, h⟩ := h
    obtain ⟨vs', hvs', rfl⟩ := Option.map_eq_some_iff.mp h
    exact .inr ⟨p, r, v, vs', rfl, hv, hvs', rfl⟩
  · rw [dotted_single hdot] at h
    obtain ⟨v, hv, rfl⟩ := Option.map_eq_some_iff.mp h
    exact .inl ⟨v, hv, rfl⟩

theorem startsDigit_append (h : startsDigit p = true) : startsDigit (p ++ r) = true := by
  match p, h with
  | _ :: _, h => exact h

theorem dotted_startsDigit (h : dotted s = some vs) : startsDigit s = true ∧ vs ≠ [] := by
  rcases dotted_cases h with ⟨v, hv, rfl⟩ | ⟨p, r, v, vs', rfl, hv, -, rfl⟩
  · exact ⟨(wholeNumber_eq_some hv).1, List.cons_ne_nil _ _⟩
  · exact ⟨startsDigit_append (wholeNumber_eq_some hv).1, List.cons_ne_nil _ _⟩

/-- The numbers of an address are what is read of it. -/
theorem leadingNumbers_of_dotted {n : Nat} (h : dotted s = some vs) (hn : vs.length ≤ n) :
    leadingNumbers n s = (vs, []) := by
  induction n generalizing s vs with
  | zero => exact absurd (List.length_eq_zero_iff.mp (Nat.le_zero.mp hn)) (dotted_startsDigit h).2
  | succ n ih =>
    have hs := (dotted_startsDigit h).1
    rcases dotted_cases h with ⟨v, hv, rfl⟩ | ⟨p, r, v, vs', rfl, hv, hr, rfl⟩
    · obtain ⟨-, hnum, hread⟩ := wholeNumber_eq_some hv
      rw [leadingNumbers_last hs (r := []) (by rw [hnum, List.drop_length]) (by simp), hread]
    · obtain ⟨-, hnum, hread⟩ := wholeNumber_eq_some hv
      have happend := numeral_append p (r := 46 :: r) fun y hy => by
        obtain rfl := Option.some.inj hy
        decide
      rw [hnum] at happend
      have hn' : vs'.length ≤ n := Nat.le_of_succ_le_succ hn
      have hpos : n ≠ 0 := by
        rintro rfl
        exact (dotted_startsDigit hr).2 (List.length_eq_zero_iff.mp (Nat.le_zero.mp hn'))
      rw [leadingNumbers_more hs (r := 46 :: r) (by rw [happend.1, List.drop_left]) hpos rfl (dotted_startsDigit hr).1,
        happend.2, hread, List.tail_cons, ih hr hn']

/-- When the whole of a text was read it is an address. -/
theorem dotted_of_leadingNumbers {n : Nat} (h : leadingNumbers n s = (vs, [])) (hvs : vs ≠ []) : dotted s = some vs := by
  induction n generalizing s vs with
  | zero => exact absurd (congrArg Prod.fst h).symm hvs
  | succ n ih =>
    by_cases hs : startsDigit s = true
    swap
    · rw [Bool.not_eq_true] at hs
      rw [leadingNumbers, hs] at h
      exact absurd (congrArg Prod.fst h).symm hvs
    have hsplit := numeral_append_drop s
    by_cases hmore : n ≠ 0 ∧ (s.drop (numeral s).length).head? = some 46 ∧
        startsDigit (s.drop (numeral s).length).tail = true
    · obtain ⟨hn, hdot, hdigit⟩ := hmore
      rw [leadingNumbers_more hs rfl hn hdot hdigit] at h
      obtain ⟨rfl, hrest⟩ := Prod.mk.inj h
      obtain ⟨k, rfl⟩ := Nat.exists_eq_add_one_of_ne_zero hn
      obtain ⟨ws, hws⟩ := exists_leadingNumbers (n := k) hdigit
      have htail := ih (Prod.ext rfl hrest) fun hnil => List.cons_ne_nil _ _ (hws.symm.trans hnil)
      rw [← List.cons_head?_tail hdot] at hsplit
      conv_lhs => rw [← hsplit]
      rw [dotted_append (dot_notMem_numeral s), wholeNumber_numeral hs, htail]
      rfl
    · rw [leadingNumbers_last hs rfl hmore] at h
      obtain ⟨rfl, hrest⟩ := Prod.mk.inj h
      have hwhole : numeral s = s := by rwa [hrest, List.append_nil] at hsplit
      rw [← hwhole, dotted_single (dot_notMem_numeral s), wholeNumber_numeral hs, hwhole]
      rfl

/-! ## The addresses -/

theorem seen_eq (h : v < 2 ^ 32) : seen v = v := by
  unfold seen ulongMax
  omega

/-- The octets in the other order. -/
theorem htonl_octets {a b c d : Nat} (ha : a < 256) (hb : b < 256) (hc : c < 256) (hd : d < 256) :
    htonl (a * 2 ^ 24 + b * 2 ^ 16 + c * 2 ^ 8 + d) = a + b * 2 ^ 8 + c * 2 ^ 16 + d * 2 ^ 24 := by
  have h₀ : (a * 2 ^ 24 + b * 2 ^ 16 + c * 2 ^ 8 + d) % 2 ^ 8 = d := by omega
  have h₁ : (a * 2 ^ 24 + b * 2 ^ 16 + c * 2 ^ 8 + d) / 2 ^ 8 = a * 2 ^ 16 + b * 2 ^ 8 + c := by omega
  have h₂ : (a * 2 ^ 24 + b * 2 ^ 16 + c * 2 ^ 8 + d) / 2 ^ 16 = a * 2 ^ 8 + b := by omega
  have h₃ : (a * 2 ^ 24 + b * 2 ^ 16 + c * 2 ^ 8 + d) / 2 ^ 24 = a := by omega
  unfold htonl
  rw [h₀, h₁, h₂, h₃]
  omega

/-- A number of at most three octets leaves the first one free. -/
theorem htonl_low {a n : Nat} (ha : a < 256) (hn : n < 2 ^ 24) :
    htonl (a * 2 ^ 24 + n) = a + htonl n ∧ ∃ k < 2 ^ 24, htonl n = k * 2 ^ 8 := by
  obtain ⟨b, c, d, hb, hc, hd, rfl⟩ : ∃ b c d, b < 256 ∧ c < 256 ∧ d < 256 ∧ n = b * 2 ^ 16 + c * 2 ^ 8 + d :=
    ⟨n / 2 ^ 16, n / 2 ^ 8 % 256, n % 256, by omega, by omega, by omega, by omega⟩
  have hlow := htonl_octets (a := 0) (by decide) hb hc hd
  rw [Nat.zero_mul, Nat.zero_add] at hlow
  have hall := htonl_octets ha hb hc hd
  rw [hlow, ← Nat.add_assoc, ← Nat.add_assoc, hall]
  exact ⟨by omega, b + c * 2 ^ 8 + d * 2 ^ 16, by omega, by omega⟩

/-- What is returned for an address is not `INADDR_NONE`: its first octet is at most 223. -/
theorem addressOf_ne (h : PassesChecks vs) : addressOf vs ≠ inaddrNone := by
  match vs, h with
  | [a], h =>
    rw [PassesChecks] at h
    rw [addressOf, inaddrNone]
    unfold htonl
    omega
  | [a, b], h =>
    rw [PassesChecks] at h
    obtain ⟨-, k, -, hk⟩ := htonl_low (a := 0) (by decide) h.2
    rw [addressOf, inaddrNone, hk]
    omega
  | [a, b, c], h =>
    rw [PassesChecks] at h
    obtain ⟨-, k, -, hk⟩ := htonl_low (a := 0) (n := seen c) (by decide) (by omega)
    rw [addressOf, inaddrNone, hk]
    omega
  | [a, b, c, d], h =>
    rw [PassesChecks] at h
    rw [addressOf, inaddrNone]
    omega

theorem InRange.lt (h : InRange vs) : ∀ v ∈ vs, v < 2 ^ 32 := by
  match vs, h with
  | [a], h => simpa using h.1
  | [a, b], h =>
    rw [InRange] at h
    simp only [List.forall_mem_cons]
    refine ⟨by omega, by omega, nofun⟩
  | [a, b, c], h =>
    rw [InRange] at h
    simp only [List.forall_mem_cons]
    refine ⟨by omega, by omega, by omega, nofun⟩
  | [a, b, c, d], h =>
    rw [InRange] at h
    simp only [List.forall_mem_cons]
    refine ⟨by omega, by omega, by omega, by omega, nofun⟩

theorem InRange.length_le (h : InRange vs) : vs.length ≤ 4 := by
  match vs, h with
  | [_], _ => simp
  | [_, _], _ => simp
  | [_, _, _], _ => simp
  | [_, _, _, _], _ => simp

theorem InRange.third (h : InRange vs) (hlen : vs.length = 4) : ∀ c ∈ vs[2]?, c ≤ 255 := by
  match vs, h, hlen with
  | [a, b, c, d], h, _ => simpa using h.2.2.2.1

/-- Numbers that pass the checks and are as large as they seem are an address, and the right one. -/
theorem inetAton_of_passes (hdotted : dotted s = some vs) (hpasses : PassesChecks vs) (hlt : ∀ v ∈ vs, v < 2 ^ 32)
    (hthird : vs.length = 4 → ∀ c ∈ vs[2]?, c ≤ 255) : InRange vs ∧ inetAton s = some (addressOf vs) := by
  unfold inetAton
  rw [hdotted]
  match vs, hpasses, hlt, hthird with
  | [a], hpasses, hlt, _ =>
    simp only [List.forall_mem_cons] at hlt
    rw [PassesChecks, seen_eq hlt.1] at hpasses
    refine ⟨⟨hlt.1, hpasses.1, by omega⟩, ?_⟩
    dsimp only
    rw [if_pos hlt.1, addressOf, seen_eq hlt.1]
  | [a, b], hpasses, hlt, _ =>
    simp only [List.forall_mem_cons] at hlt
    rw [PassesChecks, seen_eq hlt.1, seen_eq hlt.2.1] at hpasses
    refine ⟨⟨hpasses.1.1, by omega, hpasses.2⟩, ?_⟩
    obtain ⟨haton, k, hlt', hk⟩ := htonl_low (a := a) (by omega) hpasses.2
    dsimp only
    rw [if_pos (by omega), addressOf, seen_eq hlt.1, seen_eq hlt.2.1, haton, hk, Nat.mod_eq_of_lt (by omega)]
  | [a, b, c], hpasses, hlt, _ =>
    simp only [List.forall_mem_cons] at hlt
    rw [PassesChecks, seen_eq hlt.1, seen_eq hlt.2.1, seen_eq hlt.2.2.1] at hpasses
    refine ⟨⟨hpasses.1.1, by omega, by omega, hpasses.2.2⟩, ?_⟩
    have haton := htonl_octets (a := a) (b := b) (c := c / 2 ^ 8) (d := c % 2 ^ 8) (by omega) (by omega) (by omega)
      (by omega)
    have hlow := htonl_octets (a := 0) (b := 0) (c := c / 2 ^ 8) (d := c % 2 ^ 8) (by decide) (by decide) (by omega)
      (by omega)
    rw [Nat.add_assoc, Nat.div_add_mod'] at haton hlow
    rw [Nat.zero_mul, Nat.zero_mul, Nat.zero_mul, Nat.zero_add, Nat.zero_add] at hlow
    dsimp only
    rw [if_pos (by omega), addressOf, seen_eq hlt.1, seen_eq hlt.2.1, seen_eq hlt.2.2.1, haton, hlow, Option.some_inj]
    omega
  | [a, b, c, d], hpasses, hlt, hthird =>
    simp only [List.forall_mem_cons] at hlt
    have hc : c ≤ 255 := by simpa using hthird
    rw [PassesChecks, seen_eq hlt.1, seen_eq hlt.2.1, seen_eq hlt.2.2.2.1] at hpasses
    refine ⟨⟨hpasses.1.1, by omega, by omega, hc, by omega⟩, ?_⟩
    dsimp only
    rw [if_pos (by omega), addressOf, seen_eq hlt.1, seen_eq hlt.2.1, seen_eq hlt.2.2.1, seen_eq hlt.2.2.2.1,
      htonl_octets (by omega) (by omega) (by omega) (by omega), Option.some_inj]
    omega

/-- A text is parsed exactly when what is read of it, unless it is turned down, is an address. -/
theorem parsesExactly_iff (s : Bytes) :
    ParsesExactly s ↔ (Accepted (leadingNumbers 4 s) → ReadWhole (leadingNumbers 4 s)) := by
  unfold ParsesExactly
  rw [str2ip_eq]
  constructor
  · intro hexact hacc
    rw [if_pos hacc] at hexact
    obtain ⟨vs, hdotted, hrange, -⟩ := hexact (addressOf_ne hacc.2)
    rw [leadingNumbers_of_dotted hdotted hrange.length_le]
    exact ⟨hrange.lt, hrange.third, rfl⟩
  · intro hwhole hne
    by_cases hacc : Accepted (leadingNumbers 4 s)
    · obtain ⟨hlt, hthird, hrest⟩ := hwhole hacc
      have hvs : (leadingNumbers 4 s).1 ≠ [] := fun hnil => by
        have hpasses := hacc.2
        rw [hnil] at hpasses
        exact hpasses
      have hdotted := dotted_of_leadingNumbers (Prod.ext rfl hrest) hvs
      obtain ⟨hrange, haton⟩ := inetAton_of_passes hdotted hacc.2 hlt hthird
      rw [if_pos hacc]
      exact ⟨_, hdotted, hrange, haton⟩
    · rw [if_neg hacc] at hne
      exact absurd rfl hne

/-! ## Addresses written and read -/

theorem wholeNumber_octetText (c : Fin 256) :
    wholeNumber (octetText c) = some c.1 ∧ (46 : UInt8) ∉ octetText c := by
  revert c
  decide +kernel

theorem dotted_octetText {c : Nat} (hc : c < 256) : wholeNumber (octetText c) = some c ∧ (46 : UInt8) ∉ octetText c :=
  wholeNumber_octetText ⟨c, hc⟩

theorem dotted_ip2str (ip : Nat) : dotted (ip2str ip) =
    some [ip % 256, ip / 2 ^ 8 % 256, ip / 2 ^ 16 % 256, ip / 2 ^ 24 % 256] := by
  obtain ⟨h₀, hd₀⟩ := dotted_octetText (Nat.mod_lt ip (by decide : 256 > 0))
  obtain ⟨h₁, hd₁⟩ := dotted_octetText (Nat.mod_lt (ip / 2 ^ 8) (by decide : 256 > 0))
  obtain ⟨h₂, hd₂⟩ := dotted_octetText (Nat.mod_lt (ip / 2 ^ 16) (by decide : 256 > 0))
  obtain ⟨h₃, hd₃⟩ := dotted_octetText (Nat.mod_lt (ip / 2 ^ 24) (by decide : 256 > 0))
  rw [ip2str, dotted_append hd₀, dotted_append hd₁, dotted_append hd₂, dotted_single hd₃, h₀, h₁, h₂, h₃]
  rfl

/-- What `ip2str` writes is read back. -/
theorem readsBack (x : UInt32) : ReadsBack x := by
  rintro ⟨hlo, hhi⟩
  have hx := x.toNat_lt
  have hread := leadingNumbers_of_dotted (n := 4) (dotted_ip2str x.toNat) (Nat.le_refl 4)
  rw [str2ip_eq, hread, if_pos]
  · rw [addressOf, seen_eq (by omega), seen_eq (by omega), seen_eq (by omega), seen_eq (by omega)]
    omega
  · refine ⟨fun _ => nofun, ?_⟩
    rw [PassesChecks, seen_eq (by omega), seen_eq (by omega), seen_eq (by omega)]
    omega

/-- **Addresses as texts.** A text is parsed exactly if and only if it is turned down or no number of it is 2^32 or
more, the third of four is at most 255 and nothing follows; an address that is written is read back. -/
theorem str2ip_exact_iff (s : CText) (x : UInt32) :
    (ParsesExactly s ↔ (Accepted (leadingNumbers 4 s) → ReadWhole (leadingNumbers 4 s))) ∧ ReadsBack x :=
  ⟨parsesExactly_iff s, readsBack x⟩

/-- The third of four numbers is taken whatever it is. -/
theorem str2ip_not_exact : ¬ ParsesExactly (txt "1.2.300.4") := by
  intro hexact
  obtain ⟨vs, hdotted, hrange, -⟩ := hexact (by decide +kernel)
  have hnumbers : dotted (txt "1.2.300.4") = some [1, 2, 300, 4] := by decide +kernel
  rw [hnumbers] at hdotted
  obtain rfl := Option.some.inj hdotted
  exact absurd hrange.2.2.2.1 (by decide)

end VfsOss
