import VfsOss.Proto.Header
import VfsOss.CLib.Proofs.TextProofs

/-!
# Proofs: the field parser

What the parser finds stays found when more bytes follow, it never changes the length of the text it
rewrites, and on a text that carries the items it is asked for it stores exactly their values.
-/

namespace VfsOss

open CLib

variable {src item value passed rest : Bytes} {fields : List Field} {values : List Bytes}
variable {h h' : HttpHeader}

/-- What `parse_item` returns, taken apart. -/
theorem parseItem_some (hp : parseItem src item = some (value, passed, rest)) :
    ∃ p e, strstr src item = some p ∧ strstr (src.drop (p + item.length)) crlf = some e ∧
      value = (src.drop (p + item.length)).take e ∧
      passed = src.take (p + item.length + e) ++ [0, 10] ∧
      rest = src.drop (p + item.length + e + 2) := by
  unfold parseItem at hp
  split at hp
  · exact absurd hp (by simp)
  · next p hsp =>
    simp only at hp
    split at hp
    · exact absurd hp (by simp)
    · next e hse =>
      obtain ⟨hv, hpr⟩ := Prod.mk.inj (Option.some.inj hp)
      obtain ⟨hpa, hre⟩ := Prod.mk.inj hpr
      refine ⟨p, e, hsp, hse, hv.symm, hpa.symm, ?_⟩
      rw [← hre, List.drop_drop]
      congr 1

theorem parseItem_eq {p e : Nat} (hp : strstr src item = some p)
    (he : strstr (src.drop (p + item.length)) crlf = some e) :
    parseItem src item = some ((src.drop (p + item.length)).take e,
      src.take (p + item.length + e) ++ [0, 10], src.drop (p + item.length + e + 2)) := by
  unfold parseItem
  simp only [hp, he, List.drop_drop]
  congr 3

/-- A field that is found is found at the same place when more bytes follow. -/
theorem parseItem_append (hp : parseItem src item = some (value, passed, rest)) (tail : Bytes) :
    parseItem (src ++ tail) item = some (value, passed, rest ++ tail) := by
  obtain ⟨p, e, hsp, hse, rfl, rfl, rfl⟩ := parseItem_some hp
  have hle := strstr_le hsp
  have hle' := strstr_le hse
  rw [List.length_drop, show crlf.length = 2 from rfl] at hle'
  have hd : (src ++ tail).drop (p + item.length) = src.drop (p + item.length) ++ tail :=
    List.drop_append_of_le_length hle
  have he : strstr ((src ++ tail).drop (p + item.length)) crlf = some e := by
    rw [hd]
    exact strstr_append hse tail
  rw [parseItem_eq (strstr_append hsp tail) he, hd,
    List.take_append_of_le_length (by rw [List.length_drop]; omega),
    List.take_append_of_le_length (by omega), List.drop_append_of_le_length (by omega)]

/-- The rewritten text and what is left are as long as the text was. -/
theorem parseItem_length (hp : parseItem src item = some (value, passed, rest)) :
    passed.length + rest.length = src.length := by
  obtain ⟨p, e, hsp, hse, rfl, rfl, rfl⟩ := parseItem_some hp
  have hle := strstr_le hsp
  have hle' := strstr_le hse
  rw [List.length_drop, show crlf.length = 2 from rfl] at hle'
  simp only [List.length_append, List.length_take, List.length_drop, List.length_cons,
    List.length_nil]
  omega

theorem parseFields_append (tail : Bytes) {r : Bytes} (hp : parseFields fields h src = (true, h', r)) :
    parseFields fields h (src ++ tail) = (true, h', r ++ tail) := by
  induction fields generalizing h src r with
  | nil =>
    obtain ⟨rfl, rfl⟩ := Prod.mk.inj (Prod.mk.inj hp).2
    rfl
  | cons field fields ih =>
    rw [parseFields] at hp ⊢
    split at hp
    · exact absurd (congrArg Prod.fst hp) (by simp)
    · next v passed rest hi =>
      simp only [Prod.mk.injEq] at hp
      obtain ⟨h1, h2, rfl⟩ := hp
      rw [parseItem_append hi]
      simp only
      rw [ih (Prod.ext h1 (Prod.ext h2 rfl)), List.append_assoc]

theorem parseFields_length : (parseFields fields h src).2.2.length = src.length := by
  induction fields generalizing h src with
  | nil => rfl
  | cons field fields ih =>
    rw [parseFields]
    split
    · rfl
    · next v passed rest hi =>
      simp only [List.length_append, ih]
      exact parseItem_length hi

/-! ## Texts that carry the items -/

/-- The header after the values of the fields have been stored in order. -/
def storeAll : List Field → List Bytes → HttpHeader → HttpHeader
  | field :: fields, value :: values, h => storeAll fields values (field.store h value)
  | _, _, h => h

theorem parseItem_carried {gap : Bytes} (first : strstr (gap ++ item) item = some gap.length)
    (line : strstr (value ++ crlf) crlf = some value.length) (rest : Bytes) :
    ∃ passed, parseItem (gap ++ item ++ value ++ crlf ++ rest) item = some (value, passed, rest) := by
  have hd : (gap ++ item ++ value ++ crlf ++ rest).drop (gap.length + item.length) =
      value ++ crlf ++ rest := by
    rw [← List.length_append, show gap ++ item ++ value ++ crlf ++ rest =
      (gap ++ item) ++ (value ++ crlf ++ rest) by simp only [List.append_assoc], List.drop_left]
  have hp : strstr (gap ++ item ++ value ++ crlf ++ rest) item = some gap.length := by
    simp only [List.append_assoc]
    rw [← List.append_assoc]
    exact strstr_append first _
  have he : strstr ((gap ++ item ++ value ++ crlf ++ rest).drop (gap.length + item.length)) crlf =
      some value.length := by
    rw [hd]
    exact strstr_append line _
  have hv : (value ++ crlf ++ rest).take value.length = value := by
    rw [List.append_assoc, List.take_left]
  have hr : (gap ++ item ++ value ++ crlf ++ rest).drop (gap.length + item.length + value.length + 2) =
      rest := by
    have hl : gap.length + item.length + value.length + 2 = (gap ++ item ++ value ++ crlf).length := by
      simp only [List.length_append, show crlf.length = 2 from rfl]
    rw [hl, List.drop_left]
  have hi := parseItem_eq hp he
  rw [hd, hv, hr] at hi
  exact ⟨_, hi⟩

/-- **The parser reads what the text carries**, whatever follows it. -/
theorem parseFields_carried {text : Bytes} (hc : Carries (fields.map Field.item) values text)
    (h : HttpHeader) : ∃ r, parseFields fields h text = (true, storeAll fields values h, r) := by
  induction fields generalizing h values text with
  | nil =>
    rw [List.map_nil] at hc
    cases hc
    exact ⟨text, rfl⟩
  | cons field fields ih =>
    rw [List.map_cons] at hc
    cases hc with
    | cons gap _ value first line hc =>
      obtain ⟨passed, hi⟩ := parseItem_carried first line _
      obtain ⟨r, hr⟩ := ih hc (field.store h value)
      refine ⟨passed ++ r, ?_⟩
      rw [parseFields, hi]
      simp only [hr, storeAll]

/-- What the parser finds is an item the text carries. -/
theorem parseItem_carries (hp : parseItem src item = some (value, passed, rest)) :
    ∃ gap, src = gap ++ item ++ value ++ crlf ++ rest ∧
      strstr (gap ++ item) item = some gap.length ∧ strstr (value ++ crlf) crlf = some value.length := by
  obtain ⟨p, e, hsp, hse, rfl, -, rfl⟩ := parseItem_some hp
  have hle := strstr_le hsp
  have hle' := strstr_le hse
  have hitem := strstr_split hsp
  have hline := strstr_split hse
  rw [List.drop_drop] at hline
  have hgap : (src.take p).length = p := by
    rw [List.length_take]
    omega
  have hval : ((src.drop (p + item.length)).take e).length = e := by
    rw [List.length_take]
    omega
  refine ⟨src.take p, ?_, ?_, ?_⟩
  · calc src = src.take p ++ item ++ src.drop (p + item.length) := hitem
      _ = src.take p ++ item ++ ((src.drop (p + item.length)).take e ++ crlf ++
            src.drop (p + item.length + (e + crlf.length))) := by rw [← hline]
      _ = _ := by
        rw [show p + item.length + (e + crlf.length) = p + item.length + e + 2 from rfl]
        simp only [List.append_assoc]
  · rw [hgap]
    rw [hitem] at hsp
    refine strstr_of_append hsp ?_
    rw [List.length_append, hgap]
  · rw [hval]
    rw [strstr_split hse] at hse
    refine strstr_of_append hse ?_
    rw [List.length_append, hval]

/-- **The parser accepts only what carries its fields**, and stores their values. -/
theorem carries_of_parseFields (hp : (parseFields fields h src).1 = true) :
    ∃ values, Carries (fields.map Field.item) values src ∧
      (parseFields fields h src).2.1 = storeAll fields values h := by
  induction fields generalizing h src with
  | nil => exact ⟨[], .nil src, rfl⟩
  | cons field fields ih =>
    rw [parseFields] at hp ⊢
    split at hp
    · exact absurd hp (by simp)
    · next v passed rest hi =>
      obtain ⟨values, hc, hs⟩ := ih hp
      obtain ⟨gap, hsrc, first, line⟩ := parseItem_carries hi
      refine ⟨v :: values, ?_, hs⟩
      rw [hsrc]
      exact .cons gap _ v first line hc

end VfsOss
