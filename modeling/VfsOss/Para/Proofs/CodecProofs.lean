import VfsOss.Para.Codec
import VfsOss.Para.Proofs.ParserProofs
import VfsOss.CLib.Proofs.DecimalProofs

/-!
# What comes back of a parameter list

The escapes are undone one by one. The rest is the parser: it finds the pairs in the text as long as they fit.
-/

namespace VfsOss

open CLib

/-! ## Escapes -/

section Escapes

variable {s rest v out : Bytes} {ch : UInt8} {n i : Nat}

theorem getD_of_drop (h : s.drop i = rest) (k : Nat) : s.getD (i + k) 0 = rest.getD k 0 := by
  rw [← h, List.getD_eq_getElem?_getD, List.getD_eq_getElem?_getD, List.getElem?_drop]

theorem length_of_drop (h : s.drop i = ch :: rest) : s.length = i + (rest.length + 1) := by
  have := congrArg List.length h
  rw [List.length_drop, List.length_cons] at this
  omega

/-- The escapes, with the digits as they are read. -/
theorem encodeByte_escaped (h : shouldencode ch) : ∃ a b, encodeByte ch = [37, a, b] ∧
    ¬ (getIndex a < 0 ∨ getIndex b < 0) ∧ UInt8.ofNat (getIndex a * 16 + getIndex b).toNat = ch ∧
    (∀ c ∈ [37, a, b], c ≠ 61 ∧ c ≠ 38 ∧ c ≠ 0) := by
  have hcases : ch = 61 ∨ ch = 38 ∨ ch = 37 := by simpa [shouldencode, encodeTable, txt] using h
  rcases hcases with rfl | rfl | rfl
  · exact ⟨51, 68, by decide +kernel⟩
  · exact ⟨50, 54, by decide +kernel⟩
  · exact ⟨50, 53, by decide +kernel⟩

/-- A byte as it was written is read back. -/
theorem decodeLoop_encodeByte (hs : s.length < 2 ^ 32) (h : s.drop i = encodeByte ch ++ rest)
    (hroom : out.length < n - 1) :
    decodeLoop s n i out = decodeLoop s n (i + (encodeByte ch).length) (out ++ [ch]) := by
  have hat := getD_of_drop h
  by_cases hesc : shouldencode ch
  · obtain ⟨a, b, henc, hdigits, hvalue, -⟩ := encodeByte_escaped hesc
    rw [henc] at h hat ⊢
    have hlen : s.length = i + (rest.length + 2 + 1) := length_of_drop h
    have hmod : (s.length + 2 ^ 32 - 2) % 2 ^ 32 = s.length - 2 := by omega
    rw [decodeLoop, if_pos (by omega), show s.getD i 0 = 37 from hat 0, if_pos rfl, hmod, if_neg (by omega),
      show s.getD (i + 1) 0 = a from hat 1, show s.getD (i + 2) 0 = b from hat 2]
    dsimp only
    rw [if_neg hdigits, if_neg (by omega), hvalue]
    rfl
  · have henc : encodeByte ch = [ch] := if_neg hesc
    rw [henc, List.singleton_append] at h
    have h0 := hat 0
    rw [Nat.add_zero, henc] at h0
    have hne : ch ≠ 37 := fun hch => hesc (hch ▸ rfl)
    have hlen := length_of_drop h
    rw [decodeLoop, if_pos (by omega), h0, henc]
    show (if ch = 37 then _ else _) = _
    rw [if_neg hne, if_neg (by omega)]
    rfl

variable (out) in
/-- A text as it was written is read back where there is room for it. -/
theorem decodeLoop_encodeString (hs : s.length < 2 ^ 32) (h : s.drop i = encodeString v)
    (hroom : out.length + v.length < n) : decodeLoop s n i out = (0, out ++ v ++ [0]) := by
  induction v generalizing i out with
  | nil =>
    have hle : s.length ≤ i := List.drop_eq_nil_iff.mp h
    rw [decodeLoop, if_neg (by omega), List.append_nil]
  | cons ch v ih =>
    rw [encodeString, List.flatMap_cons] at h
    rw [List.length_cons] at hroom
    rw [decodeLoop_encodeByte hs h (by omega), ih, List.append_assoc out, List.singleton_append]
    · rw [← List.drop_drop, h, List.drop_left]
      rfl
    · rw [List.length_append, List.length_singleton]
      omega

/-- A value is read back into every buffer with room for it. -/
theorem decodeString_encodeString (hs : (encodeString v).length < 2 ^ 32) {sDecoded : Bytes} (hroom : v.length < n)
    (hn : n ≤ sDecoded.length) : ∃ rest, decodeString (encodeString v) sDecoded n = .ok (0, v ++ 0 :: rest) := by
  have hloop := decodeLoop_encodeString (i := 0) [] hs rfl (by rwa [List.length_nil, Nat.zero_add])
  have hfit : 0 + ([] ++ v ++ [0] : Bytes).length ≤ sDecoded.length := by
    rw [List.nil_append, List.length_append, List.length_singleton]
    omega
  refine ⟨sDecoded.drop (v.length + 1), ?_⟩
  unfold decodeString
  rw [hloop]
  dsimp only
  rw [memcpy_eq hfit, ok_bind]
  exact congrArg (fun mem => Except.ok (0, mem)) (by simp)

theorem encodeString_free (h : (0 : UInt8) ∉ v) : ∀ ch ∈ encodeString v, ch ≠ 61 ∧ ch ≠ 38 ∧ ch ≠ 0 := by
  intro ch hch
  obtain ⟨b, hb, hmem⟩ := List.mem_flatMap.mp hch
  by_cases hesc : shouldencode b
  · obtain ⟨x, y, henc, -, -, hfree⟩ := encodeByte_escaped hesc
    exact hfree ch (henc ▸ hmem)
  · rw [encodeByte, if_neg hesc, List.mem_singleton] at hmem
    subst hmem
    exact ⟨fun he => hesc (he ▸ rfl), fun he => hesc (he ▸ rfl), fun he => h (he ▸ hb)⟩

end Escapes

/-! ## Lists -/

section Lists

variable {para : Para} {paras : List Para} {pair : StringPair} {pairs : List StringPair} {list : StringPairList}
  {name : Bytes}

/-- The texts of a pair are those of a parameter. -/
def StringPair.Holds (pair : StringPair) (para : Para) : Prop :=
  pair.sFirst.text = .ok para.name.1 ∧ pair.sSecond.text = .ok (encodeString para.value.1)

/-- The first pairs hold the parameters. -/
def HoldParas (paras : List Para) (pairs : List StringPair) : Prop :=
  ∀ (k : Nat) (para : Para), paras[k]? = some para → ∃ pair : StringPair, pairs[k]? = some pair ∧ pair.Holds para

theorem HoldParas.cons (h : HoldParas (para :: paras) pairs) :
    ∃ pair rest, pairs = pair :: rest ∧ pair.Holds para ∧ HoldParas paras rest := by
  obtain ⟨pair, hpair, hholds⟩ := h 0 para rfl
  cases pairs with
  | nil => exact nomatch hpair
  | cons first rest =>
    obtain rfl := Option.some.inj hpair
    exact ⟨first, rest, rfl, hholds, fun k other hk => h (k + 1) other hk⟩

theorem setBoth_spec (para : Para) (pair : StringPair) :
    ∃ pair', pair.setBoth para.name.1 (encodeString para.value.1) = .ok pair' ∧ pair'.Holds para := by
  have hvalue : (0 : UInt8) ∉ encodeString para.value.1 := fun h => (encodeString_free para.value.2 0 h).2.2 rfl
  have hshort := para.short
  have hfits := para.fits
  obtain ⟨first, hfirst, hname⟩ := CharArray.setText_spec pair.sFirst para.name.1
    (i := maxNameLen - 1) (k := maxNameLen) (by decide) (Nat.le_refl _) (Nat.sub_le _ _)
  obtain ⟨second, hsecond, htext⟩ := CharArray.setText_spec pair.sSecond (encodeString para.value.1)
    (i := maxValueLen - 1) (k := maxValueLen) (by decide) (Nat.le_refl _) (Nat.sub_le _ _)
  rw [cstr_self para.name.2, List.take_of_length_le (by omega)] at hname
  rw [cstr_self hvalue, List.take_of_length_le (by omega)] at htext
  exact ⟨⟨first, second⟩, bind_ok_iff.mpr ⟨first, hfirst, bind_ok_iff.mpr ⟨second, hsecond, rfl⟩⟩, hname, htext⟩

theorem setParaValue_spec (para : Para) (h : list.iLast < list.pStrPairList.length) :
    ∃ pair, pair.Holds para ∧ setParaValue list para.name.1 para.value.1 =
      .ok (0, ⟨list.iLast + 1, list.pStrPairList.set list.iLast pair⟩) := by
  obtain ⟨pair, hset, hholds⟩ := setBoth_spec para list.pStrPairList[list.iLast]
  have hfits := para.fits
  refine ⟨pair, hholds, ?_⟩
  unfold setParaValue
  rw [if_neg (by omega)]
  dsimp only
  rw [if_neg (by omega), writePair_some (List.getElem?_eq_getElem h), hset]
  rfl

variable (paras list) in
/-- Parameters behind those that are there. -/
theorem setParas_spec (done : List Para) (hlast : list.iLast = done.length) (hdone : HoldParas done list.pStrPairList)
    (hroom : done.length + paras.length ≤ list.pStrPairList.length) :
    ∃ list', setParas paras list = .ok list' ∧ list'.iLast = (done ++ paras).length ∧
      HoldParas (done ++ paras) list'.pStrPairList := by
  induction paras generalizing list done with
  | nil => exact ⟨list, rfl, by rwa [List.append_nil], by rwa [List.append_nil]⟩
  | cons para paras ih =>
    rw [List.length_cons] at hroom
    have hfree : list.iLast < list.pStrPairList.length := by omega
    obtain ⟨pair, hholds, hset⟩ := setParaValue_spec para hfree
    have hmore : HoldParas (done ++ [para]) (list.pStrPairList.set list.iLast pair) := by
      intro k other hk
      rw [hlast]
      by_cases hlt : k < done.length
      · rw [List.getElem?_append_left hlt] at hk
        rw [List.getElem?_set_ne (by omega)]
        exact hdone k other hk
      · obtain rfl : k = done.length := by
          have := (List.getElem?_eq_some_iff.mp hk).1
          rw [List.length_append, List.length_singleton] at this
          omega
        rw [List.getElem?_append_right (Nat.le_refl _), Nat.sub_self] at hk
        obtain rfl := Option.some.inj hk
        exact ⟨pair, List.getElem?_set_self (by omega), hholds⟩
    obtain ⟨list', hrest, hlast', hall⟩ := ih ⟨list.iLast + 1, list.pStrPairList.set list.iLast pair⟩ (done ++ [para])
      (by rw [List.length_append, hlast]; rfl) hmore
      (by rw [List.length_append, List.length_set, List.length_singleton]; omega)
    rw [List.append_assoc, List.singleton_append] at hlast' hall
    exact ⟨list', bind_ok_iff.mpr ⟨_, hset, hrest⟩, hlast', hall⟩

/-- The parameters as they are written, each with a byte behind it. -/
def written (paras : List Para) : Bytes := paras.flatMap fun para => para.item ++ [38]

theorem length_written : (written paras).length = encodedSize paras := by
  rw [written, List.length_flatMap, encodedSize]
  exact congrArg List.sum (List.map_congr_left fun para _ => by rw [List.length_append]; rfl)

/-- A buffer with room for them takes all the parameters. -/
theorem encodeLoop_spec {dataLen : Nat} (out : Bytes) (h : HoldParas paras pairs)
    (hroom : out.length + encodedSize paras < dataLen) :
    encodeLoop dataLen paras.length pairs out = .ok (out ++ written paras) := by
  induction paras generalizing pairs out with
  | nil => rw [written, List.flatMap_nil, List.append_nil]; rfl
  | cons para paras ih =>
    obtain ⟨pair, rest, rfl, ⟨hname, hvalue⟩, hrest⟩ := h.cons
    have hsize : encodedSize (para :: paras) =
        para.name.1.length + ((encodeString para.value.1).length + 1) + 1 + encodedSize paras := by
      rw [encodedSize, List.map_cons, List.sum_cons, Para.item, List.length_append, List.length_cons, encodedSize]
    have hwritten : written (para :: paras) =
        para.name.1 ++ 61 :: (encodeString para.value.1 ++ [38]) ++ written paras := by
      rw [written, List.flatMap_cons, Para.item, written, List.append_assoc para.name.1]
      rfl
    have hlen : (out ++ (para.name.1 ++ 61 :: (encodeString para.value.1 ++ [38]))).length =
        out.length + (para.name.1.length + ((encodeString para.value.1).length + 1) + 1) := by
      rw [List.length_append, List.length_append, List.length_cons, List.length_append, List.length_singleton]
      omega
    rw [List.length_cons, encodeLoop, hname, ok_bind, hvalue, ok_bind, if_neg (by omega), ih _ hrest (by omega), hwritten,
      List.append_assoc out]

/-- The text of the parameters. -/
def textOf (paras : List Para) : Bytes := (written paras).dropLast

theorem written_eq (h : paras ≠ []) : written paras = textOf paras ++ [38] := by
  obtain ⟨init, last, rfl⟩ := (List.eq_nil_or_concat' paras).resolve_left h
  have hlast : written (init ++ [last]) = written init ++ last.item ++ [38] := by
    rw [written, List.flatMap_append, List.flatMap_singleton, List.append_assoc]
    rfl
  rw [textOf, hlast, List.dropLast_concat]

theorem textOf_cons (h : paras ≠ []) : textOf (para :: paras) = para.item ++ 38 :: textOf paras := by
  have hwritten : written (para :: paras) = para.item ++ 38 :: textOf paras ++ [38] := by
    rw [written, List.flatMap_cons, ← written, written_eq h]
    simp
  rw [textOf, hwritten, List.dropLast_concat]

theorem textOf_single : textOf [para] = para.item := by
  rw [textOf, written, List.flatMap_singleton, List.dropLast_concat]

theorem length_textOf (h : paras ≠ []) : (textOf paras).length + 1 = encodedSize paras := by
  rw [← length_written, written_eq h, List.length_append]
  rfl

/-- What is in the buffer after `EncodePara`. -/
theorem encodePara_spec {dataLen : Nat} {sData : Bytes} (hne : paras ≠ []) (hlast : list.iLast = paras.length)
    (h : HoldParas paras list.pStrPairList) (hroom : encodedSize paras < dataLen) (hdata : dataLen ≤ sData.length) :
    ∃ rest, encodePara list sData dataLen = .ok ((textOf paras).length, textOf paras ++ 0 :: rest) := by
  have hloop := encodeLoop_spec [] h (by rwa [List.length_nil, Nat.zero_add])
  have hlen := length_textOf hne
  rw [List.nil_append, written_eq hne] at hloop
  have hfit : 0 + ((textOf paras ++ [38]) ++ [0] : Bytes).length ≤ sData.length := by
    rw [List.length_append, List.length_append, List.length_singleton, List.length_singleton]
    omega
  refine ⟨0 :: sData.drop ((textOf paras).length + 2), ?_⟩
  unfold encodePara strcpy
  rw [hlast, hloop, ok_bind, if_neg (by simp), memcpy_eq hfit, ok_bind]
  simp
  rfl

/-- The bytes of a parameter do not end it. -/
theorem item_free (para : Para) : ∀ ch ∈ para.item, endsPair 61 38 ch = false := by
  intro ch hch
  have hzero : ch ∈ para.name.1 → ch ≠ 0 := fun hmem h0 => para.name.2 (h0 ▸ hmem)
  have hplain := para.plain ch
  have hvalue := encodeString_free para.value.2 ch
  rcases List.mem_append.mp hch with hmem | hmem
  · simp [endsPair, hplain hmem, hzero hmem]
  · rcases List.mem_cons.mp hmem with rfl | hmem
    · decide
    · simp [endsPair, hvalue hmem]

theorem items_textOf (h : paras ≠ []) : items 61 38 (textOf paras) = paras.map Para.item := by
  induction paras with
  | nil => exact absurd rfl h
  | cons para paras ih =>
    by_cases hne : paras = []
    · subst hne
      rw [textOf_single]
      exact List.splitOnP_eq_singleton (item_free para)
    · rw [textOf_cons hne, List.map_cons, ← ih hne]
      exact List.splitOnP_append_cons_of_forall_mem (item_free para) 38 (by decide) _

theorem splitOn_item (para : Para) : para.item.splitOn 61 = [para.name.1, encodeString para.value.1] := by
  have hname : (61 : UInt8) ∉ para.name.1 := fun h => (para.plain 61 h).1 rfl
  have hvalue : (61 : UInt8) ∉ encodeString para.value.1 := fun h => (encodeString_free para.value.2 61 h).1 rfl
  rw [Para.item, List.splitOn_append_cons_self_of_not_mem hname, List.splitOn_eq_singleton hvalue]

/-- A pair that the parser sets from a parameter as it was written holds the parameter. -/
theorem holds_of_setFrom (h : pair.SetFrom 61 para.item) : pair.Holds para := by
  have hshort := para.short
  have hfits := para.fits
  obtain ⟨hname, hvalue⟩ := h
  rw [itemName, splitOn_item] at hname
  rw [itemValue, splitOn_item] at hvalue
  refine ⟨hname.trans (congrArg Except.ok (List.take_of_length_le ?_)),
    hvalue.trans (congrArg Except.ok (List.take_of_length_le ?_))⟩
  · show para.name.1.length ≤ _
    omega
  · show (encodeString para.value.1).length ≤ _
    omega

/-! ## Searching a list -/

theorem lowerByte_ne_zero {b : UInt8} (h : b ≠ 0) : lowerByte b ≠ 0 := by
  unfold lowerByte
  split
  · next hupper =>
    simp only [Bool.and_eq_true, decide_eq_true_eq, UInt8.le_iff_toNat_le] at hupper
    intro h0
    have := congrArg UInt8.toNat h0
    rw [UInt8.toNat_add] at this
    have h65 : (65 : UInt8).toNat = 65 := rfl
    have h90 : (90 : UInt8).toNat = 90 := rfl
    have h32 : (32 : UInt8).toNat = 32 := rfl
    have hzero : (0 : UInt8).toNat = 0 := rfl
    omega
  · exact h

/-- A comparison with a text in an array. -/
theorem strcaseEqMem_text {s t : Bytes} (hs : (0 : UInt8) ∉ s) (ht : (0 : UInt8) ∉ t) (rest : Bytes) :
    strcaseEqMem s (t ++ 0 :: rest) = .ok (strcaseEq s t) := by
  induction s generalizing t with
  | nil =>
    cases t with
    | nil => rfl
    | cons c t =>
      have hc : c ≠ 0 := fun h => ht (h ▸ List.mem_cons_self)
      simp [strcaseEqMem, strcaseEq, hc]
  | cons b s ih =>
    have hb : b ≠ 0 := fun h => hs (h ▸ List.mem_cons_self)
    cases t with
    | nil =>
      rw [List.nil_append, strcaseEqMem, if_neg (show lowerByte b ≠ lowerByte 0 from lowerByte_ne_zero hb)]
      rfl
    | cons c t =>
      rw [List.cons_append, strcaseEqMem]
      by_cases hsame : lowerByte b = lowerByte c
      · rw [if_pos hsame, ih (fun h => hs (List.mem_cons_of_mem _ h)) fun h => ht (List.mem_cons_of_mem _ h)]
        simp [strcaseEq, hsame]
      · rw [if_neg hsame]
        simp [strcaseEq, hsame]

theorem strcaseEqMem_array {n : Nat} {a : CharArray n} {s t : Bytes} (hs : (0 : UInt8) ∉ s) (h : a.text = .ok t) :
    strcaseEqMem s a.1 = .ok (strcaseEq s t) := by
  unfold CharArray.text at h
  split at h
  · next h0 =>
    obtain rfl := Except.ok.inj h
    obtain ⟨x, y, hxy, hx⟩ := List.eq_append_cons_of_mem h0
    rw [hxy, cstr_append_zero hx]
    exact strcaseEqMem_text hs hx y
  · exact nomatch h

/-- The first pair with the name is found. -/
theorem findPair_spec (hname : (0 : UInt8) ∉ name) (h : HoldParas paras pairs) :
    ∃ found, findPair name paras.length pairs = .ok found ∧
      match paras.find? (strcaseEq name ·.name.1) with
      | none => found = none
      | some para => ∃ pair, found = some pair ∧ pair.Holds para := by
  induction paras generalizing pairs with
  | nil => exact ⟨none, rfl, rfl⟩
  | cons para paras ih =>
    obtain ⟨pair, rest, rfl, hholds, hrest⟩ := h.cons
    rw [List.length_cons, findPair, strcaseEqMem_array hname hholds.1, ok_bind, List.find?_cons]
    cases strcaseEq name para.name.1 with
    | true => exact ⟨some pair, rfl, pair, rfl, hholds⟩
    | false => exact ih hrest

/-- A list that holds the parameters is searched as it should be. -/
theorem finds_of_holds (hlast : list.iLast = paras.length) (h : HoldParas paras list.pStrPairList) :
    FindsAll list paras := by
  intro name sValue n hroom hn
  obtain ⟨found, hfind, hfound⟩ := findPair_spec name.2 h
  unfold getParaValue
  rw [hlast, hfind, ok_bind]
  unfold valueOf at hroom ⊢
  cases hpara : paras.find? (strcaseEq name.1 ·.name.1) with
  | none =>
    rw [hpara] at hfound hroom
    obtain rfl := hfound
    have hfit : 0 + ([] ++ [0] : Bytes).length ≤ sValue.length := by
      have : ([] : Bytes).length < n := hroom
      rw [List.nil_append, List.length_singleton]
      omega
    exact ⟨sValue.drop 1, by dsimp only; unfold strcpy; rw [memcpy_eq hfit]; rfl⟩
  | some para =>
    rw [hpara] at hfound hroom
    obtain ⟨pair, rfl, -, hvalue⟩ := hfound
    have hfits : (encodeString para.value.1).length < 4096 := para.fits
    obtain ⟨rest, hdecode⟩ := decodeString_encodeString (v := para.value.1) (by omega) hroom hn
    exact ⟨rest, by dsimp only; rw [hvalue, ok_bind, hdecode]; rfl⟩

end Lists

/-! ## The whole way -/

section Ways

variable {capacity : Nat} {paras : List Para} {list : StringPairList}

/-- A name that is not in any list: it is longer than all of them. -/
def longName : CText := ⟨List.replicate maxNameLen 120, fun h => absurd (List.eq_of_mem_replicate h) (by decide)⟩

/-- Pairs in memory that holds the long name without a NUL. -/
def longNames (n : Nat) : List StringPair :=
  List.replicate n ⟨⟨longName.1, List.length_replicate⟩, .zero maxValueLen⟩

theorem strcaseEqMem_long {s mem : Bytes} (h : mem.length ≤ s.length) : strcaseEqMem s mem ≠ .ok true := by
  induction mem generalizing s with
  | nil => cases s <;> exact nofun
  | cons c mem ih =>
    cases s with
    | nil => exact absurd h (Nat.not_succ_le_zero _)
    | cons b s =>
      rw [strcaseEqMem]
      split
      · exact ih (Nat.le_of_succ_le_succ h)
      · exact nofun

theorem strcaseEqMem_self : ∀ s : Bytes, strcaseEqMem s s = .error .outOfBounds
  | [] => rfl
  | b :: s => by
    rw [strcaseEqMem, if_pos rfl]
    exact strcaseEqMem_self s

/-- The search for the long name leaves the array that holds it. -/
theorem findPair_long {n k : Nat} (pairs : List StringPair) (hk : k < n)
    (hpair : ∀ pair, pairs[k]? = some pair → pair.sFirst.1 = longName.1) :
    ∃ e, findPair longName.1 n pairs = .error e := by
  induction n generalizing k pairs with
  | zero => exact absurd hk (Nat.not_lt_zero k)
  | succ n ih =>
    cases pairs with
    | nil => exact ⟨_, rfl⟩
    | cons first rest =>
      rw [findPair]
      cases hcmp : strcaseEqMem longName.1 first.sFirst.1 with
      | error e => exact ⟨e, rfl⟩
      | ok same =>
        cases same with
        | true => exact absurd hcmp (strcaseEqMem_long (by rw [first.sFirst.2, longName, List.length_replicate]))
        | false =>
          cases k with
          | zero =>
            rw [hpair first rfl, strcaseEqMem_self] at hcmp
            exact nomatch hcmp
          | succ k => exact ih _ (Nat.lt_of_succ_lt_succ hk) hpair

theorem valueOf_long : valueOf paras longName.1 = none := by
  rw [valueOf, Option.map_eq_none_iff, List.find?_eq_none]
  intro para _ hsame
  have hlen := congrArg List.length (of_decide_eq_true hsame)
  have hshort := para.short
  rw [List.length_map, List.length_map, longName, List.length_replicate] at hlen
  omega

/-- A list with a name that was never written is not searched as it should be. -/
theorem not_finds_of_unset {k : Nat} (hk : k < list.iLast)
    (h : (list.pStrPairList[k]?).map (·.sFirst) = ((longNames capacity)[k]?).map (·.sFirst)) :
    ¬ FindsAll list paras := by
  intro hfinds
  obtain ⟨rest, hfound⟩ := hfinds longName [0] 1 (by rw [valueOf_long]; decide) (Nat.le_refl 1)
  obtain ⟨e, herror⟩ := findPair_long list.pStrPairList hk fun pair hpair => by
    rw [hpair, Option.map_some] at h
    obtain ⟨old, hold, hsame⟩ := Option.map_eq_some_iff.mp h.symm
    rw [← hsame, List.eq_of_mem_replicate (List.mem_of_getElem? hold)]
  unfold getParaValue at hfound
  rw [herror] at hfound
  exact nomatch hfound

/-- The texts of all the parameters, with what was written for the last one. -/
theorem textOf_concat (last : Para) (h : paras ≠ []) : textOf (paras ++ [last]) = textOf paras ++ 38 :: last.item := by
  have hwritten : written (paras ++ [last]) = textOf paras ++ 38 :: last.item ++ [38] := by
    rw [written, List.flatMap_append, ← written, written_eq h, List.flatMap_singleton]
    simp
  rw [textOf, hwritten, List.dropLast_concat]

theorem length_item (para : Para) : para.item.length < maxNameLen + maxValueLen := by
  have hshort := para.short
  have hfits := para.fits
  rw [Para.item, List.length_append, List.length_cons]
  omega

theorem textRead_getD {text rest : Bytes} {iStrLen : Int} (h : iStrLen.toNat ≤ text.length) :
    textRead ((text ++ rest).getD · 0) iStrLen = text.take iStrLen.toNat := by
  refine List.ext_getElem ?_ fun i h₁ h₂ => ?_
  · rw [textRead, List.length_map, List.length_range, List.length_take]
    omega
  · have hi : i < text.length := by
      rw [List.length_take] at h₂
      omega
    simp [textRead, List.getElem?_append_left hi, hi]

theorem length_items (text : Bytes) : (items 61 38 text).length = text.countP (endsPair 61 38) + 1 := by
  induction text using split_induction (p := endsPair 61 38) with
  | last item hfree =>
    rw [items, List.splitOnP_eq_singleton hfree, List.countP_eq_zero.mpr fun ch hch => by simp [hfree ch hch]]
    rfl
  | cons item sep rest hfree hsep ih =>
    have hitem : item.countP (endsPair 61 38) = 0 := List.countP_eq_zero.mpr fun ch hch => by simp [hfree ch hch]
    rw [items, List.splitOnP_append_cons_of_forall_mem hfree sep hsep rest, List.length_cons, ← items, ih,
      List.countP_append, List.countP_cons_of_pos hsep, hitem, Nat.zero_add]

/-- Of a text with a length that is no `int` not all parameters are read. -/
theorem items_cut (hlong : 2 ^ 31 < encodedSize paras) :
    (items 61 38 ((textOf paras).take (toInt32 (textOf paras).length).toNat)).length < paras.length := by
  have hne : paras ≠ [] := fun h => by
    rw [h] at hlong
    exact absurd hlong (by decide)
  have hlen := length_textOf hne
  obtain ⟨init, last, rfl⟩ := (List.eq_nil_or_concat' paras).resolve_left hne
  have hlast : last.item.length < 4296 := length_item last
  by_cases hinit : init = []
  · rw [hinit, List.nil_append, textOf_single] at hlen
    rw [hinit, List.nil_append] at hlong
    omega
  · have hcut : (toInt32 (textOf (init ++ [last])).length).toNat ≤ (textOf init).length := by
      have htotal := congrArg List.length (textOf_concat last hinit)
      rw [List.length_append, List.length_cons] at htotal
      have := toInt32_of_large (n := (textOf (init ++ [last])).length) (by omega)
      omega
    generalize (toInt32 (textOf (init ++ [last])).length).toNat = n at hcut ⊢
    have hitems : (items 61 38 (textOf init)).length = init.length := by rw [items_textOf hinit, List.length_map]
    have hle := (List.take_prefix n (textOf init)).sublist.countP_le (p := endsPair 61 38)
    rw [length_items] at hitems
    rw [textOf_concat _ hinit, List.take_append_of_le_length hcut, length_items, List.length_append,
      List.length_singleton]
    omega

theorem named_paras : namedItems 61 (paras.map Para.item) = paras.map Para.item := by
  refine List.takeWhile_eq_self_iff.mpr fun item hitem => ?_
  obtain ⟨para, -, rfl⟩ := List.mem_map.mp hitem
  exact decide_eq_true (List.mem_append_right _ List.mem_cons_self)

/-- Parameters fit into the buffers of the parser. -/
theorem itemsFit_paras {room : Nat} (hroom : paras.length ≤ room) :
    ItemsFit 61 room (paras.map Para.item) := by
  refine ⟨fun item hitem part hpart => ?_, fun hlt => ?_, fun _ => ⟨by rwa [List.length_map], fun item hitem => ?_⟩⟩
  · obtain ⟨para, -, rfl⟩ := List.mem_map.mp (List.mem_of_mem_take hitem)
    have hshort := para.short
    have hfits := para.fits
    rw [splitOn_item] at hpart
    rcases List.mem_cons.mp hpart with rfl | hpart
    · omega
    · rw [List.mem_singleton.mp hpart]
      omega
  · rw [named_paras] at hlt
    exact absurd hlt (Nat.lt_irrefl _)
  · obtain ⟨para, -, rfl⟩ := List.mem_map.mp (List.mem_of_getLast? hitem)
    rw [itemValue, splitOn_item]
    exact para.fits

theorem decodePara_empty (sBuffer : CharArray (maxNameLen + maxValueLen)) (data : Bytes) (iReqLen : Int)
    (mem : List StringPair) : decodePara sBuffer data iReqLen ⟨0, mem⟩ =
      (fun r : Int × List StringPair => ((if 0 ≤ r.1 then 0 else -1 : Int), (⟨r.1.toNat, r.2⟩ : StringPairList))) <$>
        parsepara sBuffer (data.getD · 0) iReqLen mem 61 38 := by
  unfold decodePara
  cases parsepara sBuffer (data.getD · 0) iReqLen mem 61 38 with
  | error e => rfl
  | ok r =>
    rw [ok_bind, Except.map_ok]
    dsimp only
    by_cases h : r.1 ≥ 0
    · rw [if_pos h, if_pos h]
      rfl
    · rw [if_neg h, if_neg h, Int.toNat_of_nonpos (by omega)]
      rfl

/-- The parameters in the text. -/
theorem write_spec (mem : List StringPair) {sData : Bytes} {dataLen : Nat} (hne : paras ≠ [])
    (hmem : paras.length ≤ mem.length) (hroom : encodedSize paras < dataLen) (hdata : dataLen ≤ sData.length) :
    ∃ list rest, setParas paras ⟨0, mem⟩ = .ok list ∧
      encodePara list sData dataLen = .ok ((textOf paras).length, textOf paras ++ 0 :: rest) := by
  obtain ⟨list, hset, hlast, hhold⟩ := setParas_spec paras ⟨0, mem⟩ [] rfl
    (fun _ _ hk => nomatch hk) (by rwa [List.length_nil, Nat.zero_add])
  rw [List.nil_append] at hlast hhold
  obtain ⟨rest, hencode⟩ := encodePara_spec hne hlast hhold hroom hdata
  exact ⟨list, rest, hset, hencode⟩

theorem comesBack_nil : ComesBack capacity [] := by
  intro mem mem' sBuffer sData dataLen hmem hmem' hroom hdata
  refine ⟨⟨0, mem⟩, 0, sData, 0, ⟨0, mem'⟩, rfl, rfl, ?_, rfl, finds_of_holds rfl fun _ _ hk => nomatch hk⟩
  rw [decodePara_empty]
  rfl

theorem length_textOf_pos (hne : paras ≠ []) : 0 < (textOf paras).length := by
  have hlen := length_textOf hne
  cases paras with
  | nil => exact absurd rfl hne
  | cons para paras =>
    rw [encodedSize, List.map_cons, List.sum_cons, Para.item, List.length_append, List.length_cons] at hlen
    omega

variable (paras) in
/-- What the parser is given of the text. -/
theorem parsepara_text (iReqLen : Int) (h0 : iReqLen ≠ 0) (hle : iReqLen.toNat ≤ (textOf paras).length)
    (sBuffer : CharArray (maxNameLen + maxValueLen)) (rest : Bytes) (mem : List StringPair) :
    parsepara sBuffer ((textOf paras ++ 0 :: rest).getD · 0) iReqLen mem 61 38 =
      (parseLoop 61 38 ((textOf paras).take iReqLen.toNat) ⟨mem, sBuffer, 0, 0, false⟩ >>= parseEnd) := by
  rw [parsepara_eq h0, textRead_getD hle]
  rfl

/-- The pairs that the parser counts when it counts all items hold the parameters. -/
theorem holdParas_of_setsPairs {pairs : List StringPair} (h : ∀ k : Nat, k < (paras.length : Int) → ∃ item pair,
    (paras.map Para.item)[k]? = some item ∧ pairs[k]? = some pair ∧ (61 : UInt8) ∈ item ∧ pair.SetFrom 61 item) :
    HoldParas paras pairs := by
  intro k para hk
  have hlt := (List.getElem?_eq_some_iff.mp hk).1
  obtain ⟨item, pair, hitem, hpair, -, hset⟩ := h k (by omega)
  rw [List.getElem?_map, hk] at hitem
  obtain rfl := Option.some.inj hitem
  exact ⟨pair, hpair, holds_of_setFrom hset⟩

theorem comesBack_of_fits (hne : paras ≠ []) (hcapacity : 2 ≤ capacity) (hroom : paras.length ≤ max 1 (capacity - 2))
    (hint : encodedSize paras ≤ 2 ^ 31) : ComesBack capacity paras := by
  rintro mem mem' sBuffer sData dataLen hmem rfl hdata hlen
  obtain ⟨list, rest, hset, hencode⟩ := write_spec mem hne (by omega) hdata hlen
  have hsize := length_textOf hne
  have hpos := length_textOf_pos hne
  have hL : toInt32 (textOf paras).length = (textOf paras).length := toInt32_of_range (by omega) (by omega)
  have hparse := parsepara_text paras (textOf paras).length (by omega)
    (Nat.le_of_eq (Int.toNat_natCast _)) sBuffer rest mem'
  rw [Int.toNat_natCast, List.take_length] at hparse
  have hstart := parse_start 61 38 sBuffer (Nat.le_of_succ_le hcapacity) (textOf paras)
  rw [← hparse, items_textOf hne] at hstart
  rcases hstart with ⟨-, ⟨ret, pairs, hok, hall⟩, hcount⟩ | ⟨hnot, -⟩
  · have hret := hcount ret pairs hok
    rw [if_pos fun item hitem => by
      obtain ⟨para, -, rfl⟩ := List.mem_map.mp hitem
      exact List.mem_append_right _ List.mem_cons_self, List.length_map] at hret
    subst hret
    refine ⟨list, _, _, 0, ⟨paras.length, pairs⟩, hset, hencode, ?_, rfl,
      finds_of_holds rfl (holdParas_of_setsPairs hall)⟩
    rw [decodePara_empty, hL, hok, Except.map_ok, if_pos (Int.natCast_nonneg _), Int.toNat_natCast]
  · exact absurd ⟨itemsFit_paras hroom, fun _ => hcapacity⟩ hnot

theorem counted_le {all : List Bytes} {r : Except MemFault (Int × List StringPair)} {ret : Int}
    {pairs : List StringPair} (h : CountsItems 61 all r) (hok : r = .ok (ret, pairs)) : ret.toNat ≤ all.length := by
  rw [h ret pairs hok]
  split
  · exact Nat.le_of_eq (Int.toNat_natCast _)
  · exact Nat.zero_le _

theorem fits_of_comesBack (hle : paras.length ≤ capacity) (h : ComesBack capacity paras) :
    ParasFit capacity paras := by
  by_cases hne : paras = []
  · exact .inl hne
  · have hpos : 0 < paras.length := List.length_pos_iff.mpr hne
    have hmem : (longNames capacity).length = capacity := List.length_replicate
    have hdata : (List.replicate (encodedSize paras + 1) (0 : UInt8)).length = encodedSize paras + 1 :=
      List.length_replicate
    obtain ⟨list, len, data, ret, list', hset, hencode, hdecode, hlast, hfinds⟩ :=
      h (longNames capacity) (longNames capacity) (.zero _) (List.replicate (encodedSize paras + 1) 0)
        (encodedSize paras + 1) hmem hmem (Nat.lt_succ_self _) (Nat.le_of_eq hdata.symm)
    obtain ⟨list₁, rest, hset₁, hencode₁⟩ := write_spec _ hne (hmem.symm ▸ hle) (Nat.lt_succ_self _)
      (Nat.le_of_eq hdata.symm)
    obtain rfl := Except.ok.inj (hset₁.symm.trans hset)
    obtain ⟨rfl, rfl⟩ := Prod.mk.inj (Except.ok.inj (hencode₁.symm.trans hencode))
    rw [decodePara_empty] at hdecode
    obtain ⟨⟨iRet, pairs⟩, hok, hr⟩ := map_ok_iff.mp hdecode
    obtain rfl := (Prod.mk.inj hr).2
    replace hlast : iRet.toNat = paras.length := hlast
    have hcut := toInt32_toNat_le (textOf paras).length
    by_cases h0 : toInt32 (textOf paras).length = 0
    · rw [h0] at hok
      obtain ⟨rfl, -⟩ := Prod.mk.inj (Except.ok.inj (hok.symm.trans (if_pos rfl)))
      exact absurd hlast (by rw [Int.toNat_zero]; omega)
    · rw [parsepara_text paras _ h0 hcut] at hok
      rcases parse_start _ _ (.zero _) (hmem.symm ▸ Nat.le_trans hpos hle)
        ((textOf paras).take (toInt32 (textOf paras).length).toNat) with ⟨hfits, -, hcount⟩ | ⟨-, hunset⟩
      · by_cases hlong : 2 ^ 31 < encodedSize paras
        · have hcounted := counted_le hcount hok
          rw [hlast] at hcounted
          exact absurd hcounted (Nat.not_le.mpr (items_cut hlong))
        · have hL := toInt32_of_range (n := (textOf paras).length) (by omega) (by have := length_textOf hne; omega)
          rw [hL, Int.toNat_natCast, List.take_length, items_textOf hne, hmem] at hfits
          have hroom := (hfits.1.ended (by rw [named_paras])).1
          rw [List.length_map] at hroom
          refine .inr ⟨hfits.2 fun item hitem => ?_, hroom, by omega⟩
          obtain ⟨para, -, rfl⟩ := List.mem_map.mp hitem
          exact List.mem_append_right _ List.mem_cons_self
      · obtain ⟨k, -, hk, hsame⟩ := hunset iRet pairs hok
        exact absurd hfinds (not_finds_of_unset (Int.lt_toNat.mpr hk) hsame)

/-- The parameters of a list come back from its text exactly when all but two pairs of the list, or one, hold them. -/
theorem paras_comeBack_iff (hle : paras.length ≤ capacity) : ComesBack capacity paras ↔ ParasFit capacity paras := by
  constructor
  · exact fits_of_comesBack hle
  · rintro (rfl | ⟨hcapacity, hroom, hint⟩)
    · exact comesBack_nil
    · by_cases hne : paras = []
      · rw [hne]
        exact comesBack_nil
      · exact comesBack_of_fits hne hcapacity hroom hint

end Ways

/-- A parameter with a value that is escaped. -/
def modeOf (name : CText) (hname : name.1 = txt "a" ∨ name.1 = txt "c") : Para where
  name := name
  value := ⟨txt "50%", by decide +kernel⟩
  nonempty := by rcases hname with h | h <;> rw [h] <;> decide
  short := by rcases hname with h | h <;> rw [h] <;> decide
  plain := by rcases hname with h | h <;> rw [h] <;> decide +kernel
  fits := by decide +kernel

/-- One parameter in a list of two. -/
theorem paras_comeBack_iff_two : ComesBack 2 [modeOf ⟨txt "a", by decide⟩ (.inl rfl)] :=
  (paras_comeBack_iff (by decide)).mpr (Or.inr ⟨by decide, by decide, by decide +kernel⟩)

/-- Two parameters in a list of three. -/
theorem paras_not_comeBack : ¬ ∀ (capacity : Nat) (paras : List Para), 1 ≤ capacity → paras.length ≤ capacity →
    ComesBack capacity paras := fun h => by
  have hback := h 3 [modeOf ⟨txt "a", by decide⟩ (.inl rfl), modeOf ⟨txt "c", by decide⟩ (.inr rfl)]
    (by decide) (by decide)
  rcases fits_of_comesBack (by decide) hback with hnil | ⟨-, hroom, -⟩
  · exact nomatch hnil
  · exact absurd hroom (by decide)

end VfsOss
