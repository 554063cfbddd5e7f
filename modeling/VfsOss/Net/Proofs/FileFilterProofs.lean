import VfsOss.Net.FileFilter

/-!
# Proofs: what the suffix filter lets through

The splitter makes a record of every element up to the first empty one: behind an empty element the
pointer stays at the NUL that ends it. A record of an element of at most 63 bytes stands for it; a
longer one is cut, and its length taken modulo 256.
-/

namespace VfsOss

open CLib

variable {mallocOk : Nat → Bool} {type : UInt8}

/-! ## Pointers into a text -/

theorem cstr_eq_nil {s : Bytes} : s.headD 0 = 0 ↔ cstr s = [] := by
  cases s with
  | nil => simp [cstr]
  | cons b s => by_cases hb : b = 0 <;> simp [cstr, hb]

theorem cstr_skipStar (s : Bytes) : cstr (skipStar s) = dropStar (cstr s) := by
  cases s with
  | nil => rfl
  | cons b s =>
    by_cases hb : b = 42
    · subst hb
      simp [skipStar, cstr, dropStar]
    · have hskip : skipStar (b :: s) = b :: s := by simp [skipStar, hb]
      rw [hskip]
      by_cases hz : b = 0
      · simp [cstr, hz, dropStar]
      · have hcons : cstr (b :: s) = b :: cstr s := by simp [cstr, hz]
        rw [hcons, dropStar]
        simpa using hb

/-! ## The splitter -/

/-- The record of an element, put in front of the others. -/
def addRecord (mallocOk : Nat → Bool) (type : UInt8) (mlist : List VfsFilter) (e : Bytes) :
    Option (List VfsFilter) :=
  if mallocOk mlist.length then some (mkFilter e type :: mlist) else none

theorem keptElements_single {w : Bytes} (h : (124 : UInt8) ∉ w) :
    keptElements w = if dropStar w = [] then [] else [dropStar w] := by
  rw [keptElements, suffixElements, List.splitOn_eq_singleton h]
  by_cases hw : dropStar w = [] <;> simp [hw]

theorem keptElements_append {a b : Bytes} (h : (124 : UInt8) ∉ a) :
    keptElements (a ++ 124 :: b) = if dropStar a = [] then [] else dropStar a :: keptElements b := by
  rw [keptElements, suffixElements, List.splitOn_append_cons_self_of_not_mem h]
  by_cases ha : dropStar a = [] <;> simp [ha, keptElements, suffixElements]

/-- The splitter makes a record of every kept element, in their order. -/
theorem subInitFilter_eq (s : Bytes) (mlist : List VfsFilter) :
    subInitFilter mallocOk s type mlist =
      (keptElements (cstr s)).foldlM (addRecord mallocOk type) mlist := by
  induction hn : s.count 124 using Nat.strong_induction_on generalizing s mlist with
  | _ n ih =>
  subst hn
  rw [subInitFilter]
  split
  · next hnone =>
    rw [keptElements_single (strchr_eq_none.mp hnone), subInitLast]
    simp only [cstr_eq_nil, cstr_skipStar]
    by_cases hw : dropStar (cstr s) = []
    · rw [if_pos hw, if_pos hw]
      rfl
    · rw [if_neg hw, if_neg hw, addFilter, cstr_skipStar, List.foldlM_cons]
      unfold addRecord
      split <;> rfl
  · next k hk =>
    obtain ⟨a, r, hs, hbar, hzero, hcstr, hset, hdrop⟩ := cstr_strchr hk
    have hless := count_bar_set hk
    have hstar : cstr (skipStar (s.set k 0)) = dropStar a := by
      rw [cstr_skipStar, hset, cstr_append_zero hzero]
    rw [hcstr, keptElements_append hbar]
    dsimp only
    simp only [cstr_eq_nil, hstar]
    by_cases ha : dropStar a = []
    -- the element is empty, and the pointer at the NUL behind it
    · rw [if_pos ha, if_pos ha]
      rw [ih _ (Nat.lt_of_le_of_lt (List.Sublist.count_le 124 (skipStar_sublist _)) hless) _ _ rfl,
        hstar, ha, keptElements_single (by simp)]
      rfl
    · rw [if_neg ha, if_neg ha, List.foldlM_cons, addFilter, addRecord, hstar]
      split
      · next heq =>
        split at heq
        · cases heq
        · next hmalloc =>
          rw [if_neg hmalloc]
          rfl
      · next mlist' heq =>
        split at heq
        · next hmalloc =>
          obtain rfl := Option.some.inj heq
          rw [if_pos hmalloc]
          have hr : r.count 124 < s.count 124 := by
            rw [← hdrop]
            exact Nat.lt_of_le_of_lt (List.Sublist.count_le 124 (List.drop_sublist _ _)) hless
          rw [hdrop, ih _ hr r _ rfl]
          rfl
        · cases heq

theorem initFileFilter_eq (values : List Bytes) : initFileFilter mallocOk values =
    ((values.map cstr).flatMap keptElements).foldlM (addRecord mallocOk 0) [] := by
  unfold initFileFilter
  generalize ([] : List VfsFilter) = mlist
  induction values generalizing mlist with
  | nil => rfl
  | cons pval values ih =>
    rw [List.foldlM_cons, List.map_cons, List.flatMap_cons, List.foldlM_append]
    have hfirst : (if (cstr pval).length = 0 then some mlist
        else subInitFilter mallocOk pval 0 mlist) =
          (keptElements (cstr pval)).foldlM (addRecord mallocOk 0) mlist := by
      rw [subInitFilter_eq]
      split
      · next hlen =>
        rw [List.length_eq_zero_iff.mp hlen]
        rfl
      · rfl
    rw [hfirst]
    exact bind_congr fun mlist => ih mlist

/-- When all records could be made, there is one for each element. -/
theorem foldlM_addRecord {es : List Bytes} {mlist allowList : List VfsFilter}
    (h : es.foldlM (addRecord mallocOk type) mlist = some allowList) :
    allowList = (es.map (mkFilter · type)).reverse ++ mlist := by
  induction es generalizing mlist with
  | nil => exact (Option.some.inj h).symm
  | cons e es ih =>
    rw [List.foldlM_cons] at h
    obtain ⟨mlist', hadd, hrest⟩ := Option.bind_eq_some_iff.mp h
    unfold addRecord at hadd
    split at hadd
    · obtain rfl := Option.some.inj hadd
      rw [ih hrest, List.map_cons, List.reverse_cons, List.append_assoc]
      rfl
    · exact nomatch hadd

/-! ## Matching -/

/-- A record of length `n` with a text matches the names that end with the text, when the text has
that length. -/
theorem matchesFile_iff {filter : VfsFilter} (htype : filter.type = 0) (file : Bytes) :
    filter.matchesFile file = true ↔
      filter.strings.length = filter.sLen.toNat ∧ filter.strings <:+ cstr file := by
  unfold VfsFilter.matchesFile
  dsimp only
  rw [if_pos htype]
  constructor
  · intro h
    split at h
    · exact nomatch h
    · next hle =>
      have hdrop := of_decide_eq_true h
      refine ⟨?_, hdrop ▸ List.drop_suffix _ _⟩
      rw [← hdrop, List.length_drop]
      omega
  · rintro ⟨hlen, hsuf⟩
    have hle := hsuf.length_le
    rw [if_neg (by omega), ← hlen]
    exact decide_eq_true (List.suffix_iff_eq_drop.mp hsuf).symm

/-- What the record of an element matches. -/
theorem matchesFile_mkFilter (e file : Bytes) : (mkFilter e 0).matchesFile file = true ↔
    (e.length ≤ 63 ∧ e <:+ cstr file) ∨
      ((63 < e.length ∧ e.length % 256 = 63) ∧ e.take 63 <:+ cstr file) := by
  have hsLen : (mkFilter e 0).sLen.toNat = e.length % 256 := UInt8.toNat_ofNat' ..
  have hstrings : (mkFilter e 0).strings = e.take 63 := rfl
  rw [matchesFile_iff rfl, hsLen, hstrings, List.length_take]
  by_cases hlong : e.length ≤ 63
  · rw [List.take_of_length_le hlong]
    constructor
    · exact fun h => .inl ⟨hlong, h.2⟩
    · rintro (h | h)
      · exact ⟨by omega, h.2⟩
      · exact absurd h.1.1 (by omega)
  · constructor
    · exact fun h => .inr ⟨⟨by omega, by omega⟩, h.2⟩
    · rintro (h | h)
      · exact absurd h.1 hlong
      · exact ⟨by omega, h.2⟩

/-! ## The configuration -/

theorem mem_suffixElements {value e : Bytes} :
    e ∈ suffixElements value ∧ e ≠ [] ↔ e ∈ keptElements value ∨ e ∈ lostElements value := by
  have hsplit : e ∈ suffixElements value ↔ e ∈ keptElements value ∨
      e ∈ (suffixElements value).dropWhile (· ≠ []) := by
    rw [keptElements, ← List.mem_append, List.takeWhile_append_dropWhile]
  have hkept : e ∈ keptElements value → e ≠ [] := fun h => by
    simpa using List.mem_takeWhile_imp (p := fun e : Bytes => decide (e ≠ [])) h
  rw [hsplit, lostElements, List.mem_filter, decide_eq_true_eq]
  tauto

/-- What the configuration allows, by what is stored of it. -/
theorem allowedBy_iff (values : List Bytes) (name : Bytes) : AllowedBy values name ↔
    EndsWith (storedElements values) name ∨ EndsWith (unstoredElements values) name := by
  have helement : ∀ e, e ∈ (values.flatMap suffixElements).filter (· ≠ []) ↔
      e ∈ storedElements values ∨ e ∈ unstoredElements values := by
    intro e
    have hmem : e ∈ (values.flatMap suffixElements).filter (· ≠ []) ↔
        e ∈ values.flatMap keptElements ∨ e ∈ values.flatMap lostElements := by
      rw [List.mem_filter, decide_eq_true_eq, List.mem_flatMap, List.mem_flatMap, List.mem_flatMap]
      constructor
      · rintro ⟨⟨value, hv, he⟩, hne⟩
        exact (mem_suffixElements.mp ⟨he, hne⟩).imp (fun h => ⟨value, hv, h⟩) fun h => ⟨value, hv, h⟩
      · rintro (⟨value, hv, he⟩ | ⟨value, hv, he⟩)
        · have h := mem_suffixElements.mpr (.inl he)
          exact ⟨⟨value, hv, h.1⟩, h.2⟩
        · have h := mem_suffixElements.mpr (.inr he)
          exact ⟨⟨value, hv, h.1⟩, h.2⟩
    have hlong : 63 < e.length ↔ ¬ e.length ≤ 63 := by omega
    rw [hmem, storedElements, unstoredElements, List.mem_append, List.mem_filter, List.mem_filter,
      decide_eq_true_eq, decide_eq_true_eq, hlong]
    tauto
  constructor
  · rintro ⟨e, he, hsuf⟩
    exact ((helement e).mp he).imp (fun h => ⟨e, h, hsuf⟩) fun h => ⟨e, h, hsuf⟩
  · rintro (⟨e, he, hsuf⟩ | ⟨e, he, hsuf⟩)
    · exact ⟨e, (helement e).mpr (.inl he), hsuf⟩
    · exact ⟨e, (helement e).mpr (.inr he), hsuf⟩

/-- What the filter lets through. -/
theorem checkFileFilter_eq {values : List Bytes} {allowList : List VfsFilter}
    (h : initFileFilter mallocOk values = some allowList) (file : Bytes) :
    checkFileFilter allowList file =
      if EndsWith (storedElements (values.map cstr)) (cstr file) ∨
        EndsWith (storedHeads (values.map cstr)) (cstr file) then 0 else 1 := by
  rw [initFileFilter_eq] at h
  have hlist := foldlM_addRecord h
  have hany : allowList.any (·.matchesFile file) = true ↔
      EndsWith (storedElements (values.map cstr)) (cstr file) ∨
        EndsWith (storedHeads (values.map cstr)) (cstr file) := by
    rw [List.any_eq_true, hlist, List.append_nil]
    constructor
    · rintro ⟨filter, hmem, hmatch⟩
      obtain ⟨e, he, rfl⟩ := List.mem_map.mp (List.mem_reverse.mp hmem)
      obtain hshort | hlong := (matchesFile_mkFilter e file).mp hmatch
      · exact .inl ⟨e, List.mem_filter.mpr ⟨he, decide_eq_true hshort.1⟩, hshort.2⟩
      · refine .inr ⟨e.take 63, List.mem_map.mpr ⟨e, ?_, rfl⟩, hlong.2⟩
        exact List.mem_filter.mpr ⟨he, decide_eq_true hlong.1⟩
    · rintro (⟨e, he, hsuf⟩ | ⟨e, he, hsuf⟩)
      · obtain ⟨hkept, hlen⟩ := List.mem_filter.mp he
        exact ⟨mkFilter e 0, List.mem_reverse.mpr (List.mem_map.mpr ⟨e, hkept, rfl⟩),
          (matchesFile_mkFilter e file).mpr (.inl ⟨of_decide_eq_true hlen, hsuf⟩)⟩
      · obtain ⟨f, hf, rfl⟩ := List.mem_map.mp he
        obtain ⟨hkept, hlen⟩ := List.mem_filter.mp hf
        exact ⟨mkFilter f 0, List.mem_reverse.mpr (List.mem_map.mpr ⟨f, hkept, rfl⟩),
          (matchesFile_mkFilter f file).mpr (.inr ⟨of_decide_eq_true hlen, hsuf⟩)⟩
  unfold checkFileFilter checkFileAllow
  simp only [hany]

/-- The filter does what the configuration says for exactly those names that end with an element that
is stored whole, or that end with an element no record stands for just when they end with the stored
head of a long one. -/
theorem checkFileFilter_iff {values : List Bytes} {allowList : List VfsFilter}
    (h : initFileFilter mallocOk values = some allowList) (file : Bytes) :
    checkFileFilter allowList file = (if AllowedBy (values.map cstr) (cstr file) then 0 else 1) ↔
      EndsWith (storedElements (values.map cstr)) (cstr file) ∨
        (EndsWith (unstoredElements (values.map cstr)) (cstr file) ↔
          EndsWith (storedHeads (values.map cstr)) (cstr file)) := by
  have hallowed := allowedBy_iff (values.map cstr) (cstr file)
  rw [checkFileFilter_eq h]
  by_cases hstored : EndsWith (storedElements (values.map cstr)) (cstr file)
  · rw [if_pos (.inl hstored), if_pos (hallowed.mpr (.inl hstored))]
    exact iff_of_true rfl (.inl hstored)
  · by_cases hun : EndsWith (unstoredElements (values.map cstr)) (cstr file)
    · rw [if_pos (hallowed.mpr (.inr hun))]
      simp [hstored, hun]
    · rw [if_neg (fun ha => (hallowed.mp ha).elim hstored hun)]
      simp [hstored, hun]

/-- The value `*.jpg|*.mp4`. -/
theorem initFileFilter_two : initFileFilter (fun _ => true) [txt "*.jpg|*.mp4"] =
    some [mkFilter (txt ".mp4") 0, mkFilter (txt ".jpg") 0] := by
  rw [initFileFilter_eq]
  rfl

theorem checkFileFilter_iff_two :
    checkFileFilter [mkFilter (txt ".mp4") 0, mkFilter (txt ".jpg") 0] (txt "a.mp4") =
      if AllowedBy ([txt "*.jpg|*.mp4"].map cstr) (cstr (txt "a.mp4")) then 0 else 1 :=
  (checkFileFilter_iff initFileFilter_two (txt "a.mp4")).mpr (Or.inl (by decide))

/-- With the value `.a||.b` a name that ends with `.b` is denied. -/
theorem checkFileFilter_empty_element : ∃ allowList,
    initFileFilter (fun _ => true) [txt ".a||.b"] = some allowList ∧
      AllowedBy ([txt ".a||.b"].map cstr) (cstr (txt "x.b")) ∧
      checkFileFilter allowList (txt "x.b") = 1 := by
  refine ⟨[mkFilter (txt ".a") 0], ?_, by decide, by decide⟩
  rw [initFileFilter_eq]
  rfl

end VfsOss
