import VfsOss.Para.Parser
import VfsOss.Conf.Proofs.LawProofs

/-!
# The parser and the room it is given

The loop is followed from item to item: what stands between two separators is in the buffer when the second one is
read. Either the items fit, and every pair that is counted is set, or the parser leaves an array, or it counts a
pair whose name it never wrote.
-/

namespace VfsOss

open CLib

/-! ## Arrays and pairs -/

theorem cstr_self {s : Bytes} (h : (0 : UInt8) ∉ s) : cstr s = s := by
  have := cstr_append_of_not_mem h []
  rwa [List.append_nil, show cstr [] = [] from rfl, List.append_nil] at this

namespace CharArray

variable {n k i : Nat} {a b : CharArray n} {src s : Bytes}

theorem store_ok_iff {c : UInt8} : (∃ b, a.store i c = .ok b) ↔ i < n := by
  unfold store
  split
  · next h => exact ⟨fun _ => h, fun _ => ⟨_, rfl⟩⟩
  · next h => exact ⟨fun ⟨_, hb⟩ => (nomatch hb), fun hlt => absurd hlt h⟩

theorem store_eq {c : UInt8} (h : a.store i c = .ok b) : b.1 = a.1.set i c := by
  unfold store at h
  split at h
  · exact Except.ok.inj h ▸ rfl
  · exact nomatch h

/-- A NUL that is stored ends the text, if nothing before it does. -/
theorem text_store (h : a.store i 0 = .ok b) : b.text = .ok (cstr (a.1.take i)) := by
  have hi : i < a.1.length := by
    rw [a.2]
    exact store_ok_iff.mp ⟨b, h⟩
  have hb : b.1 = a.1.take i ++ 0 :: a.1.drop (i + 1) := by
    rw [store_eq h, List.set_eq_take_append_cons_drop, if_pos hi]
  unfold text
  rw [hb, if_pos (List.mem_append_right _ List.mem_cons_self)]
  by_cases h0 : (0 : UInt8) ∈ a.1.take i
  · rw [cstr_append_of_mem h0]
  · rw [cstr_append_zero h0, cstr_self h0]

theorem length_padded (src : Bytes) (k : Nat) : (((cstr src).take k).rightpad k 0).length = k := by
  rw [List.rightpad, List.length_append, List.length_replicate, List.length_take]
  omega

variable (a src) in
/-- A text that is copied and cut off where a NUL is stored. -/
theorem setText_spec (hi : i < n) (hk : k ≤ n) (hik : i ≤ k) :
    ∃ b, a.setText src k i = .ok b ∧ b.text = .ok ((cstr src).take i) := by
  have hpad := length_padded src k
  obtain ⟨c, hc⟩ := copy_ok_iff (a := a).mpr (Nat.le_trans (Nat.le_of_eq hpad) hk)
  obtain ⟨b, hb⟩ := store_ok_iff (a := c) (c := 0).mpr hi
  refine ⟨b, bind_ok_iff.mpr ⟨c, hc, hb⟩, ?_⟩
  have hfree : (0 : UInt8) ∉ (cstr src).take i := fun h0 => zero_not_mem_cstr src (List.mem_of_mem_take h0)
  have htake : c.1.take i = (cstr src).take i ++ List.replicate (i - (cstr src).length) 0 := by
    rw [copy_eq hc, List.take_append_of_le_length (by omega), List.rightpad, List.take_append, List.take_take,
      Nat.min_eq_left hik, List.take_replicate, List.length_take]
    congr 2
    omega
  rw [text_store hb, htake]
  cases i - (cstr src).length with
  | zero => rw [List.replicate_zero, List.append_nil, cstr_self hfree]
  | succ m => rw [List.replicate_succ, cstr_append_zero hfree]

/-- Where the copy or the NUL does not fit, the array is left. -/
theorem setText_error (h : n < k ∨ n ≤ i) : a.setText src k i = .error .outOfBounds := by
  have hpad := length_padded src k
  unfold setText strncpy copy
  split
  · next hle =>
    have hi : ¬ i < n := by omega
    exact if_neg hi
  · rfl

end CharArray

section Pairs

variable {pairs pairs' : List StringPair} {pair : StringPair} {i k : Nat} {src : Bytes}

theorem writePair_some (h : pairs[i]? = some pair) (write : StringPair → Except MemFault StringPair) :
    writePair pairs i write = pairs.set i <$> write pair := by
  unfold writePair
  rw [h]
  rfl

theorem writePair_none (h : pairs[i]? = none) (write : StringPair → Except MemFault StringPair) :
    writePair pairs i write = .error .outOfBounds := by
  unfold writePair
  rw [h]

namespace StringPair

variable (src) in
/-- A name that is set, and the value beside it. -/
theorem setName_spec (hk : k < maxNameLen) (pair : StringPair) :
    ∃ pair', pair.setName src k = .ok pair' ∧ pair'.sFirst.text = .ok ((cstr src).take k) ∧
      pair'.sSecond = pair.sSecond := by
  obtain ⟨b, hb, htext⟩ := CharArray.setText_spec pair.sFirst src hk hk.le (Nat.le_refl k)
  exact ⟨⟨b, pair.sSecond⟩, bind_ok_iff.mpr ⟨b, hb, rfl⟩, htext, rfl⟩

variable (src) in
/-- A value that is set, and the name beside it. -/
theorem setValue_spec (hk : k < maxValueLen) (pair : StringPair) :
    ∃ pair', pair.setValue src k = .ok pair' ∧ pair'.sSecond.text = .ok ((cstr src).take k) ∧
      pair'.sFirst = pair.sFirst := by
  obtain ⟨b, hb, htext⟩ := CharArray.setText_spec pair.sSecond src hk hk.le (Nat.le_refl k)
  exact ⟨⟨pair.sFirst, b⟩, bind_ok_iff.mpr ⟨b, hb, rfl⟩, htext, rfl⟩

theorem setValue_error (hk : maxValueLen ≤ k) (pair : StringPair) :
    pair.setValue src k = .error .outOfBounds := by
  unfold setValue
  rw [CharArray.setText_error (.inr hk)]
  rfl

theorem setEnd_ok (pair : StringPair) : ∃ pair', pair.setEnd = .ok pair' := by
  obtain ⟨a, ha⟩ := CharArray.store_ok_iff (a := pair.sFirst) (i := 0) (c := 0).mpr (by decide)
  obtain ⟨b, hb⟩ := CharArray.store_ok_iff (a := pair.sSecond) (i := 0) (c := 0).mpr (by decide)
  exact ⟨⟨a, b⟩, bind_ok_iff.mpr ⟨a, ha, bind_ok_iff.mpr ⟨b, hb, rfl⟩⟩⟩

end StringPair

end Pairs

/-! ## What is in the buffer -/

namespace ParseState

variable {s : ParseState} {part : Bytes}

/-- The buffer holds what was read since the last separator. -/
structure Buffered (s : ParseState) (part : Bytes) : Prop where
  iCounter : s.iCounter = part.length
  sBuffer : part <+: s.sBuffer.1
  free : (0 : UInt8) ∉ part

theorem Buffered.nil (h : s.iCounter = 0) : s.Buffered [] := ⟨h, List.nil_prefix, List.not_mem_nil⟩

/-- What a copy of the buffer takes. -/
theorem Buffered.take (h : s.Buffered part) {k : Nat} (hk : k ≤ part.length) :
    (cstr s.sBuffer.1).take k = part.take k := by
  obtain ⟨rest, hrest⟩ := h.sBuffer
  rw [← hrest, cstr_append_of_not_mem h.free, List.take_append_of_le_length hk]

end ParseState

section Loop

variable {ch1 ch2 : UInt8} {s : ParseState} {part run rest : Bytes}

/-- The bytes that are put into the buffer. -/
def Plain (ch1 ch2 ch : UInt8) : Prop := ch1 ≠ ch ∧ ¬ (ch2 = ch ∨ 0 = ch)

theorem plain_of_not_ends {ch : UInt8} (h1 : (ch == ch1) = false) (h2 : endsPair ch1 ch2 ch = false) :
    Plain ch1 ch2 ch := by
  have hne : ch ≠ ch1 := by simpa using h1
  have hends : ch ≠ ch2 ∧ ch ≠ 0 := by simpa [endsPair, hne] using h2
  exact ⟨hne.symm, fun h => h.elim (hends.1 ·.symm) (hends.2 ·.symm)⟩

variable (rest) in
/-- A byte that is put into the buffer, when there is room for it. -/
theorem parseLoop_byte {ch : UInt8} (hbuf : s.Buffered part) (hch : Plain ch1 ch2 ch)
    (hroom : part.length < maxNameLen + maxValueLen) :
    ∃ sBuffer, parseLoop ch1 ch2 (ch :: rest) s =
        parseLoop ch1 ch2 rest { s with sBuffer, iCounter := s.iCounter + 1 } ∧
      ParseState.Buffered { s with sBuffer, iCounter := s.iCounter + 1 } (part ++ [ch]) := by
  have hlt : s.iCounter < maxNameLen + maxValueLen := hbuf.iCounter ▸ hroom
  obtain ⟨sBuffer, hstore⟩ := CharArray.store_ok_iff (a := s.sBuffer) (c := ch).mpr hlt
  refine ⟨sBuffer, ?_, ?_, ?_, ?_⟩
  · rw [parseLoop, if_neg hch.1, if_neg hch.2, hstore]
    rfl
  · rw [List.length_append, hbuf.iCounter]
    rfl
  · obtain ⟨tail, htail⟩ := hbuf.sBuffer
    have hset : sBuffer.1 = part ++ tail.set 0 ch := by
      rw [CharArray.store_eq hstore, ← htail, hbuf.iCounter, List.set_append_right _ _ (Nat.le_refl _), Nat.sub_self]
    cases tail with
    | nil =>
      have hlen := s.sBuffer.2
      rw [← htail, List.append_nil] at hlen
      omega
    | cons c tail => exact ⟨tail, by rw [hset, List.set_cons_zero, List.append_assoc]; rfl⟩
  · intro h0
    rcases List.mem_append.mp h0 with h0 | h0
    · exact hbuf.free h0
    · exact hch.2 (.inr (List.mem_singleton.mp h0))

variable (rest) in
/-- The bytes between two separators. -/
theorem parseLoop_run (hbuf : s.Buffered part) (hrun : ∀ ch ∈ run, Plain ch1 ch2 ch)
    (hroom : part.length + run.length ≤ maxNameLen + maxValueLen) :
    ∃ sBuffer, parseLoop ch1 ch2 (run ++ rest) s =
        parseLoop ch1 ch2 rest { s with sBuffer, iCounter := s.iCounter + run.length } ∧
      ParseState.Buffered { s with sBuffer, iCounter := s.iCounter + run.length } (part ++ run) := by
  induction run generalizing s part with
  | nil => exact ⟨s.sBuffer, rfl, by rwa [List.append_nil]⟩
  | cons ch run ih =>
    rw [List.length_cons] at hroom
    obtain ⟨b, hstep, hb⟩ := parseLoop_byte (run ++ rest) hbuf (hrun ch List.mem_cons_self) (by omega)
    obtain ⟨b', hrest, hb'⟩ := ih hb (fun c hc => hrun c (List.mem_cons_of_mem _ hc)) (by
      rw [List.length_append, List.length_singleton]
      omega)
    have hcount : s.iCounter + 1 + run.length = s.iCounter + (ch :: run).length := by
      rw [List.length_cons]
      omega
    rw [hcount] at hrest hb'
    rw [← List.append_cons] at hb'
    exact ⟨b', hstep.trans hrest, hb'⟩

/-- More bytes between two separators than the buffer has room for. -/
theorem parseLoop_overflow (hbuf : s.Buffered part) (hrun : ∀ ch ∈ run, Plain ch1 ch2 ch)
    (hroom : maxNameLen + maxValueLen < part.length + run.length) (hpart : part.length ≤ maxNameLen + maxValueLen) :
    parseLoop ch1 ch2 (run ++ rest) s = .error .outOfBounds := by
  obtain ⟨before, ch, after, hsplit, hlen⟩ : ∃ before ch after, run = before ++ ch :: after ∧
      part.length + before.length = maxNameLen + maxValueLen := by
    refine ⟨run.take (maxNameLen + maxValueLen - part.length), ?_⟩
    cases hdrop : run.drop (maxNameLen + maxValueLen - part.length) with
    | nil =>
      rw [List.drop_eq_nil_iff] at hdrop
      omega
    | cons ch after =>
      refine ⟨ch, after, ?_, ?_⟩
      · rw [← hdrop, List.take_append_drop]
      · rw [List.length_take]
        omega
  subst hsplit
  obtain ⟨b, hstep, hb⟩ := parseLoop_run (ch :: (after ++ rest)) hbuf
    (fun c hc => hrun c (List.mem_append_left _ hc)) (Nat.le_of_eq hlen)
  have hch := hrun ch (List.mem_append_right _ List.mem_cons_self)
  have hcount := hb.iCounter
  rw [List.append_assoc, List.cons_append, hstep, parseLoop, if_neg hch.1, if_neg hch.2]
  unfold CharArray.store
  rw [if_neg (by rw [hcount, List.length_append, hlen]; exact Nat.lt_irrefl _)]
  rfl

end Loop

/-! ## One item -/

section Item

variable {ch1 ch2 : UInt8} {s s' : ParseState} {item run rest : Bytes}

theorem splitOn_plain (h : ∀ ch ∈ item, (ch == ch1) = false) : item.splitOn ch1 = [item] :=
  List.splitOn_eq_singleton_of_beq_eq_false h

theorem splitOn_part (h : ∀ ch ∈ run, (ch == ch1) = false) :
    (run ++ ch1 :: item).splitOn ch1 = run :: item.splitOn ch1 :=
  List.splitOn_append_cons_of_forall_mem_beq_eq_false h ch1 (beq_self_eq_true ch1) item

theorem itemValue_plain (h : ∀ ch ∈ item, (ch == ch1) = false) : itemValue ch1 item = item := by
  rw [itemValue, splitOn_plain h]
  rfl

theorem itemValue_part (h : ∀ ch ∈ run, (ch == ch1) = false) :
    itemValue ch1 (run ++ ch1 :: item) = itemValue ch1 item := by
  rw [itemValue, splitOn_part h, itemValue]
  cases hsplit : item.splitOn ch1 with
  | nil => exact absurd hsplit (List.splitOn_ne_nil ch1 item)
  | cons part parts => rfl

theorem itemName_part (h : ∀ ch ∈ run, (ch == ch1) = false) :
    itemName ch1 (run ++ ch1 :: item) = if ch1 ∈ item then itemName ch1 item else run := by
  rw [itemName, splitOn_part h, itemName]
  by_cases hmem : ch1 ∈ item
  · obtain ⟨a, b, hab, -⟩ := List.eq_append_cons_of_mem hmem
    rw [if_pos hmem, hab, List.splitOn_append_cons_self]
    obtain ⟨p, ps, ha⟩ := List.exists_cons_of_ne_nil (List.splitOn_ne_nil ch1 a)
    have hne : ps ++ b.splitOn ch1 ≠ [] := fun h => List.splitOn_ne_nil ch1 b (List.append_eq_nil_iff.mp h).2
    rw [ha, List.cons_append, List.dropLast_cons_of_ne_nil (List.cons_ne_nil _ _),
      List.dropLast_cons_of_ne_nil hne, List.getLastD_cons, List.getLastD_cons, List.getLastD_cons]
  · rw [if_neg hmem, List.splitOn_eq_singleton hmem]
    rfl

/-- The state after an item, without what ends it. -/
structure ReadItem (ch1 : UInt8) (item : Bytes) (s s' : ParseState) : Prop where
  iParaNum : s'.iParaNum = s.iParaNum
  chFlag : s'.chFlag = (s.chFlag || decide (ch1 ∈ item))
  buffered : s'.Buffered (itemValue ch1 item)
  length : s'.pairs.length = s.pairs.length
  others : ∀ k, k ≠ s.iParaNum → s'.pairs[k]? = s.pairs[k]?
  named : ch1 ∈ item → ∃ pair, s'.pairs[s.iParaNum]? = some pair ∧
    pair.sFirst.text = .ok ((itemName ch1 item).take (maxNameLen - 1))
  plain : ch1 ∉ item → s'.pairs = s.pairs

theorem ReadItem.flag (h : ReadItem ch1 item s s') (hmem : ch1 ∈ item) : s'.chFlag = true := by
  rw [h.chFlag, decide_eq_true hmem, Bool.or_true]

theorem ReadItem.no_flag (h : ReadItem ch1 item s s') (hflag : s.chFlag = false) (hmem : ch1 ∉ item) :
    s'.chFlag = false := by
  rw [h.chFlag, decide_eq_false hmem, hflag]
  rfl

variable (ch1 ch2 rest) in
/-- `ch1`, with a name in the buffer. -/
theorem parseLoop_name {old : StringPair} (hbuf : s.Buffered run) (hold : s.pairs[s.iParaNum]? = some old) :
    ∃ pair : StringPair, pair.sFirst.text = .ok (run.take (maxNameLen - 1)) ∧ parseLoop ch1 ch2 (ch1 :: rest) s =
      parseLoop ch1 ch2 rest { s with pairs := s.pairs.set s.iParaNum pair, iCounter := 0, chFlag := true } := by
  have hcount : (if s.iCounter ≥ maxNameLen then maxNameLen - 1 else s.iCounter) = min run.length (maxNameLen - 1) := by
    rw [hbuf.iCounter]
    split <;> omega
  obtain ⟨pair, hset, htext, -⟩ := StringPair.setName_spec s.sBuffer.1 (k := min run.length (maxNameLen - 1))
    (Nat.lt_of_le_of_lt (Nat.min_le_right _ _) (by decide)) old
  refine ⟨pair, ?_, ?_⟩
  · rw [htext, hbuf.take (Nat.min_le_left _ _), Nat.min_comm, ← List.take_eq_take_min]
  · rw [parseLoop, if_pos rfl]
    dsimp only
    rw [hcount, writePair_some hold, hset]
    rfl

variable (ch2 rest) in
/-- The bytes of an item up to its first `ch1`. -/
theorem plain_part (hfree : ∀ ch ∈ run ++ rest, endsPair ch1 ch2 ch = false)
    (hrun : ∀ ch ∈ run, (ch == ch1) = false) : ∀ ch ∈ run, Plain ch1 ch2 ch := fun ch hch =>
  plain_of_not_ends (hrun ch hch) (hfree ch (List.mem_append_left _ hch))

variable (rest) in
/-- An item whose parts fit into the buffer. -/
theorem parseLoop_item (hfree : ∀ ch ∈ item, endsPair ch1 ch2 ch = false) (h0 : s.iCounter = 0)
    (hlt : s.iParaNum < s.pairs.length)
    (hparts : ∀ part ∈ item.splitOn ch1, part.length ≤ maxNameLen + maxValueLen) :
    ∃ s', parseLoop ch1 ch2 (item ++ rest) s = parseLoop ch1 ch2 rest s' ∧ ReadItem ch1 item s s' := by
  induction item using split_induction (p := (· == ch1)) generalizing s with
  | last run hrun =>
    have hplain := plain_part ch2 [] (by rwa [List.append_nil]) hrun
    rw [splitOn_plain hrun] at hparts
    obtain ⟨sBuffer, hloop, hbuf⟩ := parseLoop_run rest (ParseState.Buffered.nil h0) hplain (by
      rw [List.length_nil, Nat.zero_add]
      exact hparts run List.mem_cons_self)
    have hmem : ch1 ∉ run := fun h => by simpa using hrun ch1 h
    refine ⟨_, hloop, rfl, by simp [hmem], ?_, rfl, fun _ _ => rfl, (absurd · hmem), fun _ => rfl⟩
    rw [itemValue_plain hrun]
    exact hbuf
  | cons run c item hrun hc ih =>
    obtain rfl : c = ch1 := by simpa using hc
    have hplain := plain_part ch2 _ hfree hrun
    rw [splitOn_part hrun] at hparts
    obtain ⟨sBuffer, hloop, hbuf⟩ := parseLoop_run (c :: (item ++ rest)) (ParseState.Buffered.nil h0) hplain (by
      rw [List.length_nil, Nat.zero_add]
      exact hparts run List.mem_cons_self)
    obtain ⟨pair, hname, hstep⟩ :=
      parseLoop_name c ch2 (item ++ rest) hbuf (List.getElem?_eq_getElem hlt)
    have hset : s.iParaNum < (s.pairs.set s.iParaNum pair).length := by rwa [List.length_set]
    obtain ⟨s', hrest, hread⟩ := ih
      (s := { s with sBuffer, pairs := s.pairs.set s.iParaNum pair, iCounter := 0, chFlag := true })
      (fun ch hch => hfree ch (List.mem_append_right _ (List.mem_cons_of_mem _ hch))) rfl hset
      (fun part hpart => hparts part (List.mem_cons_of_mem _ hpart))
    have hmem : c ∈ run ++ c :: item := List.mem_append_right _ List.mem_cons_self
    refine ⟨s', ?_, hread.iParaNum, ?_, ?_, ?_, fun k hk => ?_, fun _ => ?_, (absurd hmem ·)⟩
    · rw [List.append_assoc, List.cons_append, hloop, hstep, hrest]
    · rw [hread.chFlag]
      simp
    · rw [itemValue_part hrun]
      exact hread.buffered
    · rw [hread.length, List.length_set]
    · rw [hread.others k hk, List.getElem?_set_ne hk.symm]
    · rw [itemName_part hrun]
      by_cases hin : c ∈ item
      · rw [if_pos hin]
        exact hread.named hin
      · rw [if_neg hin, hread.plain hin]
        exact ⟨pair, List.getElem?_set_self hlt, hname⟩

variable (rest) in
/-- An item with a part that does not fit into the buffer. -/
theorem parseLoop_item_error (hfree : ∀ ch ∈ item, endsPair ch1 ch2 ch = false) (h0 : s.iCounter = 0)
    (hlt : s.iParaNum < s.pairs.length)
    (hparts : ∃ part ∈ item.splitOn ch1, maxNameLen + maxValueLen < part.length) :
    parseLoop ch1 ch2 (item ++ rest) s = .error .outOfBounds := by
  induction item using split_induction (p := (· == ch1)) generalizing s with
  | last run hrun =>
    have hplain := plain_part ch2 [] (by rwa [List.append_nil]) hrun
    rw [splitOn_plain hrun] at hparts
    obtain ⟨part, hpart, hlen⟩ := hparts
    rw [List.mem_singleton.mp hpart] at hlen
    exact parseLoop_overflow (ParseState.Buffered.nil h0) hplain
      (by rwa [List.length_nil, Nat.zero_add]) (Nat.zero_le _)
  | cons run c item hrun hc ih =>
    obtain rfl : c = ch1 := by simpa using hc
    have hplain := plain_part ch2 _ hfree hrun
    rw [splitOn_part hrun] at hparts
    rw [List.append_assoc, List.cons_append]
    by_cases hfit : run.length ≤ maxNameLen + maxValueLen
    · obtain ⟨sBuffer, hloop, hbuf⟩ := parseLoop_run (c :: (item ++ rest)) (ParseState.Buffered.nil h0) hplain
        (by rwa [List.length_nil, Nat.zero_add])
      obtain ⟨pair, -, hstep⟩ :=
        parseLoop_name c ch2 (item ++ rest) hbuf (List.getElem?_eq_getElem hlt)
      have hset : s.iParaNum < (s.pairs.set s.iParaNum pair).length := by rwa [List.length_set]
      rw [hloop, hstep]
      refine ih (fun ch hch => hfree ch (List.mem_append_right _ (List.mem_cons_of_mem _ hch))) rfl hset ?_
      obtain ⟨part, hpart, hlen⟩ := hparts
      rcases List.mem_cons.mp hpart with rfl | hpart
      · omega
      · exact ⟨part, hpart, hlen⟩
    · exact parseLoop_overflow (ParseState.Buffered.nil h0) hplain
        (by rw [List.length_nil, Nat.zero_add]; omega) (Nat.zero_le _)

variable (rest) in
/-- What ends a pair, with a value in the buffer. -/
theorem parseLoop_value {value : Bytes} {ch : UInt8} {old : StringPair} (hbuf : s.Buffered value)
    (hold : s.pairs[s.iParaNum]? = some old) (hch : endsPair ch1 ch2 ch = true) :
    ∃ pair : StringPair, pair.sSecond.text = .ok (value.take (maxValueLen - 1)) ∧
      pair.sFirst = old.sFirst ∧ parseLoop ch1 ch2 (ch :: rest) s =
        let after := { s with pairs := s.pairs.set s.iParaNum pair, iCounter := 0 }
        if !s.chFlag then .ok (false, after)
        else if (s.pairs.length : Int) - 2 ≤ s.iParaNum + 1 then .ok (true, { after with iParaNum := s.iParaNum + 1 })
        else parseLoop ch1 ch2 rest { after with iParaNum := s.iParaNum + 1, chFlag := false } := by
  obtain ⟨hne, hends⟩ : ch1 ≠ ch ∧ (ch2 = ch ∨ 0 = ch) := by
    simp only [endsPair, Bool.and_eq_true, Bool.or_eq_true, decide_eq_true_eq] at hch
    exact ⟨hch.1.symm, hch.2.imp Eq.symm Eq.symm⟩
  have hcount : (if s.iCounter ≥ maxValueLen then maxValueLen - 1 else s.iCounter) =
      min value.length (maxValueLen - 1) := by
    rw [hbuf.iCounter]
    split <;> omega
  obtain ⟨pair, hset, htext, hfirst⟩ := StringPair.setValue_spec s.sBuffer.1
    (k := min value.length (maxValueLen - 1)) (Nat.lt_of_le_of_lt (Nat.min_le_right _ _) (by decide)) old
  refine ⟨pair, ?_, hfirst, ?_⟩
  · rw [htext, hbuf.take (Nat.min_le_left _ _), Nat.min_comm, ← List.take_eq_take_min]
  · rw [parseLoop, if_neg hne, if_pos hends]
    dsimp only
    rw [hcount, writePair_some hold, hset]
    simp only [Functor.map, Except.map, bind, Except.bind, List.length_set]
    rfl

end Item

/-! ## All items -/

section Items

variable {ch1 ch2 : UInt8} {s s' : ParseState} {item text : Bytes} {rest : List Bytes} {room : Nat}

theorem itemsFit_single (hroom : 0 < room) : ItemsFit ch1 room [item] ↔
    (∀ part ∈ item.splitOn ch1, part.length ≤ maxNameLen + maxValueLen) ∧
      (ch1 ∈ item → (itemValue ch1 item).length < maxValueLen) := by
  by_cases hmem : ch1 ∈ item
  · have hnamed : namedItems ch1 [item] = [item] := by simp [namedItems, hmem]
    constructor
    · intro h
      exact ⟨h.parts item (by rw [hnamed]; exact List.mem_cons_self),
        fun _ => (h.ended (by rw [hnamed])).2 item rfl⟩
    · rintro ⟨hparts, hvalue⟩
      refine ⟨fun other hother => ?_, fun hlt => ?_, fun _ => ⟨hroom, fun other hother => ?_⟩⟩
      · rw [List.mem_singleton.mp (List.mem_of_mem_take hother)]
        exact hparts
      · rw [hnamed] at hlt
        exact absurd hlt (Nat.lt_irrefl _)
      · rw [← Option.some.inj hother]
        exact hvalue hmem
  · have hnamed : namedItems ch1 [item] = [] := by simp [namedItems, hmem]
    constructor
    · intro h
      exact ⟨h.parts item (by rw [hnamed]; exact List.mem_cons_self), (absurd · hmem)⟩
    · rintro ⟨hparts, -⟩
      refine ⟨fun other hother => ?_, fun _ => by rwa [hnamed], fun heq => ?_⟩
      · rw [List.mem_singleton.mp (List.mem_of_mem_take hother)]
        exact hparts
      · rw [hnamed] at heq
        exact nomatch heq

theorem itemsFit_cons (hroom : 0 < room) (hrest : rest ≠ []) : ItemsFit ch1 room (item :: rest) ↔
    (∀ part ∈ item.splitOn ch1, part.length ≤ maxNameLen + maxValueLen) ∧
      (ch1 ∈ item → 1 < room ∧ ItemsFit ch1 (room - 1) rest) := by
  have hpos : 0 < rest.length := List.length_pos_iff.mpr hrest
  by_cases hmem : ch1 ∈ item
  · have hnamed : namedItems ch1 (item :: rest) = item :: namedItems ch1 rest := by simp [namedItems, hmem]
    have hle : (namedItems ch1 rest).length ≤ rest.length := (List.takeWhile_prefix _).length_le
    have hlast : (item :: rest).getLast? = rest.getLast? := by
      obtain ⟨b, l, rfl⟩ := List.exists_cons_of_ne_nil hrest
      exact List.getLast?_cons_cons
    constructor
    · rintro ⟨hparts, hstopped, hended⟩
      rw [hnamed, List.length_cons, List.length_cons] at hstopped hended
      rw [hnamed, List.length_cons, List.take_succ_cons] at hparts
      have hmore : 1 < room := by
        by_cases h : (namedItems ch1 rest).length < rest.length
        · have := hstopped (by omega)
          omega
        · have := (hended (by omega)).1
          omega
      refine ⟨hparts item List.mem_cons_self, fun _ => ⟨hmore, fun other hother => hparts other ?_,
        fun h => ?_, fun h => ?_⟩⟩
      · exact List.mem_cons_of_mem _ hother
      · have := hstopped (by omega)
        omega
      · obtain ⟨hlen, hvalue⟩ := hended (by omega)
        rw [hlast] at hvalue
        exact ⟨by omega, hvalue⟩
    · rintro ⟨hitem, hmore⟩
      obtain ⟨-, hparts, hstopped, hended⟩ := hmore hmem
      refine ⟨fun other hother => ?_, fun h => ?_, fun h => ?_⟩
      · rw [hnamed, List.length_cons, List.take_succ_cons] at hother
        rcases List.mem_cons.mp hother with rfl | hother
        · exact hitem
        · exact hparts other hother
      · rw [hnamed, List.length_cons, List.length_cons] at *
        have := hstopped (by omega)
        omega
      · rw [hnamed, List.length_cons, List.length_cons] at h
        obtain ⟨hlen, hvalue⟩ := hended (by omega)
        rw [hlast, List.length_cons]
        exact ⟨by omega, hvalue⟩
  · have hnamed : namedItems ch1 (item :: rest) = [] := by simp [namedItems, hmem]
    constructor
    · intro h
      exact ⟨h.parts item (by rw [hnamed]; exact List.mem_cons_self), (absurd · hmem)⟩
    · rintro ⟨hparts, -⟩
      refine ⟨fun other hother => ?_, fun _ => by rwa [hnamed], fun heq => ?_⟩
      · rw [hnamed, List.length_nil, Nat.zero_add, List.take_succ_cons, List.take_zero] at hother
        rw [List.mem_singleton.mp hother]
        exact hparts
      · rw [hnamed] at heq
        exact nomatch heq

/-- A pair is counted whose name is still the one that the memory held. -/
def CountsUnset (before : List StringPair) (last : Nat) (r : Except MemFault (Int × List StringPair)) : Prop :=
  ∀ ret pairs, r = .ok (ret, pairs) → ∃ k, last < k ∧ (k : Int) < ret ∧
    (pairs[k]?).map (·.sFirst) = (before[k]?).map (·.sFirst)

/-- What is counted when the parser comes back: all the items, unless one has no name. -/
def CountsItems (ch1 : UInt8) (items : List Bytes) (r : Except MemFault (Int × List StringPair)) : Prop :=
  ∀ ret pairs, r = .ok (ret, pairs) → ret = if ∀ item ∈ items, ch1 ∈ item then (items.length : Int) else -1

theorem countsItems_unnamed {before after : List Bytes} {pairs : List StringPair} (hmem : ch1 ∉ item) :
    CountsItems ch1 (before ++ item :: after) (.ok (-1, pairs)) := fun ret _ h => by
  rw [if_neg fun hall => hmem (hall item (List.mem_append_right _ List.mem_cons_self)),
    (Prod.mk.inj (Except.ok.inj h)).1]

/-- The items read so far are in their pairs. -/
structure PairsDone (ch1 : UInt8) (done : List Bytes) (s : ParseState) : Prop where
  iCounter : s.iCounter = 0
  iParaNum : s.iParaNum = done.length
  set : ∀ k < done.length, ∃ item pair, done[k]? = some item ∧ s.pairs[k]? = some pair ∧ ch1 ∈ item ∧
    pair.SetFrom ch1 item

theorem countsUnset_error {before : List StringPair} {last : Nat} {e : MemFault} :
    CountsUnset before last (.error e) := fun _ _ h => nomatch h

/-- What follows a loop that ends with a named item. -/
theorem parseEnd_named {value : Bytes} {old : StringPair} (hbuf : s.Buffered value) (hflag : s.chFlag = true)
    (hold : s.pairs[s.iParaNum]? = some old) :
    if value.length < maxValueLen ∧ s.iParaNum + 1 < s.pairs.length then
      ∃ pairs, parseEnd (true, s) = .ok (s.iParaNum + 1, pairs) ∧ (∀ k < s.iParaNum, pairs[k]? = s.pairs[k]?) ∧
        ∃ pair, pairs[s.iParaNum]? = some pair ∧ pair.sSecond.text = .ok value ∧ pair.sFirst = old.sFirst
    else parseEnd (true, s) = .error .outOfBounds := by
  have hlt := (List.getElem?_eq_some_iff.mp hold).1
  have hparse : parseEnd (true, s) = (do
      let pairs ← writePair s.pairs s.iParaNum (StringPair.setValue s.sBuffer.1 s.iCounter)
      let pairs ← writePair pairs (s.iParaNum + 1) StringPair.setEnd
      return ((s.iParaNum : Int) + 1, pairs)) := by
    rw [parseEnd, if_neg (by simp [hflag])]
  rw [hparse, writePair_some hold, hbuf.iCounter]
  by_cases hvalue : value.length < maxValueLen
  · obtain ⟨pair, hset, htext, hfirst⟩ := StringPair.setValue_spec s.sBuffer.1 hvalue old
    rw [hbuf.take (Nat.le_refl _), List.take_length] at htext
    rw [hset, Except.map_ok, ok_bind]
    by_cases hend : s.iParaNum + 1 < s.pairs.length
    · have hlast : (s.pairs.set s.iParaNum pair)[s.iParaNum + 1]? = some s.pairs[s.iParaNum + 1] := by
        rw [List.getElem?_set_ne (by omega), List.getElem?_eq_getElem hend]
      obtain ⟨last, hset⟩ := StringPair.setEnd_ok s.pairs[s.iParaNum + 1]
      rw [if_pos ⟨hvalue, hend⟩, writePair_some hlast, hset]
      refine ⟨_, rfl, fun k hk => ?_, pair, ?_, htext, hfirst⟩
      · rw [List.getElem?_set_ne (by omega), List.getElem?_set_ne (by omega)]
      · rw [List.getElem?_set_ne (by omega), List.getElem?_set_self hlt]
    · rw [if_neg fun h => hend h.2, writePair_none (by rw [List.getElem?_eq_none]; rw [List.length_set]; omega)]
      rfl
  · rw [if_neg fun h => hvalue h.1, StringPair.setValue_error (by omega)]
    rfl

/-- The name of a pair that is counted in vain. -/
theorem parseEnd_after_break {s : ParseState} (h0 : s.iCounter = 0) (hflag : s.chFlag = true) (before : List StringPair)
    (hbefore : before[s.iParaNum]? = s.pairs[s.iParaNum]?) {last : Nat} (hlast : last < s.iParaNum) :
    CountsUnset before last (parseEnd (true, s)) := by
  intro ret pairs hret
  cases hold : s.pairs[s.iParaNum]? with
  | none =>
    rw [parseEnd, if_neg (by simp [hflag]), writePair_none hold] at hret
    exact nomatch hret
  | some old =>
  have hend := parseEnd_named (ParseState.Buffered.nil h0) hflag hold
  by_cases hroom : ([] : Bytes).length < maxValueLen ∧ s.iParaNum + 1 < s.pairs.length
  · rw [if_pos hroom] at hend
    obtain ⟨pairs', hok, -, pair, hpair, -, hfirst⟩ := hend
    obtain ⟨rfl, rfl⟩ := Prod.mk.inj (Except.ok.inj (hok.symm.trans hret))
    refine ⟨s.iParaNum, hlast, by omega, ?_⟩
    rw [hpair, hbefore, hold, Option.map_some, Option.map_some, hfirst]
  · rw [if_neg hroom, hret] at hend
    exact nomatch hend

theorem parseEnd_unnamed (b : Bool) (hflag : b = false ∨ s.chFlag = false) : parseEnd (b, s) = .ok (-1, s.pairs) := by
  rw [parseEnd, if_pos]
  rcases hflag with h | h <;> simp [h]

/-- An item that is read. -/
theorem PairsDone.read {done : List Bytes} (h : PairsDone ch1 done s) (hread : ReadItem ch1 item s s') :
    ∀ k < done.length, ∃ item pair, done[k]? = some item ∧ s'.pairs[k]? = some pair ∧ ch1 ∈ item ∧
      pair.SetFrom ch1 item := by
  intro k hk
  obtain ⟨other, pair, hother, hpair, hset⟩ := h.set k hk
  exact ⟨other, pair, hother, by rw [hread.others k (by rw [h.iParaNum]; omega), hpair], hset⟩

/-- The pairs behind the parser are set, with one more item and its value. -/
theorem set_concat {done : List Bytes} {pairs pairs' : List StringPair} {pair : StringPair}
    (h : ∀ k < done.length, ∃ item pair, done[k]? = some item ∧ pairs[k]? = some pair ∧ ch1 ∈ item ∧
      pair.SetFrom ch1 item)
    (hbefore : ∀ k < done.length, pairs'[k]? = pairs[k]?) (hmem : ch1 ∈ item)
    (hpair : pairs'[done.length]? = some pair) (hset : pair.SetFrom ch1 item) (rest : List Bytes) :
    ∀ k < done.length + 1, ∃ other pair, (done ++ item :: rest)[k]? = some other ∧ pairs'[k]? = some pair ∧
      ch1 ∈ other ∧ pair.SetFrom ch1 other := by
  intro k hk
  rcases Nat.lt_succ_iff_lt_or_eq.mp hk with hk | rfl
  · obtain ⟨other, pair, hother, hpair, hset⟩ := h k hk
    exact ⟨other, pair, by rw [List.getElem?_append_left hk, hother], by rw [hbefore k hk, hpair], hset⟩
  · exact ⟨item, pair, by rw [List.getElem?_append_right (Nat.le_refl _), Nat.sub_self]; rfl, hpair, hmem, hset⟩

/-- Items that are set have names. -/
theorem named_of_set {all : List Bytes} {pairs : List StringPair} (h : ∀ k < all.length, ∃ item pair,
    all[k]? = some item ∧ pairs[k]? = some pair ∧ ch1 ∈ item ∧ pair.SetFrom ch1 item) :
    ∀ item ∈ all, ch1 ∈ item := by
  intro item hitem
  obtain ⟨k, hk, rfl⟩ := List.mem_iff_getElem.mp hitem
  obtain ⟨other, -, hother, -, hmem, -⟩ := h k hk
  rw [List.getElem?_eq_getElem hk] at hother
  rwa [Option.some.inj hother]

/-- Either the items fit and are in their pairs, or a write leaves its array or a name is missing. -/
theorem parse_spec {done : List Bytes} (hdone : PairsDone ch1 done s) (hflag : s.chFlag = false)
    (hsome : 1 ≤ s.pairs.length) (hroom : done.length + room = max 1 (s.pairs.length - 2)) (hpos : 0 < room) :
    let fits := ItemsFit ch1 room (items ch1 ch2 text) ∧
      ((∀ item ∈ items ch1 ch2 text, ch1 ∈ item) → 2 ≤ s.pairs.length)
    let r := parseLoop ch1 ch2 text s >>= parseEnd
    (fits ∧ SetsPairs ch1 (done ++ items ch1 ch2 text) r ∧ CountsItems ch1 (done ++ items ch1 ch2 text) r) ∨
      (¬ fits ∧ CountsUnset s.pairs s.iParaNum r) := by
  dsimp only
  induction text using split_induction (p := endsPair ch1 ch2) generalizing s done room with
  | last item hfree =>
    have hlt : s.iParaNum < s.pairs.length := by
      rw [hdone.iParaNum]
      omega
    have hitems : items ch1 ch2 item = [item] := List.splitOnP_eq_singleton hfree
    rw [hitems, itemsFit_single hpos, List.forall_mem_singleton]
    by_cases hparts : ∀ part ∈ item.splitOn ch1, part.length ≤ maxNameLen + maxValueLen
    · obtain ⟨s', hloop, hread⟩ := parseLoop_item [] hfree hdone.iCounter hlt hparts
      rw [List.append_nil] at hloop
      rw [hloop, parseLoop, ok_bind]
      by_cases hmem : ch1 ∈ item
      · obtain ⟨old, hold, hname⟩ := hread.named hmem
        have hend := parseEnd_named hread.buffered (hread.flag hmem) (hread.iParaNum ▸ hold)
        rw [hread.length, hread.iParaNum, hdone.iParaNum] at hend
        by_cases hfits : (itemValue ch1 item).length < maxValueLen ∧ done.length + 1 < s.pairs.length
        · rw [if_pos hfits] at hend
          obtain ⟨pairs, hok, hbefore, pair, hpair, hvalue, hfirst⟩ := hend
          have hset : pair.SetFrom ch1 item :=
            ⟨hfirst ▸ hname, by rw [hvalue, List.take_of_length_le (by omega)]⟩
          have hall := set_concat (hdone.read hread) hbefore hmem hpair hset []
          refine .inl ⟨⟨⟨hparts, fun _ => hfits.1⟩, fun _ => by omega⟩, ⟨_, pairs, hok, fun k hk => ?_⟩,
            fun ret _ hret => ?_⟩
          · exact hall k (by omega)
          · rw [if_pos (named_of_set fun k hk => hall k (by simpa using hk)),
              ← (Prod.mk.inj (Except.ok.inj (hok.symm.trans hret))).1, List.length_append]
            rfl
        · rw [if_neg hfits] at hend
          refine .inr ⟨fun h => hfits ⟨h.1.2 hmem, ?_⟩, hend ▸ countsUnset_error⟩
          have := h.2 hmem
          omega
      · rw [parseEnd_unnamed true (.inr (hread.no_flag hflag hmem))]
        exact .inl ⟨⟨⟨hparts, (absurd · hmem)⟩, (absurd · hmem)⟩, ⟨-1, s'.pairs, rfl, fun k hk => by omega⟩,
          countsItems_unnamed hmem⟩
    · have herr := parseLoop_item_error [] hfree hdone.iCounter hlt (by simpa using hparts)
      rw [List.append_nil] at herr
      rw [herr]
      exact .inr ⟨fun h => hparts h.1.1, countsUnset_error⟩
  | cons item sep rest hfree hsep ih =>
    have hlt : s.iParaNum < s.pairs.length := by
      rw [hdone.iParaNum]
      omega
    have hitems : items ch1 ch2 (item ++ sep :: rest) = item :: items ch1 ch2 rest :=
      List.splitOnP_append_cons_of_forall_mem hfree sep hsep rest
    have hne : items ch1 ch2 rest ≠ [] := List.splitOnP_ne_nil _ rest
    rw [hitems, itemsFit_cons hpos hne, List.forall_mem_cons]
    by_cases hparts : ∀ part ∈ item.splitOn ch1, part.length ≤ maxNameLen + maxValueLen
    · obtain ⟨s', hloop, hread⟩ := parseLoop_item (sep :: rest) hfree hdone.iCounter hlt hparts
      have hk : s'.iParaNum = done.length := hread.iParaNum.trans hdone.iParaNum
      have hlt' : s'.iParaNum < s'.pairs.length := by rwa [hread.iParaNum, hread.length]
      obtain ⟨pair, hvalue, hfirst, hstep⟩ :=
        parseLoop_value rest hread.buffered (List.getElem?_eq_getElem hlt') hsep
      rw [hloop, hstep]
      dsimp only
      by_cases hmem : ch1 ∈ item
      · rw [if_neg (by simp [hread.flag hmem])]
        have hothers (k : Nat) (hgt : s.iParaNum < k) : (s'.pairs.set s'.iParaNum pair)[k]? = s.pairs[k]? := by
          rw [hread.iParaNum, List.getElem?_set_ne (by omega), hread.others k (by omega)]
        by_cases hbreak : (s'.pairs.length : Int) - 2 ≤ s'.iParaNum + 1
        · rw [if_pos hbreak, ok_bind]
          rw [hread.length, hk] at hbreak
          have hafter : s.iParaNum < s'.iParaNum + 1 := hread.iParaNum ▸ Nat.lt_succ_self _
          refine .inr ⟨fun h => ?_, parseEnd_after_break (s := ⟨_, _, 0, s'.iParaNum + 1, _⟩) rfl (hread.flag hmem)
            s.pairs (hothers _ hafter).symm hafter⟩
          have := (h.1.2 hmem).1
          omega
        · rw [if_neg hbreak]
          rw [hread.length, hk] at hbreak
          obtain ⟨old, hold, hname⟩ := hread.named hmem
          have hset : pair.SetFrom ch1 item := by
            have hsame := Option.some.inj ((List.getElem?_eq_getElem hlt').symm.trans (hread.iParaNum.symm ▸ hold))
            exact ⟨hfirst ▸ hsame ▸ hname, hvalue⟩
          have hlen : (s'.pairs.set s'.iParaNum pair).length = s.pairs.length := by rw [List.length_set, hread.length]
          have hdone' : PairsDone ch1 (done ++ [item])
              { s' with pairs := s'.pairs.set s'.iParaNum pair, iCounter := 0, iParaNum := s'.iParaNum + 1,
                        chFlag := false } := by
            refine ⟨rfl, by rw [hk, List.length_append]; rfl, fun k hlt => ?_⟩
            rw [List.length_append] at hlt
            refine set_concat (hdone.read hread) (fun j hj => ?_) hmem ?_ hset [] k hlt
            · rw [List.getElem?_set_ne (by omega)]
            · rw [← hk, List.getElem?_set_self hlt']
          have hless : (done ++ [item]).length + (room - 1) = max 1 ((s'.pairs.set s'.iParaNum pair).length - 2) := by
            rw [hlen, List.length_append, List.length_singleton]
            omega
          have ih := ih hdone' rfl (hlen ▸ hsome) hless (by omega)
          rw [List.append_assoc, List.singleton_append, hlen] at ih
          have hmore : 1 < room := by omega
          rcases ih with ⟨hfits, hpairs⟩ | ⟨hfits, hunset⟩
          · exact .inl ⟨⟨⟨hparts, fun _ => ⟨hmore, hfits.1⟩⟩, fun h => hfits.2 h.2⟩, hpairs⟩
          · refine .inr ⟨fun h => hfits ⟨(h.1.2 hmem).2, fun hall => h.2 ⟨hmem, hall⟩⟩, fun ret pairs hret => ?_⟩
            obtain ⟨k, hgt, hcounted, hsame⟩ := hunset ret pairs hret
            have hgt : s.iParaNum < k := by
              rw [← hread.iParaNum]
              exact Nat.lt_of_succ_lt hgt
            exact ⟨k, hgt, hcounted, by rw [hsame, hothers k hgt]⟩
      · rw [if_pos (by simp [hread.no_flag hflag hmem]), ok_bind, parseEnd_unnamed false (.inl rfl)]
        exact .inl ⟨⟨⟨hparts, (absurd · hmem)⟩, fun h => absurd h.1 hmem⟩, ⟨-1, _, rfl, fun k hk => by omega⟩,
          countsItems_unnamed hmem⟩
    · rw [parseLoop_item_error _ hfree hdone.iCounter hlt (by simpa using hparts)]
      exact .inr ⟨fun h => hparts h.1.1, countsUnset_error⟩

end Items

section Bounds

variable {sParaStr : Nat → UInt8} {iStrLen : Int} {iPairLen : Nat} {ch1 ch2 : UInt8}

theorem parsepara_eq (h0 : iStrLen ≠ 0) (sBuffer : CharArray (maxNameLen + maxValueLen)) (pParaArr : List StringPair) :
    parsepara sBuffer sParaStr iStrLen pParaArr ch1 ch2 =
      (parseLoop (nameSplitter ch1) (pairSplitter ch2) (textRead sParaStr iStrLen) ⟨pParaArr, sBuffer, 0, 0, false⟩
        >>= parseEnd) := if_neg h0

variable (ch1 ch2) in
/-- A text that is read from its start. -/
theorem parse_start (sBuffer : CharArray (maxNameLen + maxValueLen)) {pParaArr : List StringPair}
    (hsome : 1 ≤ pParaArr.length) (text : Bytes) :
    let r := parseLoop ch1 ch2 text ⟨pParaArr, sBuffer, 0, 0, false⟩ >>= parseEnd
    (ParaFits ch1 pParaArr.length (items ch1 ch2 text) ∧ SetsPairs ch1 (items ch1 ch2 text) r ∧
        CountsItems ch1 (items ch1 ch2 text) r) ∨
      (¬ ParaFits ch1 pParaArr.length (items ch1 ch2 text) ∧ CountsUnset pParaArr 0 r) :=
  have hdone : PairsDone ch1 [] ⟨pParaArr, sBuffer, 0, 0, false⟩ :=
    ⟨rfl, rfl, fun _ hk => absurd hk (Nat.not_lt_zero _)⟩
  parse_spec hdone rfl hsome (Nat.zero_add _) (Nat.lt_of_lt_of_le Nat.zero_lt_one (Nat.le_max_left _ _))

theorem staysInBounds_of_fits (hsome : 1 ≤ iPairLen) (h : ParaFits (nameSplitter ch1) iPairLen
    (items (nameSplitter ch1) (pairSplitter ch2) (textRead sParaStr iStrLen))) :
    StaysInBounds sParaStr iStrLen iPairLen ch1 ch2 := by
  rintro sBuffer pParaArr rfl
  by_cases h0 : iStrLen = 0
  · exact ⟨0, pParaArr, if_pos h0, fun k hk => by omega⟩
  · rw [parsepara_eq h0]
    rcases parse_start _ _ sBuffer hsome (textRead sParaStr iStrLen) with ⟨-, hset, -⟩ | ⟨hfits, -⟩
    · exact hset
    · exact absurd h hfits

/-- Pairs in memory without a NUL. -/
def noTexts (n : Nat) : List StringPair :=
  List.replicate n ⟨⟨List.replicate maxNameLen 255, List.length_replicate⟩,
    ⟨List.replicate maxValueLen 255, List.length_replicate⟩⟩

theorem text_noTexts {n k : Nat} {pair : StringPair} (h : (noTexts n)[k]? = some pair) :
    pair.sFirst.text = .error .outOfBounds := by
  rw [List.eq_of_mem_replicate (List.mem_of_getElem? h)]
  exact if_neg fun h0 => absurd (List.eq_of_mem_replicate h0) (by decide)

theorem fits_of_staysInBounds (hsome : 1 ≤ iPairLen) (h : StaysInBounds sParaStr iStrLen iPairLen ch1 ch2) :
    ParaFits (nameSplitter ch1) iPairLen
      (items (nameSplitter ch1) (pairSplitter ch2) (textRead sParaStr iStrLen)) := by
  have hlen : (noTexts iPairLen).length = iPairLen := List.length_replicate
  have hset := h (.zero _) (noTexts iPairLen) hlen
  by_cases h0 : iStrLen = 0
  · subst h0
    have hitems : items (nameSplitter ch1) (pairSplitter ch2) (textRead sParaStr 0) = [[]] := List.splitOnP_nil
    rw [hitems]
    refine ⟨(itemsFit_single (Nat.lt_of_lt_of_le Nat.zero_lt_one (Nat.le_max_left _ _))).mpr ⟨?_, ?_⟩, fun hall => ?_⟩
    · rw [List.splitOn_nil, List.forall_mem_singleton]
      exact Nat.zero_le _
    · exact fun hmem => absurd hmem List.not_mem_nil
    · exact absurd (hall [] List.mem_cons_self) List.not_mem_nil
  · rw [parsepara_eq h0] at hset
    rcases parse_start _ _ (.zero _) (hlen.symm ▸ hsome) (textRead sParaStr iStrLen) with ⟨hfits, -⟩ | ⟨-, hunset⟩
    · rw [hlen] at hfits
      exact hfits
    · obtain ⟨ret, pairs, hok, hall⟩ := hset
      obtain ⟨k, -, hcounted, hsame⟩ := hunset ret pairs hok
      obtain ⟨item, pair, -, hpair, -, hname, -⟩ := hall k hcounted
      rw [hpair, Option.map_some] at hsame
      obtain ⟨old, hold, hfirst⟩ := Option.map_eq_some_iff.mp hsame.symm
      rw [← hfirst, text_noTexts hold] at hname
      exact nomatch hname

/-- The parser writes only inside its arrays and sets every pair it counts exactly when the items fit. -/
theorem parsepara_inBounds_iff (sParaStr : Nat → UInt8) (iStrLen : Int) {iPairLen : Nat} (hsome : 1 ≤ iPairLen)
    (ch1 ch2 : UInt8) : StaysInBounds sParaStr iStrLen iPairLen ch1 ch2 ↔
      ParaFits (nameSplitter ch1) iPairLen
        (items (nameSplitter ch1) (pairSplitter ch2) (textRead sParaStr iStrLen)) :=
  ⟨fits_of_staysInBounds hsome, staysInBounds_of_fits hsome⟩

/-- Two parameters and four pairs. -/
theorem parsepara_inBounds_iff_two : StaysInBounds ((txt "a=b&c=d").getD · 0) 7 4 61 38 := by
  refine (parsepara_inBounds_iff ((txt "a=b&c=d").getD · 0) 7 (by decide) 61 38).mpr ?_
  rw [show items (nameSplitter 61) (pairSplitter 38) (textRead ((txt "a=b&c=d").getD · 0) 7) =
    [txt "a=b", txt "c=d"] by decide]
  exact ⟨⟨by decide, by decide, by decide⟩, by decide⟩

/-- Two parameters and three pairs: the loop is left before the name of the second one is read. -/
theorem parsepara_not_inBounds : ¬ ∀ (sParaStr : Nat → UInt8) (iStrLen : Int) (iPairLen : Nat), 1 ≤ iPairLen →
    ∀ ch1 ch2, StaysInBounds sParaStr iStrLen iPairLen ch1 ch2 := fun h => by
  have hfits : ParaFits 61 3 (items 61 38 (textRead ((txt "a=b&c=d").getD · 0) 7)) :=
    fits_of_staysInBounds (by decide) (h ((txt "a=b&c=d").getD · 0) 7 3 (by decide) 61 38)
  rw [show items 61 38 (textRead ((txt "a=b&c=d").getD · 0) 7) = [txt "a=b", txt "c=d"] by decide] at hfits
  exact absurd (hfits.1.ended (by decide)).1 (by decide)

end Bounds

end VfsOss
