import VfsOss.Conf.Proofs.SlotsProofs

/-!
# A configuration that is written and loaded

What a file says has a form that writing and reading keep. The lines that are written for the slots of a store say the
entries of its lists, prefix by prefix and the latest first; so a reader of the new store sees the values in that order.
-/

namespace VfsOss

open CLib

section Forms

variable {content line pre x key val : Bytes} {lines : List Bytes} {e : ConfEntry} {b : UInt8}

/-- A byte that ends neither a line nor a text. -/
def Inner (b : UInt8) : Prop := b ≠ 0 ∧ b ≠ 10

/-- A section as it is read: a name with a dash. -/
def IsSection (pre : Bytes) : Prop :=
  pre = [] ∨ ∃ name, pre = name ++ [45] ∧ name ≠ [] ∧ (∀ b ∈ name, Inner b ∧ b ≠ 93) ∧
    name.dropWhile isSep = name ∧ name.rdropWhile isSep = name

/-- An entry as it is read. -/
structure EntryForm (e : ConfEntry) : Prop where
  pre : IsSection e.pre
  key : ∀ b ∈ e.key, isKeyByte b = true ∧ Inner b
  alnum : e.key.head?.any isAlnum = true
  val : ∀ b ∈ e.val, Inner b
  some : e.val ≠ []
  front : e.val.dropWhile isBlank = e.val
  back : e.val.rdropWhile isBlank = e.val

theorem IsSection.inner (h : IsSection pre) (hb : b ∈ pre) : Inner b := by
  rcases h with rfl | ⟨name, rfl, -, hname, -⟩
  · exact absurd hb List.not_mem_nil
  · rcases List.mem_append.mp hb with hb | hb
    · exact (hname b hb).1
    · obtain rfl := List.mem_singleton.mp hb
      exact ⟨by decide, by decide⟩

/-- Dropping at the end what was not dropped at the front. -/
theorem dropWhile_idem (p : UInt8 → Bool) (s : Bytes) : (s.dropWhile p).dropWhile p = s.dropWhile p := by
  match hs : s.dropWhile p with
  | [] => rfl
  | b :: t =>
    obtain ⟨-, -, -, hb⟩ := dropWhile_split hs
    exact List.dropWhile_cons_of_neg (by rw [hb]; decide)

theorem rdropWhile_suffix {p : UInt8 → Bool} {s t : Bytes} (hs : s.rdropWhile p = s) (ht : t <:+ s) :
    t.rdropWhile p = t := by
  obtain ⟨a, rfl⟩ := ht
  rw [List.rdropWhile_eq_self_iff] at hs ⊢
  intro hne
  have hlast := hs (List.append_ne_nil_of_right_ne_nil a hne)
  rwa [List.getLast_append_of_ne_nil _ hne] at hlast

theorem dropWhile_prefix {p : UInt8 → Bool} {s t : Bytes} (hs : s.dropWhile p = s) (ht : t <+: s) :
    t.dropWhile p = t := by
  match t with
  | [] => rfl
  | b :: t =>
    obtain ⟨r, rfl⟩ := ht
    rw [List.cons_append] at hs
    by_cases hb : p b = true
    · rw [List.dropWhile_cons_of_pos hb] at hs
      have hle := (List.dropWhile_suffix p (l := t ++ r)).length_le
      rw [hs, List.length_cons] at hle
      omega
    · exact List.dropWhile_cons_of_neg hb

theorem isSection_sectionText (hx : ∀ b ∈ x, Inner b ∧ b ≠ 93) : IsSection (sectionText x) := by
  unfold sectionText
  dsimp only
  split
  · exact .inl rfl
  · next hne =>
    refine .inr ⟨_, rfl, hne, fun b hb => ?_, dropWhile_idem isSep _, ?_⟩
    · exact hx b ((List.rdropWhile_prefix _ _).mem ((List.dropWhile_suffix _).mem hb))
    · exact rdropWhile_suffix (List.rdropWhile_idempotent _ _) (List.dropWhile_suffix _)

/-- The section that a line gives. -/
theorem isSection_below (hpre : IsSection pre) (hline : ∀ b ∈ line, Inner b) : IsSection (sectionBelow pre line) := by
  unfold sectionBelow
  split
  · next pre' hsect =>
    cases hs : line.dropWhile isBlank with
    | nil =>
      rw [confLine, hs] at hsect
      cases hsect
    | cons b s =>
      rw [confLine_eq hs] at hsect
      split at hsect
      · split at hsect
        · obtain rfl := ConfLine.sect.inj hsect
          refine isSection_sectionText fun d hd => ⟨?_, ?_⟩
          · have hmem : d ∈ line.dropWhile isBlank :=
              hs ▸ List.mem_cons_of_mem _ ((List.takeWhile_prefix _).mem hd)
            exact hline d ((List.dropWhile_suffix _).mem hmem)
          · simpa using List.mem_takeWhile_imp hd
        · cases hsect
      · split at hsect
        · cases hsect
        · cases hentry : entryOf (b :: s) with
          | none =>
            rw [hentry] at hsect
            cases hsect
          | some kv =>
            rw [hentry] at hsect
            cases hsect
  · exact hpre

/-- An alphanumeric character starts a key, not a section and not a comment. -/
theorem isAlnum_spec (h : isAlnum b = true) : isKeyByte b = true ∧ b ≠ 91 ∧ ¬ (b = 35 ∨ b = 59) := by
  have hnot (d : UInt8) (hd : isAlnum d = false) : b ≠ d := fun heq => by
    rw [heq, hd] at h
    exact nomatch h
  refine ⟨?_, hnot 91 rfl, not_or.mpr ⟨hnot 35 rfl, hnot 59 rfl⟩⟩
  simp [isKeyByte, isBlank, hnot 32 rfl, hnot 9 rfl, hnot 13 rfl, hnot 61 rfl]

/-- The entry that a line gives. -/
theorem entryForm_line (hpre : IsSection pre) (hline : ∀ b ∈ line, Inner b) (he : e ∈ lineEntries pre line) :
    EntryForm e := by
  unfold lineEntries at he
  split at he
  · next key val hentry =>
    obtain rfl := List.mem_singleton.mp he
    obtain ⟨hkey, hval, halnum, hne⟩ := entryOf_eq_some (entryOf_of_confLine hentry)
    have hmem {b : UInt8} (hb : b ∈ line.dropWhile isBlank) : Inner b := hline b ((List.dropWhile_suffix _).mem hb)
    refine ⟨hpre, fun b hb => ?_, ?_, fun b hb => ?_, hne, ?_, ?_⟩
    · rw [hkey] at hb
      exact ⟨List.mem_takeWhile_imp hb, hmem ((List.takeWhile_prefix _).mem hb)⟩
    · show key.head?.any isAlnum = true
      rw [hkey]
      match hs : line.dropWhile isBlank with
      | [] =>
        rw [hs] at halnum
        exact nomatch halnum
      | b :: s =>
        rw [hs] at halnum
        have hb : isKeyByte b = true := (isAlnum_spec halnum).1
        rw [List.takeWhile_cons_of_pos hb]
        exact halnum
    · rw [hval] at hb
      exact hmem ((List.dropWhile_suffix _).mem (mem_valueText hb))
    · show val.dropWhile isBlank = val
      rw [hval]
      exact dropWhile_prefix (dropWhile_idem isBlank _) (List.rdropWhile_prefix _ _)
    · show val.rdropWhile isBlank = val
      rw [hval]
      exact List.rdropWhile_idempotent _ _
  · exact absurd he List.not_mem_nil

/-- **What a file says** has the form of entries. -/
theorem entryForm_file (h0 : (0 : UInt8) ∉ content) (he : e ∈ fileEntries content) : EntryForm e := by
  have hlines : ∀ line ∈ content.splitOn 10, ∀ b ∈ line, Inner b := fun line hline b hb =>
    ⟨fun heq => h0 (heq ▸ (mem_line hline hb).1), (mem_line hline hb).2⟩
  unfold fileEntries at he
  have hpre : IsSection [] := .inl rfl
  generalize content.splitOn 10 = lines at he hlines
  generalize [] = pre at he hpre
  induction lines generalizing pre with
  | nil => exact absurd he List.not_mem_nil
  | cons line lines ih =>
    have hline := hlines line List.mem_cons_self
    rw [entriesBelow] at he
    rcases List.mem_append.mp he with he | he
    · exact entryForm_line hpre hline he
    · exact ih (fun line' hmem => hlines line' (List.mem_cons_of_mem _ hmem)) _ he (isSection_below hpre hline)

end Forms

/-! ## Slots -/

section Slots

variable {es : List ConfEntry} {slots : List Slot} {s : Slot} {pre key : Bytes} {x : Bytes × Bytes} {e : ConfEntry}

/-- A slot made of some entries. -/
structure SlotFrom (es : List ConfEntry) (s : Slot) : Prop where
  pre : IsSection s.pre
  entries : ∀ x ∈ s.entries, ∃ e ∈ es, e.pre <+: s.pre ∧ x = (e.name, e.val)

theorem SlotFrom.addSlot (hslots : ∀ s ∈ slots, SlotFrom es s) (he : e ∈ es) (hpre : IsSection e.pre) :
    ∀ s ∈ addSlot e.pre e.name e.val slots, SlotFrom es s := by
  induction slots with
  | nil =>
    intro s hs
    obtain rfl := List.mem_singleton.mp hs
    exact ⟨hpre, fun x hx => ⟨e, he, List.prefix_refl _, List.mem_singleton.mp hx⟩⟩
  | cons t slots ih =>
    obtain ⟨ht, hrest⟩ := List.forall_mem_cons.mp hslots
    rw [VfsOss.addSlot]
    split
    · next hstart =>
      refine List.forall_mem_cons.mpr ⟨⟨ht.pre, List.forall_mem_cons.mpr ⟨?_, ht.entries⟩⟩, hrest⟩
      exact ⟨e, he, hstart, rfl⟩
    · exact List.forall_mem_cons.mpr ⟨ht, ih hrest⟩

/-- The slots of entries as they are read. -/
theorem slotsOf_spec (hes : ∀ e ∈ es, EntryForm e) : (∀ s ∈ slotsOf es, SlotFrom es s) ∧ PresApart (slotsOf es) := by
  unfold slotsOf
  have h0 : (∀ s ∈ ([] : List Slot), SlotFrom es s) ∧ PresApart [] := ⟨nofun, List.Pairwise.nil⟩
  refine addSlots_induction (P := fun slots => (∀ s ∈ slots, SlotFrom es s) ∧ PresApart slots) es h0
    fun e he slots h => ?_
  exact ⟨SlotFrom.addSlot h.1 he (hes e he).pre, h.2.addSlot⟩

/-- An entry of a slot as it is written. -/
def asWritten (s : Slot) (x : Bytes × Bytes) : ConfEntry := ⟨s.pre, x.1.drop s.pre.length, x.2⟩

theorem putKey_append (a b : Bytes) : putKey (a ++ b) = putKey a ++ putKey b := List.map_append

theorem length_putKey (a : Bytes) : (putKey a).length = a.length := List.length_map _

/-- A byte that is neither an underscore nor a lower-case letter is stored as itself and for nothing else. -/
theorem stored_eq {b d : UInt8} (h : lowerByte (sepByte b) = d) (hunder : d ≠ 95) (hlower : ¬ (97 ≤ d ∧ d ≤ 122)) :
    b = d := by
  unfold sepByte at h
  split at h
  · exact absurd h.symm hunder
  · unfold lowerByte at h
    split at h
    · next hupper =>
      refine absurd ?_ hlower
      rw [← h]
      simp only [Bool.and_eq_true, decide_eq_true_eq, UInt8.le_iff_toNat_le] at hupper ⊢
      have h65 : (65 : UInt8).toNat = 65 := rfl
      have h90 : (90 : UInt8).toNat = 90 := rfl
      have h97 : (97 : UInt8).toNat = 97 := rfl
      have h122 : (122 : UInt8).toNat = 122 := rfl
      have hsum : (b + 32).toNat = (b.toNat + 32) % 256 := UInt8.toNat_add b 32
      omega
    · exact h

theorem keyByte_stored {b : UInt8} (h : isKeyByte b = true ∧ Inner b) :
    isKeyByte (lowerByte (sepByte b)) = true ∧ Inner (lowerByte (sepByte b)) := by
  have hnot (d : UInt8) (hd : b ≠ d) (hunder : d ≠ 95) (hlower : ¬ (97 ≤ d ∧ d ≤ 122)) :
      lowerByte (sepByte b) ≠ d := fun heq => hd (stored_eq heq hunder hlower)
  have hblank : b ≠ 32 ∧ b ≠ 9 ∧ b ≠ 13 ∧ b ≠ 61 := by
    simpa [isKeyByte, isBlank, and_assoc] using h.1
  refine ⟨?_, hnot 0 h.2.1 (by decide) (by decide), hnot 10 h.2.2 (by decide) (by decide)⟩
  simp [isKeyByte, isBlank, hnot 32 hblank.1 (by decide) (by decide), hnot 9 hblank.2.1 (by decide) (by decide),
    hnot 13 hblank.2.2.1 (by decide) (by decide), hnot 61 hblank.2.2.2 (by decide) (by decide)]

/-- **What is written for an entry** is an entry with the same name and value. -/
theorem asWritten_spec (hslot : SlotFrom es s) (hes : ∀ e ∈ es, EntryForm e) (hx : x ∈ s.entries)
    (hbelow : ∃ key, x.1 = putKey s.pre ++ key ∧ key.head?.any isAlnum) :
    EntryForm (asWritten s x) ∧ (asWritten s x).name = x.1 := by
  obtain ⟨e, he, hpre, rfl⟩ := hslot.entries x hx
  obtain ⟨key, hname, halnum⟩ := hbelow
  replace hname : e.name = putKey s.pre ++ key := hname
  have hform := hes e he
  have hdrop : e.name.drop s.pre.length = key := by
    rw [hname, ← length_putKey, List.drop_left]
  have hsuffix : key <:+ putKey e.key := by
    have hsame : putKey e.pre ++ putKey e.key = putKey s.pre ++ key := (putKey_append _ _).symm.trans hname
    refine List.suffix_of_suffix_length_le (List.suffix_append _ _) (hsame ▸ List.suffix_append _ _) ?_
    have hlen := congrArg List.length hsame
    rw [List.length_append, List.length_append, length_putKey, length_putKey s.pre] at hlen
    have hle := hpre.length_le
    omega
  have hnormal : putKey key = key := by
    have hidem : putKey e.name = e.name := putKey_idem _
    rw [hname, putKey_append, putKey_idem] at hidem
    exact List.append_cancel_left hidem
  refine ⟨⟨hslot.pre, fun b hb => ?_, ?_, hform.val, hform.some, hform.front, hform.back⟩, ?_⟩
  · rw [show (asWritten s (e.name, e.val)).key = key from hdrop] at hb
    obtain ⟨d, hd, rfl⟩ := List.mem_map.mp (hsuffix.mem hb)
    exact keyByte_stored (hform.key d hd)
  · rw [show (asWritten s (e.name, e.val)).key = key from hdrop]
    exact halnum
  · show putKey (s.pre ++ e.name.drop s.pre.length) = e.name
    rw [hdrop, putKey_append, hnormal, ← hname]

end Slots

/-! ## The written lines -/

section Lines

variable {es : List ConfEntry} {slots : List Slot} {s : Slot} {pre : Bytes} {lines : List Bytes} {e : ConfEntry}

/-- The line of an entry says the entry. -/
theorem confLine_written (h : EntryForm e) :
    confLine (9 :: e.key ++ txt " = " ++ e.val) = .entry e.key e.val := by
  obtain ⟨b, k, hkey⟩ : ∃ b k, e.key = b :: k := by
    cases hk : e.key with
    | nil =>
      have halnum := h.alnum
      rw [hk] at halnum
      exact nomatch halnum
    | cons b k => exact ⟨b, k, rfl⟩
  have halnum : isAlnum b = true := by
    have := h.alnum
    rwa [hkey] at this
  obtain ⟨hb, h91, hcomment⟩ := isAlnum_spec halnum
  have hline : 9 :: e.key ++ txt " = " ++ e.val = 9 :: b :: (k ++ 32 :: ([61, 32] ++ e.val)) := by
    rw [hkey, show txt " = " = [32, 61, 32] from rfl]
    simp
  have hdrop : (9 :: b :: (k ++ 32 :: ([61, 32] ++ e.val))).dropWhile isBlank = b :: (k ++ 32 :: ([61, 32] ++ e.val)) := by
    rw [List.dropWhile_cons_of_pos (by decide),
      List.dropWhile_cons_of_neg (by rw [isBlank_of_isKeyByte hb]; decide)]
  have hvalue : valueText (32 :: ([61, 32] ++ e.val)) = e.val := by
    obtain ⟨d, v, hval⟩ := List.exists_cons_of_ne_nil h.some
    have hfront : e.val.dropWhile isBlank = e.val := h.front
    unfold valueText
    rw [List.dropWhile_cons_of_pos (by decide)]
    show ((((61 :: 32 :: e.val).dropWhile isBlank).dropWhile (· = 61)).dropWhile isBlank).rdropWhile isBlank = _
    rw [List.dropWhile_cons_of_neg (by decide), List.dropWhile_cons_of_pos (by decide),
      List.dropWhile_cons_of_neg (by decide), List.dropWhile_cons_of_pos (by decide), hfront, h.back]
  have hentry : entryOf (b :: (k ++ 32 :: ([61, 32] ++ e.val))) = some (e.key, e.val) := by
    have hkeyBytes : ∀ d ∈ b :: k, isKeyByte d = true := fun d hd => (h.key d (hkey ▸ hd)).1
    have hsplit := entryOf_split (c := 32) (q := [61, 32] ++ e.val) hkeyBytes (by decide)
    rw [hvalue, if_pos (by simpa using ⟨halnum, h.some⟩)] at hsplit
    rw [hkey]
    exact hsplit
  rw [hline, confLine_eq hdrop, if_neg h91, if_neg (by simpa using hcomment), hentry]

/-- The line of a section says the section. -/
theorem confLine_section (h : IsSection pre) (hne : pre ≠ []) :
    confLine (txt "[ " ++ pre.dropLast ++ txt " ]") = .sect pre := by
  obtain ⟨name, rfl, hname, hbytes, hfront, hback⟩ := h.resolve_left hne
  have hline : txt "[ " ++ (name ++ [45]).dropLast ++ txt " ]" = 91 :: (32 :: (name ++ [32]) ++ [93]) := by
    rw [List.dropLast_concat, show txt "[ " = [91, 32] from rfl, show txt " ]" = [32, 93] from rfl]
    simp
  have hdrop : (91 :: (32 :: (name ++ [32]) ++ [93])).dropWhile isBlank = 91 :: (32 :: (name ++ [32]) ++ [93]) :=
    List.dropWhile_cons_of_neg (by decide)
  have htake : (32 :: (name ++ [32]) ++ [93]).takeWhile (· ≠ 93) = 32 :: (name ++ [32]) := by
    rw [List.takeWhile_append_of_pos, List.takeWhile_cons_of_neg (by decide), List.append_nil]
    intro b hb
    rcases List.mem_cons.mp hb with rfl | hb
    · decide
    · rcases List.mem_append.mp hb with hb | hb
      · simpa using (hbytes b hb).2
      · obtain rfl := List.mem_singleton.mp hb
        decide
  have htext : sectionText (32 :: (name ++ [32])) = name ++ [45] := by
    have hback' : (32 :: (name ++ [32])).rdropWhile isSep = 32 :: name := by
      rw [← List.cons_append, List.rdropWhile_concat_pos _ _ _ (by decide)]
      have hkeep := rdropWhile_append_of_ne_nil (p := isSep) (s := name) (by rw [hback]; exact hname) [32]
      rwa [hback] at hkeep
    unfold sectionText
    dsimp only
    rw [hback', List.dropWhile_cons_of_pos (by decide), hfront, if_neg hname]
  rw [hline, confLine_eq hdrop, if_pos rfl, if_pos (List.mem_append_right _ List.mem_cons_self), htake, htext]

theorem confLine_rule : confLine dumpRule = .other := rfl

theorem entriesBelow_other {line : Bytes} (h : confLine line = .other) :
    entriesBelow pre (line :: lines) = entriesBelow pre lines := by
  rw [entriesBelow, lineEntries, sectionBelow, h]
  rfl

/-- The lines of a slot say its entries, below its section. -/
theorem entriesBelow_slot (h : ∀ x ∈ s.entries, EntryForm (asWritten s x)) (lines : List Bytes) :
    entriesBelow s.pre (s.entries.map (fun x => 9 :: x.1.drop s.pre.length ++ txt " = " ++ x.2) ++ [dumpRule] ++ lines) =
      s.entries.map (asWritten s) ++ entriesBelow s.pre lines := by
  generalize s.entries = entries at h
  induction entries with
  | nil => exact entriesBelow_other confLine_rule
  | cons x entries ih =>
    obtain ⟨hx, hrest⟩ := List.forall_mem_cons.mp h
    have hline : confLine (9 :: x.1.drop s.pre.length ++ txt " = " ++ x.2) =
        .entry (asWritten s x).key (asWritten s x).val := confLine_written hx
    rw [List.map_cons, List.cons_append, List.cons_append, entriesBelow, lineEntries, sectionBelow, hline]
    exact congrArg (asWritten s x :: ·) (ih hrest)

/-- The lines of the slots behind the first say their entries, below any section. -/
theorem entriesBelow_slots (hforms : ∀ s ∈ slots, IsSection s.pre ∧ ∀ x ∈ s.entries, EntryForm (asWritten s x))
    (hne : ∀ s ∈ slots, s.pre ≠ []) (pre : Bytes) :
    entriesBelow pre (slots.flatMap (slotLines false) ++ [[]]) = slots.flatMap fun s => s.entries.map (asWritten s) := by
  induction slots generalizing pre with
  | nil => rfl
  | cons s slots ih =>
    obtain ⟨hs, hrest⟩ := List.forall_mem_cons.mp hforms
    obtain ⟨hsne, hne⟩ := List.forall_mem_cons.mp hne
    have hslot := entriesBelow_slot hs.2 (slots.flatMap (slotLines false) ++ [[]])
    rw [List.flatMap_cons, List.flatMap_cons, List.append_assoc, slotLines, if_neg (by decide), List.singleton_append,
      List.cons_append, List.cons_append, entriesBelow, lineEntries, sectionBelow, confLine_section hs.1 hsne]
    dsimp only
    rw [List.nil_append, hslot, ih hrest hne]

/-- **The written lines say the entries** of the slots, prefix by prefix. -/
theorem entriesBelow_dumpLines (hforms : ∀ s ∈ slots, IsSection s.pre ∧ ∀ x ∈ s.entries, EntryForm (asWritten s x))
    (happart : PresApart slots) (hfirst : ∀ s ∈ slots.head?, s.pre = []) :
    entriesBelow [] (dumpLines slots ++ [[]]) = slots.flatMap fun s => s.entries.map (asWritten s) := by
  match slots with
  | [] => rfl
  | s :: slots =>
    obtain ⟨hs, hrest⟩ := List.forall_mem_cons.mp hforms
    have hpre : s.pre = [] := hfirst s rfl
    have hslot := entriesBelow_slot hs.2 (slots.flatMap (slotLines false) ++ [[]])
    rw [entriesBelow_slots hrest fun t ht => happart.ne_nil ht] at hslot
    rw [dumpLines, slotLines, if_pos rfl, List.nil_append, List.append_assoc, List.flatMap_cons]
    simp only [hpre] at hslot ⊢
    exact hslot

/-- Lines that are written one after the other are read as they were. -/
theorem splitOn_lines (h : ∀ line ∈ lines, (10 : UInt8) ∉ line) :
    (lines.flatMap (· ++ [10])).splitOn 10 = lines ++ [[]] := by
  induction lines with
  | nil => rfl
  | cons line lines ih =>
    obtain ⟨hline, hrest⟩ := List.forall_mem_cons.mp h
    rw [List.flatMap_cons, List.append_assoc, List.singleton_append, List.splitOn_append_cons_self_of_not_mem hline,
      ih hrest, List.cons_append]

/-- Lines that are written one after the other all end. -/
theorem ended_lines (h : ∀ line ∈ lines, (0 : UInt8) ∉ line) : Ended (lines.flatMap (· ++ [10])) := by
  rcases List.eq_nil_or_concat' lines with rfl | ⟨front, line, rfl⟩
  · exact .inl rfl
  · refine .inr ⟨fun h0 => ?_, ?_⟩
    · obtain ⟨line', hmem, h0⟩ := List.mem_flatMap.mp h0
      rcases List.mem_append.mp h0 with h0 | h0
      · exact h line' hmem h0
      · exact absurd (List.mem_singleton.mp h0) (by decide)
    · rw [List.flatMap_append, List.flatMap_singleton, ← List.append_assoc, List.getLast?_concat]

/-- The lines of the comment. -/
def commentLines : List Bytes := [[], dumpComment.tail.take 23, []]

theorem dumpText_eq (slots : List Slot) : dumpText slots = (commentLines ++ dumpLines slots).flatMap (· ++ [10]) := by
  rw [List.flatMap_append]
  rfl

/-- The lines that are written hold no end of a line and no NUL. -/
theorem inner_dumpLines (hforms : ∀ s ∈ slots, IsSection s.pre ∧ ∀ x ∈ s.entries, EntryForm (asWritten s x)) :
    ∀ line ∈ commentLines ++ dumpLines slots, ∀ b ∈ line, Inner b := by
  have hslot (first : Bool) : ∀ s ∈ slots, ∀ line ∈ slotLines first s, ∀ b ∈ line, Inner b := by
    intro s hs line hline b hb
    obtain ⟨hpre, hentries⟩ := hforms s hs
    have htxt {t : Bytes} (ht : t.all (fun b => b ≠ 0 && b ≠ 10) = true) (hb : b ∈ t) : Inner b := by
      simpa [Inner] using List.all_eq_true.mp ht b hb
    rcases List.mem_append.mp hline with hline | hline
    · rcases List.mem_append.mp hline with hline | hline
      · cases first with
        | true => exact absurd hline List.not_mem_nil
        | false =>
          obtain rfl := List.mem_singleton.mp hline
          rcases List.mem_append.mp hb with hb | hb
          · rcases List.mem_append.mp hb with hb | hb
            · exact htxt (by decide) hb
            · exact hpre.inner (List.mem_of_mem_dropLast hb)
          · exact htxt (by decide) hb
      · obtain ⟨x, hx, rfl⟩ := List.mem_map.mp hline
        have hform := hentries x hx
        rcases List.mem_append.mp hb with hb | hb
        · rcases List.mem_append.mp hb with hb | hb
          · rcases List.mem_cons.mp hb with rfl | hb
            · exact ⟨by decide, by decide⟩
            · exact (hform.key b hb).2
          · exact htxt (by decide) hb
        · exact hform.val b hb
    · obtain rfl := List.mem_singleton.mp hline
      exact htxt (by decide) hb
  intro line hline b hb
  rcases List.mem_append.mp hline with hline | hline
  · have hcomment : commentLines.all (fun line => line.all fun b => b ≠ 0 && b ≠ 10) = true := by decide
    simpa [Inner] using List.all_eq_true.mp (List.all_eq_true.mp hcomment line hline) b hb
  · match slots with
    | [] => exact absurd hline List.not_mem_nil
    | s :: slots =>
      rcases List.mem_append.mp hline with hline | hline
      · exact hslot true s List.mem_cons_self line hline b hb
      · obtain ⟨t, ht, hline⟩ := List.mem_flatMap.mp hline
        exact hslot false t (List.mem_cons_of_mem _ ht) line hline b hb

/-- **The written file** is read as the entries of the slots. -/
theorem fileEntries_dumpText (hforms : ∀ s ∈ slots, IsSection s.pre ∧ ∀ x ∈ s.entries, EntryForm (asWritten s x))
    (happart : PresApart slots) (hfirst : ∀ s ∈ slots.head?, s.pre = []) :
    Ended (dumpText slots) ∧ fileEntries (dumpText slots) = slots.flatMap fun s => s.entries.map (asWritten s) := by
  have hinner := inner_dumpLines hforms
  rw [dumpText_eq]
  refine ⟨ended_lines fun line hline h0 => (hinner line hline 0 h0).1 rfl, ?_⟩
  rw [fileEntries, splitOn_lines fun line hline h10 => (hinner line hline 10 h10).2 rfl,
    ← entriesBelow_dumpLines hforms happart hfirst]
  rfl

end Lines

/-! ## Writing -/

section Writing

variable {slots : List Slot} {s : Slot} {pre : Bytes} {plist : Prehash} {used : List Prehash} {l : List Myconfig}
  {mc : Myconfig} {entries : List (Bytes × Bytes)} {lists : Nat → List Myconfig} {c : ConfLists}

/-- The line of a section. -/
theorem dumpSection_eq (h : plist.Holds s) (hlen : s.pre.length < 20) (hpre : IsSection s.pre) (hne : s.pre ≠ []) :
    dumpSection plist = .ok (txt "[ " ++ s.pre.dropLast ++ txt " ]" ++ [10]) := by
  have h0 : (0 : UInt8) ∉ s.pre.dropLast := fun hmem => (hpre.inner (List.mem_of_mem_dropLast hmem)).1 rfl
  have hlen' : s.pre.dropLast.length < 20 := by
    rw [List.length_dropLast]
    omega
  obtain ⟨text, hcopy, hholds⟩ := Prehash.holds_copy [] hlen' h0
  have htext : text.text = .ok s.pre.dropLast := by
    unfold CharArray.text
    rw [if_pos hholds.ended, hholds.text]
  unfold dumpSection
  rw [h.preText, if_neg hne, show CharArray.zero 20 = unusedList.pre from rfl, hcopy, ok_bind, htext, ok_bind,
    List.append_assoc (_ ++ _)]
  rfl

/-- The line of an entry. -/
theorem dumpEntry_eq {x : Bytes × Bytes} (htold : told mc = (x.1, .ok x.2)) (hpre : pre ≠ txt "nopre")
    (h0 : (0 : UInt8) ∉ x.1) (hbelow : ∃ key, x.1 = putKey pre ++ key) :
    dumpEntry pre mc = .ok (9 :: x.1.drop pre.length ++ txt " = " ++ x.2 ++ [10]) := by
  obtain ⟨hkey, hval⟩ := Prod.mk.inj htold
  obtain ⟨key, hname⟩ := hbelow
  have hdrop : x.1.drop pre.length = key := by
    rw [hname, ← length_putKey, List.drop_left]
  have htext : textAt (mc.key ++ 0 :: mc.val.1) pre.length = .ok key := by
    have h0key : (0 : UInt8) ∉ key := fun hmem => h0 (hname ▸ List.mem_append_right _ hmem)
    rw [hkey, hname, List.append_assoc, ← length_putKey pre]
    exact textAt_append (putKey pre) mc.val.1 h0key
  unfold dumpEntry
  rw [if_neg hpre, htext, hval, hdrop]
  rfl

/-- The lines of a list. -/
theorem dumpEntries_eq (htold : l.map told = entries.map fun e => (e.1, .ok e.2)) (hpre : pre ≠ txt "nopre")
    (hbelow : ∀ x ∈ entries, (0 : UInt8) ∉ x.1 ∧ ∃ key, x.1 = putKey pre ++ key) :
    dumpEntries pre l =
      .ok ((entries.map fun x => 9 :: x.1.drop pre.length ++ txt " = " ++ x.2).flatMap (· ++ [10])) := by
  induction entries generalizing l with
  | nil =>
    obtain rfl := List.map_eq_nil_iff.mp htold
    rfl
  | cons x entries ih =>
    match l with
    | [] => exact nomatch htold
    | mc :: l =>
      obtain ⟨hmc, hrest⟩ := List.cons.inj htold
      obtain ⟨⟨h0, hname⟩, hbelow⟩ := List.forall_mem_cons.mp hbelow
      rw [dumpEntries, dumpEntry_eq hmc hpre h0 hname, ok_bind, ih hrest hbelow]
      rfl

theorem IsSection.ne_nopre (h : IsSection pre) : pre ≠ txt "nopre" := by
  rcases h with rfl | ⟨name, rfl, -⟩
  · decide
  · intro heq
    have hlast := congrArg List.getLast? heq
    rw [List.getLast?_concat] at hlast
    exact absurd hlast (by decide)

/-- What the writer relies on in a slot. -/
structure Writable (s : Slot) : Prop where
  pre : IsSection s.pre
  short : s.pre.length < 20
  below : ∀ x ∈ s.entries, (0 : UInt8) ∉ x.1 ∧ ∃ key, x.1 = putKey s.pre ++ key

/-- The lines of the slots behind the first. -/
theorem dumpLoop_slots (hused : List.Forall₂ Prehash.Holds used slots) (hwrite : ∀ s ∈ slots, Writable s)
    (hne : ∀ s ∈ slots, s.pre ≠ []) {hash : Nat}
    (hlists : ∀ i, (lists (hash + 1 + i)).map told = (heldAt slots i).map fun e => (e.1, .ok e.2)) (m : Nat) :
    dumpLoop lists (hash + 1) (used ++ List.replicate m unusedList) =
      .ok ((slots.flatMap (slotLines false)).flatMap (· ++ [10])) := by
  induction hused generalizing hash with
  | nil =>
    match m with
    | 0 => rfl
    | m + 1 => rfl
  | @cons plist s used slots hholds hused ih =>
    obtain ⟨hs, hwrite⟩ := List.forall_mem_cons.mp hwrite
    obtain ⟨hsne, hne⟩ := List.forall_mem_cons.mp hne
    have hfirst : (lists (hash + 1)).map told = s.entries.map fun e => (e.1, .ok e.2) := hlists 0
    have hbehind : ∀ i, (lists (hash + 1 + 1 + i)).map told = (heldAt slots i).map fun e => (e.1, .ok e.2) := fun i => by
      have h := hlists (i + 1)
      rwa [show hash + 1 + (i + 1) = hash + 1 + 1 + i by omega] at h
    have hrest := ih hwrite hne hbehind
    rw [List.cons_append, dumpLoop, if_neg (by rw [hholds.used]; decide), if_pos (Nat.succ_pos hash),
      dumpSection_eq hholds hs.short hs.pre hsne, hholds.preText,
      dumpEntries_eq hfirst hs.pre.ne_nopre hs.below, hrest]
    rw [List.flatMap_cons, List.flatMap_append, slotLines, if_neg (by decide)]
    refine congrArg Except.ok ?_
    simp only [List.flatMap_append, List.flatMap_singleton, List.append_assoc]

/-- **The file that is written** consists of the lines of the slots. -/
theorem dump_eq (h : PreListed slots c) (hwrite : ∀ s ∈ slots, Writable s) (happart : PresApart slots)
    (hfirst : ∀ s ∈ slots.head?, s.pre = []) :
    myconfigDumpToFile true c = .ok (0, some (dumpText slots)) := by
  obtain ⟨used, m, hused, hprelist, -⟩ := h.prelist
  have hlists := h.lists
  have hloop : dumpLoop c.lists 0 (used ++ List.replicate m unusedList) =
      .ok ((dumpLines slots).flatMap (· ++ [10])) := by
    cases hused with
    | nil =>
      match m with
      | 0 => rfl
      | m + 1 => rfl
    | @cons plist s used slots hholds hused =>
      obtain ⟨hs, hwrite⟩ := List.forall_mem_cons.mp hwrite
      have hslot : (c.lists 0).map told = s.entries.map fun e => (e.1, .ok e.2) := hlists 0
      have hbehind : ∀ i, (c.lists (0 + 1 + i)).map told = (heldAt slots i).map fun e => (e.1, .ok e.2) := fun i => by
        rw [Nat.zero_add, Nat.add_comm]
        exact hlists (i + 1)
      have hrest := dumpLoop_slots hused hwrite (fun t ht => happart.ne_nil ht) hbehind m
      rw [List.cons_append, dumpLoop, if_neg (by rw [hholds.used]; decide), if_neg (Nat.lt_irrefl 0), hholds.preText,
        dumpEntries_eq hslot hs.pre.ne_nopre hs.below, hrest, dumpLines, slotLines, if_pos rfl]
      refine congrArg Except.ok ?_
      simp only [List.flatMap_append, List.flatMap_singleton, List.append_assoc, List.nil_append]
  unfold myconfigDumpToFile
  rw [if_pos rfl, hprelist, hloop]
  rfl

end Writing

/-! ## The same values -/

section Back

variable {env : LoadEnv} {content text : Bytes} {es : List ConfEntry} {c : ConfLists} {conf conf' : ConfStore}
  {log log' : ConfLog}

/-- Stores that hold the same under every key are the same to every reader, and no others are. -/
theorem sameValues_iff (h : conf.Holds log) (h' : conf'.Holds log') :
    SameValues conf conf' ↔ ∀ key, log.surviving key = log'.surviving key := by
  constructor
  · intro hsame key
    refine List.ext_getElem? fun i => ?_
    have hread := (hsame key).2 i
    rw [h.multivalue, h'.multivalue] at hread
    exact (Except.ok.inj hread).symm
  · intro hlogs key
    refine ⟨?_, fun i => ?_⟩
    · rw [h.value, h'.value, hlogs]
    · rw [h.multivalue, h'.multivalue, hlogs]

/-- A text that an `int` counts is read whole. -/
theorem filePart_of_small (hsize : text.length < 2 ^ 31 - 1) :
    filePart text = text ∧ 0 < toInt32 (toInt32 text.length + 1) := by
  have hlen : toInt32 text.length = text.length := toInt32_of_range (by omega) (by omega)
  refine ⟨?_, ?_⟩
  · rw [filePart, countedLen, hlen, Int.toNat_natCast, List.take_length]
  · rw [hlen, toInt32_of_range (by omega) (by omega)]
    omega

/-- Entries that fit fit into any store. -/
theorem entriesFit_of (hfirst : env.inited = false) (hmalloc : ∀ n, env.malloc n ≠ none)
    (hfit : ∀ e ∈ es, e.val.length < valRoom ∧ e.pre.length ≤ 20) (n : Nat) (c : ConfLists) :
    EntriesFit env n es c := by
  induction es generalizing n c with
  | nil => trivial
  | cons e es ih =>
    obtain ⟨⟨hval, hpre⟩, hrest⟩ := List.forall_mem_cons.mp hfit
    refine ⟨?_, fun c' _ => ih hrest (n + 1) c'⟩
    unfold EntryFits
    rw [if_neg (by rw [hfirst]; decide)]
    exact ⟨hmalloc n, hval, .inl hpre⟩

/-- **A file of entries that fit** is loaded, and the store holds them. -/
theorem load_works (text : Bytes) (hworks : env.Works text.length) (hsize : text.length < 2 ^ 31 - 1) (hended : Ended text)
    (hfit : ∀ e ∈ fileEntries text, e.val.length < valRoom ∧ e.pre.length ≤ 20) :
    ∃ c, myconfigLoadfile0 env (some text) .init = .ok (0, c) ∧
      c.conf.Holds ((fileEntries text).map fun e => (e.name, e.val)) := by
  obtain ⟨hpart, hlen⟩ := filePart_of_small hsize
  obtain ⟨⟨c, hput⟩, hall⟩ := entriesFit_iff.mp (entriesFit_of hworks.first hworks.malloc hfit 0 .init)
  have hload : myconfigLoadfile0 env (some text) .init = .ok (0, c) := by
    rw [loadfile_ok_iff, hpart]
    exact ⟨hworks.mmap, hlen, hworks.read, hended, hput⟩
  refine ⟨c, hload, ?_⟩
  have hholds := (putEntries_holds ConfStore.Holds.init hworks.first (fun e he => ended_free hended he) hput).1
  rwa [hall hworks.first] at hholds

/-- The entries that were put came from a text without a NUL. -/
theorem entryForm_ended (hended : Ended text) {e : ConfEntry} (he : e ∈ fileEntries text) : EntryForm e := by
  rcases hended with rfl | ⟨h0, -⟩
  · exact absurd he List.not_mem_nil
  · exact entryForm_file h0 he

theorem exists_works (n : Nat) : LoadEnv.Works ⟨false, [], true, some n, fun _ => some (.zero _)⟩ n :=
  ⟨rfl, rfl, ⟨n, rfl, Nat.le_refl n⟩, fun _ => Option.some_ne_none _⟩

/-- What is read back under a name is what the slots hold, prefix by prefix. -/
theorem surviving_slots (es : List ConfEntry) (slots : List Slot) :
    (∀ key, ConfLog.surviving (es.map fun e => (e.name, e.val)) key =
        ConfLog.surviving (slots.flatMap (·.entries)) key) ↔
      ∀ name, ((slots.flatMap (·.entries)).filter (·.1 = name)).map (·.2) = (es.filter (·.name = name)).map (·.val) := by
  refine forall_congr' fun key => ?_
  have hlog : ConfLog.surviving (es.map fun e => (e.name, e.val)) key = (es.filter (·.name = key)).map (·.val) := by
    rw [ConfLog.surviving, List.filter_map, List.map_map]
    rfl
  rw [hlog]
  exact eq_comm

/-- A name that is stored has no NUL. -/
theorem EntryForm.name_free {e : ConfEntry} (h : EntryForm e) : (0 : UInt8) ∉ e.name := fun h0 => by
  obtain ⟨b, hb, heq⟩ := List.mem_map.mp h0
  obtain rfl := stored_eq heq (by decide) (by decide)
  rcases List.mem_append.mp hb with hb | hb
  · exact (h.pre.inner hb).1 rfl
  · exact (h.key 0 hb).2.1 rfl

/-- A store of some entries comes back exactly when its values are written in order. -/
theorem dumpsBack_iff_of {part : Bytes} (hfirst : env.inited = false) (hended : Ended part)
    (hput : putEntries env 0 (fileEntries part) .init = .ok c)
    (hd : Dumpable (slotsOf (storedEntries env.malloc 0 (fileEntries part)))) :
    DumpsBack c ↔ DumpsInOrder (storedEntries env.malloc 0 (fileEntries part)) := by
  have hforms : ∀ e ∈ fileEntries part, EntryForm e := fun e he => entryForm_ended hended he
  have hsub := storedEntries_sublist env.malloc 0 (fileEntries part)
  have hforms' : ∀ e ∈ storedEntries env.malloc 0 (fileEntries part), EntryForm e := fun e he => hforms e (hsub.mem he)
  have hfree : ∀ e ∈ fileEntries part, (0 : UInt8) ∉ e.pre ∧ (0 : UInt8) ∉ e.val := fun e he =>
    ⟨fun h0 => ((hforms e he).pre.inner h0).1 rfl, fun h0 => ((hforms e he).val 0 h0).1 rfl⟩
  obtain ⟨hholds, hlens⟩ := putEntries_holds ConfStore.Holds.init hfirst (fun e he => (hfree e he).2) hput
  have hlisted : PreListed (slotsOf (storedEntries env.malloc 0 (fileEntries part))) c :=
    PreListed.init.load hfirst hfree hd.room hd.short hput
  obtain ⟨hslots, happart⟩ := slotsOf_spec hforms'
  rw [DumpsInOrder, ← surviving_slots]
  generalize storedEntries env.malloc 0 (fileEntries part) = es at *
  generalize slotsOf es = slots at *
  -- what is written for each entry is an entry again, with its name
  have hwritten : ∀ s ∈ slots, ∀ x ∈ s.entries, EntryForm (asWritten s x) ∧ (asWritten s x).name = x.1 := fun s hs x hx =>
    asWritten_spec (hslots s hs) hforms' hx (hd.below s hs x hx)
  have hwritable : ∀ s ∈ slots, Writable s := fun s hs => by
    refine ⟨(hslots s hs).pre, hd.short s hs, fun x hx => ⟨?_, ?_⟩⟩
    · rw [← (hwritten s hs x hx).2]
      exact (hwritten s hs x hx).1.name_free
    · obtain ⟨key, hname, -⟩ := hd.below s hs x hx
      exact ⟨key, hname⟩
  obtain ⟨hended', hentries⟩ :=
    fileEntries_dumpText (fun s hs => ⟨(hslots s hs).pre, fun x hx => (hwritten s hs x hx).1⟩) happart hd.first
  have hdump := dump_eq hlisted hwritable happart hd.first
  have hlog : (fileEntries (dumpText slots)).map (fun e => (e.name, e.val)) = slots.flatMap (·.entries) := by
    rw [hentries, List.map_flatMap]
    refine List.flatMap_congr fun s hs => ?_
    have hsame : ∀ x ∈ s.entries, ((fun e : ConfEntry => (e.name, e.val)) ∘ asWritten s) x = x := fun x hx =>
      Prod.ext (hwritten s hs x hx).2 rfl
    rw [List.map_map, List.map_congr_left hsame, List.map_id']
  have hfit : ∀ e ∈ fileEntries (dumpText slots), e.val.length < valRoom ∧ e.pre.length ≤ 20 := fun e he => by
    rw [hentries] at he
    obtain ⟨s, hs, he⟩ := List.mem_flatMap.mp he
    obtain ⟨x, hx, rfl⟩ := List.mem_map.mp he
    obtain ⟨e', he', -, rfl⟩ := (hslots s hs).entries x hx
    exact ⟨hlens e' he', (hd.short s hs).le⟩
  constructor
  · rintro ⟨text, htext, hback⟩
    obtain rfl : dumpText slots = text := Option.some.inj (congrArg Prod.snd (Except.ok.inj (hdump.symm.trans htext)))
    obtain ⟨c', hload', hsame⟩ := hback _ (exists_works _)
    obtain ⟨c'', hload'', hholds'⟩ := load_works _ (exists_works _) hd.size hended' hfit
    obtain rfl : c' = c'' := congrArg Prod.snd (Except.ok.inj (hload'.symm.trans hload''))
    rw [hlog] at hholds'
    exact (sameValues_iff hholds hholds').mp hsame
  · intro horder
    refine ⟨dumpText slots, hdump, fun env' hworks => ?_⟩
    obtain ⟨c', hload', hholds'⟩ := load_works _ hworks hd.size hended' hfit
    rw [hlog] at hholds'
    exact ⟨c', hload', (sameValues_iff hholds hholds').mpr horder⟩

/-- **A store that can be dumped** comes back exactly when its values are written in order. -/
theorem Dumpable.dumpsBack_iff (hfirst : env.inited = false)
    (hload : myconfigLoadfile0 env (some content) .init = .ok (0, c))
    (hd : Dumpable (slotsOf (builtFrom env content))) : DumpsBack c ↔ DumpsInOrder (builtFrom env content) := by
  obtain ⟨-, -, -, hended, hput⟩ := loadfile_ok_iff.mp hload
  exact dumpsBack_iff_of hfirst hended hput hd

/-- **Writing and loading.** A store that a load has built comes back when it can be dumped and its values are written
in order; a store that can be dumped and whose values are written in another order does not. -/
theorem dumpsBack_spec (hfirst : env.inited = false)
    (hload : myconfigLoadfile0 env (some content) .init = .ok (0, c)) :
    (Dumpable (slotsOf (builtFrom env content)) ∧ DumpsInOrder (builtFrom env content) → DumpsBack c) ∧
      (Dumpable (slotsOf (builtFrom env content)) ∧ ¬ DumpsInOrder (builtFrom env content) → ¬ DumpsBack c) :=
  ⟨fun h => (h.1.dumpsBack_iff hfirst hload).mpr h.2, fun h hback => h.2 ((h.1.dumpsBack_iff hfirst hload).mp hback)⟩

/-- A file with a key that is given twice, and a section. -/
theorem dumpsBack_spec_section : ∃ c, myconfigLoadfile0 ⟨false, [], true, some 18, fun _ => some (.zero _)⟩
    (some (txt "a=1\na=1\n[ s ]\nb=2\n")) .init = .ok (0, c) ∧ DumpsBack c := by
  obtain ⟨c, hload, -⟩ := load_works (txt "a=1\na=1\n[ s ]\nb=2\n") (exists_works 18) (by decide)
    (.inr ⟨by decide, by decide⟩) (by decide)
  have hbuilt : builtFrom ⟨false, [], true, some 18, fun _ => some (.zero _)⟩ (txt "a=1\na=1\n[ s ]\nb=2\n") =
      [⟨[], txt "a", txt "1"⟩, ⟨[], txt "a", txt "1"⟩, ⟨txt "s-", txt "b", txt "2"⟩] := by decide
  have hslots : slotsOf [⟨[], txt "a", txt "1"⟩, ⟨[], txt "a", txt "1"⟩, ⟨txt "s-", txt "b", txt "2"⟩] =
      [⟨[], [(txt "a", txt "1"), (txt "a", txt "1")]⟩, ⟨txt "s-", [(txt "s_b", txt "2")]⟩] := by rfl
  have hd : Dumpable
      [⟨[], [(txt "a", txt "1"), (txt "a", txt "1")]⟩, ⟨txt "s-", [(txt "s_b", txt "2")]⟩] := by
    refine ⟨by decide, by decide, by decide, fun s hs x hx => ?_, by decide +kernel⟩
    rcases List.mem_pair.mp hs with rfl | rfl
    · have hnames : ∀ x ∈ [(txt "a", txt "1"), (txt "a", txt "1")], x.1 = putKey [] ++ txt "a" := by decide
      exact ⟨txt "a", hnames x hx, by decide⟩
    · obtain rfl := List.mem_singleton.mp hx
      exact ⟨txt "b", by decide, by decide⟩
  refine ⟨c, hload, (dumpsBack_spec rfl hload).1 ?_⟩
  rw [hbuilt, DumpsInOrder, hslots]
  refine ⟨hd, fun name => ?_⟩
  -- the values are written as they were put in
  have hsame : [(txt "a", txt "1"), (txt "a", txt "1"), (txt "s_b", txt "2")] =
      [(⟨[], txt "a", txt "1"⟩ : ConfEntry), ⟨[], txt "a", txt "1"⟩, ⟨txt "s-", txt "b", txt "2"⟩].map
        fun e => (e.name, e.val) := by decide
  show (List.filter _ [(txt "a", txt "1"), (txt "a", txt "1"), (txt "s_b", txt "2")]).map _ = _
  rw [hsame, List.filter_map, List.map_map]
  rfl

/-- Two values of one name are written the latest first. -/
theorem not_dumpsBack : ¬ ∀ (env : LoadEnv) (content : Bytes) (c : ConfLists), env.inited = false →
    myconfigLoadfile0 env (some content) .init = .ok (0, c) → DumpsBack c := fun h => by
  obtain ⟨c, hload, -⟩ := load_works (txt "a=1\na=2\n") (exists_works 8) (by decide)
    (.inr ⟨by decide, by decide⟩) (by decide)
  have hbuilt : builtFrom ⟨false, [], true, some 8, fun _ => some (.zero _)⟩ (txt "a=1\na=2\n") =
      [⟨[], txt "a", txt "1"⟩, ⟨[], txt "a", txt "2"⟩] := by decide
  have hslots : slotsOf [⟨[], txt "a", txt "1"⟩, ⟨[], txt "a", txt "2"⟩] =
      [⟨[], [(txt "a", txt "2"), (txt "a", txt "1")]⟩] := rfl
  have hd : Dumpable [⟨[], [(txt "a", txt "2"), (txt "a", txt "1")]⟩] := by
    refine ⟨by decide, by decide, by decide, ?_, by decide⟩
    intro s hs x hx
    obtain rfl := List.mem_singleton.mp hs
    refine ⟨txt "a", ?_, by decide⟩
    have hnames : ∀ x ∈ [(txt "a", txt "2"), (txt "a", txt "1")], x.1 = putKey [] ++ txt "a" := by decide
    exact hnames x hx
  have hback := h _ _ c rfl hload
  rw [Dumpable.dumpsBack_iff rfl hload (by rw [hbuilt, hslots]; exact hd), hbuilt, DumpsInOrder, hslots] at hback
  exact absurd (hback (txt "a")) (by decide)

end Back

end VfsOss
