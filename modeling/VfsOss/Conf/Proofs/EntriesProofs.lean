import VfsOss.Conf.Proofs.LoadProofs

/-!
# The loader and the store

What a load has put is told chain by chain: each entry that memory was found for is in front of its chain. A load
that comes back and has put every entry of the file met entries the store was up to.
-/

namespace VfsOss

open CLib

section Puts

variable {env : LoadEnv} {n : Nat} {e : ConfEntry} {es es' : List ConfEntry} {c c' : ConfLists}
  {heap : Option (CharArray valRoom)} {pre key val : Bytes}

theorem putListed_returns_iff :
    (∃ c', putListed heap pre key val c = .ok c') ↔ (heap ≠ none → PutFits pre val c.conf.prelist) := by
  have hput : (∃ c', putListed heap pre key val c = .ok c') ↔ ∃ r, myconfigPutValue heap pre key val c.conf = .ok r := by
    constructor
    · rintro ⟨c', hc'⟩
      obtain ⟨r, hr, -⟩ := bind_ok_iff.mp hc'
      exact ⟨r, hr⟩
    · rintro ⟨r, hr⟩
      exact ⟨_, bind_ok_iff.mpr ⟨r, hr, rfl⟩⟩
  rw [hput]
  cases heap with
  | none => exact ⟨fun _ h => absurd rfl h, fun _ => ⟨_, rfl⟩⟩
  | some heap =>
    rw [ConfStore.putValue_returns_iff]
    exact ⟨fun h _ => h, fun h => h (Option.some_ne_none heap)⟩

/-- A delete comes back when what it removes is linked, and leaves the prefixes. -/
theorem deleteListed_returns_iff : (∃ c', deleteListed pre key c = .ok c') ↔
    ∀ mc ∈ c.conf.hlist (deleteKey (pre ++ key)), mc.hasKey (deleteKey (pre ++ key)) → mc.preList ≠ none := by
  constructor
  · rintro ⟨c', hc'⟩
    obtain ⟨r, hr, -⟩ := bind_ok_iff.mp hc'
    obtain ⟨l, hl, -⟩ := bind_ok_iff.mp hr
    exact (ConfStore.deleteLoop_ok_iff.mp hl).1
  · intro hlinked
    exact ⟨_, bind_ok_iff.mpr ⟨_, bind_ok_iff.mpr ⟨_, ConfStore.deleteLoop_ok_iff.mpr ⟨hlinked, rfl⟩, rfl⟩, rfl⟩⟩

theorem prelist_deleteListed (h : deleteListed pre key c = .ok c') : c'.conf.prelist = c.conf.prelist := by
  obtain ⟨r, hr, heq⟩ := bind_ok_iff.mp h
  obtain ⟨l, -, hr⟩ := bind_ok_iff.mp hr
  obtain rfl := Except.ok.inj heq
  obtain rfl := Except.ok.inj hr
  rfl

/-- **An entry the store is up to** comes back, and on the first load memory is found for it. -/
theorem entryFits_iff : EntryFits env n e c.conf ↔
    (∃ c', putEntry env n e c = .ok c') ∧ (env.inited = false → env.malloc n ≠ none) := by
  unfold EntryFits putEntry
  by_cases hinited : env.inited = true
  · rw [if_pos hinited, if_neg (by simp [hinited]), and_iff_left fun h => absurd (hinited.symm.trans h) (by decide)]
    by_cases hkey : e.key ∈ env.reloadKey
    · rw [if_pos (by simpa using hkey), forall_prop_of_true hkey, ← deleteListed_returns_iff]
      constructor
      · rintro ⟨⟨c₁, hc₁⟩, hfits⟩
        rw [← prelist_deleteListed hc₁, ← putListed_returns_iff] at hfits
        obtain ⟨c', hc'⟩ := hfits
        exact ⟨c', bind_ok_iff.mpr ⟨c₁, hc₁, hc'⟩⟩
      · rintro ⟨c', hc'⟩
        obtain ⟨c₁, hc₁, hc'⟩ := bind_ok_iff.mp hc'
        rw [← prelist_deleteListed hc₁, ← putListed_returns_iff]
        exact ⟨⟨c₁, hc₁⟩, c', hc'⟩
    · rw [if_neg (by simpa using hkey)]
      exact ⟨fun _ => ⟨c, rfl⟩, fun _ h => absurd h hkey⟩
  · have hfirst : env.inited = false := Bool.eq_false_iff.mpr hinited
    rw [if_neg hinited, if_pos (by simp [hfirst]), forall_prop_of_true hfirst, putListed_returns_iff]
    exact ⟨fun ⟨hheap, hfits⟩ => ⟨fun _ => hfits, hheap⟩, fun ⟨hfits, hheap⟩ => ⟨hheap, hfits hheap⟩⟩

theorem storedEntries_sublist (malloc : Nat → Option (CharArray valRoom)) (n : Nat) (es : List ConfEntry) :
    (storedEntries malloc n es).Sublist es := by
  induction es generalizing n with
  | nil => exact List.Sublist.slnil
  | cons e es ih =>
    rw [storedEntries]
    split
    · exact (ih (n + 1)).cons_cons e
    · exact (ih (n + 1)).cons e

/-- **Entries the store is up to** come back, and on the first load memory is found for all of them. -/
theorem entriesFit_iff : EntriesFit env n es c ↔
    (∃ c', putEntries env n es c = .ok c') ∧ (env.inited = false → storedEntries env.malloc n es = es) := by
  induction es generalizing n c with
  | nil => exact ⟨fun _ => ⟨⟨c, rfl⟩, fun _ => rfl⟩, fun _ => trivial⟩
  | cons e es ih =>
    rw [EntriesFit, entryFits_iff]
    constructor
    · rintro ⟨⟨⟨c₁, hc₁⟩, hheap⟩, hrest⟩
      obtain ⟨⟨c', hc'⟩, hall⟩ := ih.mp (hrest c₁ hc₁)
      refine ⟨⟨c', bind_ok_iff.mpr ⟨c₁, hc₁, hc'⟩⟩, fun hfirst => ?_⟩
      rw [storedEntries, if_pos (Option.isSome_iff_ne_none.mpr (hheap hfirst)), hall hfirst]
    · rintro ⟨⟨c', hc'⟩, hall⟩
      obtain ⟨c₁, hc₁, hc'⟩ := bind_ok_iff.mp hc'
      have hstored (hfirst : env.inited = false) :
          env.malloc n ≠ none ∧ storedEntries env.malloc (n + 1) es = es := by
        have hall := hall hfirst
        rw [storedEntries] at hall
        split at hall
        · next hsome => exact ⟨Option.isSome_iff_ne_none.mp hsome, (List.cons.inj hall).2⟩
        · -- one entry less cannot be all of them
          have hle := (storedEntries_sublist env.malloc (n + 1) es).length_le
          rw [hall, List.length_cons] at hle
          omega
      refine ⟨⟨⟨c₁, hc₁⟩, fun hfirst => (hstored hfirst).1⟩, fun c₂ hc₂ => ?_⟩
      obtain rfl := Except.ok.inj (hc₁.symm.trans hc₂)
      exact ih.mpr ⟨⟨c', hc'⟩, fun hfirst => (hstored hfirst).2⟩

theorem PutsExactly.nil (c : ConfStore) : PutsExactly [] c c := fun _ => ⟨[], rfl, rfl⟩

theorem PutsExactly.append {c c' c'' : ConfStore} (h : PutsExactly es c c') (h' : PutsExactly es' c' c'') :
    PutsExactly (es ++ es') c c'' := fun b => by
  obtain ⟨new, hnew, htold⟩ := h b
  obtain ⟨new', hnew', htold'⟩ := h' b
  refine ⟨new' ++ new, by rw [hnew', hnew, List.append_assoc], ?_⟩
  rw [List.reverse_append, List.map_append, htold, htold', List.filter_append, List.map_append]

/-- One entry is put in front of the chain of its name. -/
theorem putListed_puts {heap : CharArray valRoom} (h0 : (0 : UInt8) ∉ e.val)
    (h : putListed (some heap) e.pre e.key e.val c = .ok c') : PutsExactly [e] c.conf c'.conf := fun b => by
  obtain ⟨r, hr, heq⟩ := bind_ok_iff.mp h
  obtain ⟨block, hblock, u, -, rfl⟩ := ConfStore.putValue_ok_iff.mp hr
  obtain rfl := Except.ok.inj heq
  have htext := CharArray.text_copy h0 hblock
  show ∃ new, Function.update c.conf.myhash (confIndex e.name) _ b = _ ∧ _
  by_cases hb : b = confIndex e.name
  · subst hb
    rw [Function.update_self, List.filter_cons_of_pos (by simp)]
    refine ⟨[⟨u.1, r5hash e.name, block, -1, e.name⟩], rfl, ?_⟩
    rw [List.reverse_singleton, List.map_singleton, List.filter_nil, List.map_singleton, htext]
  · rw [Function.update_of_ne hb, List.filter_cons_of_neg (by simpa using fun h => hb h.symm)]
    exact ⟨[], rfl, rfl⟩

/-- **A first load that comes back** has put the entries that memory was found for. -/
theorem putEntries_puts (hfirst : env.inited = false) (h0 : ∀ e ∈ es, (0 : UInt8) ∉ e.val)
    (h : putEntries env n es c = .ok c') : PutsExactly (storedEntries env.malloc n es) c.conf c'.conf := by
  induction es generalizing n c with
  | nil =>
    obtain rfl := Except.ok.inj h
    exact .nil _
  | cons e es ih =>
    obtain ⟨c₁, hput, hrest⟩ := bind_ok_iff.mp h
    have hrest := ih (fun e' he' => h0 e' (List.mem_cons_of_mem _ he')) hrest
    unfold putEntry at hput
    rw [if_pos (by simp [hfirst])] at hput
    rw [storedEntries]
    cases hheap : env.malloc n with
    | none =>
      rw [hheap] at hput
      obtain rfl := Except.ok.inj hput
      exact hrest
    | some heap =>
      rw [hheap] at hput
      exact (putListed_puts (h0 e List.mem_cons_self) hput).append hrest

/-- As many entries in every chain are as many entries. -/
theorem eq_of_sublist {b : ConfEntry → Fin 256} (h : es'.Sublist es)
    (hcount : ∀ i, (es'.filter (b · = i)).length = (es.filter (b · = i)).length) : es' = es := by
  induction h with
  | slnil => rfl
  | cons e hsub ih =>
    have hle := (hsub.filter (b · = b e)).length_le
    have hcount := hcount (b e)
    rw [List.filter_cons_of_pos (by simp), List.length_cons] at hcount
    omega
  | cons_cons e hsub ih =>
    rw [ih fun i => ?_]
    have hcount := hcount i
    by_cases hi : b e = i
    · rw [List.filter_cons_of_pos (by simpa using hi), List.filter_cons_of_pos (by simpa using hi), List.length_cons,
        List.length_cons] at hcount
      exact Nat.succ.inj hcount
    · rwa [List.filter_cons_of_neg (by simpa using hi), List.filter_cons_of_neg (by simpa using hi)] at hcount

/-- What was put is told by the store. -/
theorem PutsExactly.eq {c c' : ConfStore} (h : PutsExactly es c c') (h' : PutsExactly es' c c')
    (hsub : es'.Sublist es) : es' = es := by
  refine eq_of_sublist (b := fun e => confIndex e.name) hsub fun i => ?_
  obtain ⟨new, hnew, htold⟩ := h i
  obtain ⟨new', hnew', htold'⟩ := h' i
  have hsame : new' = new := List.append_cancel_right (hnew'.symm.trans hnew)
  rw [hsame] at htold'
  have hlen := congrArg List.length (htold'.symm.trans htold)
  rwa [List.length_map, List.length_map] at hlen

end Puts

section Files

variable {env : LoadEnv} {content part rest line pre pre' : Bytes} {lines lines' : List Bytes} {e : ConfEntry}
  {c : ConfLists}

/-- The bytes of a line are those of its file that end no line. -/
theorem mem_line (h : line ∈ content.splitOn 10) {b : UInt8} (hb : b ∈ line) : b ∈ content ∧ b ≠ 10 := by
  induction content using split_induction (p := fun b : UInt8 => b == 10) with
  | last xs hxs =>
    have h10 : (10 : UInt8) ∉ xs := fun hmem => by simpa using hxs 10 hmem
    rw [List.splitOn_eq_singleton h10, List.mem_singleton] at h
    subst h
    exact ⟨hb, fun heq => h10 (heq ▸ hb)⟩
  | cons xs d rest hxs hd ih =>
    have h10 : (10 : UInt8) ∉ xs := fun hmem => by simpa using hxs 10 hmem
    obtain rfl : d = 10 := by simpa using hd
    rw [List.splitOn_append_cons_self_of_not_mem h10] at h
    rcases List.mem_cons.mp h with rfl | h
    · exact ⟨List.mem_append_left _ hb, fun heq => h10 (heq ▸ hb)⟩
    · exact ⟨List.mem_append_right _ (List.mem_cons_of_mem _ (ih h).1), (ih h).2⟩

theorem mem_valueText {s : Bytes} {b : UInt8} (hb : b ∈ valueText s) : b ∈ s :=
  (List.dropWhile_suffix _).mem ((List.dropWhile_suffix _).mem ((List.dropWhile_suffix _).mem
    ((List.rdropWhile_prefix _ _).mem hb)))

/-- A line with an entry. -/
theorem entryOf_of_confLine {key val : Bytes} (h : confLine line = .entry key val) :
    entryOf (line.dropWhile isBlank) = some (key, val) := by
  match hs : line.dropWhile isBlank with
  | [] =>
    rw [confLine, hs] at h
    exact nomatch h
  | b :: s =>
    rw [confLine_eq hs] at h
    split at h
    · split at h
      · exact nomatch h
      · exact nomatch h
    · split at h
      · exact nomatch h
      · cases hentry : entryOf (b :: s) with
        | none =>
          rw [hentry] at h
          exact nomatch h
        | some kv =>
          rw [hentry] at h
          injection h with hkey hval
          rw [← hkey, ← hval]

/-- What an entry is made of. -/
theorem entryOf_eq_some {s key val : Bytes} (h : entryOf s = some (key, val)) :
    key = s.takeWhile isKeyByte ∧ val = valueText (s.dropWhile isKeyByte) ∧ s.head?.any isAlnum = true ∧ val ≠ [] := by
  unfold entryOf at h
  dsimp only at h
  split at h
  · next hcond =>
    obtain ⟨rfl, rfl⟩ := Prod.mk.inj (Option.some.inj h)
    have hcond : s.head?.any isAlnum = true ∧ valueText (s.dropWhile isKeyByte) ≠ [] := by simpa using hcond
    exact ⟨rfl, rfl, hcond⟩
  · exact nomatch h

/-- An entry of some lines is the entry of one of them. -/
theorem mem_entriesBelow (he : e ∈ entriesBelow pre lines) :
    ∃ line ∈ lines, confLine line = .entry e.key e.val := by
  induction lines generalizing pre with
  | nil => exact absurd he List.not_mem_nil
  | cons line lines ih =>
    rw [entriesBelow] at he
    rcases List.mem_append.mp he with he | he
    · refine ⟨line, List.mem_cons_self, ?_⟩
      unfold lineEntries at he
      split at he
      · next key val hline =>
        obtain rfl := List.mem_singleton.mp he
        exact hline
      · exact absurd he List.not_mem_nil
    · obtain ⟨line', hmem, hline⟩ := ih he
      exact ⟨line', List.mem_cons_of_mem _ hmem, hline⟩

theorem fileEntries_free (h0 : (0 : UInt8) ∉ content) (he : e ∈ fileEntries content) : (0 : UInt8) ∉ e.val := by
  obtain ⟨line, hmem, hline⟩ := mem_entriesBelow he
  obtain ⟨-, hval, -⟩ := entryOf_eq_some (entryOf_of_confLine hline)
  intro h
  rw [hval] at h
  exact h0 (mem_line hmem ((List.dropWhile_suffix _).mem ((List.dropWhile_suffix _).mem (mem_valueText h)))).1

theorem entriesBelow_lines (pre : Bytes) (lines lines' : List Bytes) : ∃ pre', entriesBelow pre (lines ++ lines') =
    entriesBelow pre lines ++ entriesBelow pre' lines' := by
  induction lines generalizing pre with
  | nil => exact ⟨pre, rfl⟩
  | cons line lines ih =>
    obtain ⟨pre', hpre'⟩ := ih (sectionBelow pre line)
    refine ⟨pre', ?_⟩
    rw [List.cons_append, entriesBelow, hpre', entriesBelow, List.append_assoc]

/-- Whether a line has an entry is not told by its section. -/
theorem entriesBelow_eq_nil (h : entriesBelow pre lines = []) (pre' : Bytes) : entriesBelow pre' lines = [] := by
  induction lines generalizing pre pre' with
  | nil => rfl
  | cons line lines ih =>
    rw [entriesBelow, List.append_eq_nil_iff] at h
    rw [entriesBelow, ih h.2, List.append_nil, lineEntries]
    have hline := h.1
    unfold lineEntries at hline
    cases hc : confLine line with
    | entry key val =>
      rw [hc] at hline
      cases hline
    | other => rfl
    | sect pre => rfl

/-- The entries of a file whose first lines all end. -/
theorem fileEntries_append (hended : Ended part) (rest : Bytes) : ∃ pre,
    fileEntries (part ++ rest) = fileEntries part ++ entriesBelow pre (rest.splitOn 10) := by
  rcases hended with rfl | ⟨-, hlast⟩
  · exact ⟨[], rfl⟩
  · obtain ⟨p, rfl⟩ := List.getLast?_eq_some_iff.mp hlast
    have hsplit : (p ++ [10] ++ rest).splitOn 10 = p.splitOn 10 ++ rest.splitOn 10 := by
      rw [List.append_assoc]
      exact List.splitOn_append_cons_self p rest
    have hpart : fileEntries (p ++ [10]) = entriesBelow [] (p.splitOn 10) := by
      obtain ⟨pre, hpre⟩ := entriesBelow_lines [] (p.splitOn 10) ([].splitOn 10)
      rw [fileEntries, List.splitOn_append_cons_self, hpre]
      exact List.append_nil _
    obtain ⟨pre, hpre⟩ := entriesBelow_lines [] (p.splitOn 10) (rest.splitOn 10)
    exact ⟨pre, by rw [hpart, fileEntries, hsplit, hpre]⟩

/-- What is read holds no NUL, so the values do not either. -/
theorem ended_free (hended : Ended part) (he : e ∈ fileEntries part) : (0 : UInt8) ∉ e.val := by
  rcases hended with rfl | ⟨h0, -⟩
  · exact absurd he List.not_mem_nil
  · exact fileEntries_free h0 he

/-- A load that comes back from a file it can read has put its entries exactly when the store is up to them. -/
theorem readsAll_iff (hread : ¬ Refused env content.length) :
    LoadsAll env content c ↔ ReadFits env (filePart content) (fileRest content) c := by
  have hwhole : filePart content ++ fileRest content = content := List.take_append_drop _ content
  have hzero : LoadsAll env content c ↔ ∃ c', myconfigLoadfile0 env (some content) c = .ok (0, c') ∧
      (env.inited = false → PutsExactly (fileEntries content) c.conf c'.conf) :=
    ⟨fun ⟨_, c', hload, hputs⟩ => ⟨c', loadfile_zero hread hload ▸ hload, hputs⟩, fun h => ⟨0, h⟩⟩
  rw [hzero]
  simp only [loadfile_ok_iff]
  obtain ⟨hmmap, hlen⟩ := mapped_of_not_refused hread
  generalize filePart content = part at hwhole
  generalize fileRest content = rest at hwhole
  constructor
  · rintro ⟨c', ⟨-, -, hgot, hended, hput⟩, hputs⟩
    obtain ⟨pre, hsplit⟩ := fileEntries_append hended rest
    rw [hwhole] at hsplit
    have hsub := storedEntries_sublist env.malloc 0 (fileEntries part)
    have hall (hfirst : env.inited = false) : storedEntries env.malloc 0 (fileEntries part) =
        fileEntries part ++ entriesBelow pre (rest.splitOn 10) := by
      rw [← hsplit]
      refine (hputs hfirst).eq (putEntries_puts hfirst (fun e he => ended_free hended he) hput) ?_
      rw [hsplit]
      exact hsub.trans (List.sublist_append_left _ _)
    -- nothing is missing, so memory was found for all entries and no others are behind
    have hnone (hfirst : env.inited = false) : entriesBelow pre (rest.splitOn 10) = [] := by
      have hle := hsub.length_le
      rw [hall hfirst, List.length_append] at hle
      exact List.eq_nil_of_length_eq_zero (by omega)
    refine ⟨hgot, hended, entriesFit_iff.mpr ⟨⟨c', hput⟩, fun hfirst => ?_⟩, fun hfirst => ?_⟩
    · rw [hall hfirst, hnone hfirst, List.append_nil]
    · exact entriesBelow_eq_nil (hnone hfirst) []
  · rintro ⟨hgot, hended, hfits, hrest⟩
    obtain ⟨⟨c', hput⟩, hstored⟩ := entriesFit_iff.mp hfits
    refine ⟨c', ⟨hmmap, hlen, hgot, hended, hput⟩, fun hfirst => ?_⟩
    obtain ⟨pre, hsplit⟩ := fileEntries_append hended rest
    rw [hwhole, entriesBelow_eq_nil (hrest hfirst) pre, List.append_nil] at hsplit
    have hputs := putEntries_puts hfirst (fun e he => ended_free hended he) hput
    rwa [hstored hfirst, ← hsplit] at hputs

/-- A load that is refused comes back and puts nothing. -/
theorem refusedAll_iff (href : Refused env content.length) :
    LoadsAll env content c ↔ (env.inited = false → fileEntries content = []) := by
  have hload := loadfile_refused (c := c) href
  constructor
  · rintro ⟨r, c', hback, hputs⟩ hfirst
    obtain rfl : c = c' := congrArg Prod.snd (Except.ok.inj (hload.symm.trans hback))
    exact ((hputs hfirst).eq (.nil _) (List.nil_sublist _)).symm
  · intro hnone
    exact ⟨-1, c, hload, fun hfirst => hnone hfirst ▸ .nil _⟩

/-- **The loader is total** and puts the entries of its file exactly when it is refused and need not put any, or all
lines of what it reads end and the store is up to the entries. -/
theorem loadsAll_iff (env : LoadEnv) (content : Bytes) (c : ConfLists) :
    LoadsAll env content c ↔ LoadFits env content c := by
  by_cases href : Refused env content.length
  · rw [refusedAll_iff href]
    exact ⟨fun h => ⟨fun _ => h, fun hread => absurd href hread⟩, fun h => h.refused href⟩
  · rw [readsAll_iff href]
    exact ⟨fun h => ⟨fun h' => absurd h' href, fun _ => h⟩, fun h => h.read href⟩

/-- A file whose last line does not end: behind that line the pointer is a null pointer. -/
theorem not_loadsAll : ¬ ∀ content : Bytes,
    LoadsAll ⟨false, [], true, some content.length, fun _ => some (.zero _)⟩ content .init := fun h => by
  have hread := (readsAll_iff (by unfold Refused; decide)).mp (h (txt "a=1"))
  rcases hread.ended with hnil | ⟨-, hlast⟩
  · exact absurd hnil (by decide)
  · exact absurd hlast (by decide)

end Files

end VfsOss
