import VfsOss.Conf.Dump
import VfsOss.Conf.Proofs.EntriesProofs

/-!
# The lists of the prefixes

The prefixes in use and what their lists hold are those of the slots of the entries that were put, as long as there is
room for all of them.
-/

namespace VfsOss

open CLib

section Slots

variable {pre name val : Bytes} {slots : List Slot} {s t : Slot} {es : List ConfEntry}

/-- What the list of a number holds. -/
def heldAt (slots : List Slot) (i : Nat) : List (Bytes × Bytes) := slots[i]?.elim [] (·.entries)

theorem length_le_addSlot : slots.length ≤ (addSlot pre name val slots).length := by
  induction slots with
  | nil => exact Nat.zero_le _
  | cons s slots ih =>
    rw [addSlot]
    split
    · exact Nat.le_refl _
    · exact Nat.succ_le_succ ih

/-- The prefixes stay, and one of them starts with the new one. -/
theorem pre_addSlot (pre name val : Bytes) (slots : List Slot) : (∀ s ∈ slots, ∃ t ∈ addSlot pre name val slots, t.pre = s.pre) ∧
    ∃ t ∈ addSlot pre name val slots, pre <+: t.pre := by
  induction slots with
  | nil => exact ⟨nofun, _, List.mem_cons_self, List.prefix_refl pre⟩
  | cons s slots ih =>
    rw [addSlot]
    split
    · next h =>
      refine ⟨fun t ht => ?_, _, List.mem_cons_self, h⟩
      rcases List.mem_cons.mp ht with rfl | ht
      · exact ⟨_, List.mem_cons_self, rfl⟩
      · exact ⟨t, List.mem_cons_of_mem _ ht, rfl⟩
    · obtain ⟨hstay, u, hu, hpre⟩ := ih
      refine ⟨fun t ht => ?_, u, List.mem_cons_of_mem _ hu, hpre⟩
      rcases List.mem_cons.mp ht with rfl | ht
      · exact ⟨_, List.mem_cons_self, rfl⟩
      · obtain ⟨t', ht', heq⟩ := hstay t ht
        exact ⟨t', List.mem_cons_of_mem _ ht', heq⟩

/-- The slots after some more entries. -/
abbrev addSlots (slots : List Slot) (es : List ConfEntry) : List Slot :=
  es.foldl (fun slots e => addSlot e.pre e.name e.val slots) slots

theorem length_le_addSlots (es : List ConfEntry) (slots : List Slot) : slots.length ≤ (addSlots slots es).length := by
  induction es generalizing slots with
  | nil => exact Nat.le_refl _
  | cons e es ih => exact length_le_addSlot.trans (ih _)

theorem pre_addSlots (es : List ConfEntry) (h : s ∈ slots) : ∃ t ∈ addSlots slots es, t.pre = s.pre := by
  induction es generalizing slots s with
  | nil => exact ⟨s, h, rfl⟩
  | cons e es ih =>
    obtain ⟨t, ht, hts⟩ := (pre_addSlot e.pre e.name e.val slots).1 s h
    obtain ⟨u, hu, hut⟩ := ih ht
    exact ⟨u, hu, hut.trans hts⟩

/-- A property of the slots that every entry keeps. -/
theorem addSlots_induction {P : List Slot → Prop} (es : List ConfEntry) {slots : List Slot} (h0 : P slots)
    (hstep : ∀ e ∈ es, ∀ slots, P slots → P (addSlot e.pre e.name e.val slots)) : P (addSlots slots es) := by
  induction es generalizing slots with
  | nil => exact h0
  | cons e es ih =>
    exact ih (hstep e List.mem_cons_self slots h0) fun e' he' => hstep e' (List.mem_cons_of_mem _ he')

/-- No prefix is the start of one before it. -/
def PresApart (slots : List Slot) : Prop := slots.Pairwise fun s t => ¬ t.pre <+: s.pre

theorem mem_addSlot (h : t ∈ addSlot pre name val slots) :
    (∃ s ∈ slots, t.pre = s.pre) ∨ t.pre = pre := by
  induction slots with
  | nil => exact .inr (List.mem_singleton.mp h ▸ rfl)
  | cons s slots ih =>
    rw [addSlot] at h
    split at h
    · rcases List.mem_cons.mp h with rfl | h
      · exact .inl ⟨s, List.mem_cons_self, rfl⟩
      · exact .inl ⟨t, List.mem_cons_of_mem _ h, rfl⟩
    · rcases List.mem_cons.mp h with rfl | h
      · exact .inl ⟨t, List.mem_cons_self, rfl⟩
      · rcases ih h with ⟨u, hu, heq⟩ | heq
        · exact .inl ⟨u, List.mem_cons_of_mem _ hu, heq⟩
        · exact .inr heq

theorem PresApart.addSlot (h : PresApart slots) : PresApart (addSlot pre name val slots) := by
  induction slots with
  | nil => exact List.pairwise_singleton _ _
  | cons s slots ih =>
    obtain ⟨hs, hrest⟩ := List.pairwise_cons.mp h
    rw [VfsOss.addSlot]
    split
    · exact List.pairwise_cons.mpr ⟨hs, hrest⟩
    · next hnot =>
      refine List.pairwise_cons.mpr ⟨fun t ht => ?_, ih hrest⟩
      rcases mem_addSlot ht with ⟨u, hu, heq⟩ | heq
      · rw [heq]
        exact hs u hu
      · rw [heq]
        exact hnot

/-- Only the first prefix can be empty. -/
theorem PresApart.ne_nil (h : PresApart (s :: slots)) (ht : t ∈ slots) : t.pre ≠ [] := fun hnil =>
  (List.pairwise_cons.mp h).1 t ht (hnil ▸ List.nil_prefix)

end Slots

section PreListed

variable {pre name val : Bytes} {slots : List Slot} {s : Slot} {plist : Prehash} {used : List Prehash} {e : ConfEntry}
  {es : List ConfEntry} {c c' : ConfLists} {log : ConfLog} {env : LoadEnv} {n : Nat}

/-- A prefix list in use has the prefix of its slot, with a NUL behind. -/
structure Prehash.Holds (plist : Prehash) (s : Slot) : Prop where
  used : plist.used = true
  ended : (0 : UInt8) ∈ plist.pre.1
  text : cstr plist.pre.1 = s.pre

/-- A prefix list that was never in use. -/
abbrev unusedList : Prehash := ⟨.zero 20, false⟩

theorem Prehash.Holds.preText (h : plist.Holds s) : plist.preText = s.pre := by
  rw [Prehash.preText, cstr_append_of_mem h.ended, h.text]

theorem Prehash.Holds.hasPre (h : plist.Holds s) : plist.hasPre pre = decide (pre <+: s.pre) := by
  rw [← h.preText]
  rfl

/-- The start of the prefix copied over it. -/
theorem Prehash.Holds.copy (h : plist.Holds s) (hpre : pre <+: s.pre) : plist.pre.copy pre = .ok plist.pre := by
  have hstart : pre <+: plist.pre.1 := (h.text ▸ hpre).trans (List.takeWhile_prefix _)
  obtain ⟨text, htext⟩ := CharArray.copy_ok_iff (a := plist.pre).mpr (hstart.length_le.trans_eq plist.pre.2)
  have hsame : text = plist.pre := by
    refine Subtype.ext ?_
    rw [CharArray.copy_eq htext]
    exact (List.prefix_iff_eq_append.mp hstart)
  rw [htext, hsame]

/-- A prefix taken into use. -/
theorem Prehash.holds_copy (entries : List (Bytes × Bytes)) (hlen : pre.length < 20) (h0 : (0 : UInt8) ∉ pre) :
    ∃ text, unusedList.pre.copy pre = .ok text ∧ Prehash.Holds ⟨text, true⟩ ⟨pre, entries⟩ := by
  obtain ⟨text, htext⟩ := CharArray.copy_ok_iff (a := unusedList.pre).mpr hlen.le
  have hbytes : text.1 = pre ++ 0 :: List.replicate (19 - pre.length) 0 := by
    rw [CharArray.copy_eq htext, ← List.replicate_succ]
    show pre ++ (List.replicate 20 0).drop pre.length = _
    rw [List.drop_replicate]
    congr 2
    omega
  refine ⟨text, htext, rfl, ?_, ?_⟩
  · show (0 : UInt8) ∈ text.1
    rw [hbytes]
    exact List.mem_append_right _ List.mem_cons_self
  · show cstr text.1 = pre
    rw [hbytes, cstr_append_zero h0]

/-- **The search for a prefix** takes the list of its slot into use, as long as there is room. -/
theorem usePrefix_slots (hused : List.Forall₂ Prehash.Holds used slots) (hlen : pre.length < 20)
    (h0 : (0 : UInt8) ∉ pre) {m : Nat} (hroom : (addSlot pre name val slots).length ≤ slots.length + m) (i : Nat) :
    ∃ j used' m', usePrefix pre i (used ++ List.replicate m unusedList) =
        .ok (some (i + j), used' ++ List.replicate m' unusedList) ∧
      List.Forall₂ Prehash.Holds used' (addSlot pre name val slots) ∧
      (addSlot pre name val slots).length + m' = slots.length + m ∧
      ∀ k, heldAt (addSlot pre name val slots) k = if k = j then (name, val) :: heldAt slots k else heldAt slots k := by
  induction hused generalizing i with
  | nil =>
    rw [addSlot] at hroom ⊢
    obtain ⟨m, rfl⟩ : ∃ k, m = k + 1 := ⟨m - 1, by simp at hroom; omega⟩
    obtain ⟨text, htext, hholds⟩ := Prehash.holds_copy [(name, val)] hlen h0
    refine ⟨0, [⟨text, true⟩], m, ?_, .cons hholds .nil, by simp [Nat.add_comm], fun k => ?_⟩
    · have hhas : (!unusedList.used || unusedList.hasPre pre) = true := rfl
      rw [List.nil_append, List.replicate_succ, usePrefix, if_pos hhas, htext]
      rfl
    · cases k with
      | zero => rfl
      | succ k => rfl
  | @cons plist s used slots hholds hused ih =>
    rw [addSlot] at hroom ⊢
    by_cases hpre : pre <+: s.pre
    · have hhas : (!plist.used || plist.hasPre pre) = true := by
        rw [hholds.hasPre, decide_eq_true hpre, Bool.or_true]
      rw [if_pos hpre]
      refine ⟨0, plist :: used, m, ?_, .cons ⟨hholds.used, hholds.ended, hholds.text⟩ hused, rfl, fun k => ?_⟩
      · rw [List.cons_append, usePrefix, if_pos hhas, hholds.copy hpre, ok_bind, ← hholds.used]
        rfl
      · cases k with
        | zero => rfl
        | succ k => rfl
    · have hhas : ¬ (!plist.used || plist.hasPre pre) = true := by
        rw [hholds.hasPre, hholds.used, decide_eq_false hpre]
        decide
      rw [if_neg hpre] at hroom ⊢
      rw [List.length_cons, List.length_cons] at hroom
      obtain ⟨j, used', m', hfound, hused', hlen', hheld⟩ := ih (by omega) (i + 1)
      refine ⟨j + 1, plist :: used', m', ?_, .cons hholds hused', ?_, fun k => ?_⟩
      · rw [List.cons_append, usePrefix, if_neg hhas, hfound, Nat.add_assoc, Nat.add_comm 1 j]
        rfl
      · rw [List.length_cons, List.length_cons]
        omega
      · cases k with
        | zero => rfl
        | succ k => simpa [heldAt] using hheld k

/-- What an entry of a list tells. -/
def told (mc : Myconfig) : Bytes × Except MemFault Bytes := (mc.key, mc.val.text)

/-- The prefixes in use and their lists are those of the slots. -/
structure PreListed (slots : List Slot) (c : ConfLists) : Prop where
  prelist : ∃ used m, List.Forall₂ Prehash.Holds used slots ∧
    c.conf.prelist = used ++ List.replicate m unusedList ∧ slots.length + m = 256
  lists : ∀ i, (c.lists i).map told = (heldAt slots i).map fun e => (e.1, .ok e.2)

theorem PreListed.init : PreListed [] .init where
  prelist := ⟨[], 256, .nil, rfl, rfl⟩
  lists := fun _ => rfl

/-- A put that finds a list for its prefix. -/
theorem putListed_eq {heap block : CharArray valRoom} {j : Nat} {lists : List Prehash}
    (hblock : heap.copy (e.val ++ [0]) = .ok block) (hfound : usePrefix e.pre 0 c.conf.prelist = .ok (some j, lists)) :
    putListed (some heap) e.pre e.key e.val c =
      .ok ⟨{ c.conf.setHlist e.name (⟨some j, r5hash e.name, block, -1, e.name⟩ :: c.conf.hlist e.name) with
          prelist := lists }, addPreList c.lists ⟨some j, r5hash e.name, block, -1, e.name⟩⟩ := by
  have hput : myconfigPutValue (some heap) e.pre e.key e.val c.conf = .ok _ :=
    ConfStore.putValue_ok_iff.mpr ⟨block, hblock, (some j, lists), hfound, rfl⟩
  have hchain : ConfStore.hlist { c.conf.setHlist e.name (⟨some j, r5hash e.name, block, -1, e.name⟩ ::
      c.conf.hlist e.name) with prelist := lists } e.name =
        ⟨some j, r5hash e.name, block, -1, e.name⟩ :: c.conf.hlist e.name := ConfStore.hlist_setHlist_self
  unfold putListed
  rw [hput, ok_bind]
  dsimp only
  rw [if_neg (Option.some_ne_none j), if_pos rfl]
  exact congrArg (fun l => Except.ok (ConfLists.mk _ (l.head?.elim c.lists (addPreList c.lists)))) hchain

/-- **An entry that is put** goes to the list of its slot. -/
theorem PreListed.put (h : PreListed slots c) {heap : CharArray valRoom}
    (hroom : (addSlot e.pre e.name e.val slots).length ≤ 256) (hlen : e.pre.length < 20)
    (h0pre : (0 : UInt8) ∉ e.pre) (h0val : (0 : UInt8) ∉ e.val)
    (hput : putListed (some heap) e.pre e.key e.val c = .ok c') : PreListed (addSlot e.pre e.name e.val slots) c' := by
  obtain ⟨r, hr, -⟩ := bind_ok_iff.mp hput
  obtain ⟨block, hblock, -⟩ := ConfStore.putValue_ok_iff.mp hr
  have htext := CharArray.text_copy h0val hblock
  obtain ⟨used, m, hused, hprelist, hm⟩ := h.prelist
  have hroom' : (addSlot e.pre e.name e.val slots).length ≤ slots.length + m := hm.symm ▸ hroom
  obtain ⟨j, used', m', hfound, hused', hm', hheld⟩ := usePrefix_slots hused hlen h0pre hroom' 0
  rw [← hprelist, Nat.zero_add] at hfound
  obtain rfl := Except.ok.inj ((putListed_eq hblock hfound).symm.trans hput)
  refine ⟨⟨used', m', hused', rfl, hm'.trans hm⟩, fun i => ?_⟩
  rw [hheld i]
  show List.map told (if some j = some i then _ else _) = _
  by_cases hi : i = j
  · subst hi
    rw [if_pos rfl, if_pos rfl, List.map_cons, h.lists i, List.map_cons, told, htext]
  · rw [if_neg fun h => hi (Option.some.inj h).symm, if_neg hi, h.lists i]

/-- **A first load** lists the entries it has put, as long as there is room. -/
theorem PreListed.load (h : PreListed slots c) (hfirst : env.inited = false)
    (h0 : ∀ e ∈ es, (0 : UInt8) ∉ e.pre ∧ (0 : UInt8) ∉ e.val)
    (hroom : (addSlots slots (storedEntries env.malloc n es)).length ≤ 256)
    (hshort : ∀ s ∈ addSlots slots (storedEntries env.malloc n es), s.pre.length < 20)
    (hput : putEntries env n es c = .ok c') : PreListed (addSlots slots (storedEntries env.malloc n es)) c' := by
  induction es generalizing slots c n with
  | nil =>
    obtain rfl := Except.ok.inj hput
    exact h
  | cons e es ih =>
    obtain ⟨c₁, hone, hrest⟩ := bind_ok_iff.mp hput
    have h0' : ∀ e' ∈ es, (0 : UInt8) ∉ e'.pre ∧ (0 : UInt8) ∉ e'.val := fun e' he' => h0 e' (List.mem_cons_of_mem _ he')
    unfold putEntry at hone
    rw [if_pos (by simp [hfirst])] at hone
    rw [storedEntries] at hroom hshort ⊢
    cases hheap : env.malloc n with
    | none =>
      rw [hheap] at hone hroom hshort
      obtain rfl := Except.ok.inj hone
      exact ih h h0' hroom hshort hrest
    | some heap =>
      rw [hheap] at hone hroom hshort
      have hlen : e.pre.length < 20 := by
        obtain ⟨t, ht, hpre⟩ := (pre_addSlot e.pre e.name e.val slots).2
        obtain ⟨u, hu, heq⟩ := pre_addSlots (storedEntries env.malloc (n + 1) es) ht
        exact (heq ▸ hpre.length_le).trans_lt (hshort u hu)
      obtain ⟨hfree, hfreeVal⟩ := h0 e List.mem_cons_self
      exact ih (h.put ((length_le_addSlots _ _).trans hroom) hlen hfree hfreeVal hone) h0' hroom hshort hrest

/-- A value that is put is the newest under its name, and was not too long. -/
theorem putListed_holds (hholds : c.conf.Holds log) {heap : CharArray valRoom} (h0 : (0 : UInt8) ∉ e.val)
    (hput : putListed (some heap) e.pre e.key e.val c = .ok c') :
    c'.conf.Holds (log ++ [(e.name, e.val)]) ∧ e.val.length < valRoom := by
  have hfits := putListed_returns_iff.mp ⟨c', hput⟩ (Option.some_ne_none heap)
  obtain ⟨r, hr, heq⟩ := bind_ok_iff.mp hput
  obtain ⟨block, hblock, u, -, rfl⟩ := ConfStore.putValue_ok_iff.mp hr
  obtain rfl := Except.ok.inj heq
  have hcons := hholds.cons ⟨u.1, r5hash e.name, block, -1, e.name⟩ rfl (putKey_idem _) (CharArray.text_copy h0 hblock)
  exact ⟨hcons.prelist u.2, hfits.1⟩

/-- **A first load** puts the values under their names, one after the other. -/
theorem putEntries_holds (hholds : c.conf.Holds log) (hfirst : env.inited = false) (h0 : ∀ e ∈ es, (0 : UInt8) ∉ e.val)
    (hput : putEntries env n es c = .ok c') :
    c'.conf.Holds (log ++ (storedEntries env.malloc n es).map fun e => (e.name, e.val)) ∧
      ∀ e ∈ storedEntries env.malloc n es, e.val.length < valRoom := by
  induction es generalizing c log n with
  | nil =>
    obtain rfl := Except.ok.inj hput
    rw [storedEntries, List.map_nil, List.append_nil]
    exact ⟨hholds, fun e he => absurd he List.not_mem_nil⟩
  | cons e es ih =>
    obtain ⟨c₁, hone, hrest⟩ := bind_ok_iff.mp hput
    have h0' : ∀ e' ∈ es, (0 : UInt8) ∉ e'.val := fun e' he' => h0 e' (List.mem_cons_of_mem _ he')
    unfold putEntry at hone
    rw [if_pos (by simp [hfirst])] at hone
    rw [storedEntries]
    cases hheap : env.malloc n with
    | none =>
      rw [hheap] at hone
      obtain rfl := Except.ok.inj hone
      exact ih hholds h0' hrest
    | some heap =>
      rw [hheap] at hone
      obtain ⟨hholds', hlen⟩ := putListed_holds hholds (h0 e List.mem_cons_self) hone
      obtain ⟨hall, hlens⟩ := ih hholds' h0' hrest
      rw [List.append_assoc] at hall
      exact ⟨hall, List.forall_mem_cons.mpr ⟨hlen, hlens⟩⟩

end PreListed

end VfsOss
