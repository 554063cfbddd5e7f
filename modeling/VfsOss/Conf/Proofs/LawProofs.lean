import VfsOss.Conf.Law
import VfsOss.CLib.Proofs.TextProofs

/-!
# The law of the configuration store

What the store holds under a key is what survives in the log, newest first. A put and a delete that the
code is up to keep it so; any other call either does not come back or breaks the law at once.
-/

namespace VfsOss

open CLib

section Keys

theorem lowerByte_sepByte_idem (b : UInt8) : lowerByte (sepByte (lowerByte (sepByte b))) = lowerByte (sepByte b) := by
  unfold lowerByte sepByte isSep
  grind

theorem sepByte_idem (b : UInt8) : sepByte (sepByte b) = sepByte b := by
  unfold sepByte isSep
  grind

/-- A key that was stored is stored under itself. -/
theorem putKey_idem (s : Bytes) : putKey (putKey s) = putKey s := by
  unfold putKey
  rw [List.map_map]
  exact List.map_congr_left fun b _ => lowerByte_sepByte_idem b

/-- The key that a delete looks for is stored as the name it was made from. -/
theorem putKey_deleteKey (s : Bytes) : putKey (deleteKey s) = putKey s := by
  unfold putKey deleteKey
  rw [List.map_map]
  exact List.map_congr_left fun b _ => congrArg lowerByte (sepByte_idem b)

end Keys

namespace CharArray

variable {n : Nat} {a b : CharArray n} {s : Bytes}

theorem copy_ok_iff : (∃ b, a.copy s = .ok b) ↔ s.length ≤ n := by
  unfold copy
  split
  · next h => exact ⟨fun _ => h, fun _ => ⟨_, rfl⟩⟩
  · next h => exact ⟨fun ⟨_, hb⟩ => (nomatch hb), fun hle => absurd hle h⟩

theorem copy_eq (h : a.copy s = .ok b) : b.1 = s ++ a.1.drop s.length := by
  unfold copy at h
  split at h
  · exact Except.ok.inj h ▸ rfl
  · exact nomatch h

/-- A text that was copied with its NUL is the text in the array. -/
theorem text_copy (hs : (0 : UInt8) ∉ s) (h : a.copy (s ++ [0]) = .ok b) : b.text = .ok s := by
  have hb : b.1 = s ++ 0 :: a.1.drop (s ++ [0]).length := by
    rw [copy_eq h, List.append_assoc]
    rfl
  unfold text
  rw [hb, if_pos (by simp), cstr_append_zero hs]

end CharArray

/-! ## Searching a chain -/

namespace ConfStore

variable {c c' : ConfStore} {key key' str : Bytes} {l l' : List Myconfig} {mc : Myconfig} {log : ConfLog}

theorem hlist_setHlist_self : (c.setHlist key l).hlist key = l := Function.update_self ..

theorem hlist_setHlist_of_ne (h : confIndex key' ≠ confIndex key) : (c.setHlist key l).hlist key' = c.hlist key' :=
  Function.update_of_ne h ..

/-- An entry was there before or is in the new chain. -/
theorem mem_setHlist {b : Fin 256} (h : mc ∈ (c.setHlist key l).myhash b) : mc ∈ l ∨ mc ∈ c.myhash b := by
  change mc ∈ Function.update c.myhash (confIndex key) l b at h
  by_cases hb : b = confIndex key
  · subst hb
    rw [Function.update_self] at h
    exact .inl h
  · rw [Function.update_of_ne hb] at h
    exact .inr h

/-- The entries that a search for a key finds. -/
def holding (c : ConfStore) (key : Bytes) : List Myconfig := (c.hlist key).filter (·.hasKey key)

/-- **Changing a chain.** What is held under a key is what the new chain has of it, when the key is looked
for in that chain. -/
theorem holding_setHlist : holding (c.setHlist key l) key' =
    if confIndex key' = confIndex key then l.filter (·.hasKey key') else holding c key' := by
  unfold holding
  split
  · next heq =>
    have hchain : (c.setHlist key l).hlist key' = l := by
      unfold hlist
      rw [heq]
      exact hlist_setHlist_self
    rw [hchain]
  · next hne => rw [hlist_setHlist_of_ne hne]

/-- The text of the entry that a search has found. -/
def readText : Option Myconfig → Except MemFault (Option Bytes)
  | none => .ok none
  | some mc => some <$> mc.val.text

theorem readText_eq {o : Option Myconfig} {v : Option Bytes} (h : o.map (·.val.text) = v.map .ok) :
    readText o = .ok v := by
  cases o with
  | none =>
    cases v with
    | none => rfl
    | some t => exact nomatch h
  | some mc =>
    cases v with
    | none => exact nomatch h
    | some t =>
      have htext : mc.val.text = .ok t := Option.some.inj h
      show some <$> mc.val.text = _
      rw [htext]
      rfl

theorem getValue_eq : myconfigGetValue c key = readText (holding c key).head? := by
  unfold myconfigGetValue holding
  rw [List.head?_filter]
  rfl

theorem multivalueLoop_eq (i : Nat) : multivalueLoop key l i = readText (l.filter (·.hasKey key))[i]? := by
  induction l generalizing i with
  | nil => rfl
  | cons mc l ih =>
    rw [multivalueLoop]
    by_cases hkey : mc.hasKey key
    · rw [if_pos hkey, List.filter_cons_of_pos hkey]
      cases i with
      | zero => rfl
      | succ i =>
        rw [if_neg (by omega), List.getElem?_cons_succ, ← ih i]
        congr 1
        omega
    · rw [if_neg hkey, List.filter_cons_of_neg hkey, ih]

theorem getMultivalue_eq (i : Nat) : myconfigGetMultivalue c key i = readText (holding c key).reverse[i]? := by
  unfold myconfigGetMultivalue holding
  rw [multivalueLoop_eq, List.filter_reverse]

/-- **The delete loop** comes back when everything it removes is linked, and removes it. -/
theorem deleteLoop_ok_iff : deleteLoop str l = .ok l' ↔
    (∀ mc ∈ l, mc.hasKey str → mc.preList ≠ none) ∧ l' = l.filter fun mc => !mc.hasKey str := by
  induction l generalizing l' with
  | nil =>
    exact ⟨fun h => ⟨fun _ hmem => absurd hmem List.not_mem_nil, (Except.ok.inj h).symm⟩, fun h => h.2 ▸ rfl⟩
  | cons m l ih =>
    rw [deleteLoop]
    by_cases hkey : m.hasKey str
    · rw [if_pos hkey, List.filter_cons_of_neg (by simp [hkey])]
      by_cases hnone : m.preList = none
      · rw [if_pos hnone]
        exact ⟨(nomatch ·), fun h => absurd hnone (h.1 m List.mem_cons_self hkey)⟩
      · rw [if_neg hnone, ih, List.forall_mem_cons]
        simp [hnone]
    · rw [if_neg hkey, List.filter_cons_of_pos (by simp [hkey]), bind_ok_iff, List.forall_mem_cons]
      constructor
      · rintro ⟨rest, hrest, heq⟩
        obtain ⟨hlinked, rfl⟩ := ih.mp hrest
        exact ⟨⟨fun h => absurd h hkey, hlinked⟩, (Except.ok.inj heq).symm⟩
      · rintro ⟨⟨-, hlinked⟩, rfl⟩
        exact ⟨_, ih.mpr ⟨hlinked, rfl⟩, rfl⟩

/-! ## The store behind a log -/

/-- The chains hold what the log says, under keys that are stored under themselves. -/
structure Holds (c : ConfStore) (log : ConfLog) : Prop where
  hash : ∀ b, ∀ mc ∈ c.myhash b, mc.hash = r5hash mc.key
  normal : ∀ b, ∀ mc ∈ c.myhash b, putKey mc.key = mc.key
  content : ∀ key, (holding c key).map (·.val.text) = (log.surviving key).reverse.map .ok

theorem Holds.init : Holds .init [] where
  hash := fun _ _ h => absurd h List.not_mem_nil
  normal := fun _ _ h => absurd h List.not_mem_nil
  content := fun _ => rfl

theorem Holds.value (h : Holds c log) (key : Bytes) :
    myconfigGetValue c key = .ok (log.surviving key).getLast? := by
  rw [getValue_eq]
  refine readText_eq ?_
  rw [← List.head?_map, h.content, List.head?_map, List.head?_reverse]

theorem Holds.multivalue (h : Holds c log) (key : Bytes) (i : Nat) :
    myconfigGetMultivalue c key i = .ok (log.surviving key)[i]? := by
  rw [getMultivalue_eq]
  refine readText_eq ?_
  rw [← List.getElem?_map, List.map_reverse, h.content, ← List.map_reverse, List.reverse_reverse,
    List.getElem?_map]

/-- Readers of the store see the log. -/
theorem Holds.lawful (h : Holds c log) : Lawful c log := ⟨fun _ => h.value _, fun _ => h.multivalue _⟩

theorem Holds.hasKey (h : Holds c log) {b : Fin 256} (hmem : mc ∈ c.myhash b) :
    mc.hasKey key = decide (key = mc.key) := by
  unfold Myconfig.hasKey
  rw [h.hash b mc hmem]
  by_cases hkey : key = mc.key
  · simp [hkey]
  · simp [hkey]

/-- A name that no put stores a key under finds nothing. -/
theorem Holds.holding_of_not_normal (h : Holds c log) (hkey : putKey key ≠ key) : holding c key = [] := by
  refine List.filter_eq_nil_iff.mpr fun mc hmem hfound => hkey ?_
  rw [h.hasKey hmem, decide_eq_true_eq] at hfound
  rw [hfound]
  exact h.normal _ mc hmem

/-! ## Putting a value -/

/-- A prefix is taken into use when it fits, or when no list is left for it. -/
theorem usePrefix_ok_iff {pre : Bytes} {i : Nat} {lists : List Prehash} :
    (∃ r, usePrefix pre i lists = .ok r) ↔
      pre.length ≤ 20 ∨ ∀ plist ∈ lists, plist.used ∧ ¬ plist.hasPre pre := by
  induction lists generalizing i with
  | nil => exact ⟨fun _ => .inr fun _ h => absurd h List.not_mem_nil, fun _ => ⟨_, rfl⟩⟩
  | cons plist lists ih =>
    rw [usePrefix, List.forall_mem_cons]
    by_cases huse : (!plist.used || plist.hasPre pre) = true
    · have hno : ¬ (plist.used = true ∧ ¬ plist.hasPre pre = true) := by
        rw [Bool.or_eq_true, Bool.not_eq_true'] at huse
        rintro ⟨hused, hpre⟩
        rcases huse with h | h
        · exact Bool.false_ne_true (h.symm.trans hused)
        · exact hpre h
      rw [if_pos huse, or_iff_left fun h => hno h.1, ← CharArray.copy_ok_iff (a := plist.pre)]
      constructor
      · rintro ⟨r, hr⟩
        obtain ⟨text, htext, -⟩ := bind_ok_iff.mp hr
        exact ⟨text, htext⟩
      · rintro ⟨text, htext⟩
        exact ⟨_, bind_ok_iff.mpr ⟨text, htext, rfl⟩⟩
    · have hyes : plist.used = true ∧ ¬ plist.hasPre pre = true := by
        rw [Bool.or_eq_true, not_or, Bool.not_eq_true', Bool.not_eq_false] at huse
        exact huse
      rw [if_neg huse, and_iff_right hyes, ← ih (i := i + 1)]
      constructor
      · rintro ⟨r, hr⟩
        obtain ⟨r', hr', -⟩ := bind_ok_iff.mp hr
        exact ⟨r', hr'⟩
      · rintro ⟨r, hr⟩
        exact ⟨_, bind_ok_iff.mpr ⟨r, hr, rfl⟩⟩

/-- What a put that comes back has done. -/
theorem putValue_ok_iff {heap : CharArray valRoom} {pre key0 val : Bytes} {r : Int × ConfStore} :
    myconfigPutValue (some heap) pre key0 val c = .ok r ↔
      ∃ block, heap.copy (val ++ [0]) = .ok block ∧ ∃ u, usePrefix pre 0 c.prelist = .ok u ∧
        r = (if u.1 = none then 0 else 1,
          { c.setHlist (putKey (pre ++ key0)) (⟨u.1, r5hash (putKey (pre ++ key0)), block, -1,
              putKey (pre ++ key0)⟩ :: c.hlist (putKey (pre ++ key0))) with prelist := u.2 }) := by
  unfold myconfigPutValue
  simp only [bind_ok_iff]
  constructor
  · rintro ⟨block, hblock, u, hu, heq⟩
    exact ⟨block, hblock, u, hu, (Except.ok.inj heq).symm⟩
  · rintro ⟨block, hblock, u, hu, rfl⟩
    exact ⟨block, hblock, u, hu, rfl⟩

/-- A put comes back when the value and the prefix fit. -/
theorem putValue_returns_iff {heap : CharArray valRoom} {pre key0 val : Bytes} :
    (∃ r, myconfigPutValue (some heap) pre key0 val c = .ok r) ↔
      val.length < valRoom ∧
        (pre.length ≤ 20 ∨ ∀ plist ∈ c.prelist, plist.used ∧ ¬ plist.hasPre pre) := by
  have hlen : val.length < valRoom ↔ (val ++ [0]).length ≤ valRoom := by
    rw [List.length_append, List.length_singleton, Nat.succ_le_iff]
  rw [← usePrefix_ok_iff (i := 0), hlen, ← CharArray.copy_ok_iff (a := heap)]
  constructor
  · rintro ⟨r, hr⟩
    obtain ⟨block, hblock, u, hu, -⟩ := putValue_ok_iff.mp hr
    exact ⟨⟨block, hblock⟩, u, hu⟩
  · rintro ⟨⟨block, hblock⟩, u, hu⟩
    exact ⟨_, putValue_ok_iff.mpr ⟨block, hblock, u, hu, rfl⟩⟩

theorem Holds.hasKey_self (h : Holds c log) {b : Fin 256} (hmem : mc ∈ c.myhash b) :
    mc.hasKey mc.key = true := by
  rw [h.hasKey hmem, decide_eq_true rfl]

/-- An entry added to the chain of its key is the newest under it; the other keys keep theirs. -/
theorem Holds.cons (h : Holds c log) (mc : Myconfig) {v : Bytes} (hhash : mc.hash = r5hash mc.key)
    (hnormal : putKey mc.key = mc.key) (htext : mc.val.text = .ok v) :
    Holds (c.setHlist mc.key (mc :: c.hlist mc.key)) (log ++ [(mc.key, v)]) where
  hash := fun b m hmem => by
    rcases mem_setHlist hmem with hnew | hold
    · rcases List.mem_cons.mp hnew with rfl | hold
      · exact hhash
      · exact h.hash _ m hold
    · exact h.hash b m hold
  normal := fun b m hmem => by
    rcases mem_setHlist hmem with hnew | hold
    · rcases List.mem_cons.mp hnew with rfl | hold
      · exact hnormal
      · exact h.normal _ m hold
    · exact h.normal b m hold
  content := fun key => by
    have hfound : mc.hasKey key = decide (key = mc.key) := by
      unfold Myconfig.hasKey
      rw [hhash]
      by_cases heq : key = mc.key <;> simp [heq]
    rw [holding_setHlist, ConfLog.surviving, List.filter_append, List.map_append, List.reverse_append,
      List.map_append]
    by_cases heq : key = mc.key
    · subst heq
      rw [if_pos rfl, List.filter_cons_of_pos (by simp [hfound]), List.map_cons, htext,
        List.filter_cons_of_pos (by simp)]
      exact congrArg _ (h.content mc.key)
    · have hsame : (if confIndex key = confIndex mc.key then (mc :: c.hlist mc.key).filter (·.hasKey key)
          else holding c key) = holding c key := by
        split
        · next hidx =>
          rw [List.filter_cons_of_neg (by simp [hfound, heq]), hlist, ← hidx]
          rfl
        · rfl
      rw [hsame, List.filter_cons_of_neg (by simpa using fun h => heq h.symm)]
      exact h.content key

/-- The entries under a key removed from its chain; the other keys keep theirs. -/
theorem Holds.remove (h : Holds c log) (str : Bytes) :
    Holds (c.setHlist str ((c.hlist str).filter fun mc => !mc.hasKey str)) (log.filter (·.1 ≠ str)) where
  hash := fun b m hmem => by
    rcases mem_setHlist hmem with hnew | hold
    · exact h.hash _ m (List.mem_of_mem_filter hnew)
    · exact h.hash b m hold
  normal := fun b m hmem => by
    rcases mem_setHlist hmem with hnew | hold
    · exact h.normal _ m (List.mem_of_mem_filter hnew)
    · exact h.normal b m hold
  content := fun key => by
    rw [holding_setHlist, ConfLog.surviving]
    by_cases heq : key = str
    · subst heq
      rw [if_pos rfl, List.filter_filter, List.filter_filter]
      simp
    · have hlog : (log.filter (·.1 ≠ str)).filter (·.1 = key) = log.filter (·.1 = key) := by
        rw [List.filter_filter]
        refine List.filter_congr fun e _ => ?_
        by_cases hkey : e.1 = key
        · simp [hkey, heq]
        · simp [hkey]
      have hsame : (if confIndex key = confIndex str
          then ((c.hlist str).filter fun mc => !mc.hasKey str).filter (·.hasKey key) else holding c key) =
          holding c key := by
        split
        · next hidx =>
          have hchain : c.hlist str = c.hlist key := by rw [hlist, hlist, hidx]
          rw [List.filter_filter, hchain]
          refine List.filter_congr fun mc hmem => ?_
          rw [h.hasKey hmem, h.hasKey hmem]
          by_cases hkey : key = mc.key
          · have hstr : str ≠ mc.key := fun hstr => heq (hkey.trans hstr.symm)
            simp [hkey, hstr]
          · simp [hkey]
        · rfl
      rw [hsame, hlog]
      exact h.content key

/-- A key under which nothing is stored is not in the log. -/
theorem Holds.filter_eq (h : Holds c log) (hempty : holding c key = []) : log.filter (·.1 ≠ key) = log := by
  have hnone : log.filter (·.1 = key) = [] := by
    have hcontent := h.content key
    rw [hempty, List.map_nil, eq_comm, List.map_eq_nil_iff, List.reverse_eq_nil_iff] at hcontent
    exact List.map_eq_nil_iff.mp hcontent
  refine List.filter_eq_self.mpr fun e hmem => ?_
  rw [List.filter_eq_nil_iff] at hnone
  simpa using hnone e hmem

/-- The prefixes do not matter to the law. -/
theorem Holds.prelist (h : Holds c log) (lists : List Prehash) : Holds { c with prelist := lists } log :=
  ⟨h.hash, h.normal, h.content⟩

/-! ## The calls -/

/-- **Putting** a value makes it the newest under its key. -/
theorem Holds.put (h : Holds c log) {heap : CharArray valRoom} {pre key val : CText}
    (hrun : (ConfOp.put (some heap) pre key val).run c = .ok c') :
    Holds c' (log ++ [(putKey (pre ++ key), val.1)]) := by
  obtain ⟨r, hput, rfl⟩ := map_ok_iff.mp hrun
  obtain ⟨block, hblock, u, -, rfl⟩ := putValue_ok_iff.mp hput
  exact (h.cons ⟨u.1, _, block, -1, _⟩ rfl (putKey_idem _) (CharArray.text_copy val.2 hblock)).prelist u.2

/-- A delete that comes back has removed what is stored under the name as it spells it. -/
theorem delete_ok_iff {pre key : CText} : (ConfOp.delete pre key).run c = .ok c' ↔
    (∀ mc ∈ c.hlist (deleteKey (pre ++ key)), mc.hasKey (deleteKey (pre ++ key)) → mc.preList ≠ none) ∧
      c' = c.setHlist (deleteKey (pre ++ key))
        ((c.hlist (deleteKey (pre ++ key))).filter fun mc => !mc.hasKey (deleteKey (pre ++ key))) := by
  unfold ConfOp.run myconfigDeleteValue
  simp only [map_ok_iff, bind_ok_iff, deleteLoop_ok_iff]
  constructor
  · rintro ⟨r, ⟨l, ⟨hlinked, rfl⟩, heq⟩, rfl⟩
    exact ⟨hlinked, (congrArg Prod.snd (Except.ok.inj heq)).symm⟩
  · rintro ⟨hlinked, rfl⟩
    exact ⟨_, ⟨_, ⟨hlinked, rfl⟩, rfl⟩, rfl⟩

/-- **A call the code is up to** comes back, and the store holds the log after it. -/
theorem Holds.step (h : Holds c log) {op : ConfOp} (hfits : op.Fits c) :
    ∃ c', op.run c = .ok c' ∧ Holds c' (op.log log) := by
  cases op with
  | put heap pre key val =>
    cases heap with
    | none => exact ⟨c, rfl, h⟩
    | some heap =>
      obtain ⟨r, hr⟩ := putValue_returns_iff.mpr hfits
      have hrun : (ConfOp.put (some heap) pre key val).run c = .ok r.2 := map_ok_iff.mpr ⟨r, hr, rfl⟩
      exact ⟨r.2, hrun, h.put hrun⟩
  | delete pre key =>
    by_cases hstored : ∃ mc ∈ c.hlist (putKey (pre ++ key)), mc.key = putKey (pre ++ key)
    · obtain ⟨mc, hmem, hkey⟩ := hstored
      have hspelt := (hfits mc hmem hkey).1
      refine ⟨_, delete_ok_iff.mpr ⟨fun m hm hfound => ?_, rfl⟩, hspelt ▸ h.remove _⟩
      rw [hspelt] at hm hfound
      rw [h.hasKey hm, decide_eq_true_eq] at hfound
      exact (hfits m hm hfound.symm).2
    · -- nothing to remove, and nothing is found under the other spelling either
      have hempty : holding c (putKey (pre ++ key)) = [] := by
        refine List.filter_eq_nil_iff.mpr fun mc hmem hfound => hstored ⟨mc, hmem, ?_⟩
        rw [h.hasKey hmem, decide_eq_true_eq] at hfound
        exact hfound.symm
      have hempty' : holding c (deleteKey (pre ++ key)) = [] := by
        by_cases hspelt : deleteKey (pre ++ key) = putKey (pre ++ key)
        · rw [hspelt, hempty]
        · exact h.holding_of_not_normal fun hnormal => hspelt (hnormal.symm.trans (putKey_deleteKey _))
      refine ⟨_, delete_ok_iff.mpr ⟨fun m hm hfound => ?_, rfl⟩, ?_⟩
      · exact absurd hfound (List.filter_eq_nil_iff.mp hempty' m hm)
      · have hremove := h.remove (deleteKey (pre ++ key))
        rw [h.filter_eq hempty'] at hremove
        rw [ConfOp.log, h.filter_eq hempty]
        exact hremove

/-- A delete that misses what is stored leaves it to the readers. -/
theorem Holds.missed (h : Holds c log) {pre key : CText} (hrun : (ConfOp.delete pre key).run c = .ok c')
    (hspelt : deleteKey (pre ++ key) ≠ putKey (pre ++ key)) : Holds c' log := by
  have hempty : holding c (deleteKey (pre ++ key)) = [] :=
    h.holding_of_not_normal fun hnormal => hspelt (hnormal.symm.trans (putKey_deleteKey _))
  obtain ⟨-, rfl⟩ := delete_ok_iff.mp hrun
  have hremove := h.remove (deleteKey (pre ++ key))
  rwa [h.filter_eq hempty] at hremove

/-- **A call that keeps the law** is one the code is up to. -/
theorem Holds.fits (h : Holds c log) {op : ConfOp} (hrun : op.run c = .ok c') (hlaw : Lawful c' (op.log log)) :
    op.Fits c := by
  cases op with
  | put heap pre key val =>
    cases heap with
    | none => trivial
    | some heap =>
      obtain ⟨r, hr, -⟩ := map_ok_iff.mp hrun
      exact putValue_returns_iff.mp ⟨r, hr⟩
  | delete pre key =>
    intro mc hmem hkey
    have hfound : mc.hasKey (putKey (pre ++ key)) = true := hkey ▸ h.hasKey_self hmem
    by_cases hspelt : deleteKey (pre ++ key) = putKey (pre ++ key)
    · have hlinked := (delete_ok_iff.mp hrun).1
      rw [hspelt] at hlinked
      exact ⟨hspelt, hlinked mc hmem hfound⟩
    · have hstill := (h.missed hrun hspelt).lawful.value (pre ++ key)
      have hgone : ConfLog.surviving (log.filter (·.1 ≠ putKey (pre ++ key))) (putKey (pre ++ key)) = [] := by
        rw [ConfLog.surviving, List.filter_filter]
        simp
      have hvalue := hlaw.value (pre ++ key)
      rw [hstill, ConfOp.log, hgone] at hvalue
      have hnone : log.surviving (putKey (pre ++ key)) = [] :=
        List.getLast?_eq_none_iff.mp (Except.ok.inj hvalue)
      have hempty := h.content (putKey (pre ++ key))
      rw [hnone] at hempty
      exact absurd hfound (List.filter_eq_nil_iff.mp (List.map_eq_nil_iff.mp hempty) mc hmem)

theorem KeepsLaw.lawful {ops : List ConfOp} (h : KeepsLaw c log ops) : Lawful c log := by
  cases ops with
  | nil => exact h
  | cons op ops => exact h.1

/-- A run from a store that holds the log keeps the law exactly when the code is up to its calls. -/
theorem Holds.keepsLaw (h : Holds c log) (ops : List ConfOp) : KeepsLaw c log ops ↔ FitRun c ops := by
  induction ops generalizing c log with
  | nil => exact ⟨fun _ => trivial, fun _ => h.lawful⟩
  | cons op ops ih =>
    constructor
    · rintro ⟨-, c', hrun, hrest⟩
      have hfits := h.fits hrun hrest.lawful
      obtain ⟨c'', hrun', hholds⟩ := h.step hfits
      obtain rfl := Except.ok.inj (hrun.symm.trans hrun')
      refine ⟨hfits, fun c'' hrun'' => ?_⟩
      obtain rfl := Except.ok.inj (hrun.symm.trans hrun'')
      exact (ih hholds).mp hrest
    · rintro ⟨hfits, hrest⟩
      obtain ⟨c', hrun, hholds⟩ := h.step hfits
      exact ⟨h.lawful, c', hrun, (ih hholds).mpr (hrest c' hrun)⟩

/-- **The law of the configuration store.** Every call of a run comes back and every reader sees the last
value put under a key and not deleted since, exactly when no value and no prefix is too long, and every
delete that has something to remove spells its name without upper-case letters and finds the prefix lists
it takes the entry from. -/
theorem keepsLaw_iff (ops : List ConfOp) : KeepsLaw .init [] ops ↔ FitRun .init ops := Holds.init.keepsLaw ops

/-- What was put under the name `Port` is not removed by a delete of the name `Port`. -/
theorem keepsLaw_not_port : ¬ KeepsLaw .init []
    [.put (some (.zero _)) ⟨[], by decide⟩ ⟨txt "Port", by decide⟩ ⟨txt "1", by decide⟩,
      .delete ⟨[], by decide⟩ ⟨txt "Port", by decide⟩] := by
  rintro ⟨-, c₁, hput, -, c₂, hdelete, hlaw⟩
  have hrun : (ConfOp.run .init (.put (some (.zero _)) ⟨[], by decide⟩ ⟨txt "Port", by decide⟩ ⟨txt "1", by decide⟩)
      >>= fun c => ConfOp.run c (.delete ⟨[], by decide⟩ ⟨txt "Port", by decide⟩)
      >>= fun c => myconfigGetValue c (txt "port")) = .ok (some (txt "1")) := by decide +kernel
  obtain ⟨c, hc, c', hc', hget⟩ := by simpa only [bind_ok_iff] using hrun
  obtain rfl := Except.ok.inj (hput.symm.trans hc)
  obtain rfl := Except.ok.inj (hdelete.symm.trans hc')
  exact nomatch (Except.ok.inj ((hlaw.value (txt "port")).symm.trans hget))

end ConfStore

end VfsOss
