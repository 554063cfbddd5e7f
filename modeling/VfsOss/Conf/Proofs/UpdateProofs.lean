import VfsOss.Conf.Proofs.LawProofs

/-!
# Updates and the readers of integers

An update writes over the text of an entry but leaves the integer that a reader has kept in it; where there
is no entry it takes the key apart and puts a new one.
-/

namespace VfsOss

open CLib

namespace CharArray

variable {n k : Nat} {a b : CharArray n} {s : Bytes}

/-- What is in an array that ends in zeros. -/
theorem text_padded (ha : a.1 = s ++ List.replicate k 0) (hs : (0 : UInt8) ∉ s) :
    a.text = if k = 0 then .error .outOfBounds else .ok s := by
  unfold text
  cases k with
  | zero => rw [if_pos rfl, if_neg (by rw [ha]; simpa using hs)]
  | succ k =>
    rw [if_neg (Nat.succ_ne_zero k), ha, List.replicate_succ, if_pos (by simp), cstr_append_zero hs]

theorem copy_zero (h : (zero n).copy s = .ok b) : s.length ≤ n ∧ b.1 = s ++ List.replicate (n - s.length) 0 :=
  ⟨copy_ok_iff.mp ⟨b, h⟩, by rw [copy_eq h, zero, List.drop_replicate]⟩

/-- A text in an array is read as it is when a NUL stands behind it there. -/
theorem text_copy_iff (hs : (0 : UInt8) ∉ s) (h : a.copy s = .ok b) : b.text = .ok s ↔ a.1[s.length]? = some 0 := by
  have hhead : a.1[s.length]? = (a.1.drop s.length).head? := List.head?_drop.symm
  rw [hhead, text, copy_eq h]
  cases a.1.drop s.length with
  | nil =>
    rw [List.append_nil, if_neg hs]
    exact ⟨nofun, nofun⟩
  | cons x rest =>
    rw [List.head?_cons, Option.some.injEq]
    constructor
    · intro htext
      split at htext
      · have hcstr : cstr (s ++ x :: rest) = s := Except.ok.inj htext
        rw [cstr_append_of_not_mem hs] at hcstr
        have hnil := List.append_right_eq_self.mp hcstr
        by_contra hx
        rw [cstr, List.takeWhile_cons_of_pos (by simpa using hx)] at hnil
        exact List.cons_ne_nil _ _ hnil
      · exact nomatch htext
    · rintro rfl
      rw [if_pos (by simp), cstr_append_zero hs]

/-- What `memset` has set, and what it has left. -/
theorem getElem?_clear (a : CharArray valRoom) (i : Nat) :
    (a.clear valMaxLen).1[i]? = some 0 ↔ i < valMaxLen ∨ a.1[i]? = some 0 := by
  have hlen : (List.replicate (min valMaxLen valRoom) (0 : UInt8)).length = valMaxLen := List.length_replicate
  unfold clear
  dsimp only
  rcases Nat.lt_or_ge i valMaxLen with hlt | hge
  · rw [List.getElem?_append_left (by rw [hlen]; exact hlt), List.getElem?_replicate,
      if_pos (show i < min valMaxLen valRoom from hlt)]
    exact iff_of_true rfl (Or.inl hlt)
  · rw [List.getElem?_append_right (by rw [hlen]; exact hge), hlen, List.getElem?_drop, Nat.add_sub_cancel' hge]
    exact ⟨Or.inr, fun h => h.resolve_left (Nat.not_lt.mpr hge)⟩

/-- A byte stored right behind a text. -/
theorem store_copy_zero (h : (zero n).copy s = .ok a) {c : UInt8} (hstore : a.store s.length c = .ok b) :
    s.length < n ∧ b.1 = (s ++ [c]) ++ List.replicate (n - (s.length + 1)) 0 := by
  obtain ⟨-, ha⟩ := copy_zero h
  unfold store at hstore
  split at hstore
  · next hlt =>
    refine ⟨hlt, ?_⟩
    obtain ⟨m, hm⟩ : ∃ m, n - s.length = m + 1 := ⟨n - s.length - 1, by omega⟩
    have hm' : n - (s.length + 1) = m := by omega
    rw [← Except.ok.inj hstore, hm']
    show a.1.set s.length c = _
    rw [ha, hm, List.set_append_right _ _ (Nat.le_refl _), Nat.sub_self, List.replicate_succ]
    simp
  · exact nomatch hstore

end CharArray

namespace ConfStore

variable {c : ConfStore} {key value : Bytes} {heap : CharArray valRoom} {mc : Myconfig}

theorem getIntval_fst {dflt : Int} : Prod.fst <$> myconfigGetIntval c key dflt =
    match (c.hlist key).find? (·.hasKey key) with
    | none => .ok dflt
    | some mc =>
      if mc.intval = -1 then (fun val => (intReading val).getD dflt) <$> mc.val.text else .ok mc.intval := by
  unfold myconfigGetIntval
  cases (c.hlist key).find? (·.hasKey key) with
  | none => rfl
  | some mc =>
    dsimp only
    split
    · cases mc.val.text with
      | error e => rfl
      | ok val =>
        rw [ok_bind]
        cases hread : intReading val with
        | none =>
          show _ = Except.ok ((intReading val).getD dflt)
          rw [hread]
          rfl
        | some n =>
          show _ = Except.ok ((intReading val).getD dflt)
          rw [hread]
          rfl
    · rfl

/-- What readers see of an update depends on the first entry under the key. -/
theorem updated_iff (hfind : (c.hlist key).find? (·.hasKey key) = some mc) :
    c.Updated key value ↔
      mc.val.text = .ok value ∧ (mc.intval = -1 ∨ intReading value = some mc.intval) := by
  have hvalue : myconfigGetValue c key = some <$> mc.val.text := by
    unfold myconfigGetValue
    rw [hfind]
  unfold Updated
  simp only [getIntval_fst, hfind, hvalue]
  constructor
  · rintro ⟨htext, hint⟩
    obtain ⟨t, ht, heq⟩ := map_ok_iff.mp htext
    obtain rfl := Option.some.inj heq
    refine ⟨ht, or_iff_not_imp_left.mpr fun hkept => ?_⟩
    simp only [if_neg hkept, Except.ok.injEq] at hint
    cases hread : intReading t with
    | none =>
      -- a default that is not what was kept shows the difference
      have := hint (mc.intval + 1)
      rw [hread, Option.getD_none] at this
      omega
    | some n =>
      have := hint 0
      rw [hread, Option.getD_some] at this
      rw [this]
  · rintro ⟨htext, hkept⟩
    rw [htext]
    refine ⟨rfl, fun dflt => ?_⟩
    split
    · rfl
    · next hne =>
      rw [hkept.resolve_left hne]
      rfl

/-- A value that was put is seen by every reader. -/
theorem updated_put {pre key0 : Bytes} {r : Int × ConfStore} (hvalue : (0 : UInt8) ∉ value)
    (hkey : putKey (pre ++ key0) = key) (h : myconfigPutValue (some heap) pre key0 value c = .ok r) :
    r.2.Updated key value := by
  obtain ⟨block, hblock, u, -, rfl⟩ := putValue_ok_iff.mp h
  rw [hkey]
  have hfind : ((c.setHlist key (⟨u.1, r5hash key, block, -1, key⟩ :: c.hlist key)).hlist key).find?
      (·.hasKey key) = some ⟨u.1, r5hash key, block, -1, key⟩ := by
    rw [hlist_setHlist_self, List.find?_cons_of_pos]
    simp [Myconfig.hasKey]
  exact (updated_iff (c := { c.setHlist key _ with prelist := u.2 }) hfind).mpr
    ⟨CharArray.text_copy hvalue hblock, .inl rfl⟩

/-- An entry that is there gets the text, which is read to the NUL behind it. -/
theorem update_entry_iff {heap : Option (CharArray valRoom)} (hvalue : (0 : UInt8) ∉ value)
    (hfind : (c.hlist key).find? (·.hasKey key) = some mc) :
    (∃ r, myconfigUpdateValue heap key value c = .ok r ∧ r.2.Updated key value) ↔
      (value.length < valMaxLen ∨ mc.val.1[value.length]? = some 0) ∧
        (mc.intval = -1 ∨ intReading value = some mc.intval) := by
  have hupdate (r : Int × ConfStore) : myconfigUpdateValue heap key value c = .ok r ↔
      ∃ val, (mc.val.clear valMaxLen).copy value = .ok val ∧
        r = (1, c.setHlist key (updFirst (·.hasKey key) ({ · with val := val }) (c.hlist key))) := by
    unfold myconfigUpdateValue
    rw [hfind]
    simp only [bind_ok_iff]
    exact exists_congr fun _ => and_congr_right fun _ => ⟨fun h => (Except.ok.inj h).symm, fun h => h ▸ rfl⟩
  have hfound (val : CharArray valRoom) :
      ((c.setHlist key (updFirst (·.hasKey key) ({ · with val := val }) (c.hlist key))).hlist key).find?
        (·.hasKey key) = some { mc with val := val } := by
    have hfirst := find?_updFirst_self (p := (·.hasKey key)) (f := fun m : Myconfig => { m with val := val })
      (l := c.hlist key) fun _ => rfl
    rw [hlist_setHlist_self, hfirst, hfind]
    rfl
  constructor
  · rintro ⟨r, hr, hupdated⟩
    obtain ⟨val, hval, rfl⟩ := (hupdate r).mp hr
    obtain ⟨htext, hkept⟩ := (updated_iff (hfound val)).mp hupdated
    exact ⟨(CharArray.getElem?_clear _ _).mp ((CharArray.text_copy_iff hvalue hval).mp htext), hkept⟩
  · rintro ⟨hnul, hkept⟩
    have hbehind := (CharArray.getElem?_clear mc.val value.length).mpr hnul
    have hlt : value.length < valRoom := by
      obtain ⟨hlt, -⟩ := List.getElem?_eq_some_iff.mp hbehind
      rwa [(mc.val.clear valMaxLen).2] at hlt
    obtain ⟨val, hval⟩ := CharArray.copy_ok_iff (a := mc.val.clear valMaxLen).mpr hlt.le
    refine ⟨_, (hupdate _).mpr ⟨val, hval, rfl⟩, (updated_iff (hfound val)).mpr ⟨?_, hkept⟩⟩
    exact (CharArray.text_copy_iff hvalue hval).mpr hbehind

/-- The two halves of a key, as the arrays they are taken apart in hold them. -/
theorem split_ok_iff {p : Nat} (hkey : (0 : UInt8) ∉ key) (hp : strchr key 95 = some p)
    (put : Bytes → Bytes → Except MemFault (Int × ConfStore)) {r : Int × ConfStore} :
    (do
      let pre ← (CharArray.zero 20).copy (key.take p)
      let pre ← pre.store p 45
      let key0 ← (CharArray.zero 30).copy (key.drop (p + 1) ++ [0])
      let pre ← pre.text
      let key0 ← key0.text
      put pre key0) = .ok r ↔
    (p ≤ 18 ∧ (key.drop (p + 1)).length ≤ 29) ∧ put (key.take p ++ [45]) (key.drop (p + 1)) = .ok r := by
  have hlen : (key.take p).length = p := (strchr_split hp).2
  have hrest : (0 : UInt8) ∉ key.drop (p + 1) := fun h => hkey (List.mem_of_mem_drop h)
  have hpre : (0 : UInt8) ∉ key.take p ++ [45] := by
    simpa using fun h => hkey (List.mem_of_mem_take h)
  simp only [bind_ok_iff]
  constructor
  · rintro ⟨a, ha, b, hb, key0, hkey0, s, hs, t, ht, hput⟩
    obtain ⟨hlt, hbytes⟩ := CharArray.store_copy_zero ha (hlen.symm ▸ hb)
    rw [CharArray.text_padded hbytes hpre, hlen] at hs
    rw [CharArray.text_copy hrest hkey0] at ht
    have hfit := CharArray.copy_ok_iff.mp ⟨key0, hkey0⟩
    rw [List.length_append, List.length_singleton] at hfit
    split at hs
    · exact nomatch hs
    · next hne =>
      obtain rfl := Except.ok.inj hs
      obtain rfl := Except.ok.inj ht
      exact ⟨⟨by omega, by omega⟩, hput⟩
  · rintro ⟨⟨hle, hrestle⟩, hput⟩
    obtain ⟨a, ha⟩ := CharArray.copy_ok_iff (a := .zero 20) (s := key.take p).mpr (by omega)
    obtain ⟨b, hb⟩ : ∃ b, a.store p 45 = .ok b := ⟨_, if_pos (by omega)⟩
    obtain ⟨key0, hkey0⟩ := CharArray.copy_ok_iff (a := .zero 30) (s := key.drop (p + 1) ++ [0]).mpr (by
      rw [List.length_append, List.length_singleton]
      omega)
    obtain ⟨-, hbytes⟩ := CharArray.store_copy_zero ha (hlen.symm ▸ hb)
    refine ⟨a, ha, b, hb, key0, hkey0, _, ?_, _, CharArray.text_copy hrest hkey0, hput⟩
    rw [CharArray.text_padded hbytes hpre, hlen, if_neg (by omega)]

/-- A key that was taken apart at an underscore is put together again. -/
theorem putKey_split {p : Nat} (hkey : putKey key = key) (hp : strchr key 95 = some p) :
    putKey (key.take p ++ [45] ++ key.drop (p + 1)) = key := by
  have happend (s t : Bytes) : putKey (s ++ t) = putKey s ++ putKey t := List.map_append
  have hdash : putKey [45] = [95] := rfl
  calc putKey (key.take p ++ [45] ++ key.drop (p + 1))
      = putKey (key.take p) ++ 95 :: putKey (key.drop (p + 1)) := by
        rw [happend, happend, hdash, List.append_assoc]
        rfl
    _ = putKey (key.take p ++ 95 :: key.drop (p + 1)) := (happend _ (95 :: _)).symm
    _ = key := by rw [← (strchr_split hp).1, hkey]

/-- A put without memory for the entry leaves the store, in which the key is not found. -/
theorem not_updated_none {pre key0 : Bytes} (hfind : (c.hlist key).find? (·.hasKey key) = none) :
    ¬ ∃ r, myconfigPutValue none pre key0 value c = .ok r ∧ r.2.Updated key value := by
  rintro ⟨r, hr, hupdated, -⟩
  obtain rfl := Except.ok.inj hr
  unfold myconfigGetValue at hupdated
  rw [hfind] at hupdated
  exact nomatch Except.ok.inj hupdated

/-- A new entry is put, and read as it was given, when memory is found and the value fits. -/
theorem put_updated_iff {heap : Option (CharArray valRoom)} {pre key0 : Bytes} (hvalue : (0 : UInt8) ∉ value)
    (hfind : (c.hlist key).find? (·.hasKey key) = none) (hsame : putKey (pre ++ key0) = key)
    (hpre : pre.length ≤ 20) :
    (∃ r, myconfigPutValue heap pre key0 value c = .ok r ∧ r.2.Updated key value) ↔
      heap ≠ none ∧ value.length < valRoom := by
  cases heap with
  | none => exact iff_of_false (not_updated_none hfind) fun h => h.1 rfl
  | some heap =>
    constructor
    · rintro ⟨r, hr, -⟩
      exact ⟨Option.some_ne_none heap, (putValue_returns_iff.mp ⟨r, hr⟩).1⟩
    · rintro ⟨-, hlt⟩
      obtain ⟨r, hr⟩ := putValue_returns_iff.mpr ⟨hlt, .inl hpre⟩
      exact ⟨r, hr, updated_put hvalue hsame hr⟩

/-- **Updates and readers of integers.** After an update the value is read back, as a text and as an integer,
exactly when a NUL is behind it and no other integer was kept in the entry before, or, for a new key, when there is
memory for it, it fits, and the key fits in its two halves. -/
theorem updateValue_iff (c : ConfStore) (heap : Option (CharArray valRoom)) (key value : CText)
    (hkey : putKey key = key) :
    (∃ r, myconfigUpdateValue heap key value c = .ok r ∧ r.2.Updated key value) ↔ c.UpdateFits heap key value := by
  unfold UpdateFits
  cases hfind : (c.hlist key).find? (·.hasKey key) with
  | some mc => exact update_entry_iff value.2 hfind
  | none =>
    cases hp : strchr key.1 95 with
    | none =>
      have hupdate : myconfigUpdateValue heap key value c = myconfigPutValue heap [] key value c := by
        unfold myconfigUpdateValue
        rw [hfind, hp]
      have hsame : putKey ([] ++ key.1) = key := hkey
      rw [hupdate, put_updated_iff value.2 hfind hsame (Nat.zero_le _)]
      simp
    | some p =>
      have hupdate (r : Int × ConfStore) : myconfigUpdateValue heap key value c = .ok r ↔
          (p ≤ 18 ∧ (key.1.drop (p + 1)).length ≤ 29) ∧
            myconfigPutValue heap (key.1.take p ++ [45]) (key.1.drop (p + 1)) value c = .ok r := by
        unfold myconfigUpdateValue
        rw [hfind, hp]
        exact split_ok_iff key.2 hp fun pre key0 => myconfigPutValue heap pre key0 value c
      have hput (hle : p ≤ 18) : (∃ r, myconfigPutValue heap (key.1.take p ++ [45]) (key.1.drop (p + 1)) value c =
          .ok r ∧ r.2.Updated key value) ↔ heap ≠ none ∧ value.1.length < valRoom := by
        refine put_updated_iff value.2 hfind (putKey_split hkey hp) ?_
        rw [List.length_append, List.length_take, List.length_singleton]
        omega
      simp only [hupdate, and_assoc, Option.some.injEq, forall_eq']
      constructor
      · rintro ⟨r, hle, hrest, hr⟩
        obtain ⟨hheap, hlt⟩ := (hput hle).mp ⟨r, hr⟩
        exact ⟨hheap, hlt, hle, hrest⟩
      · rintro ⟨hheap, hlt, hle, hrest⟩
        obtain ⟨r, hr⟩ := (hput hle).mpr ⟨hheap, hlt⟩
        exact ⟨r, hle, hrest, hr⟩

/-- The update of a key that is not there yet, taken apart at its underscore. -/
theorem updateValue_iff_logLevel :
    ∃ r, myconfigUpdateValue (some (.zero _)) (txt "log_level") (txt "3") init = .ok r ∧
      r.2.Updated (txt "log_level") (txt "3") := by
  have hkey : putKey (txt "log_level") = txt "log_level" := by decide
  refine (updateValue_iff init (some (.zero _)) ⟨txt "log_level", by decide⟩ ⟨txt "3", by decide⟩ hkey).mpr ?_
  refine ⟨Option.some_ne_none _, by decide, fun p hp => ?_⟩
  obtain rfl : 3 = p := Option.some.inj (Eq.trans (by decide) hp)
  exact ⟨by decide, by decide⟩

/-- A reader has kept 3, the text becomes 5, and the next reader of an integer gets 3. -/
theorem updateValue_not_port : ¬ ∀ c : ConfStore, ∃ r,
    myconfigUpdateValue (some (.zero _)) (txt "port") (txt "5") c = .ok r ∧
      r.2.Updated (txt "port") (txt "5") := by
  intro h
  have hrun : (myconfigPutValue (some (.zero _)) [] (txt "port") (txt "3") init
      >>= fun r => myconfigGetIntval r.2 (txt "port") 0
      >>= fun r => myconfigUpdateValue (some (.zero _)) (txt "port") (txt "5") r.2
      >>= fun r => Prod.fst <$> myconfigGetIntval r.2 (txt "port") 0) = .ok 3 := by decide +kernel
  obtain ⟨r₁, -, r₂, -, r₃, hupdate, hget⟩ := by simpa only [bind_ok_iff] using hrun
  obtain ⟨r, hr, hupdated⟩ := h r₂.2
  obtain rfl := Except.ok.inj (hr.symm.trans hupdate)
  exact absurd (Except.ok.inj ((hupdated.2 0).symm.trans hget)) (by decide +kernel)

end ConfStore

end VfsOss
