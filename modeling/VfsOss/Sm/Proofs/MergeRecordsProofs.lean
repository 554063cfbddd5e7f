import VfsOss.Sm.Merge
import VfsOss.Sm.Machine
import VfsOss.Sm.Proofs.ConservationProofs
import VfsOss.Sm.Proofs.RunPlaceProofs

/-!
# Proofs: where the records go that a merge or giving up takes out

Every exit of the merge loop returns the record it has taken, except the one for a file that can not be
opened. Giving up returns the records of the table, but not the one that is given up.
-/

namespace VfsOss

open CLib

variable {cfg : Cfg} {io : MergeIo} {s : Sm} {t v : Tasklist} {st st' st'' : TaskStore}
variable {loc : Nat → Loc} {i c : Int} {h f srcip filemd5 : Bytes} {a k : Nat} {q : TaskStatus}
variable {rest : List Tasklist}

/-! ## Records that move to `TASK_HOME` -/

/-- A record the program holds is in no list. -/
theorem Placed.not_listed (hp : Placed st loc) (ha : loc a = .held) : ¬ Listed st a := by
  rintro (⟨q, hq⟩ | ⟨u, ⟨b, hu⟩, rfl⟩)
  · rw [hp.loc_of_inQueue hq] at ha
    exact absurd ha (by simp)
  · rw [hp.chain hu] at ha
    exact absurd ha (by simp)

/-- No queue has lost a record, and the table only to `TASK_HOME`. -/
structure ToHome (st st' : TaskStore) : Prop where
  queue : ∀ q, ∀ t ∈ st.vfstask q, t ∈ st'.vfstask q
  table : ∀ t, InAlltask st t → InAlltask st' t ∨ InQueue st' .home t.addr

theorem ToHome.refl : ToHome st st := ⟨fun _ _ ht => ht, fun _ ht => Or.inl ht⟩

theorem ToHome.inQueue (hk : ToHome st st') (hq : InQueue st q a) : InQueue st' q a := by
  obtain ⟨u, hu, ha⟩ := hq
  exact ⟨u, hk.queue q u hu, ha⟩

theorem ToHome.trans (hk : ToHome st st') (hk' : ToHome st' st'') : ToHome st st'' where
  queue q t ht := hk'.queue q t (hk.queue q t ht)
  table t ht := by
    rcases hk.table t ht with ht | ht
    · exact hk'.table t ht
    · exact Or.inr (hk'.inQueue ht)

theorem ToHome.keepsRecords (hk : ToHome st st') : KeepsRecords st st' where
  table := hk.table
  listed a ha := by
    rcases ha with ⟨q, hq⟩ | ⟨u, hu, rfl⟩
    · exact Or.inl ⟨q, hk.inQueue hq⟩
    · rcases hk.table u hu with hu | hu
      · exact Or.inr ⟨u, hu, rfl⟩
      · exact Or.inl ⟨.home, hu⟩

/-- A record taken from the table and put into `TASK_HOME`. -/
theorem Placed.take_home (hp : Placed st loc) (hg : getTaskFromAlltask st f i c = some (t, st')) :
    ToHome st (vfsSetTask st' t .home) := by
  obtain ⟨hp', -, -⟩ := hp.take hg
  have hheld : Function.update loc t.addr .held t.addr = .held := Function.update_self ..
  have hhome : (vfsSetTask st' t .home).vfstask = _ :=
    vfstask_vfsSetTask (by simp) (hp'.not_queued (by rw [hheld]; simp))
  have hvfs : st'.vfstask = st.vfstask := (getTaskFromAlltask_some hg).2.1
  constructor
  · intro q u hu
    rw [hhome]
    by_cases hq : q = .home
    · subst hq
      rw [Function.update_self, hvfs]
      exact List.mem_append_left _ hu
    · rw [Function.update_of_ne hq, hvfs]
      exact hu
  · rintro u ⟨b, hu⟩
    rcases mem_getTaskFromAlltask_or hg hu with rfl | hu
    · refine Or.inr ⟨{ u with status := .home }, ?_, rfl⟩
      rw [hhome, Function.update_self]
      simp
    · exact Or.inl ⟨b, by rwa [alltask_vfsSetTask]⟩

/-! ## The merge -/

/-- A round of the merge whose block, if it has one to copy, can be opened. -/
theorem mergeOne_toHome {ofd : Nat} (hp : Placed s.store loc) (ho : OpensBlock io f c i s) :
    ToHome s.store (mergeOne io h f c ofd i s).1.store := by
  rcases mergeOne_cases io h f c ofd i s with ⟨-, hr⟩ | ⟨w, st, hg, hc⟩
  · rw [hr]
    exact .refl
  · have hk : ToHome s.store (vfsSetTask st w .home) := hp.take_home hg
    rcases hc with ⟨-, hr⟩ | ⟨he, hr, hopen⟩ | ⟨-, d, -, e, err, -, fs, -, s', rfl, ⟨-, hr⟩ | ⟨-, hr⟩⟩
    · rw [hr]
      exact hk
    · obtain ⟨hin, hd⟩ := ho w (getTaskFromAlltask_some hg).1 he
      exact absurd (hopen hin) hd
    · rw [hr]
      exact hk
    · rw [hr]
      exact hk

theorem getTaskFromAlltask_of_findTask (hf : findTask st f i c = some v) :
    ∃ st', getTaskFromAlltask st f i c = some (v, st') := by
  rw [getTaskFromAlltask, hf]
  exact ⟨_, rfl⟩

/-- A round whose block can not be opened. -/
theorem mergeOne_shut (h : Bytes) (ofd : Nat) (hf : findTask s.store f i c = some v) (he : v.base.expire = 0)
    (hshut : (if io.openIn i then s.fs.content v.base.tmpfile else none) = none) :
    ∃ st, getTaskFromAlltask s.store f i c = some (v, st) ∧ mergeOne io h f c ofd i s =
      (({ s with store := st }.note (.ioErr v.base.tmpfile)).note (.leak v), false) := by
  obtain ⟨st, hg⟩ := getTaskFromAlltask_of_findTask hf
  refine ⟨st, hg, ?_⟩
  rw [mergeOne, hg]
  dsimp only
  rw [if_neg (by simp [he]), hshut]

/-- A round whose block can not be opened: its record is in no list afterwards, and the loop ends. -/
theorem mergeOne_loses (h : Bytes) (ofd : Nat) (hp : Placed s.store loc) (ho : ¬ OpensBlock io f c i s) :
    (mergeOne io h f c ofd i s).2 = false ∧
      ∃ t, InAlltask s.store t ∧ ¬ Listed (mergeOne io h f c ofd i s).1.store t.addr := by
  unfold OpensBlock at ho
  push Not at ho
  obtain ⟨w, hw, he, hopen⟩ := ho
  have hshut : (if io.openIn i then s.fs.content w.base.tmpfile else none) = none := by
    split
    · next hin => exact hopen hin
    · rfl
  obtain ⟨st, hg, hone⟩ := mergeOne_shut h ofd hw he hshut
  rw [hone]
  exact ⟨rfl, w, ⟨_, (findTask_some hw).1⟩, (hp.take hg).1.not_listed (Function.update_self ..)⟩

/-- The loop of a merge: no record is lost, or one of the table is, according to whether the files of the
blocks it copies can be opened. -/
theorem mergeLoop_records (io : MergeIo) (h f : Bytes) (c : Int) (ofd : Nat) : ∀ (l : List Int) (s : Sm)
    (loc : Nat → Loc), Placed s.store loc →
    (MergeRounds io h f c ofd (OpensBlock io f c) l s →
      ToHome s.store (mergeLoop io h f c ofd l s).store) ∧
    (¬ MergeRounds io h f c ofd (OpensBlock io f c) l s →
      ∃ t, InAlltask s.store t ∧ ¬ Listed (mergeLoop io h f c ofd l s).store t.addr) := by
  intro l
  induction l with
  | nil => exact fun s _ _ => ⟨fun _ => .refl, fun hn => absurd trivial hn⟩
  | cons i l ih =>
    intro s loc hp
    obtain ⟨-, loc', hp', -⟩ := (mergeOne_internal (s := s) io h f c ofd i).store loc hp
    obtain ⟨ih1, ih2⟩ := ih _ loc' hp'
    rw [mergeLoop, MergeRounds]
    by_cases ho : OpensBlock io f c i s
    · have hk : ToHome s.store (mergeOne io h f c ofd i s).1.store := mergeOne_toHome hp ho
      by_cases hcont : (mergeOne io h f c ofd i s).2 = true
      · rw [if_pos hcont]
        refine ⟨fun hr => hk.trans (ih1 (hr.2 hcont)), fun hn => ?_⟩
        obtain ⟨t, ht, hlost⟩ := ih2 fun hr => hn ⟨ho, fun _ => hr⟩
        have hsub : Table (InAlltask s.store) (mergeOne io h f c ofd i s).1.store :=
          (mergeOne_table io h f c ofd i fun _ hu => hu).1
        exact ⟨t, hsub t ht, hlost⟩
      · rw [if_neg hcont]
        exact ⟨fun _ => hk, fun hn => absurd ⟨ho, fun hc => absurd hc hcont⟩ hn⟩
    · obtain ⟨hend, hlost⟩ := mergeOne_loses h ofd hp ho
      rw [if_neg (by simp [hend])]
      exact ⟨fun hr => absurd hr.1 ho, fun _ => hlost⟩

/-- What a merge does to the records, from the loop. -/
theorem doMergeFile_records (cfg : Cfg) (io : MergeIo) (h srcip f : Bytes) (c : Int) (filemd5 : Bytes)
    (hp : Placed s.store loc) :
    (OpensBlocks cfg io h f c s → ToHome s.store (doMergeFile cfg io h srcip f c filemd5 s).store) ∧
    (¬ OpensBlocks cfg io h f c s → ∃ t, InAlltask s.store t ∧
      ¬ Listed (doMergeFile cfg io h srcip f c filemd5 s).store t.addr) := by
  unfold OpensBlocks
  by_cases hout : io.openOut = true
  · obtain ⟨text, he⟩ := doMergeFile_open cfg hout s h srcip f c filemd5
    obtain ⟨h1, h2⟩ := mergeLoop_records io h f c (s.fs.creat (getLocaldir cfg h f)).1 (idxs c)
      (mergeBegin cfg h f c s) loc hp
    rw [he]
    exact ⟨fun ho => h1 (ho hout), fun hn => h2 fun hr => hn fun _ => hr⟩
  · have he : doMergeFile cfg io h srcip f c filemd5 s = s.note (.ioErr (getLocaldir cfg h f)) := by
      unfold doMergeFile
      rw [if_neg hout]
    rw [he]
    exact ⟨fun _ => .refl, fun hn => absurd (fun ho => absurd ho hout) hn⟩

/-- **A merge keeps every record**, in the table or in `TASK_HOME`, exactly if the files of the blocks it
copies can all be opened. -/
theorem merge_keeps_records_iff (hp : WellPlaced s.store) :
    KeepsRecords s.store (doMergeFile cfg io h srcip f c filemd5 s).store ↔ OpensBlocks cfg io h f c s := by
  obtain ⟨loc, hp⟩ := hp
  obtain ⟨hkeeps, hloses⟩ := doMergeFile_records cfg io h srcip f c filemd5 hp
  constructor
  · intro hk
    by_contra hn
    obtain ⟨t, ht, hlost⟩ := hloses hn
    exact hlost (hk.listed t.addr (Or.inr ⟨t, ht, rfl⟩))
  · exact fun ho => (hkeeps ho).keepsRecords

theorem oneBlock_placed : WellPlaced oneBlock.store := by
  obtain ⟨loc, hp⟩ : WellPlaced ((Upload.sample (txt "f") 1).received .sample [1]).store :=
    received_placed ..
  obtain ⟨⟨loc', hp'⟩, -⟩ := beforeMerge_placed (t := ((Upload.sample (txt "f") 1).record .sample (1, 0)).taken)
    .sample (popFin_placed hp (show _ = _ :: [] from rfl)) (Function.update_self ..)
  exact ⟨loc', hp'⟩

/-- The merge of a file with one block. -/
theorem merge_keeps_records_one :
    KeepsRecords oneBlock.store (doMergeFile .sample .ok (txt "h") [] (txt "f") 1 [] oneBlock).store := by
  refine (merge_keeps_records_iff oneBlock_placed).mpr fun _ => ⟨fun t hf _ => ⟨rfl, ?_⟩, fun _ => trivial⟩
  have hthere : ∀ t ∈ findTask (mergeBegin .sample (txt "h") (txt "f") 1 oneBlock).store (txt "f") 1 1,
      (mergeBegin .sample (txt "h") (txt "f") 1 oneBlock).fs.content t.base.tmpfile ≠ none := by
    decide +kernel
  exact hthere t hf

/-- The file of the only block can not be opened. -/
theorem unopened_block_lost :
    let io := { MergeIo.ok with openIn := fun _ => false }
    ¬ KeepsRecords oneBlock.store (doMergeFile .sample io (txt "h") [] (txt "f") 1 [] oneBlock).store := by
  intro io hk
  obtain ⟨loc, hp⟩ := oneBlock_placed
  have hfind : ∃ t, findTask (mergeBegin .sample (txt "h") (txt "f") 1 oneBlock).store (txt "f") 1 1 =
      some t ∧ t.base.expire = 0 :=
    ⟨((Upload.sample (txt "f") 1).record .sample (1, 0)).taken, by decide +kernel, rfl⟩
  obtain ⟨t, hf, he⟩ := hfind
  have hshut : ¬ OpensBlocks .sample io (txt "h") (txt "f") 1 oneBlock := fun ho =>
    absurd ((ho rfl).1 t hf he).1 (by simp [io])
  obtain ⟨u, hu, hlost⟩ := (doMergeFile_records .sample io _ [] _ _ [] hp).2 hshut
  exact hlost (hk.listed u.addr (Or.inr ⟨u, hu, rfl⟩))

/-! ## Giving up -/

theorem finTask_gives_up (cfg : Cfg) (io : MergeIo) (s : Sm) (hover : t.base.overstatus ≠ .ok)
    (hretry : cfg.retry = 0 ∨ cfg.retry ≤ t.base.retry) : finTask cfg io t s =
      (clearAlltaskTimeout t.base.hostname t.base.filename t.sub.count s).note (.leak t) := by
  unfold finTask
  rw [if_pos hover, if_neg (by omega)]

/-- The record that is given up is in no list afterwards. -/
theorem finIter_loses (cfg : Cfg) (io : MergeIo) (hp : WellPlaced s.store) (ho : s.once = some k)
    (hk : k < 128) (hq : s.store.vfstask .fin = t :: rest) (hover : t.base.overstatus ≠ .ok)
    (hretry : cfg.retry = 0 ∨ cfg.retry ≤ t.base.retry) : ¬ Listed (finIter cfg io s).store t.addr := by
  obtain ⟨loc, hp⟩ := hp
  have hover : t.taken.base.overstatus ≠ .ok := hover
  have hretry : cfg.retry = 0 ∨ cfg.retry ≤ t.taken.base.retry := hretry
  rw [finIter_cons ho hq hk, finTask_gives_up cfg io _ hover hretry]
  have hi : Internal ({ s.popFin with once := some (k + 1) }.note (.fin t.taken)) _ :=
    clearAlltaskTimeout_internal t.taken.base.hostname t.taken.base.filename t.taken.sub.count
  obtain ⟨-, loc', hp', -, hheld⟩ := hi.store _ (popFin_placed hp hq)
  exact hp'.not_listed (hheld _ (Function.update_self ..))

/-- **Giving up never releases everything**: the record that is given up is not in `TASK_HOME`. -/
theorem never_gives_up (cfg : Cfg) (io : MergeIo) (hp : WellPlaced s.store) (ho : s.once = some k)
    (hk : k < 128) (hq : s.store.vfstask .fin = t :: rest) (hover : t.base.overstatus ≠ .ok)
    (hretry : cfg.retry = 0 ∨ cfg.retry ≤ t.base.retry) :
    ¬ ReleasesAll s.store (finIter cfg io s).store t := fun hg =>
  finIter_loses cfg io hp ho hk hq hover hretry (Or.inl ⟨_, hg.self⟩)

theorem abandoned_spec : WellPlaced abandoned.store ∧ abandoned.once = some 0 ∧
    ∃ t, abandoned.store.vfstask .fin = [t] ∧ t.base.overstatus ≠ .ok := by
  have hrun : abandoned.once = some 0 ∧ (abandoned.store.vfstask .fin).length = 1 ∧
      ∀ t ∈ abandoned.store.vfstask .fin, t.base.overstatus ≠ .ok := by
    decide +kernel
  obtain ⟨t, ht⟩ := List.length_eq_one_iff.mp hrun.2.1
  exact ⟨(run_sited ..).placed, hrun.1, t, ht, hrun.2.2 t (by rw [ht, List.mem_singleton])⟩

/-- A connection that was closed too early. -/
theorem never_gives_up_abandoned : ∃ t ∈ abandoned.store.vfstask .fin,
    ¬ ReleasesAll abandoned.store (finIter .noRetry .ok abandoned).store t := by
  obtain ⟨hp, ho, t, ht, hover⟩ := abandoned_spec
  exact ⟨t, by rw [ht, List.mem_singleton],
    never_gives_up .noRetry .ok hp ho (by simp) ht hover (Or.inl rfl)⟩

/-- The record of such a connection is lost. -/
theorem abandoned_lost : ∃ t ∈ abandoned.store.vfstask .fin, t.base.overstatus ≠ .ok ∧
    ¬ Listed (finIter .noRetry .ok abandoned).store t.addr ∧
    ¬ ReleasesAll abandoned.store (finIter .noRetry .ok abandoned).store t := by
  obtain ⟨hp, ho, t, ht, hover⟩ := abandoned_spec
  have hlost := finIter_loses .noRetry .ok hp ho (by simp) ht hover (Or.inl rfl)
  exact ⟨t, by rw [ht, List.mem_singleton], hover, hlost, fun hg => hlost (Or.inl ⟨_, hg.self⟩)⟩

end VfsOss
