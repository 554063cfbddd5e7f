import VfsOss.Sm.Conservation
import VfsOss.Sm.Proofs.LogProofs
import VfsOss.Sm.Proofs.PassProofs
import VfsOss.Sm.Proofs.ReassemblyProofs
import VfsOss.Sm.Proofs.RecordsProofs

/-!
# Proofs: where the finished blocks of a pass go

A round adds its record to the table; a merge then takes, for each index, the record that a search
finds, and returns it to `TASK_HOME`, concatenated if it is not expired. What has left `TASK_FIN` and
the table does not come back within the pass.
-/

namespace VfsOss

open CLib

variable {cfg : Cfg} {io : MergeIo} {s s' s'' : Sm} {t v : Tasklist} {st st' : TaskStore}
variable {loc : Nat → Loc} {i c : Int} {h f p : Bytes} {a : Nat} {P Q : Event → Prop}

/-! ## The history of a call -/

theorem since_of_log {l : List Event} (hl : s'.log = s.log ++ l) : s.since s' = l := by
  rw [Sm.since, hl, List.drop_left]

theorem Grew.since (hg : Grew P s s') : s'.log = s.log ++ s.since s' := by
  obtain ⟨es, hl, -⟩ := hg
  rw [since_of_log hl, hl]

theorem Grew.since_append (hg : Grew P s s') (hg' : Grew Q s' s'') :
    s.since s'' = s.since s' ++ s'.since s'' := by
  refine since_of_log ?_
  rw [hg'.since, hg.since, List.append_assoc]

theorem since_self (hl : s'.log = s.log) : s.since s' = [] := since_of_log (by simp [hl])

/-! ## The merge loop -/

/-- A round of the merge loop that finds its record and has no error. -/
theorem mergeOne_exact {ofd : Nat} (hp : Placed s.store loc)
    (hf : findTask s.store f i c = some v)
    (hio : ∀ p, .ioErr p ∉ s.since (mergeOne io h f c ofd i s).1) :
    (mergeOne io h f c ofd i s).2 = true ∧
    s.since (mergeOne io h f c ofd i s).1 =
      [if v.base.expire = 0 then .concat h f v else .skip h f v] ∧
    (∀ u, InAlltask (mergeOne io h f c ofd i s).1.store u ↔ InAlltask s.store u ∧ u ≠ v) ∧
    ∀ j, i ≠ j → findTask (mergeOne io h f c ofd i s).1.store f j c = findTask s.store f j c := by
  rcases mergeOne_cases io h f c ofd i s with ⟨hn, -⟩ | ⟨w, st, hg, hc⟩
  · rw [getTaskFromAlltask_none.mp hn] at hf
    exact absurd hf (by simp)
  · obtain rfl : w = v := Option.some.inj ((getTaskFromAlltask_some hg).1.symm.trans hf)
    have htable : ∀ {s' : Sm}, s'.store = vfsSetTask st w .home →
        (∀ u, InAlltask s'.store u ↔ InAlltask s.store u ∧ u ≠ w) ∧
        ∀ j, i ≠ j → findTask s'.store f j c = findTask s.store f j c := by
      intro s' hs
      have hall : s'.store.alltask = st.alltask := by rw [hs, alltask_vfsSetTask]
      refine ⟨fun u => ?_, fun j hij => ?_⟩
      · rw [inAlltask_of_alltask_eq hall]
        constructor
        · rintro ⟨b, hu⟩
          refine ⟨⟨b, mem_of_getTaskFromAlltask hg hu⟩, ?_⟩
          rintro rfl
          exact (hp.take hg).2.2 ⟨b, hu⟩
        · rintro ⟨⟨b, hu⟩, hne⟩
          exact ⟨b, (mem_getTaskFromAlltask_or hg hu).resolve_left hne⟩
      · rw [findTask_of_alltask_eq hall, findTask_getTaskFromAlltask hg hij]
    rcases hc with ⟨he, hr⟩ | ⟨-, hr, -⟩ | ⟨he, d, -, e, err, -, fs, -, s', rfl, ⟨-, hr⟩ | ⟨-, hr⟩⟩ <;>
      rw [hr] at hio ⊢
    · refine ⟨rfl, ?_, htable rfl⟩
      rw [if_neg he]
      exact since_of_log rfl
    · refine absurd ?_ (hio w.base.tmpfile)
      rw [since_of_log (l := [.ioErr w.base.tmpfile, .leak w]) (by simp)]
      simp
    · refine absurd ?_ (hio w.base.tmpfile)
      rw [since_of_log (l := [.concat h f w, .ioErr w.base.tmpfile]) (by simp)]
      simp
    · refine ⟨rfl, ?_, htable rfl⟩
      rw [if_pos he]
      exact since_of_log rfl

/-- What a merge does with the record it finds under a key. -/
def mergeEvent (h f : Bytes) (v : Tasklist) : Event :=
  if v.base.expire = 0 then .concat h f v else .skip h f v

/-- The first round of a merge loop that finds all its records and has no error: the loop goes on with the
other indices, and finds the same records for them. -/
theorem mergeLoop_first {ofd : Nat} {l : List Int} (hp : Placed s.store loc) (hi : i ∉ l)
    (hf : findTask s.store f i c = some v)
    (hio : ∀ p, .ioErr p ∉ s.since (mergeLoop io h f c ofd (i :: l) s)) :
    ∃ s1, mergeOne io h f c ofd i s = (s1, true) ∧
      mergeLoop io h f c ofd (i :: l) s = mergeLoop io h f c ofd l s1 ∧
      (∃ loc', Placed s1.store loc') ∧
      (∀ p, .ioErr p ∉ s1.since (mergeLoop io h f c ofd l s1)) ∧
      s.since (mergeLoop io h f c ofd l s1) =
        mergeEvent h f v :: s1.since (mergeLoop io h f c ofd l s1) ∧
      (∀ u, InAlltask s1.store u ↔ InAlltask s.store u ∧ u ≠ v) ∧
      ∀ j ∈ l, findTask s1.store f j c = findTask s.store f j c := by
  have hg1 := mergeOne_grew (s := s) io h f c ofd i
  rcases hm : mergeOne io h f c ofd i s with ⟨s1, cont⟩
  have hg2 := mergeLoop_grew (s := s1) io h f c ofd l
  rw [hm] at hg1
  -- a round that fails shows in the history of the whole loop
  have hio1 : ∀ p, .ioErr p ∉ s.since (mergeOne io h f c ofd i s).1 := by
    intro p he
    refine hio p ?_
    rw [mergeLoop, hm]
    rw [hm] at he
    dsimp only
    split
    · rw [hg1.since_append hg2]
      exact List.mem_append_left _ he
    · exact he
  obtain ⟨hcont, hsince, htable, hother⟩ := mergeOne_exact hp hf hio1
  rw [hm] at hcont hsince htable hother
  obtain rfl : cont = true := hcont
  have hloop : mergeLoop io h f c ofd (i :: l) s = mergeLoop io h f c ofd l s1 := by
    rw [mergeLoop, hm]
    exact if_pos rfl
  obtain ⟨-, loc', hp', -⟩ := (mergeOne_internal (s := s) io h f c ofd i).store loc hp
  rw [hm] at hp'
  rw [hloop, hg1.since_append hg2] at hio
  refine ⟨s1, rfl, hloop, ⟨loc', hp'⟩, fun p he => hio p (List.mem_append_right _ he), ?_, htable,
    fun j hj => hother j fun he => hi (he ▸ hj)⟩
  rw [hg1.since_append hg2, hsince]
  rfl

/-- A merge loop that finds all its records and has no error takes exactly these out of the table. -/
theorem mergeLoop_exact (io : MergeIo) (h : Bytes) (ofd : Nat) : ∀ (l : List Int) (s : Sm) (loc : Nat → Loc), Placed s.store loc →
    l.Nodup → (∀ i ∈ l, ∃ v, findTask s.store f i c = some v) →
    (∀ p, .ioErr p ∉ s.since (mergeLoop io h f c ofd l s)) →
    (∀ u, InAlltask (mergeLoop io h f c ofd l s).store u ↔
      InAlltask s.store u ∧ ∀ i ∈ l, findTask s.store f i c ≠ some u) ∧
    ∀ e, e ∈ s.since (mergeLoop io h f c ofd l s) ↔
      ∃ i ∈ l, ∃ v, findTask s.store f i c = some v ∧ e = mergeEvent h f v := by
  intro l
  induction l with
  | nil =>
    intro s loc _ _ _ _
    refine ⟨fun u => by simp [mergeLoop], fun e => ?_⟩
    rw [mergeLoop, since_self rfl]
    simp
  | cons i l ih =>
    intro s loc hp hnd hfind hio
    obtain ⟨hi, hnd⟩ := List.nodup_cons.mp hnd
    obtain ⟨v, hv⟩ := hfind i (by simp)
    obtain ⟨s1, -, hloop, ⟨loc', hp'⟩, hio', hsince, htable, hother⟩ := mergeLoop_first hp hi hv hio
    obtain ⟨h1, h2⟩ := ih s1 loc' hp' hnd
      (fun j hj => by rw [hother j hj]; exact hfind j (by simp [hj])) hio'
    rw [hloop]
    constructor
    · intro u
      rw [h1, htable]
      constructor
      · rintro ⟨⟨hu, hne'⟩, hall⟩
        refine ⟨hu, fun j hj => ?_⟩
        rcases List.mem_cons.mp hj with rfl | hj
        · rw [hv]
          exact fun he => hne' (Option.some.inj he).symm
        · rw [← hother j hj]
          exact hall j hj
      · rintro ⟨hu, hall⟩
        refine ⟨⟨hu, ?_⟩, fun j hj => ?_⟩
        · rintro rfl
          exact hall i (by simp) hv
        · rw [hother j hj]
          exact hall j (by simp [hj])
    · intro e
      rw [hsince, List.mem_cons, h2]
      constructor
      · rintro (he | ⟨j, hj, w, hw, he⟩)
        · exact ⟨i, by simp, v, hv, he⟩
        · rw [hother j hj] at hw
          exact ⟨j, by simp [hj], w, hw, he⟩
      · rintro ⟨j, hj, w, hw, he⟩
        rcases List.mem_cons.mp hj with rfl | hj
        · rw [hv] at hw
          rw [← Option.some.inj hw] at he
          exact Or.inl he
        · refine Or.inr ⟨j, hj, w, ?_, he⟩
          rw [hother j hj]
          exact hw

/-- The history of a merge whose output opens, from the state in which its loop starts. -/
theorem doMergeFile_since (cfg : Cfg) (h srcip f : Bytes) (c : Int) (filemd5 : Bytes)
    (ho : io.openOut = true) (s : Sm) :
    ∃ ofd m text, ofd = (s.fs.creat (getLocaldir cfg h f)).1 ∧ m.store = s.store ∧
      m.fs = (s.fs.creat (getLocaldir cfg h f)).2 ∧
      doMergeFile cfg io h srcip f c filemd5 s =
        (mergeLoop io h f c ofd (idxs c) m).note (.report srcip text io.connect) ∧
      s.since (doMergeFile cfg io h srcip f c filemd5 s) = .merge h f c ::
        (m.since (mergeLoop io h f c ofd (idxs c) m) ++ [.report srcip text io.connect]) := by
  obtain ⟨text, he⟩ := doMergeFile_open cfg ho s h srcip f c filemd5
  refine ⟨_, _, text, rfl, ?_, ?_, he, ?_⟩
  · rfl
  · rfl
  · refine since_of_log ?_
    rw [he, note_log, (mergeLoop_grew ..).since, note_log]
    simp

/-- A merge that finds all its records and has no error. -/
theorem doMergeFile_exact {srcip filemd5 : Bytes} (hp : Placed s.store loc)
    (hfind : ∀ i ∈ idxs c, ∃ v, findTask s.store f i c = some v)
    (hio : ∀ p, .ioErr p ∉ s.since (doMergeFile cfg io h srcip f c filemd5 s)) :
    (∀ u, InAlltask (doMergeFile cfg io h srcip f c filemd5 s).store u ↔
      InAlltask s.store u ∧ ∀ i ∈ idxs c, findTask s.store f i c ≠ some u) ∧
    ∀ h' f' v, .concat h' f' v ∈ s.since (doMergeFile cfg io h srcip f c filemd5 s) ↔
      h' = h ∧ f' = f ∧ ∃ i ∈ idxs c, findTask s.store f i c = some v ∧ v.base.expire = 0 := by
  by_cases ho : io.openOut = true
  · obtain ⟨ofd, m, text, -, hstore, -, he, hsince⟩ :=
      doMergeFile_since cfg h srcip f c filemd5 ho s
    rw [← hstore] at hp hfind
    obtain ⟨h1, h2⟩ := mergeLoop_exact io h ofd (idxs c) m loc hp
      (nodup_idxs c) hfind fun p hp => hio p (by rw [hsince]; simp [hp])
    rw [hstore] at h1 h2
    refine ⟨fun u => ?_, fun h' f' v => ?_⟩
    · rw [he]
      exact h1 u
    · rw [hsince]
      simp only [List.mem_cons, List.mem_append, h2, mergeEvent]
      constructor
      · rintro (he | ⟨i, hi, w, hw, he⟩ | he)
        · exact absurd he (by simp)
        · split at he
          · next hexp =>
            obtain ⟨rfl, rfl, rfl⟩ := Event.concat.inj he
            exact ⟨rfl, rfl, i, hi, hw, hexp⟩
          · exact absurd he (by simp)
        · exact absurd he (by simp)
      · rintro ⟨rfl, rfl, i, hi, hw, hexp⟩
        exact Or.inr (Or.inl ⟨i, hi, v, hw, by rw [if_pos hexp]⟩)
  · refine absurd ?_ (hio (getLocaldir cfg h f))
    unfold doMergeFile
    rw [if_neg ho, since_of_log (l := [.ioErr (getLocaldir cfg h f)]) rfl]
    simp

/-! ## One round -/

theorem finTask_ok (cfg : Cfg) (io : MergeIo) (hover : t.base.overstatus = .ok) (s : Sm) :
    finTask cfg io t s =
      if checkTaskAllsubIsok (beforeMerge cfg t s).store t.base.filename t.sub.count then
        doMergeFile cfg io t.base.hostname t.base.srcip t.base.filename t.sub.count t.base.filemd5
          (beforeMerge cfg t s)
      else beforeMerge cfg t s := by
  unfold finTask
  rw [if_neg (by simp [hover])]
  rfl

/-- The lack check leaves the records of the table where they are. -/
theorem checkLackTask_inTable (cfg : Cfg) (t : Tasklist) (s : Sm) :
    InTable (checkLackTask cfg t s).store a p ↔ InTable s.store a p := by
  constructor
  · rintro ⟨v, hv, ha, hp⟩
    have hall : Table (fun v => InTable s.store v.addr v.base.tmpfile) (checkLackTask cfg t s).store :=
      checkLackTask_table cfg (fun _ hu => hu) fun v hv => ⟨v, hv, rfl, rfl⟩
    have h : InTable s.store v.addr v.base.tmpfile := hall v hv
    rwa [ha, hp] at h
  · intro h
    unfold checkLackTask
    dsimp only
    split
    · exact h
    · refine foldl_induct (P := fun b : Sm => InTable b.store a p) (fun b i _ hb => ?_) h
      rcases lackOne_cases cfg b t (getLocaldir cfg t.base.hostname t.base.filename) i with
        he | ⟨-, ⟨-, he⟩ | ⟨task0, st, hg, he⟩⟩ <;> rw [he]
      · exact hb
      · obtain ⟨v, hv, hrest⟩ := hb
        exact ⟨v, (inAlltask_of_alltask_eq alltask_vfsGetTask).mpr hv, hrest⟩
      · obtain ⟨v, ⟨d, hv⟩, ha, hp⟩ := hb
        have hv : v ∈ st.alltask d := by rwa [alltask_of_get hg]
        have hask : (lackAsk t i task0 st b).store.alltask = _ := alltask_lackAsk task0
        rcases mem_setTaskFromAlltask_or (f := t.base.filename) (i := i) (c := t.sub.count) (e := 1) hv
          with hv | hv
        · exact ⟨v, ⟨d, by rwa [hask]⟩, ha, hp⟩
        · exact ⟨v.setExpire 1, ⟨d, by rwa [hask]⟩, ha, hp⟩

/-- Before the merge the table holds what it held and the new record. -/
theorem beforeMerge_placed (cfg : Cfg) (hp : Placed s.store loc) (ht : loc t.addr = .held) :
    (∃ loc', Placed (beforeMerge cfg t s).store loc') ∧
    ∀ a p, InTable (beforeMerge cfg t s).store a p ↔
      InTable s.store a p ∨ a = t.addr ∧ p = t.base.tmpfile := by
  obtain ⟨-, loc', hp', -, hheld⟩ := (checkLackTask_internal (s := s) cfg t).store loc hp
  have ht' : loc' t.addr = .held := hheld _ ht
  have hfree : ∀ b, ∀ u ∈ (checkLackTask cfg t s).store.alltask b, u.addr ≠ t.addr :=
    hp'.not_chained (by simp [ht'])
  refine ⟨⟨_, hp'.add (t := t) (by simp [ht']) (by simp [ht'])⟩, fun a p => ?_⟩
  rw [← checkLackTask_inTable cfg t s]
  constructor
  · rintro ⟨u, hu, rfl, rfl⟩
    rcases inAlltask_add.mp hu with ⟨hu, -⟩ | rfl
    · exact Or.inl ⟨u, hu, rfl, rfl⟩
    · exact Or.inr ⟨rfl, rfl⟩
  · rintro (⟨u, ⟨b, hu⟩, rfl, rfl⟩ | ⟨rfl, rfl⟩)
    · exact ⟨u, inAlltask_add.mpr (Or.inl ⟨⟨b, hu⟩, hfree b u hu⟩), rfl, rfl⟩
    · exact ⟨t, inAlltask_add.mpr (Or.inr rfl), rfl, rfl⟩

theorem beforeMerge_grew (cfg : Cfg) (t : Tasklist) (s : Sm) :
    Grew (fun e => ∀ h f v p, e ≠ .concat h f v ∧ e ≠ .ioErr p) s (beforeMerge cfg t s) := by
  have h : Grew _ s (checkLackTask cfg t s) := checkLackTask_grew cfg t
  refine Grew.trans (h.mono fun e he => ?_) (.of_log_eq rfl)
  rcases he with ⟨v, rfl⟩ | ⟨v, rfl⟩ <;> exact fun _ _ _ _ => ⟨by simp, by simp⟩

/-- A search finds a record for every index of a file that is complete. -/
theorem findTask_of_allsub {st : TaskStore} (hp : Placed st loc) (hall : checkTaskAllsubIsok st f c = true) :
    ∀ i ∈ idxs c, ∃ v, findTask st f i c = some v := by
  intro i hi
  obtain ⟨v, hv, hk, -⟩ := checkTaskFromAlltask_iff.mp (List.all_eq_true.mp hall i hi)
  rcases hf : findTask st f i c with _ | w
  · have := hp.findTask_eq_none.mp hf v ⟨_, hv⟩
    rw [hk] at this
    exact absurd this (by simp)
  · exact ⟨w, rfl⟩

/-- **A round without errors.** The table gains the new record and loses those the merge takes; these
are concatenated if they are not expired. -/
theorem finTask_exact (io : MergeIo) (hp : Placed s.store loc) (ht : loc t.addr = .held)
    (hover : t.base.overstatus = .ok) (hio : ∀ p, .ioErr p ∉ s.since (finTask cfg io t s)) :
    (∀ u, InAlltask (finTask cfg io t s).store u ↔
      InAlltask (beforeMerge cfg t s).store u ∧ ¬ Takes cfg t s u) ∧
    ∀ h f v, .concat h f v ∈ s.since (finTask cfg io t s) ↔
      h = t.base.hostname ∧ f = t.base.filename ∧ Takes cfg t s v ∧ v.base.expire = 0 := by
  have hg1 := beforeMerge_grew cfg t s
  obtain ⟨⟨loc', hp'⟩, -⟩ := beforeMerge_placed cfg hp ht
  have hno : ∀ h f v, .concat h f v ∉ s.since (beforeMerge cfg t s) := by
    intro h f v he
    obtain ⟨es, hl, hes⟩ := hg1
    rw [since_of_log hl] at he
    exact (hes _ he h f v []).1 rfl
  rw [finTask_ok cfg io hover] at hio ⊢
  by_cases hall : checkTaskAllsubIsok (beforeMerge cfg t s).store t.base.filename t.sub.count = true
  · rw [if_pos hall] at hio ⊢
    have hfind := findTask_of_allsub hp' hall
    have hg2 := doMergeFile_grew (s := beforeMerge cfg t s) cfg io t.base.hostname t.base.srcip
      t.base.filename t.sub.count t.base.filemd5
    rw [hg1.since_append hg2] at hio
    obtain ⟨h1, h2⟩ := doMergeFile_exact hp' hfind fun p he => hio p (List.mem_append_right _ he)
    refine ⟨fun u => ?_, fun h f v => ?_⟩
    · rw [h1]
      refine and_congr_right fun _ => ⟨fun hn ht => ?_, fun hn i hi he => hn ⟨hall, i, hi, he⟩⟩
      obtain ⟨-, i, hi, he⟩ := ht
      exact hn i hi he
    · rw [hg1.since_append hg2, List.mem_append, h2]
      constructor
      · rintro (he | ⟨rfl, rfl, i, hi, hf, he⟩)
        · exact absurd he (hno h f v)
        · exact ⟨rfl, rfl, ⟨hall, i, hi, hf⟩, he⟩
      · rintro ⟨rfl, rfl, ⟨-, i, hi, hf⟩, he⟩
        exact Or.inr ⟨rfl, rfl, i, hi, hf, he⟩
  · rw [if_neg hall] at hio ⊢
    refine ⟨fun u => ⟨fun hu => ⟨hu, fun ht => hall ht.1⟩, fun hu => hu.1⟩, fun h f v => ?_⟩
    exact ⟨fun he => absurd he (hno h f v), fun ⟨_, _, ht, _⟩ => absurd ht.1 hall⟩

section Round

variable (hp : Placed s.store loc) (ht : loc t.addr = .held) (hover : t.base.overstatus = .ok)
variable (hio : ∀ p, .ioErr p ∉ s.since (finTask cfg io t s))

include hp ht hover hio

/-- What is in the table, or has just been taken from `TASK_FIN`, is in the table after the round, or
has been concatenated, or has been skipped. -/
theorem finTask_places (ha : InTable s.store a p ∨ a = t.addr ∧ p = t.base.tmpfile)
    (hskip : ∀ r, Takes cfg t s r → r.addr = a → r.base.expire = 0) :
    InTable (finTask cfg io t s).store a p ∧ (∀ q, ¬ Concatenated s (finTask cfg io t s) a q) ∨
    (∀ q, ¬ InTable (finTask cfg io t s).store a q) ∧ Concatenated s (finTask cfg io t s) a p := by
  obtain ⟨h1, h2⟩ := finTask_exact io hp ht hover hio
  obtain ⟨⟨loc', hp'⟩, hm⟩ := beforeMerge_placed cfg hp ht
  obtain ⟨u, hu, hua, hup⟩ := (hm a p).mpr ha
  have huniq : ∀ v, InAlltask (beforeMerge cfg t s).store v → v.addr = a → v = u := fun v hv hva =>
    hp'.eq_of_addr hv hu (hva.trans hua.symm)
  have htakes : ∀ v, Takes cfg t s v → InAlltask (beforeMerge cfg t s).store v := by
    rintro v ⟨-, i, -, hf⟩
    exact ⟨_, (findTask_some hf).1⟩
  by_cases htu : Takes cfg t s u
  · refine Or.inr ⟨?_, t.base.hostname, t.base.filename, u,
      (h2 _ _ _).mpr ⟨rfl, rfl, htu, hskip u htu hua⟩, hua, hup⟩
    rintro q ⟨v, hv, hva, -⟩
    rw [h1] at hv
    rw [huniq v hv.1 hva] at hv
    exact hv.2 htu
  · refine Or.inl ⟨⟨u, (h1 u).mpr ⟨hu, htu⟩, hua, hup⟩, ?_⟩
    rintro q ⟨h', f', v, hv, hva, -⟩
    obtain ⟨-, -, htv, -⟩ := (h2 _ _ _).mp hv
    rw [huniq v (htakes v htv) hva] at htv
    exact htu htv

/-- A record that is skipped is in no place. -/
theorem finTask_skipped {r : Tasklist} (hr : Takes cfg t s r) (he : r.base.expire ≠ 0) :
    (∀ q, ¬ InTable (finTask cfg io t s).store r.addr q) ∧
    ∀ q, ¬ Concatenated s (finTask cfg io t s) r.addr q := by
  obtain ⟨h1, h2⟩ := finTask_exact io hp ht hover hio
  obtain ⟨⟨loc', hp'⟩, -⟩ := beforeMerge_placed cfg hp ht
  have htakes : ∀ v, Takes cfg t s v → InAlltask (beforeMerge cfg t s).store v := by
    rintro v ⟨-, i, -, hf⟩
    exact ⟨_, (findTask_some hf).1⟩
  constructor
  · rintro q ⟨v, hv, hva, -⟩
    rw [h1] at hv
    rw [hp'.eq_of_addr hv.1 (htakes r hr) hva] at hv
    exact hv.2 hr
  · rintro q ⟨h', f', v, hv, hva, -⟩
    obtain ⟨-, -, htv, hve⟩ := (h2 _ _ _).mp hv
    rw [hp'.eq_of_addr (htakes v htv) (htakes r hr) hva] at hve
    exact he hve

/-- What is neither in the table nor taken from `TASK_FIN` stays out. -/
theorem finTask_out (ha : ∀ q, ¬ InTable s.store a q) (hne : a ≠ t.addr) :
    (∀ q, ¬ InTable (finTask cfg io t s).store a q) ∧
    ∀ q, ¬ Concatenated s (finTask cfg io t s) a q := by
  obtain ⟨h1, h2⟩ := finTask_exact io hp ht hover hio
  obtain ⟨-, hm⟩ := beforeMerge_placed cfg hp ht
  have hout : ∀ v, InAlltask (beforeMerge cfg t s).store v → v.addr ≠ a := by
    rintro v hv rfl
    rcases (hm v.addr v.base.tmpfile).mp ⟨v, hv, rfl, rfl⟩ with h | h
    · exact ha _ h
    · exact hne h.1
  constructor
  · rintro q ⟨v, hv, hva, -⟩
    exact hout v ((h1 v).mp hv).1 hva
  · rintro q ⟨h', f', v, hv, hva, -⟩
    obtain ⟨-, -, ⟨-, i, -, hf⟩, -⟩ := (h2 _ _ _).mp hv
    exact hout v ⟨_, (findTask_some hf).1⟩ hva

end Round

/-! ## The rounds of a pass -/

theorem concatenated_append (hg : Grew P s s') (hg' : Grew Q s' s'') :
    Concatenated s s'' a p ↔ Concatenated s s' a p ∨ Concatenated s' s'' a p := by
  simp only [Concatenated, hg.since_append hg', List.mem_append]
  constructor
  · rintro ⟨h, f, t, he | he, hrest⟩
    · exact Or.inl ⟨h, f, t, he, hrest⟩
    · exact Or.inr ⟨h, f, t, he, hrest⟩
  · rintro (⟨h, f, t, he, hrest⟩ | ⟨h, f, t, he, hrest⟩)
    · exact ⟨h, f, t, Or.inl he, hrest⟩
    · exact ⟨h, f, t, Or.inr he, hrest⟩

theorem finLoop_add {ios : Nat → MergeIo} (n m : Nat) (s : Sm) :
    finLoop cfg ios (n + m) s = finLoop cfg ios m (finLoop cfg ios n s) := by
  induction n generalizing s with
  | zero => rw [Nat.zero_add, finLoop]
  | succ n ih =>
    rw [Nat.succ_add, finLoop, finLoop]
    rcases ho : s.once with _ | k
    · exact (finLoop_once_none ho).symm
    · exact ih _

theorem finIter_grew (cfg : Cfg) (io : MergeIo) (s : Sm) : Grew (fun _ => True) s (finIter cfg io s) :=
  (finIter_events cfg io s).mono fun _ _ => trivial

theorem finLoop_grew (ios : Nat → MergeIo) (n : Nat) (s : Sm) :
    Grew (fun _ => True) s (finLoop cfg ios n s) := by
  induction n generalizing s with
  | zero => exact .refl
  | succ n ih =>
    rw [finLoop]
    split
    · exact .refl
    · exact (finIter_grew cfg _ s).trans (ih _)

section Pass

variable {ios : Nat → MergeIo} {j k : Nat}

theorem rounds_grew (s : Sm) (j : Nat) : Grew (fun _ => True) s (rounds cfg ios s j) :=
  Grew.trans (.of_log_eq rfl) (finLoop_grew ios j { s with once := some 0 })

theorem rounds_le_grew (s : Sm) (hj : j ≤ 129) :
    Grew (fun _ => True) (rounds cfg ios s j) (checkFinTask cfg ios s) := by
  have h : checkFinTask cfg ios s = finLoop cfg ios (129 - j) (rounds cfg ios s j) := by
    rw [rounds, ← finLoop_add, show j + (129 - j) = 129 by omega]
    rfl
  rw [h]
  exact finLoop_grew ios _ _

theorem roundStart_grew (cfg : Cfg) (ios : Nat → MergeIo) (s : Sm) (j : Nat) (t : Tasklist) :
    Grew (fun e => e = .fin t) (rounds cfg ios s j) (roundStart cfg ios s j t) :=
  Grew.note (.of_log_eq rfl) rfl

/-- The record of a round, as it is when the round has taken it. -/
theorem roundStart_placed (cfg : Cfg) (ios : Nat → MergeIo) (hp : WellPlaced s.store) (hj : j < (s.store.vfstask .fin).length) (hj' : j < 128) :
    ∃ loc, Placed (roundStart cfg ios s j (s.store.vfstask .fin)[j].taken).store loc ∧
      loc (s.store.vfstask .fin)[j].taken.addr = .held := by
  obtain ⟨⟨loc, h1⟩, -, h3⟩ := rounds_spec cfg ios hp (Nat.le_of_lt hj) (by omega)
  rw [List.drop_eq_getElem_cons hj] at h3
  exact ⟨_, popFin_placed h1 h3, Function.update_self ..⟩

theorem inTable_roundStart : InTable (roundStart cfg ios s j t).store a p ↔
    InTable (rounds cfg ios s j).store a p := by
  have hall : (roundStart cfg ios s j t).store.alltask = (rounds cfg ios s j).store.alltask :=
    alltask_popFin
  simp only [InTable, InAlltask, hall]

theorem not_concatenated_roundStart : ¬ Concatenated (rounds cfg ios s j) (roundStart cfg ios s j t) a p := by
  rintro ⟨h, f, v, he, -⟩
  rw [since_of_log (l := [.fin t]) rfl, List.mem_singleton] at he
  exact absurd he (by simp)

/-- What has been concatenated since the pass began, one round later. -/
theorem concatenated_rounds_succ (hp : WellPlaced s.store) (hj : j < (s.store.vfstask .fin).length)
    (hj' : j < 128) : Concatenated s (rounds cfg ios s (j + 1)) a p ↔
      Concatenated s (rounds cfg ios s j) a p ∨
      Concatenated (roundStart cfg ios s j (s.store.vfstask .fin)[j].taken)
        (rounds cfg ios s (j + 1)) a p := by
  have hg : Grew (fun _ => True) (roundStart cfg ios s j (s.store.vfstask .fin)[j].taken)
      (rounds cfg ios s (j + 1)) := by
    rw [rounds_succ cfg ios hp hj hj']
    exact (finTask_grew ..).mono fun _ _ => trivial
  have hg0 := (roundStart_grew cfg ios s j (s.store.vfstask .fin)[j].taken).mono
    fun _ _ => trivial
  rw [concatenated_append (rounds_grew s j) (hg0.trans hg), concatenated_append hg0 hg]
  exact or_congr_right (or_iff_right not_concatenated_roundStart)

/-- The address is not in the table and nothing at it has been concatenated in the pass. -/
def Out (cfg : Cfg) (ios : Nat → MergeIo) (s : Sm) (j a : Nat) : Prop :=
  (∀ q, ¬ InTable (rounds cfg ios s j).store a q) ∧ ∀ q, ¬ Concatenated s (rounds cfg ios s j) a q

/-- A merge in one of the first `j` rounds has skipped a record with the address. -/
def Skipped (cfg : Cfg) (ios : Nat → MergeIo) (s : Sm) (j a : Nat) : Prop :=
  ∃ k < j, ∃ t r, (s.store.vfstask .fin)[k]? = some t ∧
    Takes cfg t.taken (roundStart cfg ios s k t.taken) r ∧ r.addr = a ∧ r.base.expire ≠ 0

/-- Where a record that was taken in one of the first `j` rounds is. -/
def Settled (cfg : Cfg) (ios : Nat → MergeIo) (s : Sm) (j a : Nat) (p : Bytes) : Prop :=
  InTable (rounds cfg ios s j).store a p ∧ (∀ q, ¬ Concatenated s (rounds cfg ios s j) a q) ∨
  (∀ q, ¬ InTable (rounds cfg ios s j).store a q) ∧ Concatenated s (rounds cfg ios s j) a p ∨
  Out cfg ios s j a ∧ Skipped cfg ios s j a

variable (hp : WellPlaced s.store) (hok : ∀ t ∈ s.store.vfstask .fin, t.base.overstatus = .ok)
variable (hio : FilesSucceed cfg ios s)

include hp in
theorem addr_inj {j k : Nat} (hj : j < (s.store.vfstask .fin).length)
    (hk : k < (s.store.vfstask .fin).length)
    (h : (s.store.vfstask .fin)[j].addr = (s.store.vfstask .fin)[k].addr) : j = k := by
  obtain ⟨loc, hl⟩ := hp
  have hj' : j < ((s.store.vfstask .fin).map Tasklist.addr).length := by simpa using hj
  have hk' : k < ((s.store.vfstask .fin).map Tasklist.addr).length := by simpa using hk
  have h' : ((s.store.vfstask .fin).map Tasklist.addr)[j] =
      ((s.store.vfstask .fin).map Tasklist.addr)[k] := by simpa using h
  exact (hl.nodupQueue .fin).getElem_inj_iff.mp h'

include hp hio in
theorem round_noErr (hj : j < (s.store.vfstask .fin).length) (hj' : j < 128) (path : Bytes) :
    .ioErr path ∉ (roundStart cfg ios s j (s.store.vfstask .fin)[j].taken).since
      (finTask cfg (ios j) (s.store.vfstask .fin)[j].taken
        (roundStart cfg ios s j (s.store.vfstask .fin)[j].taken)) := by
  intro he
  rw [← rounds_succ cfg ios hp hj hj'] at he
  have hg : Grew (fun _ => True) (roundStart cfg ios s j (s.store.vfstask .fin)[j].taken)
      (rounds cfg ios s (j + 1)) := by
    rw [rounds_succ cfg ios hp hj hj']
    exact (finTask_grew ..).mono fun _ _ => trivial
  have hg0 : Grew (fun _ => True) s (roundStart cfg ios s j (s.store.vfstask .fin)[j].taken) :=
    (rounds_grew s j).trans ((roundStart_grew cfg ios s j _).mono fun _ _ => trivial)
  refine hio path ?_
  rw [hg0.since_append (hg.trans (rounds_le_grew s (by omega))), hg.since_append (rounds_le_grew s (by omega))]
  exact List.mem_append_right _ (List.mem_append_left _ he)

include hp hok hio

/-- What is out of the table before a round and not taken in it stays out. -/
theorem round_out (hj : j < (s.store.vfstask .fin).length) (hj' : j < 128)
    (hne : a ≠ (s.store.vfstask .fin)[j].addr)
    (ha : ∀ q, ¬ InTable (rounds cfg ios s j).store a q) :
    (∀ q, ¬ InTable (rounds cfg ios s (j + 1)).store a q) ∧
    ∀ q, Concatenated s (rounds cfg ios s (j + 1)) a q ↔ Concatenated s (rounds cfg ios s j) a q := by
  obtain ⟨loc, hl, hheld⟩ := roundStart_placed cfg ios hp hj hj'
  have hover : (s.store.vfstask .fin)[j].taken.base.overstatus = .ok := hok (s.store.vfstask .fin)[j] (List.getElem_mem hj)
  obtain ⟨h1, h2⟩ := finTask_out hl hheld hover (round_noErr hp hio hj hj')
    (fun q hq => ha q (inTable_roundStart.mp hq)) hne
  rw [← rounds_succ cfg ios hp hj hj'] at h1 h2
  refine ⟨h1, fun q => ?_⟩
  rw [concatenated_rounds_succ hp hj hj']
  exact or_iff_left (h2 q)

/-- What is in the table before a round, or taken in it, is settled after it. -/
theorem round_settled (hj : j < (s.store.vfstask .fin).length) (hj' : j < 128)
    (ha : InTable (rounds cfg ios s j).store a p ∨
      a = (s.store.vfstask .fin)[j].addr ∧ p = (s.store.vfstask .fin)[j].base.tmpfile)
    (hc : ∀ q, ¬ Concatenated s (rounds cfg ios s j) a q) : Settled cfg ios s (j + 1) a p := by
  obtain ⟨loc, hl, hheld⟩ := roundStart_placed cfg ios hp hj hj'
  have hover : (s.store.vfstask .fin)[j].taken.base.overstatus = .ok := hok (s.store.vfstask .fin)[j] (List.getElem_mem hj)
  have hnoErr := round_noErr hp hio hj hj'
  have hconcat : ∀ q, Concatenated s (rounds cfg ios s (j + 1)) a q ↔
      Concatenated (roundStart cfg ios s j (s.store.vfstask .fin)[j].taken)
        (rounds cfg ios s (j + 1)) a q := fun q => by
    rw [concatenated_rounds_succ hp hj hj']
    exact or_iff_right (hc q)
  by_cases hskip : ∃ r, Takes cfg (s.store.vfstask .fin)[j].taken
      (roundStart cfg ios s j (s.store.vfstask .fin)[j].taken) r ∧ r.addr = a ∧ r.base.expire ≠ 0
  · obtain ⟨r, hr, rfl, he⟩ := hskip
    obtain ⟨h1, h2⟩ := finTask_skipped hl hheld hover hnoErr hr he
    rw [← rounds_succ cfg ios hp hj hj'] at h1 h2
    refine Or.inr (Or.inr ⟨⟨h1, fun q hq => h2 q ((hconcat q).mp hq)⟩, j, by omega,
      (s.store.vfstask .fin)[j], r, List.getElem?_eq_getElem hj, hr, rfl, he⟩)
  · have hnone : ∀ r, Takes cfg (s.store.vfstask .fin)[j].taken
        (roundStart cfg ios s j (s.store.vfstask .fin)[j].taken) r → r.addr = a → r.base.expire = 0 := by
      intro r hr hra
      by_contra he
      exact hskip ⟨r, hr, hra, he⟩
    have hplaces := finTask_places hl hheld hover hnoErr (ha.imp_left inTable_roundStart.mpr) hnone
    rw [← rounds_succ cfg ios hp hj hj'] at hplaces
    rcases hplaces with ⟨h1, h2⟩ | ⟨h1, h2⟩
    · exact Or.inl ⟨h1, fun q hq => h2 q ((hconcat q).mp hq)⟩
    · exact Or.inr (Or.inl ⟨h1, (hconcat p).mpr h2⟩)

/-- **Every round.** A record that has not been taken yet is nowhere else, and one that has been taken
is settled. -/
theorem rounds_settled (hj : j ≤ (s.store.vfstask .fin).length) (hj' : j ≤ 128)
    (hk : k < (s.store.vfstask .fin).length) :
    (j ≤ k → Out cfg ios s j (s.store.vfstask .fin)[k].addr) ∧
    (k < j → Settled cfg ios s j (s.store.vfstask .fin)[k].addr (s.store.vfstask .fin)[k].base.tmpfile) := by
  induction j with
  | zero =>
    refine ⟨fun _ => ⟨?_, ?_⟩, fun h => absurd h (by omega)⟩
    · obtain ⟨loc, hl⟩ := hp
      rintro q ⟨v, ⟨b, hv⟩, hva, -⟩
      have h1 := hl.chain hv
      rw [hva, hl.queue (List.getElem_mem hk)] at h1
      exact absurd h1 (by simp)
    · rintro q ⟨h, f, v, he, -⟩
      have hnil : s.since (rounds cfg ios s 0) = [] := since_self rfl
      rw [hnil] at he
      exact absurd he (by simp)
  | succ j ih =>
    obtain ⟨h1, h2⟩ := ih (by omega) (by omega)
    have hjn : j < (s.store.vfstask .fin).length := by omega
    have hne : k ≠ j → (s.store.vfstask .fin)[k].addr ≠ (s.store.vfstask .fin)[j].addr := fun hkj he =>
      hkj (addr_inj hp hk hjn he)
    refine ⟨fun hjk => ?_, fun hkj => ?_⟩
    · obtain ⟨hout, hconc⟩ := h1 (by omega)
      obtain ⟨h3, h4⟩ := round_out hp hok hio hjn (by omega) (hne (by omega)) hout
      exact ⟨h3, fun q hq => hconc q ((h4 q).mp hq)⟩
    · by_cases hkj' : k = j
      · subst hkj'
        exact round_settled hp hok hio hjn (by omega) (Or.inr ⟨rfl, rfl⟩) (h1 (le_refl k)).2
      · rcases h2 (by omega) with ⟨h3, h4⟩ | ⟨h3, h4⟩ | ⟨⟨h3, h4⟩, i, hi, hskip⟩
        · exact round_settled hp hok hio hjn (by omega) (Or.inl h3) h4
        · obtain ⟨h5, h6⟩ := round_out hp hok hio hjn (by omega) (hne hkj') h3
          exact Or.inr (Or.inl ⟨h5, (h6 _).mpr h4⟩)
        · obtain ⟨h5, h6⟩ := round_out hp hok hio hjn (by omega) (hne hkj') h3
          exact Or.inr (Or.inr ⟨⟨h5, fun q hq => h4 q ((h6 q).mp hq)⟩, i, by omega, hskip⟩)

/-- What has been taken and is out stays out to the end of the rounds. -/
theorem rounds_out {m : Nat} (hjm : j ≤ m) (hm : m ≤ (s.store.vfstask .fin).length) (hm' : m ≤ 128)
    (hk : k < (s.store.vfstask .fin).length) (hkj : k < j)
    (hout : Out cfg ios s j (s.store.vfstask .fin)[k].addr) :
    Out cfg ios s m (s.store.vfstask .fin)[k].addr := by
  induction m, hjm using Nat.le_induction with
  | base => exact hout
  | succ m hjm ih =>
    obtain ⟨h1, h2⟩ := ih (by omega) (by omega)
    have hne : (s.store.vfstask .fin)[k].addr ≠ (s.store.vfstask .fin)[m].addr := fun he => by
      have := addr_inj hp hk (by omega) he
      omega
    obtain ⟨h3, h4⟩ := round_out hp hok hio (by omega) (by omega) hne h1
    exact ⟨h3, fun q hq => h2 q ((h4 q).mp hq)⟩

/-- A record that a merge skips is out. -/
theorem round_skipped (hj : j < (s.store.vfstask .fin).length) (hj' : j < 128)
    (hk : k < (s.store.vfstask .fin).length) {r : Tasklist}
    (hr : Takes cfg (s.store.vfstask .fin)[j].taken
      (roundStart cfg ios s j (s.store.vfstask .fin)[j].taken) r)
    (hra : (s.store.vfstask .fin)[k].addr = r.addr) (he : r.base.expire ≠ 0) :
    k ≤ j ∧ Out cfg ios s (j + 1) (s.store.vfstask .fin)[k].addr := by
  obtain ⟨loc, hl, hheld⟩ := roundStart_placed cfg ios hp hj hj'
  have hover : (s.store.vfstask .fin)[j].taken.base.overstatus = .ok :=
    hok (s.store.vfstask .fin)[j] (List.getElem_mem hj)
  obtain ⟨h1, h2⟩ := finTask_skipped hl hheld hover (round_noErr hp hio hj hj') hr he
  rw [← rounds_succ cfg ios hp hj hj'] at h1 h2
  -- the record was in the table before the round, or is the one the round has taken
  obtain ⟨-, hm⟩ := beforeMerge_placed cfg hl hheld
  obtain ⟨-, i, -, hf⟩ := id hr
  have hin : InTable (rounds cfg ios s j).store (s.store.vfstask .fin)[k].addr r.base.tmpfile ∨ k = j := by
    rcases (hm r.addr r.base.tmpfile).mp ⟨r, ⟨_, (findTask_some hf).1⟩, rfl, rfl⟩ with h | ⟨h, -⟩
    · rw [hra]
      exact Or.inl (inTable_roundStart.mp h)
    · exact Or.inr (addr_inj hp hk hj (hra.trans h))
  obtain ⟨h3, h4⟩ := rounds_settled hp hok hio (Nat.le_of_lt hj) (Nat.le_of_lt hj') hk
  have hkj : k ≤ j := by
    by_contra hkj
    rcases hin with hin | hin
    · exact (h3 (by omega)).1 _ hin
    · omega
  have hbefore : ∀ q, ¬ Concatenated s (rounds cfg ios s j) (s.store.vfstask .fin)[k].addr q := by
    rcases Nat.lt_or_ge k j with hlt | hge
    · have hin : InTable (rounds cfg ios s j).store (s.store.vfstask .fin)[k].addr r.base.tmpfile :=
        hin.resolve_right (by omega)
      rcases h4 hlt with ⟨-, h⟩ | ⟨h, -⟩ | ⟨⟨h, -⟩, -⟩
      · exact h
      · exact absurd hin (h _)
      · exact absurd hin (h _)
    · exact (h3 hge).2
  refine ⟨hkj, ?_, fun q hq => ?_⟩
  · rw [hra]
    exact h1
  · rcases (concatenated_rounds_succ hp hj hj').mp hq with hq | hq
    · exact hbefore q hq
    · rw [hra] at hq
      exact h2 q hq

/-! ## The end of the pass -/

omit hok hio in
/-- The end of the pass: the table and what has been concatenated are as after the last round, and what
is left in `TASK_FIN` was behind the record taken too much. -/
theorem checkFinTask_end (cfg : Cfg) (ios : Nat → MergeIo) {m : Nat} (hm : m = min (s.store.vfstask .fin).length 128) :
    (∀ a q, InTable (checkFinTask cfg ios s).store a q ↔ InTable (rounds cfg ios s m).store a q) ∧
    (∀ a q, Concatenated s (checkFinTask cfg ios s) a q ↔ Concatenated s (rounds cfg ios s m) a q) ∧
    (checkFinTask cfg ios s).store.vfstask .fin = (s.store.vfstask .fin).drop 129 := by
  rcases Nat.lt_or_ge 128 (s.store.vfstask .fin).length with hl | hl
  · obtain rfl : m = 128 := by omega
    obtain ⟨-, h2, h3⟩ := rounds_spec cfg ios hp (Nat.le_of_lt hl) (le_refl 128)
    rw [List.drop_eq_getElem_cons hl] at h3
    have hlast : checkFinTask cfg ios s = finIter cfg (ios 128) (rounds cfg ios s 128) := by
      have hsucc := finLoop_succ cfg ios 128 { s with once := some 0 }
      unfold rounds at h2
      rw [h2] at hsucc
      exact hsucc
    rw [finIter_full h2 h3 (le_refl 128)] at hlast
    rw [hlast]
    refine ⟨fun a q => ?_, fun a q => ?_, fin_popFin h3⟩
    · have hall : (rounds cfg ios s 128).popFin.store.alltask = (rounds cfg ios s 128).store.alltask :=
        alltask_popFin
      simp only [InTable, InAlltask, note_store, hall]
    · have hleak : Grew (fun e => ∃ t, e = .leak t) (rounds cfg ios s 128)
          (({ (rounds cfg ios s 128).popFin with once := none } : Sm).note
            (.leak (s.store.vfstask .fin)[128].taken)) := Grew.note (.of_log_eq rfl) ⟨_, rfl⟩
      rw [concatenated_append (rounds_grew s 128) hleak]
      refine or_iff_left ?_
      rintro ⟨h, f, v, he, -⟩
      rw [since_of_log (l := [.leak (s.store.vfstask .fin)[128].taken]) rfl, List.mem_singleton] at he
      exact absurd he (by simp)
  · obtain rfl : m = (s.store.vfstask .fin).length := by omega
    have hfin := (rounds_spec cfg ios hp (le_refl _) hl).2.2
    rw [checkFinTask_short cfg ios hp hl]
    refine ⟨fun _ _ => Iff.rfl, fun _ _ => Iff.rfl, ?_⟩
    rw [List.drop_eq_nil_of_le (by omega : (s.store.vfstask .fin).length ≤ 129)]
    exact hfin.trans (List.drop_length ..)

omit hok hio in
/-- A record that is taken is not in `TASK_FIN` at the end. -/
theorem not_inFin_end (cfg : Cfg) (ios : Nat → MergeIo) (hk : k < (s.store.vfstask .fin).length) (hk' : k ≤ 128) :
    ¬ InFin (checkFinTask cfg ios s) (s.store.vfstask .fin)[k].addr := by
  rintro ⟨v, hv, hva⟩
  rw [(checkFinTask_end hp cfg ios rfl).2.2] at hv
  obtain ⟨i, hi, rfl⟩ := List.getElem_of_mem hv
  rw [List.getElem_drop] at hva
  rw [List.length_drop] at hi
  have := addr_inj hp (by omega) hk hva
  omega

omit hok hio in
/-- A record that has been taken and is out at the end of the rounds is in none of the places. -/
theorem not_onePlace (hk : k < (s.store.vfstask .fin).length) (hk' : k ≤ 128)
    (hout : Out cfg ios s (min (s.store.vfstask .fin).length 128) (s.store.vfstask .fin)[k].addr) :
    ¬ OnePlace s (checkFinTask cfg ios s) (s.store.vfstask .fin)[k] := by
  obtain ⟨h1, h2, -⟩ := checkFinTask_end hp cfg ios rfl
  rintro (⟨h, -⟩ | ⟨-, h, -⟩ | ⟨-, -, h⟩)
  · exact not_inFin_end hp cfg ios hk hk' h
  · exact hout.1 _ ((h1 _ _).mp h)
  · exact hout.2 _ ((h2 _ _).mp h)

/-- **No finished block is dropped**, exactly when at most 128 wait and no merge of the pass finds one
of them expired. -/
theorem finished_blocks_kept :
    KeepsFinished cfg ios s ↔ (s.store.vfstask .fin).length ≤ 128 ∧ SkipsNone cfg ios s := by
  constructor
  · intro h
    have hl : (s.store.vfstask .fin).length ≤ 128 := by
      by_contra hl
      have hk : 128 < (s.store.vfstask .fin).length := by omega
      refine not_onePlace hp hk (le_refl 128) ?_ (h _ (List.getElem_mem hk))
      rw [Nat.min_eq_right (Nat.le_of_lt hk)]
      exact (rounds_settled hp hok hio (Nat.le_of_lt hk) (le_refl 128) hk).1 (le_refl 128)
    refine ⟨hl, fun j t hjt hj r hr hmem => ?_⟩
    by_contra he
    obtain ⟨hjn, rfl⟩ := List.getElem?_eq_some_iff.mp hjt
    obtain ⟨k, hk, hka⟩ := List.getElem_of_mem hmem
    rw [List.length_map] at hk
    rw [List.getElem_map] at hka
    obtain ⟨hkj, hout⟩ := round_skipped hp hok hio hjn hj hk hr hka he
    refine not_onePlace hp hk (by omega) ?_ (h _ (List.getElem_mem hk))
    exact rounds_out hp hok hio (by omega) (Nat.min_le_left ..) (Nat.min_le_right ..) hk (by omega) hout
  · rintro ⟨hl, hskip⟩ t ht
    obtain ⟨k, hk, rfl⟩ := List.getElem_of_mem ht
    obtain ⟨h1, h2, -⟩ := checkFinTask_end hp cfg ios rfl
    rw [Nat.min_eq_left hl] at h1 h2
    have hnot := not_inFin_end hp cfg ios hk (by omega)
    rcases (rounds_settled hp hok hio (le_refl _) hl hk).2 hk with ⟨h3, h4⟩ | ⟨h3, h4⟩ | ⟨-, hsk⟩
    · exact Or.inr (Or.inl ⟨hnot, (h1 _ _).mpr h3, fun q hq => h4 q ((h2 _ _).mp hq)⟩)
    · exact Or.inr (Or.inr ⟨hnot, fun q hq => h3 q ((h1 _ _).mp hq), (h2 _ _).mpr h4⟩)
    · obtain ⟨j, hj, t, r, hjt, hr, hra, he⟩ := hsk
      exact absurd (hskip j t hjt (by omega) r hr (hra ▸ List.mem_map_of_mem ht)) he

end Pass

/-- No event of a history is an error on a file. -/
theorem not_ioErr_of_all {l : List Event} (h : l.all (fun | .ioErr _ => false | _ => true) = true)
    (path : Bytes) : .ioErr path ∉ l := by
  intro he
  have := List.all_eq_true.mp h _ he
  exact absurd this (by simp)

/-- The two blocks of a file. -/
theorem finished_blocks_kept_two :
    KeepsFinished .sample (fun _ => .ok) ((Upload.sample (txt "f") 2).received .sample [2, 1]) := by
  refine (finished_blocks_kept (received_placed ..) (by decide)
    (not_ioErr_of_all (by decide +kernel))).mpr ⟨by decide +kernel, ?_⟩
  generalize hs : (Upload.sample (txt "f") 2).received .sample [2, 1] = s
  have hlen : (s.store.vfstask .fin).length = 2 := by
    subst hs
    decide +kernel
  have htakes : ∀ j < 2, ∀ t ∈ (s.store.vfstask .fin)[j]?, ∀ i ∈ idxs t.sub.count,
      ∀ r ∈ findTask (beforeMerge .sample t.taken (roundStart .sample (fun _ => .ok) s j t.taken)).store
        t.base.filename i t.sub.count, r.base.expire = 0 := by
    subst hs
    decide +kernel
  intro j t hj _ r ⟨_, i, hi, hr⟩ _
  exact htakes j (hlen ▸ (List.getElem?_eq_some_iff.mp hj).1) t hj i hi r hr

/-- Of 129 waiting blocks the last is taken and forgotten. -/
theorem backlog_loses_block :
    let s := (Upload.sample (txt "f") 2).received .sample (List.replicate 129 1)
    WellPlaced s.store ∧ (∀ t ∈ s.store.vfstask .fin, t.base.overstatus = .ok) ∧
    FilesSucceed .sample (fun _ => .ok) s ∧ ¬ KeepsFinished .sample (fun _ => .ok) s := by
  intro s
  have hp : WellPlaced s.store := received_placed ..
  obtain ⟨hok, hlen⟩ : (∀ t ∈ s.store.vfstask .fin, t.base.overstatus = .ok) ∧
      (s.store.vfstask .fin).length = 129 := by
    decide +kernel
  have hio : FilesSucceed .sample (fun _ => .ok) s := not_ioErr_of_all (by decide +kernel)
  have hk : 128 < (s.store.vfstask .fin).length := by omega
  refine ⟨hp, hok, hio, fun h => not_onePlace hp hk (le_refl 128) ?_ (h _ (List.getElem_mem hk))⟩
  rw [hlen]
  exact (rounds_settled hp hok hio (Nat.le_of_lt hk) (le_refl 128) hk).1 (le_refl 128)

end VfsOss
