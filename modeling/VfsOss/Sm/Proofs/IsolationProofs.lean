import VfsOss.Sm.Isolation
import VfsOss.Sm.Proofs.RecordsProofs
import VfsOss.CLib.Proofs.FileSystemProofs

/-!
# Proofs: hosts are kept apart while the searches find their own

Each loop over the blocks of a file leaves the other hosts' blocks alone as long as what it finds
belongs to its own host; finding one block does not change what is found for the others.
-/

namespace VfsOss

open CLib

variable {cfg : Cfg} {io : MergeIo} {s s' : Sm} {t : Tasklist} {st st' st'' : TaskStore} {i j : Int}
variable {host : Bytes} {loc : Nat → Loc}

/-- The blocks of hosts other than `host` are still in the table. -/
def Spares (host : Bytes) (st st' : TaskStore) : Prop :=
  ∀ r, InAlltask st r → r.base.hostname ≠ host → InAlltask st' r

theorem Spares.of_alltask_eq (h : st'.alltask = st.alltask) : Spares host st st' := fun _ hr _ =>
  (inAlltask_of_alltask_eq h).mpr hr

theorem Spares.trans (h : Spares host st st') (h' : Spares host st' st'') : Spares host st st'' :=
  fun r hr hn => h' r (h r hr hn) hn

/-- Marking a block of one's own host. -/
theorem FindsOwn.spares_mark {e : Nat} (h : FindsOwn t st i) :
    Spares t.base.hostname st (setTaskFromAlltask st t.base.filename i t.sub.count e) := by
  rintro r ⟨b, hr⟩ hn
  refine ⟨b, ?_⟩
  rw [alltask_setTaskFromAlltask]
  by_cases hb : b = getVfsTaskHash t.base.filename i t.sub.count
  · subst hb
    rw [Function.update_self]
    exact mem_updFirst_of_find?_ne hr fun hf => hn (h r hf)
  · rwa [Function.update_of_ne hb]

theorem FindsOwn.mark {e : Nat} (h : FindsOwn t st j) :
    FindsOwn t (setTaskFromAlltask st t.base.filename i t.sub.count e) j := by
  intro r hr
  rw [findTask_setTaskFromAlltask] at hr
  split at hr
  · obtain ⟨u, hu, rfl⟩ := Option.map_eq_some_iff.mp hr
    exact h u hu
  · exact h r hr

/-- Taking a block of one's own host out of the table. -/
theorem FindsOwn.spares_take {v : Tasklist} (h : FindsOwn t st i)
    (hg : getTaskFromAlltask st t.base.filename i t.sub.count = some (v, st')) :
    Spares t.base.hostname st st' := by
  rintro r ⟨b, hr⟩ hn
  rcases mem_getTaskFromAlltask_or hg hr with rfl | hr
  · exact absurd (h r (getTaskFromAlltask_some hg).1) hn
  · exact ⟨b, hr⟩

theorem FindsOwn.take {v : Tasklist} (h : FindsOwn t st j)
    (hg : getTaskFromAlltask st t.base.filename i t.sub.count = some (v, st')) (hij : i ≠ j) :
    FindsOwn t st' j := by
  intro r hr
  rw [findTask_getTaskFromAlltask hg hij] at hr
  exact h r hr

theorem FindsOwn.of_alltask_eq (h : FindsOwn t st i) (ha : st'.alltask = st.alltask) :
    FindsOwn t st' i := by
  intro r hr
  rw [findTask_of_alltask_eq ha] at hr
  exact h r hr

/-! ## The loops -/

theorem lackOne_spares (cfg : Cfg) (localfile : Bytes)
    (h : s.fs.content (subfile localfile i t.sub.count) = none → FindsOwn t s.store i) :
    Spares t.base.hostname s.store (lackOne cfg t localfile s i).store ∧
    (∀ j, FindsOwn t s.store j → FindsOwn t (lackOne cfg t localfile s i).store j) ∧
    (lackOne cfg t localfile s i).fs = s.fs := by
  rcases lackOne_cases cfg s t localfile i with he | ⟨hc, ⟨-, he⟩ | ⟨task0, st, hg, he⟩⟩
  · rw [he]
    exact ⟨.of_alltask_eq rfl, fun _ hj => hj, rfl⟩
  · rw [he]
    exact ⟨.of_alltask_eq alltask_vfsGetTask, fun _ hj => hj.of_alltask_eq alltask_vfsGetTask, rfl⟩
  · rw [he]
    have hst : st.alltask = s.store.alltask := alltask_of_get hg
    have ha : (lackAsk t i task0 st s).store.alltask =
        (setTaskFromAlltask st t.base.filename i t.sub.count 1).alltask := alltask_lackAsk task0
    refine ⟨?_, fun j hj => ?_, rfl⟩
    · have hi : FindsOwn t st i := (h hc).of_alltask_eq hst
      exact (Spares.of_alltask_eq hst).trans (hi.spares_mark.trans (.of_alltask_eq ha))
    · exact (hj.of_alltask_eq hst).mark.of_alltask_eq ha

theorem touch_absent {fs : FileSystem Bytes} {p q : Bytes} (h : (fs.touch q).content p = none) :
    fs.content p = none := by
  rcases hc : fs.content p with _ | c
  · rfl
  · rw [fs.content_touch_of_some hc] at h
    exact absurd h (by simp)

theorem touchMarker_absent {localfile p : Bytes} {fs : FileSystem Bytes}
    (h : (touchMarker cfg localfile fs).content p = none) : fs.content p = none := by
  have key : ∀ (l : List Bytes) (fs : FileSystem Bytes),
      (l.foldl FileSystem.touch fs).content p = none → fs.content p = none := by
    intro l
    induction l with
    | nil => exact fun fs h => h
    | cons q l ih => exact fun fs h => touch_absent (ih _ h)
  exact key _ fs h

theorem checkLackTask_spares (cfg : Cfg)
    (h : s.fs.content (checkfile (getLocaldir cfg t.base.hostname t.base.filename)) = none →
      ∀ i ∈ idxs t.sub.count, s.fs.content
        (subfile (getLocaldir cfg t.base.hostname t.base.filename) i t.sub.count) = none →
      FindsOwn t s.store i) :
    Spares t.base.hostname s.store (checkLackTask cfg t s).store ∧
    ∀ j, FindsOwn t s.store j → FindsOwn t (checkLackTask cfg t s).store j := by
  unfold checkLackTask
  generalize getLocaldir cfg t.base.hostname t.base.filename = localfile at h ⊢
  dsimp only
  split
  · exact ⟨.of_alltask_eq rfl, fun _ hj => hj⟩
  · next hmark =>
    generalize hs0 : ({ s with fs := touchMarker cfg localfile s.fs } : Sm) = s0
    have hstore : s0.store = s.store := by rw [← hs0]
    have hind : Spares t.base.hostname s0.store
          ((idxs t.sub.count).foldl (lackOne cfg t localfile) s0).store ∧
        (∀ j, FindsOwn t s0.store j →
          FindsOwn t ((idxs t.sub.count).foldl (lackOne cfg t localfile) s0).store j) ∧
        ((idxs t.sub.count).foldl (lackOne cfg t localfile) s0).fs = s0.fs := by
      refine foldl_induct (P := fun b : Sm => Spares t.base.hostname s0.store b.store ∧
        (∀ j, FindsOwn t s0.store j → FindsOwn t b.store j) ∧ b.fs = s0.fs)
        (fun b i hi hb => ?_) ⟨.of_alltask_eq rfl, fun _ hj => hj, rfl⟩
      obtain ⟨h1, h2, h3⟩ := lackOne_spares cfg localfile (s := b) (i := i) (t := t) fun hc => by
        refine hb.2.1 i ?_
        rw [hstore]
        refine h hmark i hi ?_
        rw [hb.2.2, ← hs0] at hc
        exact touchMarker_absent hc
      exact ⟨hb.1.trans h1, fun j hj => h2 j (hb.2.1 j hj), h3.trans hb.2.2⟩
    rw [hstore] at hind
    exact ⟨hind.1, hind.2.1⟩

theorem clearAlltaskTimeout_spares : ∀ (l : List Int) (s : Sm), l.Nodup →
    (∀ i ∈ l, FindsOwn t s.store i) →
    Spares t.base.hostname s.store
      (l.foldl (clearOne t.base.hostname t.base.filename t.sub.count) s).store := by
  intro l
  induction l with
  | nil => exact fun s _ _ => .of_alltask_eq rfl
  | cons i l ih =>
    intro s hnd h
    obtain ⟨hi, hnd⟩ := List.nodup_cons.mp hnd
    rw [List.foldl_cons]
    rcases clearOne_cases t.base.hostname t.base.filename t.sub.count s i with ⟨-, he⟩ | ⟨v, st, hg, he⟩ <;>
      rw [he]
    · exact ih s hnd fun j hj => h j (by simp [hj])
    · have hspares : Spares t.base.hostname s.store (vfsSetTask st v .home) :=
        ((h i (by simp)).spares_take hg).trans (.of_alltask_eq alltask_vfsSetTask)
      refine hspares.trans (ih ({ s with store := vfsSetTask st v .home }.note
        (.giveUp t.base.hostname v)) hnd fun j hj => ?_)
      have hij : i ≠ j := fun he => hi (he ▸ hj)
      exact ((h j (by simp [hj])).take hg hij).of_alltask_eq alltask_vfsSetTask

/-- The blocks that a merge concatenates belong to its host. -/
def ConcatsOwn (e : Event) : Prop :=
  ∀ hostname filename v, e = .concat hostname filename v → v.base.hostname = hostname

theorem mergeOne_spares (io : MergeIo) (ofd : Nat) (h : FindsOwn t s.store i) :
    Spares t.base.hostname s.store
      (mergeOne io t.base.hostname t.base.filename t.sub.count ofd i s).1.store ∧
    (∀ j, i ≠ j → FindsOwn t s.store j →
      FindsOwn t (mergeOne io t.base.hostname t.base.filename t.sub.count ofd i s).1.store j) ∧
    Grew ConcatsOwn s (mergeOne io t.base.hostname t.base.filename t.sub.count ofd i s).1 := by
  rcases mergeOne_cases io t.base.hostname t.base.filename t.sub.count ofd i s with ⟨-, he⟩ | ⟨v, st, hg, hc⟩
  · rw [he]
    exact ⟨.of_alltask_eq rfl, fun _ _ hj => hj, .refl⟩
  · have htake := h.spares_take hg
    have hother : ∀ j, i ≠ j → FindsOwn t s.store j → FindsOwn t st j := fun j hij hj => hj.take hg hij
    have hset : (vfsSetTask st v .home).alltask = st.alltask := alltask_vfsSetTask
    have hv : v.base.hostname = t.base.hostname := h v (getTaskFromAlltask_some hg).1
    have hown : ConcatsOwn (.concat t.base.hostname t.base.filename v) := by
      intro hostname filename w he
      obtain ⟨rfl, -, rfl⟩ := Event.concat.inj he
      exact hv
    have hioErr : ConcatsOwn (.ioErr v.base.tmpfile) := fun _ _ _ he => absurd he (by simp)
    rcases hc with ⟨-, he⟩ | ⟨-, he, -⟩ | ⟨-, c, -, d, err, -, fs, -, s', rfl, ⟨-, he⟩ | ⟨-, he⟩⟩ <;> rw [he]
    · refine ⟨htake.trans (.of_alltask_eq hset), fun j hij hj => (hother j hij hj).of_alltask_eq hset, ?_⟩
      exact Grew.note (.of_log_eq rfl) fun _ _ _ he => absurd he (by simp)
    · refine ⟨htake, hother, ?_⟩
      exact Grew.note (Grew.note (.of_log_eq rfl) hioErr) fun _ _ _ he => absurd he (by simp)
    · refine ⟨htake.trans (.of_alltask_eq hset), fun j hij hj => (hother j hij hj).of_alltask_eq hset, ?_⟩
      exact Grew.note (Grew.note (.of_log_eq rfl) hown) hioErr
    · refine ⟨htake.trans (.of_alltask_eq hset), fun j hij hj => (hother j hij hj).of_alltask_eq hset, ?_⟩
      exact Grew.note (.of_log_eq rfl) hown

theorem mergeLoop_spares (io : MergeIo) (ofd : Nat) : ∀ (l : List Int) (s : Sm), l.Nodup →
    (∀ i ∈ l, FindsOwn t s.store i) →
    Spares t.base.hostname s.store
      (mergeLoop io t.base.hostname t.base.filename t.sub.count ofd l s).store ∧
    Grew ConcatsOwn s (mergeLoop io t.base.hostname t.base.filename t.sub.count ofd l s) := by
  intro l
  induction l with
  | nil => exact fun s _ _ => ⟨.of_alltask_eq rfl, .refl⟩
  | cons i l ih =>
    intro s hnd h
    obtain ⟨hi, hnd⟩ := List.nodup_cons.mp hnd
    obtain ⟨h1, h2, h3⟩ := mergeOne_spares io ofd (h i (by simp))
    rw [mergeLoop]
    split
    · obtain ⟨h4, h5⟩ := ih _ hnd fun j hj => h2 j (fun he => hi (he ▸ hj)) (h j (by simp [hj]))
      exact ⟨h1.trans h4, h3.trans h5⟩
    · exact ⟨h1, h3⟩

theorem doMergeFile_spares (cfg : Cfg) (io : MergeIo) (h : ∀ i ∈ idxs t.sub.count, FindsOwn t s.store i) :
    Spares t.base.hostname s.store (doMergeFile cfg io t.base.hostname t.base.srcip t.base.filename
      t.sub.count t.base.filemd5 s).store ∧
    Grew ConcatsOwn s (doMergeFile cfg io t.base.hostname t.base.srcip t.base.filename
      t.sub.count t.base.filemd5 s) := by
  by_cases ho : io.openOut = true
  · obtain ⟨text, he⟩ := doMergeFile_open cfg ho s t.base.hostname t.base.srcip t.base.filename t.sub.count t.base.filemd5
    rw [he]
    obtain ⟨h1, h2⟩ := mergeLoop_spares (t := t) io
      (s.fs.creat (getLocaldir cfg t.base.hostname t.base.filename)).1 (idxs t.sub.count)
      ({ s with fs := (s.fs.creat (getLocaldir cfg t.base.hostname t.base.filename)).2 }.note
        (.merge t.base.hostname t.base.filename t.sub.count)) (nodup_idxs _) h
    refine ⟨h1, Grew.note (Grew.trans ?_ h2) fun _ _ _ he => absurd he (by simp)⟩
    exact Grew.note (.of_log_eq rfl) fun _ _ _ he => absurd he (by simp)
  · unfold doMergeFile
    rw [if_neg ho]
    exact ⟨.of_alltask_eq rfl, Grew.note .refl fun _ _ _ he => absurd he (by simp)⟩

/-! ## One block -/

/-- Processing a block keeps the hosts apart. -/
theorem finTask_isolated (cfg : Cfg) (io : MergeIo) (hp : Placed s.store loc) (ht : loc t.addr = .held)
    (h : SearchesOwn cfg t s) :
    Spares t.base.hostname s.store (finTask cfg io t s).store ∧
    Grew ConcatsOwn s (finTask cfg io t s) := by
  have hno : ∀ e, (∀ h f v, e ≠ .concat h f v) → ConcatsOwn e := fun e he h f v hv =>
    absurd hv (he h f v)
  unfold finTask
  split
  · next hover =>
    split
    · exact ⟨.of_alltask_eq alltask_vfsSetTask, .of_log_eq rfl⟩
    · next hretry =>
      refine ⟨clearAlltaskTimeout_spares _ s (nodup_idxs _) (h.failed hover hretry), ?_⟩
      refine Grew.note ((clearAlltaskTimeout_grew ..).mono fun e he => ?_) (hno _ (by simp))
      obtain ⟨v, rfl⟩ := he
      exact hno _ (by simp)
  · next hover =>
    have hover : t.base.overstatus = .ok := by simpa using hover
    obtain ⟨hlack, hfinds⟩ := checkLackTask_spares cfg (h.lack hover)
    have hgrew : Grew ConcatsOwn s (checkLackTask cfg t s) :=
      (checkLackTask_grew cfg t).mono fun e he => by
        rcases he with ⟨v, rfl⟩ | ⟨v, rfl⟩ <;> exact hno _ (by simp)
    obtain ⟨-, loc', hp', -, hheld⟩ := (checkLackTask_internal (s := s) cfg t).store loc hp
    have hfree : ∀ b, ∀ u ∈ (checkLackTask cfg t s).store.alltask b, u.addr ≠ t.addr :=
      hp'.not_chained (by simp [hheld _ ht])
    have hadd : Spares t.base.hostname (checkLackTask cfg t s).store
        (addTaskToAlltask (checkLackTask cfg t s).store t) := by
      rintro r ⟨b, hr⟩ -
      exact inAlltask_add.mpr (Or.inl ⟨⟨b, hr⟩, hfree b r hr⟩)
    dsimp only
    split
    · next hall =>
      have hothers := others_of_allsub cfg hp hall
      have hown : ∀ i ∈ idxs t.sub.count,
          FindsOwn t (addTaskToAlltask (checkLackTask cfg t s).store t) i := by
        intro i hi r hr
        by_cases hne : i = t.sub.idx
        · rw [hne, findTask_add_self] at hr
          rw [Option.some.inj hr]
        · rw [findTask_add_ne hne hfree] at hr
          exact hfinds i (h.merge hover hothers i hi hne) r hr
      obtain ⟨h1, h2⟩ := doMergeFile_spares (s := { checkLackTask cfg t s with
        store := addTaskToAlltask (checkLackTask cfg t s).store t }) cfg io hown
      exact ⟨(hlack.trans hadd).trans h1, (hgrew.trans (.of_log_eq rfl)).trans h2⟩
    · exact ⟨hlack.trans hadd, hgrew.trans (.of_log_eq rfl)⟩

/-! ## Runs -/

theorem Uploaded.mono {log log' : List Event} (h : Uploaded log t) (hl : ∀ e ∈ log, e ∈ log') :
    Uploaded log' t := by
  obtain ⟨p, hp, hrest⟩ := h
  exact ⟨p, hl _ hp, hrest⟩

/-- Every block was uploaded, and those that have been merged by the host of the merged file. -/
structure Traced (s : Sm) : Prop where
  sited : WellSited s
  records : Records (Uploaded s.log) s
  merged : MergedOwn s.log

theorem Uploaded.ofBlock (log : List Event) : OfBlock (Uploaded log) := fun _ _ h hh hf _ hs => by
  obtain ⟨p, hp, h1, h2, h3⟩ := h
  exact ⟨p, hp, h1.trans hh.symm, h2.trans hf.symm, h3.trans hs.symm⟩

theorem MergedOwn.grew {P : Event → Prop} (h : MergedOwn s.log) (hg : Grew P s s')
    (hP : ∀ hostname filename v, P (.concat hostname filename v) →
      v.base.hostname = hostname ∧ Uploaded s'.log v) : MergedOwn s'.log := by
  intro hostname filename v hv
  rcases hg.mem hv with hv | hv
  · obtain ⟨h1, h2⟩ := h hostname filename v hv
    exact ⟨h1, h2.mono fun e he => hg.mem_of_mem he⟩
  · exact hP hostname filename v hv

/-- A round of the pass with the searches finding their own host's blocks. -/
theorem processed_isolated {a : SmAct} (h : t ∈ processed s a) (hsited : WellSited s)
    (hown : SearchesOwn cfg t s) :
    Spares t.base.hostname s.store (smStep cfg s a).store ∧ Grew ConcatsOwn s (smStep cfg s a) := by
  obtain ⟨io, s1, he, hst, hfs, hlog, u, rest, hq, rfl⟩ := finTask_of_processed h cfg
  obtain ⟨-, loc, hl⟩ := hsited
  have hp := popFin_placed hl.placed hq
  have halltask : s1.store.alltask = s.store.alltask := by rw [hst, alltask_popFin]
  rw [← hst] at hp
  have hfinds : ∀ i, FindsOwn u.taken s.store i → FindsOwn u.taken s1.store i := fun i hi =>
    hi.of_alltask_eq halltask
  have hcheck : ∀ f i c e, checkTaskFromAlltask s1.store f i c e = checkTaskFromAlltask s.store f i c e := by
    intro f i c e
    rw [checkTaskFromAlltask, checkTaskFromAlltask, halltask]
  have hown1 : SearchesOwn cfg u.taken s1 := by
    refine ⟨fun h1 h2 i hi => hfinds i (hown.failed h1 h2 i hi), fun h1 h2 i hi h3 => ?_,
      fun h1 h2 i hi h3 => ?_⟩
    · rw [hfs] at h2 h3
      exact hfinds i (hown.lack h1 h2 i hi h3)
    · simp only [hcheck] at h2
      exact hfinds i (hown.merge h1 h2 i hi h3)
  obtain ⟨h1, h2⟩ := finTask_isolated cfg io (t := u.taken) hp (Function.update_self ..) hown1
  rw [he]
  refine ⟨(Spares.of_alltask_eq halltask).trans h1, Grew.trans ?_ h2⟩
  exact ⟨[.fin u.taken], hlog, fun e hm => by
    rw [List.mem_singleton.mp hm]
    exact fun _ _ _ he => absurd he (by simp)⟩

/-- A step that processes no record merges nothing. -/
theorem concats_of_not_processes (cfg : Cfg) (hsited : WellSited s) (a : SmAct)
    (h : ∀ t, t ∉ processed s a) : Grew ConcatsOwn s (smStep cfg s a) := by
  have hno : ∀ e, (∀ h f v, e ≠ .concat h f v) → ConcatsOwn e := fun e he h f v hv =>
    absurd hv (he h f v)
  obtain ⟨ht, -⟩ := hsited
  cases a with
  | accept fd ip mem => exact .of_log_eq (acceptNew_same cfg mem fd ip ht).2.1.log
  | recv fd chunk io =>
    obtain ⟨-, -, s1, s2, hm1, hm2, hm3⟩ := doRecv_moves cfg io Mybuff.data fd chunk ht
    have hlog : (smStep cfg s (.recv fd chunk io)).log = s1.log := hm3.log_eq.trans hm2.log_eq
    rcases hm1.log_eq with he | ⟨t, he⟩
    · exact .of_log_eq (hlog.trans he)
    · exact ⟨[.post t], hlog.trans he, fun e hm => hno e (by simp [List.mem_singleton.mp hm])⟩
  | send fd n => exact .of_log_eq (doSend_move fd n ht).2.2.log_eq
  | close fd => exact .of_log_eq (doClose_move fd ht).1.log_eq
  | finBegin => exact .of_log_eq (finBegin_same s).log
  | finIter io =>
    rcases ho : s.once with _ | k
    · refine .of_log_eq ?_
      unfold smStep finIter
      rw [ho]
    rcases hq : s.store.vfstask .fin with _ | ⟨u, rest⟩
    · exact .of_log_eq (by rw [smStep, finIter_nil ho hq])
    · by_cases hk : k < 128
      · exact absurd (mem_processed.mpr ⟨io, k, u, rest, rfl, ho, hk, hq, rfl⟩) (h u.taken)
      · rw [smStep, finIter_full ho hq (by omega)]
        exact Grew.note (.of_log_eq rfl) (hno _ (by simp))
  | began hostname filename => exact Grew.note .refl (hno _ (by simp))

theorem smStep_traced (a : SmAct) (h : Traced s) (hok : StepSearchesOwn cfg s a) :
    Traced (smStep cfg s a) := by
  have hown : Grew ConcatsOwn s (smStep cfg s a) := by
    by_cases hp : ∃ t, t ∈ processed s a
    · obtain ⟨t, hp⟩ := hp
      exact (processed_isolated hp h.sited (hok t hp)).2
    · exact concats_of_not_processes cfg h.sited a (not_exists.mp hp)
  have hrec : Records (Uploaded (smStep cfg s a).log) s := h.records.mono fun t ht =>
    ht.mono fun e he => hown.mem_of_mem he
  obtain ⟨h1, h2⟩ := hrec.smStep cfg (.ofBlock _) h.sited a fun t he =>
    ⟨t, by rw [he]; simp, rfl, rfl, rfl⟩
  refine ⟨smStep_sited h.sited a, h1, h.merged.grew (hown.and h2) fun hostname filename v hv => ?_⟩
  exact ⟨hv.1 _ _ _ rfl, hv.2 _ _ _ rfl⟩

theorem init_traced (n : Nat) : Traced (Sm.init n) := by
  refine ⟨init_sited n, ⟨fun t ht => ?_, fun t ht => ?_, fun {fd t f} ht => ?_⟩, fun _ _ _ he => ?_⟩
  · exact absurd ht (by simp [Sm.init, initTaskInfo])
  · obtain ⟨b, hb⟩ := ht
    exact absurd hb (by simp [Sm.init, initTaskInfo])
  · exact absurd ht (by simp [Sm.recv, Sm.init, Conn.unused])
  · exact absurd he (by simp [Sm.init])

/-- **Host isolation.** While the searches by file name, index and count find blocks of the host whose
block is being processed, a merged file only holds blocks its host has uploaded, and no block of
another host is marked expired, removed or merged. -/
theorem hosts_isolated (cfg : Cfg) (n : Nat) (as : List SmAct)
    (hok : RunOk (smStep cfg) (StepSearchesOwn cfg) (Sm.init n) as) :
    MergedOwn (run (smStep cfg) (Sm.init n) as).log ∧
    RunOk (smStep cfg) (StepKeepsOthers cfg) (Sm.init n) as := by
  constructor
  · have h : Traced (run (smStep cfg) (Sm.init n) as) :=
      run_invariant Traced (fun _ a h hs => smStep_traced a h hs) (init_traced n) hok
    exact h.merged
  · refine RunOk.of_invariant WellSited (fun s a h _ => smStep_sited h a) (fun s a h hs => ?_)
      (init_sited n) hok
    exact fun t hp => (processed_isolated hp h (hs t hp)).1

/-- One host uploads a file in two blocks, another one a file of the same name in one. -/
theorem hosts_isolated_two_uploads :
    let as := SmAct.post 3 (txt "a") (txt "f") 1 2 1 [1] ++ SmAct.post 4 (txt "a") (txt "f") 2 2 1 [2] ++
      SmAct.post 5 (txt "b") (txt "f") 1 1 1 [3] ++
      [.finBegin, .finIter .ok, .finIter .ok, .finIter .ok]
    let s := run (smStep .sample) (Sm.init 8) as
    s.fs.content (txt "/data/vfs/a/f") = some [1, 2] ∧ s.fs.content (txt "/data/vfs/b/f") = some [3] ∧
    MergedOwn s.log ∧ RunOk (smStep .sample) (StepKeepsOthers .sample) (Sm.init 8) as := by
  intro as s
  obtain ⟨⟨ha, hb⟩, hok⟩ : (s.fs.content (txt "/data/vfs/a/f") = some [1, 2] ∧
      s.fs.content (txt "/data/vfs/b/f") = some [3]) ∧
      RunOk (smStep .sample) (StepSearchesOwn .sample) (Sm.init 8) as := by
    decide +kernel
  exact ⟨ha, hb, hosts_isolated .sample 8 as hok⟩

/-- Two hosts upload a file of the same name in two blocks. The first block of one and the second block
of the other make the file complete. -/
theorem merge_mixes_hosts :
    let as := SmAct.post 3 (txt "b") (txt "f") 1 2 5 [] ++ SmAct.post 4 (txt "a") (txt "f") 1 2 1 [1] ++
      SmAct.post 5 (txt "b") (txt "f") 2 2 1 [2] ++ [.finBegin, .finIter .ok, .finIter .ok]
    ¬ MergedOwn (run (smStep .sample) (Sm.init 8) as).log := by
  intro as h
  have hmix : (run (smStep .sample) (Sm.init 8) as).log.all (fun
      | .concat hostname _ t => t.base.hostname = hostname
      | _ => true) = false := by
    decide +kernel
  rw [List.all_eq_false] at hmix
  obtain ⟨e, he, hf⟩ := hmix
  cases e with
  | concat hostname filename t => exact hf (by simpa using (h hostname filename t he).1)
  | _ => exact hf rfl

end VfsOss
