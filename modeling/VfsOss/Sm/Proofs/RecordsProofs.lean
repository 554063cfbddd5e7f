import VfsOss.Sm.Proofs.LogProofs
import VfsOss.Sm.Proofs.RunPlaceProofs

/-!
# Proofs: what all block records have in common

A property of the records of blocks (those waiting in `TASK_FIN`, in the table and being received)
that new uploads have is kept by every step.
-/

namespace VfsOss

open CLib

variable {cfg : Cfg} {opens : Bool} {io : MergeIo} {s s' : Sm} {t : Tasklist} {st st' : TaskStore} {i : Int}
variable {loc : Nat → Loc}

theorem alltask_lackAsk (task0 : Tasklist) : (lackAsk t i task0 st s).store.alltask =
    (setTaskFromAlltask st t.base.filename i t.sub.count 1).alltask :=
  alltask_vfsSetTask

theorem alltask_of_get {m : Nat → Bool} {q : TaskStatus} {r : GetTask}
    (hg : vfsGetTask m st q = (r, st')) : st'.alltask = st.alltask := by
  have hframe : (vfsGetTask m st q).2.alltask = st.alltask := alltask_vfsGetTask
  rwa [hg] at hframe

/-! ## The table -/

section Table

variable {P : Tasklist → Prop}

/-- Every record of the table has a property. -/
def Table (P : Tasklist → Prop) (st : TaskStore) : Prop := ∀ v, InAlltask st v → P v

theorem Table.of_alltask_eq (h : Table P st) (ha : st'.alltask = st.alltask) : Table P st' :=
  fun v hv => h v ((inAlltask_of_alltask_eq ha).mp hv)

theorem Table.mark {f : Bytes} {c : Int} {e : Nat} (hP : ∀ u, P u → P (u.setExpire e)) (h : Table P st) :
    Table P (setTaskFromAlltask st f i c e) := by
  rintro v ⟨b, hv⟩
  rcases mem_setTaskFromAlltask hv with hv | ⟨u, hu, rfl, rfl⟩
  · exact h v ⟨b, hv⟩
  · exact hP u (h u ⟨_, (findTask_some hu).1⟩)

theorem Table.take {f : Bytes} {c : Int} {v : Tasklist} (h : Table P st)
    (hg : getTaskFromAlltask st f i c = some (v, st')) : P v ∧ Table P st' :=
  ⟨h v ⟨_, (findTask_some (getTaskFromAlltask_some hg).1).1⟩,
    fun _ ⟨b, hu⟩ => h _ ⟨b, mem_of_getTaskFromAlltask hg hu⟩⟩

theorem Table.add (h : Table P st) (ht : P t) : Table P (addTaskToAlltask st t) := by
  intro v hv
  rcases inAlltask_add.mp hv with ⟨hv, -⟩ | rfl
  · exact h v hv
  · exact ht

/-- The blocks that a merge concatenates have the property. -/
def ConcatsAll (P : Tasklist → Prop) (e : Event) : Prop :=
  ∀ hostname filename v, e = .concat hostname filename v → P v

theorem checkLackTask_table (cfg : Cfg) (hP : ∀ u, P u → P (u.setExpire 1)) (h : Table P s.store) :
    Table P (checkLackTask cfg t s).store := by
  unfold checkLackTask
  dsimp only
  split
  · exact h
  · refine foldl_induct (P := fun b : Sm => Table P b.store) (fun b i _ hb => ?_) h
    rcases lackOne_cases cfg b t (getLocaldir cfg t.base.hostname t.base.filename) i with
      he | ⟨-, ⟨-, he⟩ | ⟨task0, st, hg, he⟩⟩ <;> rw [he]
    · exact hb
    · exact hb.of_alltask_eq alltask_vfsGetTask
    · exact (Table.mark hP (hb.of_alltask_eq (alltask_of_get hg))).of_alltask_eq (alltask_lackAsk task0)

theorem mergeOne_table (io : MergeIo) (hostname filename : Bytes) (count : Int) (ofd : Nat) (i : Int)
    (h : Table P s.store) :
    Table P (mergeOne io hostname filename count ofd i s).1.store ∧
    Grew (ConcatsAll P) s (mergeOne io hostname filename count ofd i s).1 := by
  rcases mergeOne_cases io hostname filename count ofd i s with ⟨-, he⟩ | ⟨v, st, hg, hc⟩
  · rw [he]
    exact ⟨h, .refl⟩
  · obtain ⟨hv, hst⟩ := h.take hg
    have hset : Table P (vfsSetTask st v .home) := hst.of_alltask_eq alltask_vfsSetTask
    have hown : ConcatsAll P (.concat hostname filename v) := by
      intro h' f' w he
      obtain ⟨-, -, rfl⟩ := Event.concat.inj he
      exact hv
    have hioErr : ConcatsAll P (.ioErr v.base.tmpfile) := fun _ _ _ he => absurd he (by simp)
    rcases hc with ⟨-, he⟩ | ⟨-, he, -⟩ | ⟨-, c, -, d, err, -, fs, -, s', rfl, ⟨-, he⟩ | ⟨-, he⟩⟩ <;> rw [he]
    · exact ⟨hset, Grew.note (.of_log_eq rfl) fun _ _ _ he => absurd he (by simp)⟩
    · exact ⟨hst, Grew.note (Grew.note (.of_log_eq rfl) hioErr) fun _ _ _ he => absurd he (by simp)⟩
    · exact ⟨hset, Grew.note (Grew.note (.of_log_eq rfl) hown) hioErr⟩
    · exact ⟨hset, Grew.note (.of_log_eq rfl) hown⟩

theorem mergeLoop_table (io : MergeIo) (hostname filename : Bytes) (count : Int) (ofd : Nat) (l : List Int)
    (h : Table P s.store) :
    Table P (mergeLoop io hostname filename count ofd l s).store ∧
    Grew (ConcatsAll P) s (mergeLoop io hostname filename count ofd l s) :=
  mergeLoop_induct (P := fun b : Sm => Table P b.store ∧ Grew (ConcatsAll P) s b)
    (fun b i _ hb => by
      obtain ⟨h1, h2⟩ := mergeOne_table io hostname filename count ofd i hb.1
      exact ⟨h1, hb.2.trans h2⟩) ⟨h, .refl⟩

theorem doMergeFile_table (cfg : Cfg) (io : MergeIo) (hostname srcip filename : Bytes) (count : Int)
    (filemd5 : Bytes) (h : Table P s.store) :
    Table P (doMergeFile cfg io hostname srcip filename count filemd5 s).store ∧
    Grew (ConcatsAll P) s (doMergeFile cfg io hostname srcip filename count filemd5 s) := by
  have hno : ∀ e, (∀ h f v, e ≠ .concat h f v) → ConcatsAll P e := fun e he h f v hv =>
    absurd hv (he h f v)
  by_cases ho : io.openOut = true
  · obtain ⟨text, he⟩ := doMergeFile_open cfg ho s hostname srcip filename count filemd5
    rw [he]
    generalize hs0 : ({ s with fs := (s.fs.creat (getLocaldir cfg hostname filename)).2 } : Sm).note
      (.merge hostname filename count) = s0
    have h0 : Table P s0.store ∧ Grew (ConcatsAll P) s s0 := by
      rw [← hs0]
      exact ⟨h, Grew.note (.of_log_eq rfl) (hno _ (by simp))⟩
    generalize (s.fs.creat (getLocaldir cfg hostname filename)).1 = ofd
    obtain ⟨h1, h2⟩ := mergeLoop_table io hostname filename count ofd (idxs count) h0.1
    have h2 := h0.2.trans h2
    exact ⟨h1, Grew.note h2 (hno _ (by simp))⟩
  · unfold doMergeFile
    rw [if_neg ho]
    exact ⟨h, Grew.note .refl (hno _ (by simp))⟩

/-- What the table and the record taken from `TASK_FIN` have, the table still has, and so have the
blocks that are merged. -/
theorem finTask_table (cfg : Cfg) (io : MergeIo) (hP : ∀ u, P u → P (u.setExpire 1)) (h : Table P s.store)
    (ht : t.base.overstatus = .ok → P t) :
    Table P (finTask cfg io t s).store ∧ Grew (ConcatsAll P) s (finTask cfg io t s) := by
  have hno : ∀ e, (∀ h f v, e ≠ .concat h f v) → ConcatsAll P e := fun e he h f v hv =>
    absurd hv (he h f v)
  unfold finTask
  split
  · split
    · exact ⟨h.of_alltask_eq alltask_vfsSetTask, .of_log_eq rfl⟩
    · refine ⟨?_, Grew.note ((clearAlltaskTimeout_grew ..).mono fun e he => ?_) (hno _ (by simp))⟩
      · refine foldl_induct (P := fun b : Sm => Table P b.store) (fun b i _ hb => ?_) h
        rcases clearOne_cases t.base.hostname t.base.filename t.sub.count b i with
          ⟨-, he⟩ | ⟨v, st, hg, he⟩ <;> rw [he]
        · exact hb
        · exact (hb.take hg).2.of_alltask_eq alltask_vfsSetTask
      · obtain ⟨v, rfl⟩ := he
        exact hno _ (by simp)
  · next hover =>
    have hlack : Table P (checkLackTask cfg t s).store := checkLackTask_table cfg hP h
    have hadd := hlack.add (ht (not_not.mp hover))
    have hgrew : Grew (ConcatsAll P) s (checkLackTask cfg t s) :=
      (checkLackTask_grew cfg t).mono fun e he => by
        rcases he with ⟨v, rfl⟩ | ⟨v, rfl⟩ <;> exact hno _ (by simp)
    dsimp only
    split
    · obtain ⟨h1, h2⟩ := doMergeFile_table (s := { checkLackTask cfg t s with
        store := addTaskToAlltask (checkLackTask cfg t s).store t }) cfg io t.base.hostname
        t.base.srcip t.base.filename t.sub.count t.base.filemd5 hadd
      exact ⟨h1, (hgrew.trans (.of_log_eq rfl)).trans h2⟩
    · exact ⟨hadd, hgrew.trans (.of_log_eq rfl)⟩

/-- A block the lack check leaves unexpired was unexpired before. -/
theorem checkLackTask_unexpired (cfg : Cfg) {v : Tasklist} (hv : InAlltask (checkLackTask cfg t s).store v)
    (he : v.base.expire = 0) : InAlltask s.store v := by
  have h : Table (fun v => InAlltask s.store v ∨ v.base.expire = 1) (checkLackTask cfg t s).store :=
    checkLackTask_table cfg (fun _ _ => Or.inr rfl) fun _ hv => Or.inl hv
  exact (h v hv).resolve_right (by omega)

/-- When the file is complete after the lack check and with the new block, every other block was there,
unexpired, before the lack check. -/
theorem others_of_allsub (cfg : Cfg) (hp : Placed s.store loc)
    (hall : checkTaskAllsubIsok (addTaskToAlltask (checkLackTask cfg t s).store t) t.base.filename
      t.sub.count = true) :
    ∀ i ∈ idxs t.sub.count, i ≠ t.sub.idx →
      checkTaskFromAlltask s.store t.base.filename i t.sub.count 0 = true := by
  intro i hi hne
  obtain ⟨v, hv, hk, he⟩ := checkTaskFromAlltask_iff.mp (List.all_eq_true.mp hall i hi)
  rcases inAlltask_add.mp ⟨_, hv⟩ with ⟨hv, -⟩ | rfl
  · exact hp.checkTask_iff.mpr ⟨v, checkLackTask_unexpired cfg hv he, hk, he⟩
  · exact absurd (sameKey_iff.mp hk).2.1 hne

end Table

/-! ## The record of a round -/

theorem mem_processed {a : SmAct} : t ∈ processed s a ↔ ∃ io k u rest, a = .finIter io ∧
    s.once = some k ∧ k < 128 ∧ s.store.vfstask .fin = u :: rest ∧ t = u.taken := by
  constructor
  · intro h
    unfold processed at h
    split at h
    · next io =>
      rcases ho : s.once with _ | k
      · rw [ho] at h
        exact absurd h (by simp)
      rcases hq : s.store.vfstask .fin with _ | ⟨u, rest⟩
      · rw [ho, hq] at h
        exact absurd h (by simp)
      · simp only [ho, hq] at h
        split at h
        · next hk => exact ⟨io, k, u, rest, rfl, rfl, hk, rfl, (Option.some.inj h).symm⟩
        · exact absurd h (by simp)
    · exact absurd h (by simp)
  · rintro ⟨io, k, u, rest, rfl, ho, hk, hq, rfl⟩
    simp only [processed, ho, hq, if_pos hk]
    rfl

/-- The step taken by `finIter` for a record. -/
theorem finTask_of_processed {a : SmAct} (h : t ∈ processed s a) (cfg : Cfg) : ∃ io s1,
    smStep cfg s a = finTask cfg io t s1 ∧ s1.store = s.popFin.store ∧ s1.fs = s.fs ∧
    s1.log = s.log ++ [.fin t] ∧ ∃ u rest, s.store.vfstask .fin = u :: rest ∧ t = u.taken := by
  obtain ⟨io, k, u, rest, rfl, ho, hk, hq, rfl⟩ := mem_processed.mp h
  exact ⟨io, _, finIter_cons ho hq hk, rfl, rfl, rfl, u, rest, hq, rfl⟩

/-! ## Waiting, in the table, being received -/

/-- The blocks that wait, that are in the table and that are being received have a property. -/
structure Records (P : Tasklist → Prop) (s : Sm) : Prop where
  fin : ∀ t ∈ s.store.vfstask .fin, P t
  table : Table P s.store
  recv : ∀ {fd t f}, s.recv fd = some (t, f) → P t

section Records

variable {P Q : Tasklist → Prop} {fd : Nat}

theorem Records.mono (h : Records P s) (hpq : ∀ t, P t → Q t) : Records Q s :=
  ⟨fun t ht => hpq t (h.fin t ht), fun t ht => hpq t (h.table t ht), fun ht => hpq _ (h.recv ht)⟩

theorem Records.same (h : Records P s) (hs : SameRecords s s') : Records P s' := by
  obtain ⟨hst, -, -, hr⟩ := hs
  refine ⟨?_, ?_, fun {fd t f} ht => ?_⟩
  · rw [hst]
    exact h.fin
  · rw [hst]
    exact h.table
  · rw [hr] at ht
    exact h.recv ht

/-- The property only depends on the block's host, its file, its temporary file and its position. -/
def OfBlock (P : Tasklist → Prop) : Prop :=
  ∀ t v, P t → v.base.hostname = t.base.hostname → v.base.filename = t.base.filename →
    v.base.tmpfile = t.base.tmpfile → v.sub = t.sub → P v

theorem vfsSetTask_fin_all (h : ∀ t ∈ st.vfstask .fin, P t) {v : Tasklist}
    (hv : P { v with status := .fin }) : ∀ t ∈ (vfsSetTask st v .fin).vfstask .fin, P t := by
  intro t ht
  rcases mem_vfsSetTask ht with ⟨ht, -⟩ | ⟨-, -, rfl⟩
  · exact h t ht
  · exact hv

theorem Records.headMove (hP : OfBlock P) (hsited : Sited s loc) (h : Records P s)
    (hm : HeadMove cfg opens fd s s') (hpost : ∀ t, s'.log = s.log ++ [.post t] → P (prepared cfg t)) :
    Records P s' := by
  have keep : ∀ {s' : Sm}, s'.store.vfstask .fin = s.store.vfstask .fin →
      s'.store.alltask = s.store.alltask → s'.recv = s.recv → Records P s' := by
    intro s' hf ha hr
    refine ⟨by rw [hf]; exact h.fin, h.table.of_alltask_eq ha, fun {fd t f} ht => ?_⟩
    rw [hr] at ht
    exact h.recv ht
  cases hm with
  | stay hs => exact h.same hs
  | ask host store fs log recv =>
    obtain ⟨hf, ha, -⟩ := getTaskUnok_aside cfg host hsited.placed
    exact keep (by rw [store, hf]) (by rw [store, ha]) recv
  | noRecord none store fs log recv =>
    exact keep (by rw [store, fin_vfsGetTask (by simp)]) (by rw [store, alltask_vfsGetTask]) recv
  | refuse task0 t st home posted store fs log recv =>
    have hf : (vfsGetTask cfg.mallocOk s.store .home).2.vfstask .fin = s.store.vfstask .fin :=
      fin_vfsGetTask (by simp)
    rw [home] at hf
    refine ⟨?_, ?_, fun {fd v f} hv => ?_⟩
    · rw [store]
      refine vfsSetTask_fin_all ?_ (hP _ _ (hpost t log) rfl rfl rfl rfl)
      rw [hf]
      exact h.fin
    · rw [store]
      exact (h.table.of_alltask_eq (alltask_of_get home)).of_alltask_eq alltask_vfsSetTask
    · rw [recv] at hv
      exact h.recv hv
  | start task0 t st home posted opened free store fs log recv =>
    have hf : (vfsGetTask cfg.mallocOk s.store .home).2.vfstask .fin = s.store.vfstask .fin :=
      fin_vfsGetTask (by simp)
    rw [home] at hf
    refine ⟨?_, ?_, fun {fd' v f} hv => ?_⟩
    · rw [store, hf]
      exact h.fin
    · rw [store]
      exact h.table.of_alltask_eq (alltask_of_get home)
    · rw [recv] at hv
      by_cases hfd : fd' = fd
      · subst hfd
        rw [Function.update_self] at hv
        obtain ⟨rfl, -⟩ := Prod.mk.inj (Option.some.inj hv)
        exact hpost t log
      · rw [Function.update_of_ne hfd] at hv
        exact h.recv hv

/-- A connection that keeps its record. -/
theorem Records.receive {v : Tasklist} {f' : Nat × Nat} (h : Records P s) (hv : P v)
    (hs : s'.store = s.store) (hr : s'.recv = Function.update s.recv fd (some (v, f'))) :
    Records P s' := by
  refine ⟨by rw [hs]; exact h.fin, by rw [hs]; exact h.table, fun {fd' w g} hw => ?_⟩
  rw [hr] at hw
  by_cases hfd : fd' = fd
  · subst hfd
    rw [Function.update_self] at hw
    obtain ⟨rfl, -⟩ := Prod.mk.inj (Option.some.inj hw)
    exact hv
  · rw [Function.update_of_ne hfd] at hw
    exact h.recv hw

/-- A connection whose record goes to `TASK_FIN`. -/
theorem Records.finish {v : Tasklist} (h : Records P s) (hv : P { v with status := .fin })
    (hs : s'.store = vfsSetTask s.store v .fin) (hr : s'.recv = Function.update s.recv fd none) :
    Records P s' := by
  refine ⟨?_, ?_, fun {fd' w g} hw => ?_⟩
  · rw [hs]
    exact vfsSetTask_fin_all h.fin hv
  · rw [hs]
    exact h.table.of_alltask_eq alltask_vfsSetTask
  · rw [hr] at hw
    by_cases hfd : fd' = fd
    · subst hfd
      rw [Function.update_self] at hw
      exact absurd hw (by simp)
    · rw [Function.update_of_ne hfd] at hw
      exact h.recv hw

theorem Records.bodyMove (hP : OfBlock P) (h : Records P s) (hm : BodyMove fd s s') : Records P s' := by
  cases hm with
  | stay hs => exact h.same hs
  | write t node off bytes recv0 fits pos more store fs log recv =>
    exact h.receive (v := t.receive bytes (toInt32 bytes.length))
      (hP t _ (h.recv recv0) rfl rfl rfl rfl) store recv
  | finish t node off bytes recv0 fits pos done store fs log recv =>
    exact h.finish (v := (t.receive bytes (toInt32 bytes.length)).over .ok)
      (hP t _ (h.recv recv0) rfl rfl rfl rfl) store recv
  | overflow t node off bytes recv0 fits neg store fs log recv =>
    exact h.receive (h.recv recv0) store recv

theorem Records.closeMove (hP : OfBlock P) (h : Records P s) (hm : CloseMove fd s s') : Records P s' := by
  cases hm with
  | stay hs => exact h.same hs
  | abort t f recv0 store fs log recv =>
    exact h.finish (v := t.over .peererr) (hP t _ (h.recv recv0) rfl rfl rfl rfl) store recv

theorem CloseMove.log_eq (hm : CloseMove fd s s') : s'.log = s.log := by
  cases hm with
  | stay hs => exact hs.log
  | abort t f recv0 store fs log recv => exact log

theorem BodyMove.log_eq (hm : BodyMove fd s s') : s'.log = s.log := by
  cases hm with
  | stay hs => exact hs.log
  | write t node off bytes recv0 fits pos more store fs log recv => exact log
  | finish t node off bytes recv0 fits pos done store fs log recv => exact log
  | overflow t node off bytes recv0 fits neg store fs log recv => exact log

/-- The first phase writes at most one event, for the upload it starts or refuses. -/
theorem HeadMove.log_eq (hm : HeadMove cfg opens fd s s') :
    s'.log = s.log ∨ ∃ t, s'.log = s.log ++ [.post t] := by
  cases hm with
  | stay hs => exact Or.inl hs.log
  | ask host store fs log recv => exact Or.inl log
  | noRecord none store fs log recv => exact Or.inl log
  | refuse task0 t st home posted store fs log recv => exact Or.inr ⟨t, log⟩
  | start task0 t st home posted opened free store fs log recv => exact Or.inr ⟨t, log⟩

theorem finBegin_same (s : Sm) : SameRecords s (finBegin s) := by
  unfold finBegin
  split <;> exact ⟨rfl, rfl, rfl, rfl⟩

theorem Records.finIter (cfg : Cfg) (io : MergeIo) (hP : OfBlock P) (hsited : WellSited s)
    (h : Records P s) :
    Records P (finIter cfg io s) ∧ Grew (ConcatsAll P) s (finIter cfg io s) := by
  have hno : ∀ e, (∀ h f v, e ≠ .concat h f v) → ConcatsAll P e := fun e he h f v hv =>
    absurd hv (he h f v)
  rcases ho : s.once with _ | k
  · unfold VfsOss.finIter
    rw [ho]
    exact ⟨h, .refl⟩
  rcases hq : s.store.vfstask .fin with _ | ⟨t, rest⟩
  · rw [finIter_nil ho hq]
    exact ⟨⟨h.fin, h.table, h.recv⟩, .of_log_eq rfl⟩
  obtain ⟨-, loc, hl⟩ := hsited
  have hpop := popFin_placed hl.placed hq
  have hfin : s.popFin.store.vfstask .fin = rest := fin_popFin hq
  have htable : Table P s.popFin.store := h.table.of_alltask_eq alltask_popFin
  by_cases hk : k < 128
  · rw [finIter_cons ho hq hk]
    have ht : P t.taken := hP t _ (h.fin t (by rw [hq]; simp)) rfl rfl rfl rfl
    generalize hs1 : ({ s.popFin with once := some (k + 1) } : Sm).note (.fin t.taken) = s1
    have hg1 : Grew (ConcatsAll P) s s1 := by
      rw [← hs1]
      exact Grew.note (.of_log_eq rfl) (hno _ (by simp))
    have hst1 : s1.store = s.popFin.store := by rw [← hs1]; rfl
    have hacon1 : s1.acon = s.acon := by rw [← hs1]; rfl
    rw [← hst1] at hpop hfin htable
    obtain ⟨htab, hg⟩ := finTask_table cfg io (fun u hu => hP u _ hu rfl rfl rfl rfl) htable fun _ => ht
    obtain ⟨hf, -⟩ := finTask_placed cfg io (t := t.taken) hpop (Function.update_self ..)
    refine ⟨⟨?_, htab, fun {fd v f} hv => ?_⟩, hg1.trans hg⟩
    · rw [hf, hfin]
      exact fun v hv => h.fin v (by rw [hq]; simp [hv])
    · rw [recv_of_acon ((finTask_frame cfg io t.taken).1.trans hacon1)] at hv
      exact h.recv hv
  · rw [finIter_full ho hq (by omega)]
    refine ⟨⟨?_, htable, h.recv⟩, Grew.note (.of_log_eq rfl) (hno _ (by simp))⟩
    rw [show (({ s.popFin with once := none } : Sm).note (.leak t.taken)).store.vfstask .fin = rest from hfin]
    exact fun v hv => h.fin v (by rw [hq]; simp [hv])

/-- **Block records.** A property of a block's host, files and position that every record has which is
made for a header is kept by every step, and the blocks that are merged have it. -/
theorem Records.smStep (cfg : Cfg) (hP : OfBlock P) (hsited : WellSited s) (h : Records P s) (a : SmAct)
    (hpost : ∀ t, (smStep cfg s a).log = s.log ++ [.post t] → P (prepared cfg t)) :
    Records P (smStep cfg s a) ∧ Grew (ConcatsAll P) s (smStep cfg s a) := by
  obtain ⟨ht, loc, hl⟩ := id hsited
  cases a with
  | accept fd ip mem =>
    obtain ⟨-, hs, -⟩ := acceptNew_same cfg mem fd ip ht
    exact ⟨h.same hs, .of_log_eq hs.log⟩
  | recv fd chunk io =>
    obtain ⟨-, -, s1, s2, hm1, hm2, hm3⟩ := doRecv_moves cfg io Mybuff.data fd chunk ht
    have hlog : (VfsOss.smStep cfg s (.recv fd chunk io)).log = s1.log := hm3.log_eq.trans hm2.log_eq
    have h1 := h.headMove hP hl hm1 fun t he => hpost t (hlog.trans he)
    refine ⟨(h1.bodyMove hP hm2).closeMove hP hm3, ?_⟩
    rcases hm1.log_eq with he | ⟨t, he⟩
    · exact .of_log_eq (hlog.trans he)
    · refine ⟨[.post t], hlog.trans he, fun e hm => ?_⟩
      rw [List.mem_singleton.mp hm]
      exact fun _ _ _ he => absurd he (by simp)
  | send fd n =>
    obtain ⟨-, -, hm⟩ := doSend_move fd n ht
    exact ⟨h.closeMove hP hm, .of_log_eq hm.log_eq⟩
  | close fd =>
    obtain ⟨hm, -⟩ := doClose_move fd ht
    exact ⟨h.closeMove hP hm, .of_log_eq hm.log_eq⟩
  | finBegin =>
    exact ⟨h.same (finBegin_same s), .of_log_eq (finBegin_same s).log⟩
  | finIter io => exact h.finIter cfg io hP hsited
  | began hostname filename =>
    exact ⟨⟨h.fin, h.table, h.recv⟩, Grew.note .refl fun _ _ _ he => absurd he (by simp)⟩

end Records

end VfsOss
