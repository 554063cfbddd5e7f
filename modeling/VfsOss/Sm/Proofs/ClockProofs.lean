import VfsOss.Sm.Clock
import VfsOss.Sm.Proofs.RecordsProofs
import VfsOss.Task.Proofs.TimeoutProofs

/-!
# Proofs: the receiving process and the time

No record the uploads make has an `stime`; the records of requests have the time they were made.
-/

namespace VfsOss

open CLib

variable {cfg : Cfg} {opens : Bool} {io : MergeIo} {s s' s'' : Sm} {t : Tasklist} {fd : Nat}
variable {loc : Nat → Loc} {a : Nat} {n : Int} {c : SmClock}

/-! ## Stamps -/

/-- No stamp but 0 has been added, and the stamped records are not among those taken from `TASK_HOME`. -/
def StampsKept (s s' : Sm) : Prop :=
  ∃ es, s'.log = s.log ++ es ∧ ∀ {a n}, n ≠ 0 → Stamp s'.store a n →
    Stamp s.store a n ∧ ∀ e ∈ es, e.taken ≠ some a

theorem StampsKept.trans (h : StampsKept s s') (h' : StampsKept s' s'') : StampsKept s s'' := by
  obtain ⟨es, hlog, hst⟩ := h
  obtain ⟨es', hlog', hst'⟩ := h'
  refine ⟨es ++ es', by rw [hlog', hlog, List.append_assoc], fun hn hs => ?_⟩
  obtain ⟨hs', hnot'⟩ := hst' hn hs
  obtain ⟨hs, hnot⟩ := hst hn hs'
  refine ⟨hs, fun e he => ?_⟩
  rcases List.mem_append.mp he with he | he
  · exact hnot e he
  · exact hnot' e he

/-- What takes nothing from `TASK_HOME`. -/
theorem StampsKept.of_grew (hg : Grew (fun e => e.taken = none) s s')
    (hs : ∀ {a n}, n ≠ 0 → Stamp s'.store a n → Stamp s.store a n) : StampsKept s s' := by
  obtain ⟨es, hlog, hes⟩ := hg
  refine ⟨es, hlog, fun hn h => ⟨hs hn h, fun e he => ?_⟩⟩
  rw [hes e he]
  simp

theorem StampsKept.of_log_eq (hl : s'.log = s.log)
    (hs : ∀ {a n}, n ≠ 0 → Stamp s'.store a n → Stamp s.store a n) : StampsKept s s' :=
  .of_grew (.of_log_eq hl) hs

theorem StampsKept.of_same (hs : SameRecords s s') : StampsKept s s' :=
  .of_log_eq hs.log fun _ h => h.of_vfstask (by rw [hs.store])

/-- A record taken from `TASK_HOME` and put into a queue without an `stime`. -/
theorem StampsKept.of_taken {st : TaskStore} {task0 : Tasklist} {es : List Event}
    (hp : Placed s.store loc) (hg : vfsGetTask cfg.mallocOk s.store .home = (.ok task0, st))
    (hlog : s'.log = s.log ++ es) (hes : ∀ e ∈ es, e.taken = none ∨ e.taken = some task0.addr)
    (hs : ∀ {a n}, n ≠ 0 → Stamp s'.store a n → Stamp st a n) : StampsKept s s' := by
  refine ⟨es, hlog, fun {a n} hn h => ?_⟩
  have hbefore : Stamp s.store a n := by
    apply Stamp.of_get (m := cfg.mallocOk) (q := .home)
    rw [hg]
    exact hs hn h
  refine ⟨hbefore, fun e he htaken => ?_⟩
  rcases hes e he with hnone | hsome
  · rw [hnone] at htaken
    contradiction
  · rw [hsome] at htaken
    exact hbefore.ne_of_get hp hg (Option.some.inj htaken)

/-! ## The uploads -/

/-- The records of blocks that have arrived or are arriving have no `stime`. -/
structure Unstamped (s : Sm) : Prop where
  fin : ∀ t ∈ s.store.vfstask .fin, t.base.stime = 0
  recv : ∀ {fd t f}, s.recv fd = some (t, f) → t.base.stime = 0

theorem stamp_drainWaitTmp (k : Nat) : ∀ st : TaskStore, Stamp (drainWaitTmp cfg k st) a n → Stamp st a n := by
  induction k with
  | zero => exact fun st h => h
  | succ k ih =>
    intro st h
    rw [drainWaitTmp] at h
    have hget : Stamp (vfsGetTask cfg.mallocOk st .waitTmp).2 a n → Stamp st a n := Stamp.of_get
    rcases hg : vfsGetTask cfg.mallocOk st .waitTmp with ⟨r, st'⟩
    rw [hg] at h hget
    cases r with
    | ok t => exact Stamp.of_shift hg (by decide) (ih _ h)
    | err => exact hget h
    | nothing => exact hget h

theorem stamp_unokLoop (hostname : Bytes) (k : Nat) : ∀ (buf : Bytes) (out : List Tasklist) (st : TaskStore),
    Stamp (unokLoop cfg hostname k buf out st).2.2 a n → Stamp st a n := by
  induction k with
  | zero => exact fun buf out st h => h
  | succ k ih =>
    intro buf out st h
    rw [unokLoop] at h
    have hget : Stamp (vfsGetTask cfg.mallocOk st .wait).2 a n → Stamp st a n := Stamp.of_get
    rcases hg : vfsGetTask cfg.mallocOk st .wait with ⟨r, st'⟩
    rw [hg] at h hget
    cases r with
    | ok t =>
      dsimp only at h
      split at h
      · exact Stamp.of_shift hg (by decide) (ih _ _ _ h)
      · split at h
        · have h : Stamp (vfsSetTask st' t .waitTmp) a n := h
          exact Stamp.of_shift hg (by decide) h
        · exact Stamp.of_shift hg (by decide) (ih _ _ _ h)
    | err => exact hget h
    | nothing => exact hget h

theorem stamp_getTaskUnok {st : TaskStore} {hostname : Bytes}
    (h : Stamp (getTaskUnok cfg st hostname).2.2 a n) : Stamp st a n :=
  stamp_drainWaitTmp _ _ (stamp_unokLoop _ _ _ _ _ h)

theorem HeadMove.stamps (hs : Sited s loc) (hm : HeadMove cfg opens fd s s') : StampsKept s s' := by
  have hpost : ∀ {task0 t : Tasklist}, Posted task0 t → ∀ e ∈ [Event.post t],
      e.taken = none ∨ e.taken = some task0.addr := by
    intro task0 t hp e he
    rw [List.mem_singleton.mp he]
    exact Or.inr (congrArg some hp.addr)
  cases hm with
  | stay h => exact .of_same h
  | ask hostname store fs log recv =>
    apply StampsKept.of_log_eq log
    intro a n hn h
    rw [store] at h
    exact stamp_getTaskUnok h
  | noRecord none store fs log recv =>
    apply StampsKept.of_log_eq log
    intro a n hn h
    rw [store] at h
    exact h.of_get
  | refuse task0 t st home posted store fs log recv free =>
    apply StampsKept.of_taken hs.placed home log (hpost posted)
    intro a n hn h
    rw [store] at h
    have ht : ((prepared cfg t).over .eOpenDstfile).base.stime = 0 := posted.stime
    exact h.of_unstamped hn ht
  | start task0 t st home posted opened free store fs log recv =>
    apply StampsKept.of_taken hs.placed home log (hpost posted)
    intro a n hn h
    rwa [store] at h

theorem HeadMove.unstamped (hs : Sited s loc) (h : Unstamped s) (hm : HeadMove cfg opens fd s s') :
    Unstamped s' := by
  have hfin : ∀ {r st}, vfsGetTask cfg.mallocOk s.store .home = (r, st) →
      st.vfstask .fin = s.store.vfstask .fin := by
    intro r st hg
    have hq : (vfsGetTask cfg.mallocOk s.store .home).2.vfstask .fin = s.store.vfstask .fin :=
      fin_vfsGetTask (by simp)
    rwa [hg] at hq
  cases hm with
  | stay h' =>
    refine ⟨?_, ?_⟩
    · rw [h'.store]
      exact h.fin
    · rw [h'.recv]
      exact h.recv
  | ask hostname store fs log recv =>
    refine ⟨?_, ?_⟩
    · rw [store, (getTaskUnok_aside cfg hostname hs.placed).fin]
      exact h.fin
    · rw [recv]
      exact h.recv
  | noRecord none store fs log recv =>
    refine ⟨?_, ?_⟩
    · rw [store, fin_vfsGetTask (by simp)]
      exact h.fin
    · rw [recv]
      exact h.recv
  | refuse task0 t st home posted store fs log recv free =>
    refine ⟨?_, ?_⟩
    · rw [store]
      apply vfsSetTask_fin_all
      · rw [hfin home]
        exact h.fin
      · exact posted.stime
    · rw [recv]
      exact h.recv
  | start task0 t st home posted opened free store fs log recv =>
    refine ⟨?_, fun {fd' v f} hv => ?_⟩
    · rw [store, hfin home]
      exact h.fin
    · rw [recv] at hv
      by_cases hfd : fd' = fd
      · subst hfd
        rw [Function.update_self] at hv
        obtain ⟨rfl, -⟩ := Prod.mk.inj (Option.some.inj hv)
        exact posted.stime
      · rw [Function.update_of_ne hfd] at hv
        exact h.recv hv

/-- A connection whose record is still arriving. -/
theorem Unstamped.receive {v : Tasklist} {f : Nat × Nat} (h : Unstamped s) (hv : v.base.stime = 0)
    (hs : s'.store = s.store) (hr : s'.recv = Function.update s.recv fd (some (v, f))) :
    Unstamped s' := by
  refine ⟨?_, fun {fd' w g} hw => ?_⟩
  · rw [hs]
    exact h.fin
  · rw [hr] at hw
    by_cases hfd : fd' = fd
    · subst hfd
      rw [Function.update_self] at hw
      obtain ⟨rfl, -⟩ := Prod.mk.inj (Option.some.inj hw)
      exact hv
    · rw [Function.update_of_ne hfd] at hw
      exact h.recv hw

/-- A connection whose record goes to `TASK_FIN`. -/
theorem Unstamped.finish {v : Tasklist} (h : Unstamped s) (hv : v.base.stime = 0)
    (hs : s'.store = vfsSetTask s.store v .fin) (hr : s'.recv = Function.update s.recv fd none) :
    Unstamped s' := by
  refine ⟨?_, fun {fd' w g} hw => ?_⟩
  · rw [hs]
    exact vfsSetTask_fin_all h.fin hv
  · rw [hr] at hw
    by_cases hfd : fd' = fd
    · subst hfd
      rw [Function.update_self] at hw
      contradiction
    · rw [Function.update_of_ne hfd] at hw
      exact h.recv hw

theorem BodyMove.stamps (h : Unstamped s) (hm : BodyMove fd s s') : StampsKept s s' ∧ Unstamped s' := by
  cases hm with
  | stay hs =>
    refine ⟨.of_same hs, ?_, ?_⟩
    · rw [hs.store]
      exact h.fin
    · rw [hs.recv]
      exact h.recv
  | write t node off bytes recv0 fits pos more store fs log recv =>
    have ht : t.base.stime = 0 := h.recv recv0
    exact ⟨.of_log_eq log fun _ hs => hs.of_vfstask (by rw [store]),
      h.receive (v := t.receive bytes (toInt32 bytes.length)) ht store recv⟩
  | finish t node off bytes recv0 fits pos done store fs log recv =>
    have ht : t.base.stime = 0 := h.recv recv0
    have hv : ((t.receive bytes (toInt32 bytes.length)).over .ok).base.stime = 0 := ht
    refine ⟨.of_log_eq log fun hn hs => ?_, h.finish hv store recv⟩
    rw [store] at hs
    exact hs.of_unstamped hn hv
  | overflow t node off bytes recv0 fits neg store fs log recv =>
    exact ⟨.of_log_eq log fun _ hs => hs.of_vfstask (by rw [store]),
      h.receive (h.recv recv0) store recv⟩

theorem CloseMove.stamps (h : Unstamped s) (hm : CloseMove fd s s') : StampsKept s s' ∧ Unstamped s' := by
  cases hm with
  | stay hs =>
    refine ⟨.of_same hs, ?_, ?_⟩
    · rw [hs.store]
      exact h.fin
    · rw [hs.recv]
      exact h.recv
  | abort t f recv0 store fs log recv =>
    have ht : t.base.stime = 0 := h.recv recv0
    have hv : (t.over .peererr).base.stime = 0 := ht
    refine ⟨.of_log_eq log fun hn hs => ?_, h.finish hv store recv⟩
    rw [store] at hs
    exact hs.of_unstamped hn hv

/-! ## The pass over `TASK_FIN` -/

/-- One round of `check_lack_task` for a block without an `stime`. -/
theorem lackOne_stamps (hp : Placed s.store loc) (ht : t.base.stime = 0) (localfile : Bytes) (i : Int) :
    StampsKept s (lackOne cfg t localfile s i) := by
  rcases lackOne_cases cfg s t localfile i with h | ⟨-, ⟨hn, h⟩ | ⟨task0, st, hg, h⟩⟩
  · rw [h]
    exact .of_same .refl
  · rw [h]
    exact .of_log_eq rfl fun _ hs => hs.of_get
  · rw [h]
    apply StampsKept.of_taken hp hg rfl
    · intro e he
      rcases List.mem_append.mp he with he | he
      · obtain ⟨v, -, rfl⟩ := List.mem_map.mp he
        exact Or.inl rfl
      · rw [List.mem_singleton.mp he]
        exact Or.inr rfl
    · intro a n hn hs
      have hlack : (lackRecord t task0 i).base.stime = 0 := ht
      have hset : Stamp (vfsSetTask (setTaskFromAlltask st t.base.filename i t.sub.count 1)
          (lackRecord t task0 i) .wait) a n := hs
      exact (hset.of_unstamped hn hlack).of_vfstask rfl

theorem checkLackTask_stamps (hp : Placed s.store loc) (ht : t.base.stime = 0) :
    StampsKept s (checkLackTask cfg t s) := by
  have hstart : StampsKept s s := .of_same .refl
  unfold checkLackTask
  dsimp only
  split
  · exact hstart
  · apply And.left
    -- every round finds the records placed
    refine foldl_induct (P := fun b : Sm => StampsKept s b ∧ ∃ loc, Placed b.store loc)
      (fun b i _ hb => ?_) ⟨.of_log_eq rfl fun _ h => h, loc, hp⟩
    obtain ⟨htrace, loc', hp'⟩ := hb
    refine ⟨htrace.trans (lackOne_stamps hp' ht _ i), ?_⟩
    obtain ⟨-, loc'', hp'', -⟩ := (lackOne_internal cfg t _ i).store loc' hp'
    exact ⟨loc'', hp''⟩

/-- A record taken out of the table and recycled. -/
theorem stamp_take_home {st : TaskStore} {f : Bytes} {i c : Int}
    (hg : getTaskFromAlltask s.store f i c = some (t, st)) (h : Stamp (vfsSetTask st t .home) a n) :
    Stamp s.store a n :=
  h.of_home.of_vfstask (getTaskFromAlltask_some hg).2.1

theorem stamp_mergeOne {hostname filename : Bytes} {count i : Int} {ofd : Nat} {io : MergeIo}
    (h : Stamp (mergeOne io hostname filename count ofd i s).1.store a n) : Stamp s.store a n := by
  rcases mergeOne_cases io hostname filename count ofd i s with ⟨-, he⟩ | ⟨v, st, hg, hc⟩
  · rwa [he] at h
  · rcases hc with ⟨-, he⟩ | ⟨-, he, -⟩ | ⟨-, c, -, d, err, -, fs, -, s', rfl, ⟨-, he⟩ | ⟨-, he⟩⟩
    · rw [he] at h
      exact stamp_take_home hg h
    · rw [he] at h
      exact Stamp.of_vfstask (getTaskFromAlltask_some hg).2.1 h
    · rw [he] at h
      exact stamp_take_home hg h
    · rw [he] at h
      exact stamp_take_home hg h

theorem stamp_doMergeFile {hostname srcip filename : Bytes} {count : Int} {filemd5 : Bytes} {io : MergeIo}
    (h : Stamp (doMergeFile cfg io hostname srcip filename count filemd5 s).store a n) :
    Stamp s.store a n := by
  unfold doMergeFile at h
  dsimp only at h
  split at h
  · have hloop : ∀ (s1 : Sm) (ofd : Nat), s1.store = s.store →
        Stamp (mergeLoop io hostname filename count ofd (idxs count) s1).store a n → Stamp s.store a n := by
      intro s1 ofd hs1
      apply mergeLoop_induct (P := fun b : Sm => Stamp b.store a n → Stamp s.store a n)
      · exact fun b i _ hb hs => hb (stamp_mergeOne hs)
      · exact fun hs => hs.of_vfstask (by rw [hs1])
    exact hloop _ _ (by rfl) h
  · exact h

theorem stamp_clearAlltaskTimeout {hostname filename : Bytes} {count : Int}
    (h : Stamp (clearAlltaskTimeout hostname filename count s).store a n) : Stamp s.store a n := by
  revert h
  apply foldl_induct (P := fun b : Sm => Stamp b.store a n → Stamp s.store a n)
  · intro b i _ hb h
    rcases clearOne_cases hostname filename count b i with ⟨-, he⟩ | ⟨v, st, hg, he⟩
    · rw [he] at h
      exact hb h
    · rw [he] at h
      exact hb (stamp_take_home hg h)
  · exact fun h => h

/-- The events of a merge take nothing from `TASK_HOME`. -/
theorem taken_mergeEvent {hostname filename : Bytes} {e : Event} (h : MergeEvent hostname filename e) :
    e.taken = none := by
  rcases h with ⟨v, rfl | rfl | rfl⟩ | ⟨p, rfl⟩ | ⟨srcip, text, sent, rfl⟩
  all_goals rfl

/-- What the pass does with a block that has no `stime`. -/
theorem finTask_stamps (hp : Placed s.store loc) (ht : t.base.stime = 0) (io : MergeIo) :
    StampsKept s (finTask cfg io t s) := by
  unfold finTask
  split
  · split
    · refine .of_log_eq (by rfl) fun hn h => ?_
      exact Stamp.of_unstamped (q := .wait) (t := { t with base := { t.base with
        retry := (t.base.retry + 1) % 256, overstatus := .unknown } }) hn ht h
    · apply StampsKept.of_grew
      · refine Grew.note ((clearAlltaskTimeout_grew ..).mono ?_) rfl
        rintro e ⟨v, rfl⟩
        rfl
      · exact fun _ h => stamp_clearAlltaskTimeout h
  · have hlack : StampsKept s { checkLackTask cfg t s with
        store := addTaskToAlltask (checkLackTask cfg t s).store t } :=
      (checkLackTask_stamps hp ht).trans (.of_log_eq rfl fun _ h => h.of_vfstask rfl)
    dsimp only
    split
    · apply hlack.trans
      apply StampsKept.of_grew
      · apply (doMergeFile_grew ..).mono
        rintro e (rfl | he)
        · rfl
        · exact taken_mergeEvent he
      · exact fun _ h => stamp_doMergeFile h
    · exact hlack

theorem finIter_stamps (hs : Sited s loc) (h : Unstamped s) (io : MergeIo) :
    StampsKept s (finIter cfg io s) ∧ Unstamped (finIter cfg io s) := by
  rcases ho : s.once with _ | k
  · unfold finIter
    rw [ho]
    exact ⟨.of_same .refl, h⟩
  rcases hq : s.store.vfstask .fin with _ | ⟨t, rest⟩
  · rw [finIter_nil ho hq]
    exact ⟨.of_log_eq rfl fun _ h => h, h.fin, h.recv⟩
  have hpop := popFin_placed hs.placed hq
  have hfin : s.popFin.store.vfstask .fin = rest := fin_popFin hq
  have hrest : ∀ v ∈ rest, v.base.stime = 0 := by
    intro v hv
    apply h.fin v
    rw [hq]
    exact List.mem_cons_of_mem _ hv
  have hstamp : ∀ {a n}, Stamp s.popFin.store a n → Stamp s.store a n := fun hs => hs.of_get
  by_cases hk : k < 128
  · rw [finIter_cons ho hq hk]
    have ht : t.taken.base.stime = 0 := by
      apply h.fin t
      rw [hq]
      exact List.mem_cons_self
    generalize hs1 : ({ s.popFin with once := some (k + 1) } : Sm).note (.fin t.taken) = s1
    have hst1 : s1.store = s.popFin.store := by rw [← hs1]; rfl
    have hacon1 : s1.acon = s.acon := by rw [← hs1]; rfl
    have htr : StampsKept s s1 := by
      apply StampsKept.of_grew
      · rw [← hs1]
        exact Grew.note (.of_log_eq rfl) rfl
      · rw [hst1]
        exact fun _ => hstamp
    rw [← hst1] at hpop hfin
    obtain ⟨hf, -⟩ := finTask_placed cfg io (t := t.taken) hpop (Function.update_self ..)
    refine ⟨htr.trans (finTask_stamps hpop ht io), ?_, fun {fd v f} hv => ?_⟩
    · rw [hf, hfin]
      exact hrest
    · rw [recv_of_acon ((finTask_frame cfg io t.taken).1.trans hacon1)] at hv
      exact h.recv hv
  · rw [finIter_full ho hq (by omega)]
    refine ⟨.of_grew (Grew.note (.of_log_eq rfl) rfl) fun _ => hstamp, ?_, h.recv⟩
    intro v hv
    have hv : v ∈ s.popFin.store.vfstask .fin := hv
    rw [hfin] at hv
    exact hrest v hv

/-- **A step of the plugins** adds no stamp. -/
theorem smStep_stamps (cfg : Cfg) (hw : WellSited s) (h : Unstamped s) (act : SmAct) :
    StampsKept s (smStep cfg s act) ∧ Unstamped (smStep cfg s act) := by
  have hsame : ∀ {s'}, SameRecords s s' → StampsKept s s' ∧ Unstamped s' := by
    intro s' hs
    refine ⟨.of_same hs, ?_, ?_⟩
    · rw [hs.store]
      exact h.fin
    · rw [hs.recv]
      exact h.recv
  obtain ⟨ht, loc, hl⟩ := hw
  cases act with
  | accept fd ip mem =>
    obtain ⟨-, hs, -⟩ := acceptNew_same cfg mem fd ip ht
    exact hsame hs
  | recv fd chunk io =>
    obtain ⟨-, -, s1, s2, hm1, hm2, hm3⟩ := doRecv_moves cfg io Mybuff.data fd chunk ht
    have h1 := hm1.unstamped hl h
    obtain ⟨ht2, h2⟩ := hm2.stamps h1
    obtain ⟨ht3, h3⟩ := hm3.stamps h2
    exact ⟨((hm1.stamps hl).trans ht2).trans ht3, h3⟩
  | send fd n =>
    obtain ⟨-, -, hm⟩ := doSend_move fd n ht
    exact hm.stamps h
  | close fd =>
    obtain ⟨hm, -⟩ := doClose_move fd ht
    exact hm.stamps h
  | finBegin => exact hsame (finBegin_same s)
  | finIter io => exact finIter_stamps hl h io
  | began hostname filename =>
    exact ⟨.of_grew (Grew.note .refl rfl) fun _ hs => hs, h.fin, h.recv⟩

/-! ## With a clock -/

/-- A process that keeps the time: the stamps of the records are not before they were taken from
`TASK_HOME`. -/
structure Timed (c : SmClock) : Prop where
  sited : WellSited c.sm
  unstamped : Unstamped c.sm
  stamps : ∀ {a n}, n ≠ 0 → Stamp c.sm.store a n → c.taken a ≤ n

theorem Timed.act (h : Timed c) (cfg : Cfg) (taskTimeout : Int) (act : SmAct) :
    Timed (smClockStep cfg taskTimeout c (.act act)) := by
  obtain ⟨⟨es, hlog, htr⟩, hun⟩ := smStep_stamps cfg h.sited h.unstamped act
  refine ⟨smStep_sited h.sited act, hun, fun {a n} hn hs => ?_⟩
  obtain ⟨hbefore, hnot⟩ := htr hn hs
  have hsince : a ∉ takenSince c.sm.log (smStep cfg c.sm act).log := by
    rw [takenSince, hlog, List.drop_left, List.mem_filterMap]
    rintro ⟨e, he, ha⟩
    exact hnot e he ha
  show (if a ∈ takenSince c.sm.log (smStep cfg c.sm act).log then c.now else c.taken a) ≤ n
  rw [if_neg hsince]
  exact h.stamps hn hbefore

/-- What a request does. -/
theorem insertSubTask_cases (cfg : Cfg) (header : HttpHeader) (idx count start end_ now : Int)
    (st : TaskStore) :
    (SmHttp.insertSubTask cfg header idx count start end_ now st =
      (none, (vfsGetTask cfg.mallocOk st .home).2) ∧
      ∀ t, (vfsGetTask cfg.mallocOk st .home).1 ≠ .ok t) ∨
    ∃ t st', vfsGetTask cfg.mallocOk st .home = (.ok t, st') ∧
      SmHttp.insertSubTask cfg header idx count start end_ now st =
        (some t.addr, vfsSetTask st' (SmHttp.subRecord t header idx count start end_ now) .wait) := by
  unfold SmHttp.insertSubTask
  rcases hg : vfsGetTask cfg.mallocOk st .home with ⟨r, st'⟩
  cases r with
  | ok t => exact Or.inr ⟨t, st', rfl, rfl⟩
  | err => exact Or.inl ⟨rfl, by simp⟩
  | nothing => exact Or.inl ⟨rfl, by simp⟩

/-- Records that are with connections stay there when others move between queues. -/
theorem Sited.stay_recv (h : Sited s loc) {loc' : Nat → Loc} (hp : Placed s'.store loc')
    (hc : ∀ a fd, loc a = .conn fd → loc' a = .conn fd) (hr : s'.recv = s.recv) : Sited s' loc' := by
  refine ⟨hp, fun {fd t f} ht => ?_⟩
  rw [hr] at ht
  exact hc _ _ (h.recv ht)

theorem Timed.request (h : Timed c) (cfg : Cfg) (taskTimeout : Int) (header : HttpHeader)
    (idx count start end_ : Int) (late : Nat) :
    Timed (smClockStep cfg taskTimeout c (.request header idx count start end_ late)) := by
  obtain ⟨ht, loc, hl⟩ := h.sited
  have hfin : (vfsGetTask cfg.mallocOk c.sm.store .home).2.vfstask .fin = c.sm.store.vfstask .fin :=
    fin_vfsGetTask (by simp)
  unfold smClockStep
  dsimp only
  rcases insertSubTask_cases cfg header idx count start end_ (c.now + late) c.sm.store with
    ⟨he, hn⟩ | ⟨t, st, hg, he⟩
  · rw [he]
    refine ⟨⟨ht.of_acon rfl, loc, ?_⟩, ⟨?_, h.unstamped.recv⟩, fun hn hs => h.stamps hn hs.of_get⟩
    · exact hl.stay_recv (hl.placed.get_none hn) (fun _ _ h => h) (recv_of_acon rfl)
    · dsimp only
      rw [hfin]
      exact h.unstamped.fin
  · rw [hg] at hfin
    have haddr : (SmHttp.subRecord t header idx count start end_ (c.now + late)).addr = t.addr := rfl
    have hstime : (SmHttp.subRecord t header idx count start end_ (c.now + late)).base.stime =
        c.now + late := rfl
    generalize SmHttp.subRecord t header idx count start end_ (c.now + late) = v at he haddr hstime
    rw [he]
    obtain ⟨h1, hloc⟩ := hl.placed.get hg
    have hheld : Function.update loc t.addr .held v.addr = .held := by
      rw [haddr]
      exact Function.update_self ..
    have h2 := h1.set .wait (by simp) (by rw [hheld]; simp) (by rw [hheld]; simp)
    refine ⟨⟨ht.of_acon rfl, _, hl.stay_recv h2 ?_ (recv_of_acon rfl)⟩, ⟨?_, h.unstamped.recv⟩, ?_⟩
    · intro a fd ha
      have hne : a ≠ t.addr := by
        rintro rfl
        rcases hloc with hloc | ⟨-, hloc⟩
        · rw [hloc] at ha
          contradiction
        · rw [hloc] at ha
          contradiction
      rw [haddr, Function.update_of_ne hne, Function.update_of_ne hne]
      exact ha
    · dsimp only
      rw [fin_vfsSetTask h1 (by rw [hheld]; simp) (by simp), hfin]
      exact h.unstamped.fin
    · intro a n hn hs
      dsimp only at hs ⊢
      rcases hs.of_set with hs | ⟨-, ha, hv⟩
      · have hbefore : Stamp c.sm.store a n := by
          apply Stamp.of_get (m := cfg.mallocOk) (q := .home)
          rwa [hg]
        rw [if_neg fun heq => hbefore.ne_of_get hl.placed hg (Option.some.inj heq)]
        exact h.stamps hn hbefore
      · rw [if_pos (congrArg some (haddr.symm.trans ha))]
        omega

theorem Timed.timeout (h : Timed c) (cfg : Cfg) (taskTimeout : Int) :
    Timed (smClockStep cfg taskTimeout c .timeout) := by
  obtain ⟨ht, loc, hl⟩ := h.sited
  obtain ⟨⟨loc', hp, hshelf⟩, hq, -⟩ := doTimeoutTask_spec taskTimeout c.now hl.placed
  have hstamp : ∀ {a n}, Stamp (doTimeoutTask taskTimeout c.now c.sm.store) a n →
      Stamp c.sm.store a n := fun hs => hs.of_timeout hl.placed
  unfold smClockStep
  dsimp only
  generalize doTimeoutTask taskTimeout c.now c.sm.store = st at hp hq hstamp
  refine ⟨⟨ht.of_acon rfl, loc', hl.stay_recv hp ?_ (recv_of_acon rfl)⟩, ⟨?_, h.unstamped.recv⟩,
    fun hn hs => h.stamps hn (hstamp hs)⟩
  · intro a fd ha
    rcases hshelf a with hsame | ⟨⟨st, hst⟩, -⟩
    · rw [hsame]
      exact ha
    · rw [hst] at ha
      contradiction
  · dsimp only
    rw [hq .fin (by decide)]
    exact fun t hmem => h.unstamped.fin t (List.mem_filter.mp hmem).1

theorem Timed.step (h : Timed c) (cfg : Cfg) (taskTimeout : Int) (act : SmClockAct) :
    Timed (smClockStep cfg taskTimeout c act) := by
  cases act with
  | act act => exact h.act cfg taskTimeout act
  | request header idx count start end_ late =>
    exact h.request cfg taskTimeout header idx count start end_ late
  | files fs =>
    obtain ⟨ht, loc, hl⟩ := h.sited
    exact ⟨⟨ht.of_acon rfl, loc, hl.stay_recv hl.placed (fun _ _ h => h) (recv_of_acon rfl)⟩,
      ⟨h.unstamped.fin, h.unstamped.recv⟩, h.stamps⟩
  | wait seconds => exact ⟨h.sited, h.unstamped, h.stamps⟩
  | timeout => exact h.timeout cfg taskTimeout

theorem Timed.init (n : Nat) (now : Int) : Timed (SmClock.init n now) := by
  have hempty : ∀ st, st ≠ .home → (Sm.init n).store.vfstask st = [] := fun st hst => if_neg hst
  refine ⟨init_sited n, ⟨?_, fun {fd t f} h => ?_⟩, ?_⟩
  · intro t ht
    have ht : t ∈ (Sm.init n).store.vfstask .fin := ht
    rw [hempty _ (by simp)] at ht
    contradiction
  · exact absurd h (by simp [SmClock.init, Sm.recv, Sm.init, Conn.unused])
  · rintro a m - ⟨st, hst, t, ht, -⟩
    have ht : t ∈ (Sm.init n).store.vfstask st := ht
    rw [hempty st (ne_of_mem_timeoutStatuses hst).2] at ht
    contradiction

/-- When only old records time out in the receiving process. -/
theorem Timed.onlyOld_iff (h : Timed c) (taskTimeout : Int) :
    SmOnlyOld taskTimeout c ↔ UnstampedOld taskTimeout c := by
  obtain ⟨loc, hp⟩ := h.sited.placed
  rw [SmOnlyOld, VfsOss.onlyOld_iff hp, UnstampedOld]
  constructor
  · intro hold
    by_cases hlate : c.now ≤ taskTimeout
    · exact Or.inl hlate
    · right
      intro st hst t ht hzero
      apply hold st hst t ht
      rw [hzero]
      omega
  · intro hcond st hst t ht hlt
    by_cases hzero : t.base.stime = 0
    · rcases hcond with hearly | hold
      · rw [hzero] at hlt
        omega
      · exact hold st hst t ht hzero
    · have hle : c.taken t.addr ≤ t.base.stime := h.stamps hzero ⟨st, hst, t, ht, rfl, rfl⟩
      omega

end VfsOss
