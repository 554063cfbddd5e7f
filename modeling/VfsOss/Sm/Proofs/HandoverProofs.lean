import VfsOss.Sm.Handover
import VfsOss.Sm.Proofs.RecordsProofs

/-!
# Proofs: a received record is handed over exactly once

Between two states of a call the records that were held and those that were taken are the records that
were put into `TASK_FIN` and those that are held then, in order.
-/

namespace VfsOss

open CLib

variable {cfg : Cfg} {opens : Bool} {s s' s'' : Sm} {loc : Nat → Loc} {fd : Nat}

/-! ## What a connection holds -/

/-- The record a connection receives, as a list. -/
def Sm.held (s : Sm) (fd : Nat) : List Nat := (s.recvtask fd).toList.map Tasklist.addr

/-- For a tidy connection the record comes with its open file. -/
theorem recvtask_of_recv (ht : (s.acon fd).Tidy) : s.recvtask fd = (s.recv fd).map Prod.fst := by
  unfold Sm.recvtask Sm.recv
  cases hu : (s.acon fd).user with
  | none => rfl
  | some p =>
    cases hr : p.recvtask with
    | none => simp [hr]
    | some t =>
      obtain ⟨f, hf⟩ := Option.isSome_iff_exists.mp (ht.file hu hr)
      simp [hr, hf]

theorem recv_of_recvtask {t : Tasklist} (ht : (s.acon fd).Tidy) (h : s.recvtask fd = some t) :
    ∃ f, s.recv fd = some (t, f) := by
  rw [recvtask_of_recv ht] at h
  obtain ⟨⟨u, f⟩, hr, rfl⟩ := Option.map_eq_some_iff.mp h
  exact ⟨f, hr⟩

theorem Sited.apart (h : Sited s loc) (ht : Tidy s) : Apart s where
  queue {fd t q u} hr hu := by
    obtain ⟨f, hr⟩ := recv_of_recvtask (ht fd) hr
    intro he
    have hloc := h.recv hr
    rw [← he, h.placed.queue hu] at hloc
    exact absurd hloc (by simp)
  table {fd t u} hr hu := by
    obtain ⟨f, hr⟩ := recv_of_recvtask (ht fd) hr
    obtain ⟨b, hu⟩ := hu
    intro he
    have hloc := h.recv hr
    rw [← he, h.placed.chain hu] at hloc
    exact absurd hloc (by simp)
  conn {fd fd' t t'} hr hr' he := by
    obtain ⟨f, hr⟩ := recv_of_recvtask (ht fd) hr
    obtain ⟨f', hr'⟩ := recv_of_recvtask (ht fd') hr'
    have hloc := h.recv hr
    rw [he, h.recv hr'] at hloc
    exact (Loc.conn.inj hloc).symm

theorem WellSited.apart (h : WellSited s) : Apart s := by
  obtain ⟨ht, loc, hl⟩ := h
  exact hl.apart ht

/-- The addresses in the place of a connection. -/
def heldRecv (s : Sm) (fd : Nat) : List Nat := ((s.recv fd).map Prod.fst).toList.map Tasklist.addr

theorem held_eq (ht : (s.acon fd).Tidy) : s.held fd = heldRecv s fd := by
  rw [Sm.held, recvtask_of_recv ht]
  rfl

theorem heldRecv_some {t : Tasklist} {f : Nat × Nat} (h : s.recv fd = some (t, f)) :
    heldRecv s fd = [t.addr] := by
  rw [heldRecv, h]
  rfl

theorem heldRecv_none (h : s.recv fd = none) : heldRecv s fd = [] := by
  rw [heldRecv, h]
  rfl

/-! ## The moves -/

/-- A finished record has what its status says. -/
def Received (t : Tasklist) : Prop := t.base.overstatus = .ok → t.base.fsize ≤ t.base.getlen

/-- Between two states of a call for `fd` the records `takes` are taken and the records `puts` are
finished, each by one call of `vfs_set_task`. -/
structure Passed (fd : Nat) (s s' : Sm) (takes : List Nat) (puts : List Tasklist) : Prop where
  log : ∃ es, s'.log = s.log ++ es ∧ es.filterMap Event.postAddr = takes
  fin : s'.store.vfstask .fin = s.store.vfstask .fin ++ puts
  count : s'.store.taskcount .fin = s.store.taskcount .fin + puts.length
  held : heldRecv s fd ++ takes = puts.map Tasklist.addr ++ heldRecv s' fd
  received : ∀ t ∈ puts, Received t

theorem Passed.trans {t t' : List Nat} {p p' : List Tasklist} (h : Passed fd s s' t p)
    (h' : Passed fd s' s'' t' p') : Passed fd s s'' (t ++ t') (p ++ p') := by
  obtain ⟨es, hlog, htakes⟩ := h.log
  obtain ⟨es', hlog', htakes'⟩ := h'.log
  refine ⟨⟨es ++ es', ?_, ?_⟩, ?_, ?_, ?_, ?_⟩
  · rw [hlog', hlog, List.append_assoc]
  · rw [List.filterMap_append, htakes, htakes']
  · rw [h'.fin, h.fin, List.append_assoc]
  · rw [h'.count, h.count, List.length_append]
    omega
  · calc heldRecv s fd ++ (t ++ t') = p.map Tasklist.addr ++ (heldRecv s' fd ++ t') := by
          rw [← List.append_assoc, h.held, List.append_assoc]
      _ = (p ++ p').map Tasklist.addr ++ heldRecv s'' fd := by
          rw [h'.held, List.map_append, List.append_assoc]
  · intro v hv
    rcases List.mem_append.mp hv with hv | hv
    · exact h.received v hv
    · exact h'.received v hv

theorem SameRecords.passed (h : SameRecords s s') : Passed fd s s' [] [] := by
  refine ⟨⟨[], by simp [h.log], rfl⟩, by simp [h.store], by simp [h.store], ?_, by simp⟩
  rw [heldRecv, heldRecv, h.recv]
  simp

section Store

variable {st st' : TaskStore} {m : Nat → Bool} {q : TaskStatus} {r : GetTask} {t : Tasklist}

theorem count_vfsGetTask (hq : q ≠ .fin) :
    (vfsGetTask m st q).2.taskcount .fin = st.taskcount .fin := by
  have hne : TaskStatus.fin ≠ q := fun h => hq h.symm
  unfold vfsGetTask
  split
  · rfl
  · split
    · exact Function.update_of_ne hne _ _
    · split
      · split <;> rfl
      · rfl

theorem count_of_get (hq : q ≠ .fin) (hg : vfsGetTask m st q = (r, st')) :
    st'.taskcount .fin = st.taskcount .fin := by
  have hc : (vfsGetTask m st q).2.taskcount .fin = st.taskcount .fin := count_vfsGetTask hq
  rwa [hg] at hc

theorem fin_of_get (hq : q ≠ .fin) (hg : vfsGetTask m st q = (r, st')) :
    st'.vfstask .fin = st.vfstask .fin := by
  have hf : (vfsGetTask m st q).2.vfstask .fin = st.vfstask .fin := fin_vfsGetTask hq
  rwa [hg] at hf

theorem count_vfsSetTask (hq : q ≠ .fin) :
    (vfsSetTask st t q).taskcount .fin = st.taskcount .fin := by
  have hne : TaskStatus.fin ≠ q := fun h => hq h.symm
  unfold vfsSetTask
  split
  · rfl
  · simp only [Function.update_of_ne hne]

theorem count_vfsSetTask_fin : (vfsSetTask st t .fin).taskcount .fin = st.taskcount .fin + 1 := by
  unfold vfsSetTask
  rw [if_neg (by simp)]
  simp only [Function.update_self]

theorem count_drainWaitTmp (cfg : Cfg) (n : Nat) : ∀ st,
    (drainWaitTmp cfg n st).taskcount .fin = st.taskcount .fin := by
  induction n with
  | zero => exact fun _ => rfl
  | succ n ih =>
    intro st
    rw [drainWaitTmp]
    rcases hg : vfsGetTask cfg.mallocOk st .waitTmp with ⟨r, st'⟩
    have hc := count_of_get (by simp) hg
    cases r with
    | ok t => exact (ih _).trans ((count_vfsSetTask (by simp)).trans hc)
    | err => exact hc
    | nothing => exact hc

theorem count_unokLoop (cfg : Cfg) (hostname : Bytes) (n : Nat) : ∀ buf out st,
    (unokLoop cfg hostname n buf out st).2.2.taskcount .fin = st.taskcount .fin := by
  induction n with
  | zero => exact fun _ _ _ => rfl
  | succ n ih =>
    intro buf out st
    rw [unokLoop]
    rcases hg : vfsGetTask cfg.mallocOk st .wait with ⟨r, st'⟩
    have hc := count_of_get (by simp) hg
    cases r with
    | ok t =>
      dsimp only
      split
      · exact (ih _ _ _).trans ((count_vfsSetTask (by simp)).trans hc)
      · split
        · exact (count_vfsSetTask (q := .waitTmp) (by simp)).trans hc
        · exact (ih _ _ _).trans ((count_vfsSetTask (by simp)).trans hc)
    | err => exact hc
    | nothing => exact hc

theorem count_getTaskUnok (cfg : Cfg) (hostname : Bytes) :
    (getTaskUnok cfg st hostname).2.2.taskcount .fin = st.taskcount .fin :=
  (count_unokLoop ..).trans (count_drainWaitTmp ..)

end Store

/-- The first phase. -/
theorem HeadMove.passed (h : Sited s loc) (hm : HeadMove cfg opens fd s s') :
    ∃ takes puts, Passed fd s s' takes puts := by
  cases hm with
  | stay hs => exact ⟨[], [], hs.passed⟩
  | ask host store fs log recv =>
    obtain ⟨hfin, -, -⟩ := getTaskUnok_aside cfg host h.placed
    refine ⟨[], [], ⟨[], by simp [log], rfl⟩, ?_, ?_, ?_, by simp⟩
    · rw [store, hfin, List.append_nil]
    · rw [store, count_getTaskUnok]
      simp
    · simp [heldRecv, recv]
  | noRecord none store fs log recv =>
    refine ⟨[], [], ⟨[], by simp [log], rfl⟩, ?_, ?_, ?_, by simp⟩
    · rw [store, fin_vfsGetTask (by simp), List.append_nil]
    · rw [store, count_vfsGetTask (by simp)]
      simp
    · simp [heldRecv, recv]
  | refuse task0 t st home posted store fs log recv free =>
    obtain ⟨hp, hl⟩ := h.placed.get home
    rw [← posted.addr] at hp
    have hfin := fin_of_get (by simp) home
    obtain ⟨hset, -⟩ := hp.set_fin (t := (prepared cfg t).over .eOpenDstfile)
      (Or.inl (Function.update_self ..))
    refine ⟨[t.addr], [{ (prepared cfg t).over .eOpenDstfile with status := .fin }],
      ⟨[.post t], log, rfl⟩, ?_, ?_, ?_, ?_⟩
    · rw [store, hset, hfin]
    · rw [store, count_vfsSetTask_fin, count_of_get (by simp) home]
      simp
    · rw [heldRecv_none free, heldRecv_none (by rw [recv]; exact free)]
      rfl
    · intro v hv
      rw [List.mem_singleton.mp hv]
      exact fun hok => absurd hok (by simp [Tasklist.over])
  | start task0 t st home posted opened free store fs log recv =>
    have hfin := fin_of_get (by simp) home
    refine ⟨[t.addr], [], ⟨[.post t], log, rfl⟩, ?_, ?_, ?_, by simp⟩
    · rw [store, hfin, List.append_nil]
    · rw [store, count_of_get (by simp) home]
      simp
    · rw [heldRecv_none free, heldRecv_some (by rw [recv]; exact Function.update_self ..)]
      rfl

/-- The second phase. -/
theorem BodyMove.passed (h : Sited s loc) (hm : BodyMove fd s s') :
    ∃ takes puts, Passed fd s s' takes puts := by
  cases hm with
  | stay hs => exact ⟨[], [], hs.passed⟩
  | write t node off bytes recv0 fits pos more store fs log recv =>
    refine ⟨[], [], ⟨[], by simp [log], rfl⟩, by simp [store], by simp [store], ?_, by simp⟩
    rw [heldRecv_some recv0, heldRecv_some (by rw [recv]; exact Function.update_self ..)]
    rfl
  | finish t node off bytes recv0 fits pos done store fs log recv =>
    have hconn : loc ((t.receive bytes (toInt32 bytes.length)).over .ok).addr = .conn fd :=
      h.recv (t := t) recv0
    obtain ⟨hset, -⟩ := h.placed.set_fin (Or.inr ⟨fd, hconn⟩)
    refine ⟨[], [{ (t.receive bytes (toInt32 bytes.length)).over .ok with status := .fin }],
      ⟨[], by simp [log], rfl⟩, ?_, ?_, ?_, ?_⟩
    · rw [store, hset]
    · rw [store, count_vfsSetTask_fin]
      simp
    · rw [heldRecv_some recv0, heldRecv_none (by rw [recv]; exact Function.update_self ..)]
      rfl
    · intro v hv
      rw [List.mem_singleton.mp hv]
      exact fun _ => done
  | overflow t node off bytes recv0 fits neg store fs log recv =>
    refine ⟨[], [], ⟨[], by simp [log], rfl⟩, by simp [store], by simp [store], ?_, by simp⟩
    rw [heldRecv_some recv0, heldRecv_some (by rw [recv]; exact Function.update_self ..)]
    rfl

/-- The third phase. -/
theorem CloseMove.passed (h : Sited s loc) (hm : CloseMove fd s s') :
    ∃ takes puts, Passed fd s s' takes puts := by
  cases hm with
  | stay hs => exact ⟨[], [], hs.passed⟩
  | abort t f recv0 store fs log recv =>
    have hconn : loc (t.over .peererr).addr = .conn fd :=
      h.recv (t := t) recv0
    obtain ⟨hset, -⟩ := h.placed.set_fin (Or.inr ⟨fd, hconn⟩)
    refine ⟨[], [{ t.over .peererr with status := .fin }], ⟨[], by simp [log], rfl⟩, ?_, ?_, ?_, ?_⟩
    · rw [store, hset]
    · rw [store, count_vfsSetTask_fin]
      simp
    · rw [heldRecv_some recv0, heldRecv_none (by rw [recv]; exact Function.update_self ..)]
      rfl
    · intro v hv
      rw [List.mem_singleton.mp hv]
      exact fun hok => absurd hok (by simp [Tasklist.over])

/-! ## The steps -/

/-- A step is a call for one descriptor, or for none and then it leaves the connections alone. -/
theorem smStep_passed (cfg : Cfg) (h : WellSited s) (a : SmAct) (ha : a.conn = some fd) :
    ∃ takes puts, Passed fd s (smStep cfg s a) takes puts ∧ OnlyConn fd s (smStep cfg s a) := by
  obtain ⟨ht, loc, hl⟩ := h
  cases a with
  | accept fd' ip mem =>
    obtain rfl := Option.some.inj ha
    obtain ⟨-, hs, honly⟩ := acceptNew_same cfg mem fd' ip ht
    exact ⟨[], [], hs.passed, honly⟩
  | recv fd' chunk io =>
    obtain rfl := Option.some.inj ha
    obtain ⟨-, honly, s1, s2, hm1, hm2, hm3⟩ := doRecv_moves cfg io Mybuff.data fd' chunk ht
    obtain ⟨t1, p1, h1⟩ := hm1.passed hl
    obtain ⟨loc1, hl1⟩ := hm1.sited hl
    obtain ⟨t2, p2, h2⟩ := hm2.passed hl1
    obtain ⟨loc2, hl2⟩ := hm2.sited hl1
    obtain ⟨t3, p3, h3⟩ := hm3.passed hl2
    exact ⟨_, _, (h1.trans h2).trans h3, honly⟩
  | send fd' n =>
    obtain rfl := Option.some.inj ha
    obtain ⟨-, honly, hm⟩ := doSend_move fd' n ht
    obtain ⟨t, p, hp⟩ := hm.passed hl
    exact ⟨t, p, hp, honly⟩
  | close fd' =>
    obtain rfl := Option.some.inj ha
    obtain ⟨hm, -, honly, -⟩ := doClose_move fd' ht
    obtain ⟨t, p, hp⟩ := hm.passed hl
    exact ⟨t, p, hp, honly⟩
  | finBegin => exact absurd ha (by simp [SmAct.conn])
  | finIter io => exact absurd ha (by simp [SmAct.conn])
  | began hostname filename => exact absurd ha (by simp [SmAct.conn])

/-- What the ledger says in every state: what has been taken has been put into `TASK_FIN` or is still
received, in the order it was taken. -/
structure Balanced (l : Ledger) : Prop where
  sited : WellSited l.sm
  books : ∀ fd, l.taken fd = l.put fd ++ l.sm.held fd
  received : ∀ t ∈ l.sm.store.vfstask .fin, Received t

theorem takenBy_eq {takes : List Nat} {puts : List Tasklist} (h : Passed fd s s' takes puts) :
    takenBy s s' = takes := by
  obtain ⟨es, hlog, htakes⟩ := h.log
  rw [takenBy, hlog, List.drop_left, htakes]

theorem putBy_eq {takes : List Nat} {puts : List Tasklist} (h : Passed fd s s' takes puts) :
    putBy s s' = puts.map Tasklist.addr := by
  rw [putBy, h.fin, List.drop_left]

theorem OnlyConn.held (h : OnlyConn fd s s') {fd' : Nat} (hne : fd' ≠ fd) : s'.held fd' = s.held fd' := by
  rw [Sm.held, Sm.held, Sm.recvtask, Sm.recvtask, h.others hne]

/-- A round of `check_fin_task` changes no connection and only takes records out of `TASK_FIN`. -/
theorem finIter_frame (cfg : Cfg) (io : MergeIo) (h : WellSited s) : (finIter cfg io s).acon = s.acon ∧
    ∀ t ∈ (finIter cfg io s).store.vfstask .fin, t ∈ s.store.vfstask .fin := by
  obtain ⟨-, loc, hl⟩ := h
  rcases ho : s.once with _ | k
  · unfold finIter
    rw [ho]
    exact ⟨rfl, fun _ ht => ht⟩
  rcases hq : s.store.vfstask .fin with _ | ⟨t, rest⟩
  · rw [finIter_nil ho hq]
    exact ⟨rfl, fun _ ht => hq ▸ ht⟩
  have hpop : s.popFin.store.vfstask .fin = rest := fin_popFin hq
  have hin : ∀ u ∈ rest, u ∈ t :: rest := fun _ hu => List.mem_cons_of_mem _ hu
  by_cases hk : k < 128
  · rw [finIter_cons ho hq hk]
    obtain ⟨hfin, -⟩ := finTask_placed (s := { s.popFin with once := some (k + 1) }.note (.fin t.taken))
      cfg io (t := t.taken) (popFin_placed hl.placed hq) (Function.update_self ..)
    refine ⟨(finTask_frame cfg io t.taken).1, fun u hu => hin u ?_⟩
    rw [hfin] at hu
    rwa [← hpop]
  · rw [finIter_full ho hq (by omega)]
    exact ⟨rfl, fun u hu => hin u (by rwa [← hpop])⟩

variable {l : Ledger}

theorem Balanced.silent (h : Balanced l) {s' : Sm} (hs : WellSited s') (ha : s'.acon = l.sm.acon)
    (hf : ∀ t ∈ s'.store.vfstask .fin, t ∈ l.sm.store.vfstask .fin) : Balanced { l with sm := s' } := by
  refine ⟨hs, fun fd => ?_, fun t ht => h.received t (hf t ht)⟩
  have hheld : s'.held fd = l.sm.held fd := by
    rw [Sm.held, Sm.held, Sm.recvtask, Sm.recvtask, ha]
  dsimp only
  rw [hheld]
  exact h.books fd

/-- A call for a connection, entered in its books. -/
theorem Balanced.call (h : Balanced l) {s' : Sm} {takes : List Nat} {puts : List Tasklist}
    (hs : WellSited s') (honly : OnlyConn fd l.sm s') (hp : Passed fd l.sm s' takes puts) :
    Balanced
      { sm := s'
        taken := Function.update l.taken fd (l.taken fd ++ takenBy l.sm s')
        put := Function.update l.put fd (l.put fd ++ putBy l.sm s') } := by
  refine ⟨hs, fun fd' => ?_, fun t ht => ?_⟩
  · dsimp only
    by_cases hne : fd' = fd
    · subst hne
      rw [Function.update_self, Function.update_self, takenBy_eq hp, putBy_eq hp, h.books fd',
        held_eq (h.sited.1 fd'), held_eq (hs.1 fd'), List.append_assoc, hp.held, List.append_assoc]
    · rw [Function.update_of_ne hne, Function.update_of_ne hne, honly.held hne]
      exact h.books fd'
  · dsimp only at ht
    rw [hp.fin] at ht
    rcases List.mem_append.mp ht with ht | ht
    · exact h.received t ht
    · exact hp.received t ht

theorem ledgerStep_balanced (h : Balanced l) (a : SmAct) : Balanced (ledgerStep cfg l a) := by
  have hs : WellSited (smStep cfg l.sm a) := smStep_sited h.sited a
  unfold ledgerStep Ledger.enter
  cases hc : a.conn with
  | some fd =>
    obtain ⟨takes, puts, hp, honly⟩ := smStep_passed cfg h.sited a hc
    exact h.call hs honly hp
  | none =>
    cases a with
    | finBegin =>
      have hacon : (finBegin l.sm).acon = l.sm.acon := by
        unfold finBegin
        split <;> rfl
      refine h.silent hs hacon fun t ht => ?_
      rwa [← (finBegin_same l.sm).store]
    | finIter io =>
      obtain ⟨hacon, hfin⟩ := finIter_frame cfg io h.sited
      exact h.silent hs hacon hfin
    | began hostname filename => exact h.silent hs rfl fun _ ht => ht
    | accept fd ip mem => exact absurd hc (by simp [SmAct.conn])
    | recv fd chunk io => exact absurd hc (by simp [SmAct.conn])
    | send fd n => exact absurd hc (by simp [SmAct.conn])
    | close fd => exact absurd hc (by simp [SmAct.conn])

theorem ledgerStep_sm (l : Ledger) (a : SmAct) : (ledgerStep cfg l a).sm = smStep cfg l.sm a := by
  unfold ledgerStep Ledger.enter
  cases a.conn <;> rfl

theorem init_balanced (n : Nat) : Balanced (Ledger.init n) := by
  refine ⟨init_sited n, fun fd => rfl, fun t ht => ?_⟩
  exact absurd ht (by simp [Ledger.init, Sm.init, initTaskInfo])

/-- A call for a connection only appends to `TASK_FIN`, and counts each record it puts there. -/
theorem Balanced.countsEach (h : Balanced l) {a : SmAct} (hc : a.conn.isSome) :
    l.sm.store.vfstask .fin <+: (smStep cfg l.sm a).store.vfstask .fin ∧
    (smStep cfg l.sm a).store.taskcount .fin =
      l.sm.store.taskcount .fin + (putBy l.sm (smStep cfg l.sm a)).length := by
  obtain ⟨fd, hfd⟩ := Option.isSome_iff_exists.mp hc
  obtain ⟨takes, puts, hp, -⟩ := smStep_passed cfg h.sited a hfd
  refine ⟨?_, ?_⟩
  · rw [hp.fin]
    exact List.prefix_append ..
  · rw [hp.count, putBy_eq hp, List.length_map]

/-! ## Within a call -/

/-- The state in which `svc_recv` returns. -/
theorem svcRecv_sited (h : WellSited s) (ho : (s.acon fd).isOpen = true) (io : RecvIo)
    (scan : Mybuff → Bytes) : WellSited (svcRecv scan cfg io fd s).2 := by
  obtain ⟨ht, loc, hl⟩ := h
  obtain ⟨s1, hm1, hm2, hk⟩ := svcRecv_moves cfg io scan ht ho
  obtain ⟨loc1, hl1⟩ := hm1.sited hl
  exact ⟨hk.only.tidy ht hk.tidy, hm2.sited hl1⟩

/-- Data in the receive buffer changes nothing else. -/
theorem setBuff_sited (h : WellSited s) (b : Mybuff) :
    WellSited (s.setConn fd { s.acon fd with recvBuff := b }) := by
  obtain ⟨ht, loc, hl⟩ := h
  have hfd : (s.setConn fd { s.acon fd with recvBuff := b }).acon fd =
      { s.acon fd with recvBuff := b } := setConn_acon
  have honly : OnlyConn fd s (s.setConn fd { s.acon fd with recvBuff := b }) := .setConn
  refine ⟨honly.tidy ht ?_, loc, hl.same (honly.same rfl rfl rfl ?_)⟩
  · rw [hfd]
    exact ⟨(ht fd).closed, (ht fd).idle, (ht fd).file⟩
  · rw [Sm.recv, Sm.recv, hfd]

/-- The state in which `svc_finiconn` returns. -/
theorem svcFiniconn_apart (h : WellSited s) (fd : Nat) : Apart (svcFiniconn fd s) := by
  obtain ⟨ht, loc, hl⟩ := h
  by_cases ho : (s.acon fd).isOpen = true
  · obtain ⟨hm, htidy, -, -⟩ := doClose_move fd ht
    obtain ⟨loc', hl'⟩ := hm.sited hl
    obtain ⟨hqueue, htable, hconn⟩ := hl'.apart htidy
    -- `do_close` then marks the descriptor closed, which no record depends on
    have hstore : (doClose fd s).store = (svcFiniconn fd s).store := by
      rw [doClose, if_pos ho]
      rfl
    have hrecv : ∀ fd', (doClose fd s).recvtask fd' = (svcFiniconn fd s).recvtask fd' := by
      intro fd'
      rw [doClose, if_pos ho, Sm.recvtask, Sm.recvtask]
      by_cases hne : fd' = fd
      · rw [hne, setConn_acon]
      · rw [setConn_acon_ne hne]
    rw [hstore] at hqueue htable
    exact ⟨fun hr => hqueue ((hrecv _).trans hr), fun hr => htable ((hrecv _).trans hr),
      fun hr hr' => hconn ((hrecv _).trans hr) ((hrecv _).trans hr')⟩
  · have hu := (ht fd).closed (by simpa using ho)
    unfold svcFiniconn
    rw [hu]
    exact hl.apart ht

/-- A closed descriptor has handed over every record. -/
theorem Balanced.closed (h : Balanced l) (hclosed : (l.sm.acon fd).isOpen = false) : l.taken fd = l.put fd := by
  have hnone : l.sm.held fd = [] := by
    rw [Sm.held, Sm.recvtask, (h.sited.1 fd).closed hclosed]
    rfl
  rw [h.books fd, hnone, List.append_nil]

end VfsOss
