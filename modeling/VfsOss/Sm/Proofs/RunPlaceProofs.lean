import VfsOss.Sm.Proofs.MovesProofs
import VfsOss.Sm.Proofs.PassProofs
import VfsOss.CLib.Run

/-!
# Proofs: every record has its place in every run

Through any interleaving of the two plugins a record is in one queue, in one chain, with one
connection, or lost.
-/

namespace VfsOss

open CLib

variable {cfg : Cfg} {opens : Bool} {m : Nat → Bool} {s s' : Sm} {loc loc' : Nat → Loc} {fd : Nat}

section Store

variable {st st' : TaskStore} {t : Tasklist} {q q' : TaskStatus}

/-- A record moved from one queue to another. -/
theorem Placed.shift (h : Placed st loc) (hg : vfsGetTask m st q = (.ok t, st')) (hq : q ≠ .fin)
    (hq' : q' ≠ .fin) (hu : q' ≠ .unknown) :
    (vfsSetTask st' t q').vfstask .fin = st.vfstask .fin ∧
    (vfsSetTask st' t q').alltask = st.alltask ∧
    Placed (vfsSetTask st' t q') (Function.update loc t.addr (.queue q')) ∧
    Stay loc (Function.update loc t.addr (.queue q')) := by
  obtain ⟨h1, hl⟩ := h.get hg
  have hheld : Function.update loc t.addr .held t.addr = .held := Function.update_self ..
  have h2 := h1.set q' hu (by rw [hheld]; simp) (by rw [hheld]; simp)
  rw [Function.update_idem] at h2
  have hfin : (vfsGetTask m st q).2.vfstask .fin = st.vfstask .fin := fin_vfsGetTask hq
  have hall : (vfsGetTask m st q).2.alltask = st.alltask := alltask_vfsGetTask
  rw [hg] at hfin hall
  refine ⟨?_, ?_, h2, Stay.move ?_ ?_⟩
  · rw [fin_vfsSetTask h1 (by rw [hheld]; simp) hq', hfin]
  · rw [alltask_vfsSetTask, hall]
  · rcases hl with hl | ⟨-, hl⟩ <;> rw [hl]
    · simpa [Loc.aside] using hq
    · rfl
  · simpa [Loc.aside] using hq'

/-- `TASK_FIN`, the table and the records of the connections are as they were. -/
structure Aside (st st' : TaskStore) (loc : Nat → Loc) : Prop where
  fin : st'.vfstask .fin = st.vfstask .fin
  alltask : st'.alltask = st.alltask
  placed : ∃ loc', Placed st' loc' ∧ Stay loc loc'

theorem Aside.refl (h : Placed st loc) : Aside st st loc := ⟨rfl, rfl, loc, h, Stay.refl⟩

/-- A pop that returns nothing. -/
theorem Aside.get_none (h : Placed st loc) (hq : q ≠ .fin) (hn : ∀ t, (vfsGetTask m st q).1 ≠ .ok t) :
    Aside st (vfsGetTask m st q).2 loc :=
  ⟨fin_vfsGetTask hq, alltask_vfsGetTask, loc, h.get_none hn, Stay.refl⟩

/-- One more record moved. -/
theorem Aside.shift {st'' : TaskStore} (h : Placed st loc) (hg : vfsGetTask m st q = (.ok t, st'))
    (hq : q ≠ .fin) (hq' : q' ≠ .fin) (hu : q' ≠ .unknown)
    (hrest : ∀ loc', Placed (vfsSetTask st' t q') loc' → Aside (vfsSetTask st' t q') st'' loc') :
    Aside st st'' loc := by
  obtain ⟨hf, ha, hp, hs⟩ := h.shift hg hq hq' hu
  obtain ⟨hf', ha', loc', hp', hs'⟩ := hrest _ hp
  exact ⟨hf'.trans hf, ha'.trans ha, loc', hp', hs.trans hs'⟩

theorem drainWaitTmp_aside (cfg : Cfg) (n : Nat) : ∀ st loc, Placed st loc →
    Aside st (drainWaitTmp cfg n st) loc := by
  induction n with
  | zero => exact fun st loc h => .refl h
  | succ n ih =>
    intro st loc h
    rw [drainWaitTmp]
    have hnone := Aside.get_none (m := cfg.mallocOk) (q := .waitTmp) h (by simp)
    rcases hg : vfsGetTask cfg.mallocOk st .waitTmp with ⟨r, st'⟩
    rw [hg] at hnone
    cases r with
    | ok t => exact .shift h hg (by simp) (by simp) (by simp) (ih _)
    | err => exact hnone (by simp)
    | nothing => exact hnone (by simp)

theorem unokLoop_aside (cfg : Cfg) (hostname : Bytes) (n : Nat) : ∀ buf out st loc, Placed st loc →
    Aside st (unokLoop cfg hostname n buf out st).2.2 loc := by
  induction n with
  | zero => exact fun buf out st loc h => .refl h
  | succ n ih =>
    intro buf out st loc h
    rw [unokLoop]
    have hnone := Aside.get_none (m := cfg.mallocOk) (q := .wait) h (by simp)
    rcases hg : vfsGetTask cfg.mallocOk st .wait with ⟨r, st'⟩
    rw [hg] at hnone
    cases r with
    | ok t =>
      dsimp only
      split
      · exact .shift h hg (by simp) (by simp) (by simp) (ih _ _ _)
      · split
        · exact .shift h hg (by simp) (by simp : TaskStatus.waitTmp ≠ .fin) (by simp) fun _ => .refl
        · exact .shift h hg (by simp) (by simp) (by simp) (ih _ _ _)
    | err => exact hnone (by simp)
    | nothing => exact hnone (by simp)

/-- Building the list of missing blocks only moves records between `TASK_WAIT`, `TASK_WAIT_TMP` and
`TASK_HOME`. -/
theorem getTaskUnok_aside (cfg : Cfg) (hostname : Bytes) (h : Placed st loc) :
    Aside st (getTaskUnok cfg st hostname).2.2 loc := by
  obtain ⟨hf, ha, loc', hp, hs⟩ := drainWaitTmp_aside cfg (st.vfstask .waitTmp).length st loc h
  obtain ⟨hf', ha', loc'', hp', hs'⟩ := unokLoop_aside cfg hostname (cfg.csMaxTaskRunOnce - 1) [] [] _ _ hp
  exact ⟨hf'.trans hf, ha'.trans ha, loc'', hp', hs.trans hs'⟩

/-- A held record put at the end of `TASK_FIN`. -/
theorem Placed.set_fin (h : Placed st loc) (hl : loc t.addr = .held ∨ ∃ fd, loc t.addr = .conn fd) :
    (vfsSetTask st t .fin).vfstask .fin = st.vfstask .fin ++ [{ t with status := .fin }] ∧
    Placed (vfsSetTask st t .fin) (Function.update loc t.addr (.queue .fin)) := by
  have hq : ∀ q, loc t.addr ≠ .queue q := by
    rcases hl with hl | ⟨fd, hl⟩ <;> simp [hl]
  have hc : ∀ b, loc t.addr ≠ .chain b := by
    rcases hl with hl | ⟨fd, hl⟩ <;> simp [hl]
  have hu : loc t.addr ≠ .unborn := by
    rcases hl with hl | ⟨fd, hl⟩ <;> simp [hl]
  refine ⟨?_, h.set .fin (by simp) hu hc⟩
  rw [vfstask_vfsSetTask (by simp) (h.not_queued hq), Function.update_self]

/-- A record that is in no list is said to be with a connection, or with nobody. -/
theorem Placed.relabel {a : Nat} {l : Loc} (h : Placed st loc)
    (ha : loc a = .held ∨ ∃ fd, loc a = .conn fd) : Placed st (Function.update loc a l) := by
  have hq : ∀ {q v}, v ∈ st.vfstask q → v.addr ≠ a := by
    rintro q v hv rfl
    have := h.queue hv
    rcases ha with ha | ⟨fd, ha⟩ <;> simp [ha] at this
  have hc : ∀ {b v}, v ∈ st.alltask b → v.addr ≠ a := by
    rintro b v hv rfl
    have := h.chain hv
    rcases ha with ha | ⟨fd, ha⟩ <;> simp [ha] at this
  refine ⟨fun hv => ?_, fun hv => ?_, h.nodupQueue, h.nodupChain, fun {b} hb => ?_, h.hash⟩
  · rw [Function.update_of_ne (hq hv)]
    exact h.queue hv
  · rw [Function.update_of_ne (hc hv)]
    exact h.chain hv
  · have hne : b ≠ a := by
      rintro rfl
      have := h.unborn hb
      rcases ha with ha | ⟨fd, ha⟩ <;> simp [ha] at this
    rw [Function.update_of_ne hne]
    exact h.unborn hb

end Store

/-! ## The state of the process -/

/-- Every record of the store and of the connections has its place. -/
structure Sited (s : Sm) (loc : Nat → Loc) : Prop where
  placed : Placed s.store loc
  recv : ∀ {fd t f}, s.recv fd = some (t, f) → loc t.addr = .conn fd

theorem Sited.stay (h : Sited s loc) (hp : Placed s'.store loc') (hs : Stay loc loc')
    (hr : s'.recv = s.recv) : Sited s' loc' := by
  refine ⟨hp, fun {fd t f} ht => ?_⟩
  rw [hr] at ht
  exact hs.conn.mpr (h.recv ht)

theorem Sited.same (h : Sited s loc) (hs : SameRecords s s') : Sited s' loc := by
  refine ⟨by rw [hs.store]; exact h.placed, fun {fd t f} ht => ?_⟩
  rw [hs.recv] at ht
  exact h.recv ht

/-- A record that is somewhere else is not one a connection receives. -/
theorem Sited.not_recv (h : Sited s loc) {a : Nat} (ha : ∀ fd, loc a ≠ .conn fd) {t : Tasklist}
    {f : Nat × Nat} (ht : s.recv fd = some (t, f)) : t.addr ≠ a := by
  rintro rfl
  exact ha fd (h.recv ht)

theorem HeadMove.sited (h : Sited s loc) (hm : HeadMove cfg opens fd s s') : ∃ loc', Sited s' loc' := by
  cases hm with
  | stay hs => exact ⟨loc, h.same hs⟩
  | ask host store fs log recv =>
    obtain ⟨-, -, loc', hp, hs⟩ := getTaskUnok_aside cfg host h.placed
    rw [← store] at hp
    exact ⟨loc', h.stay hp hs recv⟩
  | noRecord none store fs log recv =>
    have hp := h.placed.get_none none
    rw [← store] at hp
    exact ⟨loc, h.stay hp Stay.refl recv⟩
  | refuse task0 t st home posted store fs log recv =>
    obtain ⟨h1, hl⟩ := h.placed.get home
    rw [← posted.addr] at h1 hl
    obtain ⟨-, h2⟩ := h1.set_fin (t := (prepared cfg t).over .eOpenDstfile)
      (Or.inl (Function.update_self ..))
    rw [← store] at h2
    refine ⟨_, h2, fun {fd' v f} hv => ?_⟩
    rw [recv] at hv
    have hne : v.addr ≠ t.addr := h.not_recv (by rcases hl with hl | ⟨-, hl⟩ <;> simp [hl]) hv
    have hupd : ∀ l, Function.update (Function.update loc t.addr .held) t.addr l v.addr = loc v.addr :=
      fun l => by rw [Function.update_of_ne hne, Function.update_of_ne hne]
    exact (hupd _).trans (h.recv hv)
  | start task0 t st home posted opened free store fs log recv =>
    obtain ⟨h1, hl⟩ := h.placed.get home
    rw [← posted.addr, ← store] at h1
    rw [← posted.addr] at hl
    have h2 := h1.relabel (a := t.addr) (l := .conn fd) (Or.inl (Function.update_self ..))
    rw [Function.update_idem] at h2
    refine ⟨_, h2, fun {fd' v f} hv => ?_⟩
    rw [recv] at hv
    by_cases hfd : fd' = fd
    · subst hfd
      rw [Function.update_self] at hv
      obtain ⟨rfl, -⟩ := Prod.mk.inj (Option.some.inj hv)
      exact Function.update_self ..
    · rw [Function.update_of_ne hfd] at hv
      have hne : v.addr ≠ t.addr := h.not_recv (by rcases hl with hl | ⟨-, hl⟩ <;> simp [hl]) hv
      rw [Function.update_of_ne hne]
      exact h.recv hv

/-- A connection that keeps its record. -/
theorem Sited.receive {t v : Tasklist} {f f' : Nat × Nat} (h : Sited s loc)
    (h0 : s.recv fd = some (t, f)) (ha : v.addr = t.addr) (hs : s'.store = s.store)
    (hr : s'.recv = Function.update s.recv fd (some (v, f'))) : Sited s' loc := by
  refine ⟨by rw [hs]; exact h.placed, fun {fd' w g} hw => ?_⟩
  rw [hr] at hw
  by_cases hfd : fd' = fd
  · subst hfd
    rw [Function.update_self] at hw
    obtain ⟨rfl, -⟩ := Prod.mk.inj (Option.some.inj hw)
    rw [ha]
    exact h.recv h0
  · rw [Function.update_of_ne hfd] at hw
    exact h.recv hw

/-- A connection whose record goes to `TASK_FIN`. -/
theorem Sited.finish {t v : Tasklist} {f : Nat × Nat} (h : Sited s loc)
    (h0 : s.recv fd = some (t, f)) (ha : v.addr = t.addr) (hs : s'.store = vfsSetTask s.store v .fin)
    (hr : s'.recv = Function.update s.recv fd none) : ∃ loc', Sited s' loc' := by
  have hl : loc v.addr = .conn fd := by rw [ha]; exact h.recv h0
  obtain ⟨-, h1⟩ := h.placed.set_fin (t := v) (Or.inr ⟨fd, hl⟩)
  rw [← hs] at h1
  refine ⟨_, h1, fun {fd' w g} hw => ?_⟩
  rw [hr] at hw
  by_cases hfd : fd' = fd
  · subst hfd
    rw [Function.update_self] at hw
    exact absurd hw (by simp)
  · rw [Function.update_of_ne hfd] at hw
    have hne : w.addr ≠ v.addr := by
      intro he
      have := h.recv hw
      rw [he, hl] at this
      exact hfd (Loc.conn.inj this).symm
    rw [Function.update_of_ne hne]
    exact h.recv hw

theorem BodyMove.sited (h : Sited s loc) (hm : BodyMove fd s s') : ∃ loc', Sited s' loc' := by
  cases hm with
  | stay hs => exact ⟨loc, h.same hs⟩
  | write t node off bytes recv0 fits pos more store fs log recv =>
    exact ⟨loc, h.receive (v := t.receive bytes (toInt32 bytes.length)) recv0 rfl store recv⟩
  | finish t node off bytes recv0 fits pos done store fs log recv =>
    exact h.finish (v := (t.receive bytes (toInt32 bytes.length)).over .ok) recv0 rfl store recv
  | overflow t node off bytes recv0 fits neg store fs log recv =>
    exact ⟨loc, h.receive recv0 rfl store recv⟩

theorem CloseMove.sited (h : Sited s loc) (hm : CloseMove fd s s') : ∃ loc', Sited s' loc' := by
  cases hm with
  | stay hs => exact ⟨loc, h.same hs⟩
  | abort t f recv0 store fs log recv => exact h.finish (v := t.over .peererr) recv0 rfl store recv

/-- Every record has its place, and the connections are tidy. -/
def WellSited (s : Sm) : Prop := Tidy s ∧ ∃ loc, Sited s loc

theorem WellSited.placed (h : WellSited s) : WellPlaced s.store := by
  obtain ⟨-, loc, hl⟩ := h
  exact ⟨loc, hl.placed⟩

theorem recv_of_acon (h : s'.acon = s.acon) : s'.recv = s.recv := by
  funext fd
  rw [Sm.recv, Sm.recv, h]

theorem Tidy.of_acon (ht : Tidy s) (h : s'.acon = s.acon) : Tidy s' := by
  intro fd
  rw [h]
  exact ht fd

theorem finIter_sited (io : MergeIo) (h : WellSited s) : WellSited (finIter cfg io s) := by
  obtain ⟨ht, loc, hl⟩ := h
  rcases ho : s.once with _ | k
  · unfold finIter
    rw [ho]
    exact ⟨ht, loc, hl⟩
  rcases hq : s.store.vfstask .fin with _ | ⟨t, rest⟩
  · rw [finIter_nil ho hq]
    exact ⟨ht.of_acon rfl, loc, hl.stay hl.placed Stay.refl (recv_of_acon rfl)⟩
  have h1 := popFin_placed hl.placed hq
  have htq : loc t.addr = .queue .fin := hl.placed.queue (by rw [hq]; simp)
  have hrecv : ∀ {fd v f}, s.recv fd = some (v, f) →
      Function.update loc t.addr .held v.addr = .conn fd := by
    intro fd v f hv
    have hne : v.addr ≠ t.addr := hl.not_recv (by simp [htq]) hv
    rw [Function.update_of_ne hne]
    exact hl.recv hv
  by_cases hk : k < 128
  · rw [finIter_cons ho hq hk]
    generalize hs1 : ({ s.popFin with once := some (k + 1) } : Sm).note (.fin t.taken) = s1
    have hp1 : Placed s1.store (Function.update loc t.addr .held) := by rw [← hs1]; exact h1
    obtain ⟨-, loc', h2, hs⟩ := finTask_placed cfg io (t := t.taken) hp1 (Function.update_self ..)
    have hacon : (finTask cfg io t.taken s1).acon = s.acon := by
      rw [(finTask_frame cfg io t.taken).1, ← hs1]
      rfl
    refine ⟨ht.of_acon hacon, loc', h2, fun hv => ?_⟩
    rw [recv_of_acon hacon] at hv
    exact hs.conn.mpr (hrecv hv)
  · rw [finIter_full ho hq (by omega)]
    exact ⟨ht.of_acon rfl, _, h1, fun hv => hrecv hv⟩

theorem smStep_sited (h : WellSited s) (a : SmAct) : WellSited (smStep cfg s a) := by
  obtain ⟨ht, loc, hl⟩ := h
  cases a with
  | accept fd ip mem =>
    obtain ⟨ht', hs, -⟩ := acceptNew_same cfg mem fd ip ht
    exact ⟨ht', loc, hl.same hs⟩
  | recv fd chunk io =>
    obtain ⟨ht', -, s1, s2, hm1, hm2, hm3⟩ := doRecv_moves cfg io Mybuff.data fd chunk ht
    obtain ⟨loc1, hl1⟩ := hm1.sited hl
    obtain ⟨loc2, hl2⟩ := hm2.sited hl1
    exact ⟨ht', hm3.sited hl2⟩
  | send fd n =>
    obtain ⟨ht', -, hm⟩ := doSend_move fd n ht
    exact ⟨ht', hm.sited hl⟩
  | close fd =>
    obtain ⟨hm, ht', -, -⟩ := doClose_move fd ht
    exact ⟨ht', hm.sited hl⟩
  | finBegin =>
    have hacon : (finBegin s).acon = s.acon := by unfold finBegin; split <;> rfl
    have hstore : (finBegin s).store = s.store := by unfold finBegin; split <;> rfl
    have hp : Placed (finBegin s).store loc := by rw [hstore]; exact hl.placed
    exact ⟨ht.of_acon hacon, loc, hl.stay hp Stay.refl (recv_of_acon hacon)⟩
  | finIter io => exact finIter_sited io ⟨ht, loc, hl⟩
  | began hostname filename =>
    exact ⟨ht.of_acon rfl, loc, hl.stay hl.placed Stay.refl (recv_of_acon rfl)⟩

theorem init_sited (n : Nat) : WellSited (Sm.init n) := by
  obtain ⟨loc, hp⟩ := initTaskInfo_placed n
  refine ⟨fun fd => ⟨fun _ => rfl, ?_, ?_⟩, loc, hp, ?_⟩
  · intro p hp
    exact absurd hp (by simp [Sm.init, Conn.unused])
  · intro p t hp
    exact absurd hp (by simp [Sm.init, Conn.unused])
  · intro fd t f h
    exact absurd h (by simp [Sm.recv, Sm.init, Conn.unused])

/-- **Every record has its place** in every state the process reaches. -/
theorem run_sited (cfg : Cfg) (n : Nat) (as : List SmAct) :
    WellSited (run (smStep cfg) (Sm.init n) as) :=
  run_invariant_all WellSited (fun _ a h => smStep_sited h a) (init_sited n) as

end VfsOss
