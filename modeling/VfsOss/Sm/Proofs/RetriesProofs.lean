import VfsOss.Sm.Retries
import VfsOss.Sm.Proofs.HandoverProofs

/-!
# Proofs: how often a block is asked for again

A failed transfer that is sent back leaves `TASK_FIN`, and nothing in `TASK_WAIT` ever returns there. So
the requests made for a block and its failed transfers in `TASK_FIN` together only grow when a transfer
fails.
-/

namespace VfsOss

open CLib

variable {cfg : Cfg} {s s' : Sm} {r : Retries} {k : Bytes × Bytes × Int × Int} {t : Tasklist}

/-! ## Counting failed transfers -/

theorem failedOf_append (l l' : List Tasklist) : failedOf k (l ++ l') = failedOf k l + failedOf k l' :=
  List.countP_append

theorem failedOf_le_cons (u : Tasklist) (l : List Tasklist) : failedOf k l ≤ failedOf k (u :: l) := by
  unfold failedOf
  rw [List.countP_cons]
  omega

theorem failedOf_cons_failed (u : Tasklist) (l : List Tasklist) (h : u.base.overstatus ≠ .ok) :
    failedOf u.block (u :: l) = failedOf u.block l + 1 := by
  unfold failedOf
  rw [List.countP_cons_of_pos]
  simpa using h

/-- Only the failed ones among some records count. -/
theorem failedOf_filter (l : List Tasklist) :
    failedOf k (l.filter fun t => t.base.overstatus ≠ .ok) = failedOf k l := by
  unfold failedOf
  rw [List.countP_filter]
  congr 1
  funext t
  simp only [ne_eq, decide_not, Bool.decide_and, Bool.and_comm, Bool.and_self_left]

theorem exists_of_failedOf_pos {l : List Tasklist} (h : 0 < failedOf k l) :
    ∃ t ∈ l, t.base.overstatus ≠ .ok ∧ t.block = k := by
  obtain ⟨t, ht, hk⟩ := List.countP_pos_iff.mp h
  exact ⟨t, ht, by simpa using hk⟩

/-! ## What a step does to `TASK_FIN` -/

theorem processed_of_conn {a : SmAct} (h : a.conn.isSome) : processed s a = none := by
  cases a with
  | finIter io => exact absurd h (by simp [SmAct.conn])
  | accept fd ip mem => rfl
  | recv fd chunk io => rfl
  | send fd n => rfl
  | close fd => rfl
  | finBegin => rfl
  | began hostname filename => rfl

/-- What a round of `check_fin_task` does to `TASK_FIN`: nothing, or its first record is gone. A record
that was processed was the first. -/
theorem finIter_fin (cfg : Cfg) (io : MergeIo) (h : WellSited s) :
    (finIter cfg io s).store.vfstask .fin = s.store.vfstask .fin ∧ processed s (.finIter io) = none ∨
    ∃ u rest, s.store.vfstask .fin = u :: rest ∧ (finIter cfg io s).store.vfstask .fin = rest ∧
      (processed s (.finIter io) = none ∨ processed s (.finIter io) = some u.taken) := by
  obtain ⟨-, loc, hl⟩ := h
  unfold processed
  rcases ho : s.once with _ | n
  · refine Or.inl ⟨?_, rfl⟩
    unfold finIter
    rw [ho]
  rcases hq : s.store.vfstask .fin with _ | ⟨u, rest⟩
  · refine Or.inl ⟨?_, by simp⟩
    rw [finIter_nil ho hq]
    exact hq
  refine Or.inr ⟨u, rest, rfl, ?_⟩
  by_cases hn : n < 128
  · rw [finIter_cons ho hq hn]
    obtain ⟨hfin, -⟩ := finTask_placed (s := { s.popFin with once := some (n + 1) }.note (.fin u.taken))
      cfg io (t := u.taken) (popFin_placed hl.placed hq) (Function.update_self ..)
    refine ⟨hfin.trans (fin_popFin hq), Or.inr ?_⟩
    simp [hn]
  · rw [finIter_full ho hq (by omega)]
    refine ⟨fin_popFin hq, Or.inl ?_⟩
    simp [hn]

/-! ## Giving up -/

/-- A failed record that the code does not send back is given up and is not in `TASK_WAIT`. -/
theorem failed_not_resent (cfg : Cfg) {a : SmAct} (hs : WellSited s) (ht : t ∈ failedTask s a)
    (hc : ¬ (cfg.retry ≠ 0 ∧ t.base.retry < cfg.retry)) :
    (∃ s1, s1.store = s.popFin.store ∧ smStep cfg s a =
      (clearAlltaskTimeout t.base.hostname t.base.filename t.sub.count s1).note (.leak t)) ∧
    waits (smStep cfg s a) t = false := by
  obtain ⟨-, loc, hl⟩ := hs
  obtain ⟨hp, hfail⟩ := Option.filter_eq_some_iff.mp ht
  obtain ⟨io, s1, hstep, hstore, -, -, u, rest, hq, rfl⟩ := finTask_of_processed hp cfg
  have hgive : finTask cfg io u.taken s1 = (clearAlltaskTimeout u.taken.base.hostname
      u.taken.base.filename u.taken.sub.count s1).note (.leak u.taken) := by
    unfold finTask
    rw [if_pos (by simpa using hfail), if_neg hc]
  refine ⟨⟨s1, hstore, hstep.trans hgive⟩, ?_⟩
  rw [hstep, hgive]
  have hp1 : Placed s1.store (Function.update loc u.addr .held) := by
    rw [hstore]
    exact popFin_placed hl.placed hq
  obtain ⟨-, loc', hp2, -, hheld⟩ := (clearAlltaskTimeout_internal (s := s1) u.taken.base.hostname
    u.taken.base.filename u.taken.sub.count).store _ hp1
  have hloc : loc' u.taken.addr = .held := hheld _ (Function.update_self ..)
  rw [waits, List.any_eq_false]
  intro v hv
  have hne : v.addr ≠ u.taken.addr := fun he => by
    have hq := hp2.queue hv
    rw [he, hloc] at hq
    exact Loc.noConfusion hq
  simpa using hne

/-! ## The invariant -/

/-- The requests made for a block and its failed transfers that wait are at most `g_config.retry`; with
no retries there are no requests. -/
structure Within (cfg : Cfg) (r : Retries) : Prop where
  sited : WellSited r.sm
  bound : cfg.retry ≠ 0 → ∀ k, r.resends k + failedOf k (r.sm.store.vfstask .fin) ≤ cfg.retry
  never : cfg.retry = 0 → ∀ k, r.resends k = 0

theorem Within.le (h : Within cfg r) (k : Bytes × Bytes × Int × Int) : r.resends k ≤ cfg.retry := by
  by_cases h0 : cfg.retry = 0
  · rw [h.never h0 k]
    exact Nat.zero_le _
  · have := h.bound h0 k
    omega

/-- A failed record that is processed counts among those that waited. -/
theorem failedTask_some {a : SmAct} (h : t ∈ failedTask s a) : t.base.overstatus ≠ .ok ∧
    ∃ u rest, s.store.vfstask .fin = u :: rest ∧ t = u.taken := by
  obtain ⟨hp, hfail⟩ := Option.filter_eq_some_iff.mp h
  obtain ⟨-, -, u, rest, -, -, -, hq, ht⟩ := mem_processed.mp hp
  exact ⟨by simpa using hfail, u, rest, hq, ht⟩

/-- A call for a connection: what fails is within the bound. -/
theorem Within.call (h : Within cfg r) (a : SmAct) (hc : a.conn.isSome) (hok : FailsWithin cfg r a) :
    Within cfg (retryStep cfg r a) := by
  obtain ⟨fd, hfd⟩ := Option.isSome_iff_exists.mp hc
  obtain ⟨takes, puts, hp, -⟩ := smStep_passed cfg h.sited a hfd
  have hres : (retryStep cfg r a).resends = r.resends := by
    unfold retryStep failedTask
    rw [processed_of_conn hc]
    cases a with
    | began hostname filename => exact absurd hc (by simp [SmAct.conn])
    | accept fd ip mem => rfl
    | recv fd chunk io => rfl
    | send fd n => rfl
    | close fd => rfl
    | finBegin => rfl
    | finIter io => rfl
  refine ⟨smStep_sited h.sited a, fun h0 k => ?_, fun h0 k => ?_⟩
  · rw [hres]
    change r.resends k + failedOf k ((smStep cfg r.sm a).store.vfstask .fin) ≤ cfg.retry
    rw [hp.fin, failedOf_append]
    rcases Nat.eq_zero_or_pos (failedOf k puts) with hz | hpos
    · rw [hz]
      exact h.bound h0 k
    · have hnew : newFailed r.sm (smStep cfg r.sm a) = puts.filter fun t => t.base.overstatus ≠ .ok := by
        rw [newFailed, hp.fin, List.drop_left]
      obtain ⟨t, ht, hfail, rfl⟩ := exists_of_failedOf_pos hpos
      have hle := hok h0 t (by rw [hnew]; exact List.mem_filter.mpr ⟨ht, by simpa using hfail⟩)
      rw [hnew, failedOf_filter] at hle
      omega
  · rw [hres]
    exact h.never h0 k

/-- A round of `check_fin_task`: what is sent back has left `TASK_FIN`. -/
theorem Within.finIter (h : Within cfg r) (io : MergeIo) : Within cfg (retryStep cfg r (.finIter io)) := by
  refine ⟨smStep_sited h.sited _, fun h0 k => ?_, fun h0 k => ?_⟩
  · have hb := h.bound h0 k
    change (retryStep cfg r (.finIter io)).resends k +
      failedOf k ((VfsOss.finIter cfg io r.sm).store.vfstask .fin) ≤ cfg.retry
    rcases finIter_fin cfg io h.sited with ⟨hfin, hnone⟩ | ⟨u, rest, hq, hfin, hproc⟩
    · rw [hfin]
      unfold retryStep failedTask
      rw [hnone]
      exact hb
    · rw [hfin]
      rw [hq] at hb
      have hrest : failedOf k rest ≤ failedOf k (u :: rest) := failedOf_le_cons u rest
      unfold retryStep
      cases hf : failedTask r.sm (.finIter io) with
      | none =>
        dsimp only
        omega
      | some t =>
        obtain ⟨hfail, v, rest', hq', rfl⟩ := failedTask_some hf
        obtain ⟨rfl, rfl⟩ := List.cons.inj (hq.symm.trans hq')
        dsimp only
        split
        · by_cases hk : k = u.taken.block
          · have hcount : failedOf u.block (u :: rest) = failedOf u.block rest + 1 :=
              failedOf_cons_failed u rest hfail
            have hblock : u.taken.block = u.block := rfl
            rw [hk, hblock] at hb ⊢
            rw [Function.update_self]
            omega
          · rw [Function.update_of_ne hk]
            omega
        · omega
  · unfold retryStep
    cases hf : failedTask r.sm (.finIter io) with
    | none => exact h.never h0 k
    | some t =>
      have hno := (failed_not_resent cfg h.sited hf (by simp [h0])).2
      dsimp only
      rw [hno]
      exact h.never h0 k

theorem Within.step (h : Within cfg r) (a : SmAct) (hok : FailsWithin cfg r a) :
    Within cfg (retryStep cfg r a) := by
  cases a with
  | accept fd ip mem => exact h.call _ rfl hok
  | recv fd chunk io => exact h.call _ rfl hok
  | send fd n => exact h.call _ rfl hok
  | close fd => exact h.call _ rfl hok
  | finIter io => exact h.finIter io
  | finBegin =>
    refine ⟨smStep_sited h.sited _, fun h0 k => ?_, h.never⟩
    have hstore : (retryStep cfg r .finBegin).sm.store = r.sm.store := (finBegin_same r.sm).store
    rw [hstore]
    exact h.bound h0 k
  | began hostname filename =>
    have hle : ∀ k, (retryStep cfg r (.began hostname filename)).resends k ≤ r.resends k := by
      intro k
      change (if k.1 = hostname ∧ k.2.1 = filename then 0 else r.resends k) ≤ r.resends k
      split
      · exact Nat.zero_le _
      · exact le_refl _
    have hs : WellSited (smStep cfg r.sm (.began hostname filename)) := smStep_sited h.sited _
    refine ⟨hs, fun h0 k => ?_, fun h0 k => ?_⟩
    · exact le_trans (Nat.add_le_add_right (hle k) _) (h.bound h0 k)
    · have := hle k
      rw [h.never h0 k] at this
      omega

theorem Within.givesUp (h : Within cfg r) (a : SmAct) : GivesUp cfg r a := by
  intro t ht hall
  by_cases h0 : cfg.retry = 0
  · exact (failed_not_resent cfg h.sited ht (by simp [h0])).1
  · obtain ⟨hfail, u, rest, hq, rfl⟩ := failedTask_some ht
    have hb := h.bound h0 u.block
    have hcount : failedOf u.block (u :: rest) = failedOf u.block rest + 1 :=
      failedOf_cons_failed u rest hfail
    have hblock : u.taken.block = u.block := rfl
    rw [hq, hcount] at hb
    rw [hblock] at hall
    omega

theorem init_within (cfg : Cfg) (n : Nat) : Within cfg (Retries.init n) :=
  ⟨init_sited n, fun _ _ => Nat.zero_le _, fun _ _ => rfl⟩

/-- **Retries are bounded** in every run in which no block's transfers fail more often than
`g_config.retry` says: a block is sent back at most that often, and then its file is given up. -/
theorem retries_bounded (cfg : Cfg) (n : Nat) (as : List SmAct)
    (hok : RunOk (retryStep cfg) (FailsWithin cfg) (Retries.init n) as) :
    (∀ k, (run (retryStep cfg) (Retries.init n) as).resends k ≤ cfg.retry) ∧
    RunOk (retryStep cfg) (GivesUp cfg) (Retries.init n) as := by
  refine ⟨fun k => ?_, ?_⟩
  · have h : Within cfg (run (retryStep cfg) (Retries.init n) as) :=
      run_invariant (Within cfg) (fun _ a h ha => h.step a ha) (init_within cfg n) hok
    exact h.le k
  · exact RunOk.of_invariant (Within cfg) (fun _ a h ha => h.step a ha) (fun _ a h _ => h.givesUp a)
      (init_within cfg n) hok

/-- Two transfers of a block break off. -/
theorem retries_bounded_two :
    let as := SmAct.broken 3 (txt "a") (txt "f") ++ SmAct.ask 4 (txt "a") ++
      SmAct.broken 3 (txt "a") (txt "f")
    (∀ k, (run (retryStep .sample) (Retries.init 8) as).resends k ≤ 2) ∧
    RunOk (retryStep .sample) (GivesUp .sample) (Retries.init 8) as := by
  intro as
  exact retries_bounded .sample 8 as (by decide +kernel)

/-- Three transfers of a block of one upload break off, and two requests for it are handed out. -/
theorem retries_unbounded :
    let as := [SmAct.began (txt "a") (txt "f")] ++ SmAct.broken 3 (txt "a") (txt "f") ++
      SmAct.ask 4 (txt "a") ++ SmAct.broken 3 (txt "a") (txt "f") ++ SmAct.ask 4 (txt "a") ++
      SmAct.broken 3 (txt "a") (txt "f")
    ¬ (∀ k, (run (retryStep .sample) (Retries.init 8) as).resends k ≤ Cfg.sample.retry) := by
  intro as h
  have hthree : (run (retryStep .sample) (Retries.init 8) as).resends (txt "a", txt "f", 1, 1) = 3 := by
    decide +kernel
  have hle := h (txt "a", txt "f", 1, 1)
  rw [hthree] at hle
  exact absurd hle (by decide)

end VfsOss
