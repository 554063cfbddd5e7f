import VfsOss.CLib.Run
import VfsOss.Sm.Proofs.ClockProofs
import VfsOss.Uc.Clock

/-!
# Proofs: timeouts in both processes

Every record of the sending process gets the time after it was taken from `TASK_HOME`.
-/

namespace VfsOss

open CLib

variable {cfg : UcCfg} {c : UcClock} {a : Nat} {n : Int}

/-- A sending process that keeps the time. -/
structure UcTimed (c : UcClock) : Prop where
  placed : WellPlaced c.uc.store
  alive : c.uc.left = none
  stamps : ∀ {a n}, Stamp c.uc.store a n → c.taken a ≤ n

/-- A record moved between queues. -/
theorem WellPlaced.shift {s s' : TaskStore} {m : Nat → Bool} {q q' : TaskStatus} {t : Tasklist}
    (h : WellPlaced s) (hg : vfsGetTask m s q = (.ok t, s')) (hq' : q' ≠ .unknown) :
    WellPlaced (vfsSetTask s' t q') := by
  obtain ⟨loc, hp⟩ := h
  obtain ⟨h1, -⟩ := hp.get hg
  have hheld : Function.update loc t.addr .held t.addr = .held := Function.update_self ..
  exact ⟨_, h1.set q' hq' (by rw [hheld]; simp) (by rw [hheld]; simp)⟩

/-- What `insert_sub_task` does in a process that is not killed. -/
theorem insertSubTask_alive (cfg : UcCfg) (base0 : TaskBase) (idx count start end_ now : Int) {s : Uc}
    (hs : s.left = none) :
    (insertSubTask cfg base0 idx count start end_ now s = none ∧
      ∀ t, (vfsGetTask cfg.mallocOk s.store .home).1 ≠ .ok t) ∨
    ∃ t st, vfsGetTask cfg.mallocOk s.store .home = (.ok t, st) ∧
      insertSubTask cfg base0 idx count start end_ now s =
        some { s with store := vfsSetTask st (subRecord t base0 idx count start end_ now) .waitSync } := by
  obtain ⟨store, watchDirs, sync, left⟩ := s
  obtain rfl : left = none := hs
  unfold insertSubTask
  dsimp only
  rcases hg : vfsGetTask cfg.mallocOk store .home with ⟨r, st⟩
  cases r with
  | ok t => exact Or.inr ⟨t, st, rfl, rfl⟩
  | err => exact Or.inl ⟨rfl, by simp⟩
  | nothing => exact Or.inl ⟨rfl, by simp⟩

theorem UcTimed.insert (h : UcTimed c) (cfg : UcCfg) (taskTimeout : Int) (base0 : TaskBase)
    (idx count start end_ : Int) (late : Nat) :
    UcTimed (ucClockStep cfg taskTimeout c (.insert base0 idx count start end_ late)) := by
  obtain ⟨loc, hp⟩ := h.placed
  unfold ucClockStep
  dsimp only
  rcases insertSubTask_alive cfg base0 idx count start end_ (c.now + late) h.alive with
    ⟨he, hn⟩ | ⟨t, st, hg, he⟩
  · rw [he]
    refine ⟨h.placed, h.alive, fun {a n} hs => ?_⟩
    dsimp only at hs ⊢
    rcases hg : vfsGetTask cfg.mallocOk c.uc.store .home with ⟨r, st⟩
    rw [hg] at hn
    cases r with
    | ok t => exact absurd rfl (hn t)
    | err => exact h.stamps hs
    | nothing => exact h.stamps hs
  · rw [he, hg]
    dsimp only [Option.getD_some]
    refine ⟨?_, h.alive, fun {a n} hs => ?_⟩
    · obtain ⟨h1, -⟩ := hp.get hg
      have hheld : Function.update loc t.addr .held
          (subRecord t base0 idx count start end_ (c.now + late)).addr = .held :=
        Function.update_self ..
      exact ⟨_, h1.set .waitSync (by simp) (by rw [hheld]; simp) (by rw [hheld]; simp)⟩
    · dsimp only at hs ⊢
      rcases hs.of_set with hs | ⟨-, ha, hn⟩
      · have hbefore : Stamp c.uc.store a n := by
          apply Stamp.of_get (m := cfg.mallocOk) (q := .home)
          rwa [hg]
        rw [Function.update_of_ne (hbefore.ne_of_get hp hg).symm]
        exact h.stamps hbefore
      · have ha : t.addr = a := ha
        have hn : c.now + late = n := hn
        rw [ha, Function.update_self]
        omega

/-- A round of `check_task`: nothing, or a record moved from a queue `do_timeout_task` looks at. -/
theorem UcTimed.round (h : UcTimed c) (cfg : UcCfg) {st : TaskStore}
    (hst : (∃ q, st = (vfsGetTask cfg.mallocOk c.uc.store q).2 ∧
        ∀ t, (vfsGetTask cfg.mallocOk c.uc.store q).1 ≠ .ok t) ∨
      ∃ q q' t s', q ∈ timeoutStatuses ∧ q' ≠ .unknown ∧
        vfsGetTask cfg.mallocOk c.uc.store q = (.ok t, s') ∧ st = vfsSetTask s' t q') :
    UcTimed { c with uc := { c.uc with store := st } } := by
  obtain ⟨loc, hp⟩ := h.placed
  rcases hst with ⟨q, rfl, hn⟩ | ⟨q, q', t, s', hq, hq', hg, rfl⟩
  · exact ⟨⟨loc, hp.get_none hn⟩, h.alive, fun hs => h.stamps hs.of_get⟩
  · exact ⟨h.placed.shift hg hq', h.alive, fun hs => h.stamps (Stamp.of_shift hg hq hs)⟩

theorem UcTimed.step (h : UcTimed c) (cfg : UcCfg) (taskTimeout : Int) (act : UcClockAct) :
    UcTimed (ucClockStep cfg taskTimeout c act) := by
  cases act with
  | insert base0 idx count start end_ late =>
    exact h.insert cfg taskTimeout base0 idx count start end_ late
  | tmp =>
    apply h.round cfg
    unfold checkTaskTmp
    rcases hg : vfsGetTask cfg.mallocOk c.uc.store .waitTmp with ⟨r, st⟩
    cases r with
    | ok t => exact Or.inr ⟨_, _, t, st, by decide, by simp, hg, rfl⟩
    | err => exact Or.inl ⟨.waitTmp, by rw [hg], by rw [hg]; simp⟩
    | nothing => exact Or.inl ⟨.waitTmp, by rw [hg], by rw [hg]; simp⟩
  | sync sent =>
    apply h.round cfg
    unfold checkTaskSync
    rcases hg : vfsGetTask cfg.mallocOk c.uc.store .waitSync with ⟨r, st⟩
    cases r with
    | ok t => exact Or.inr ⟨_, _, t, st, by decide, by cases sent <;> simp, hg, rfl⟩
    | err => exact Or.inl ⟨.waitSync, by rw [hg], by rw [hg]; simp⟩
    | nothing => exact Or.inl ⟨.waitSync, by rw [hg], by rw [hg]; simp⟩
  | wait seconds => exact ⟨h.placed, h.alive, h.stamps⟩
  | timeout =>
    obtain ⟨loc, hp⟩ := h.placed
    obtain ⟨⟨loc', hp', -⟩, -⟩ := doTimeoutTask_spec taskTimeout c.now hp
    have hstamp : ∀ {a n}, Stamp (doTimeoutTask taskTimeout c.now c.uc.store) a n →
        Stamp c.uc.store a n := fun hs => hs.of_timeout hp
    unfold ucClockStep
    dsimp only
    generalize doTimeoutTask taskTimeout c.now c.uc.store = st at hp' hstamp
    exact ⟨⟨loc', hp'⟩, h.alive, fun hs => h.stamps (hstamp hs)⟩

theorem UcTimed.init (k : Nat) (sync : List Bytes → Option Bytes) (now : Int) :
    UcTimed (UcClock.init k sync now) := by
  refine ⟨initTaskInfo_placed k, rfl, ?_⟩
  rintro a n ⟨st, hst, t, ht, -⟩
  have hempty : (initTaskInfo k).vfstask st = [] := if_neg (ne_of_mem_timeoutStatuses hst).2
  have ht : t ∈ (initTaskInfo k).vfstask st := ht
  rw [hempty] at ht
  contradiction

/-- In the sending process only old records time out. -/
theorem UcTimed.onlyOld (h : UcTimed c) (taskTimeout : Int) : UcOnlyOld taskTimeout c := by
  obtain ⟨loc, hp⟩ := h.placed
  rw [UcOnlyOld, onlyOld_iff hp]
  intro st hst t ht hlt
  have hle : c.taken t.addr ≤ t.base.stime := h.stamps ⟨st, hst, t, ht, rfl, rfl⟩
  omega

/-! ## Runs -/

/-- The loop of `split_task` is a run of the machine, when the time does not go back. -/
theorem splitLoop_run (cfg : UcCfg) (taskTimeout : Int) (time : Int → Int) (base : TaskBase) (count : Int)
    (l : List Int) : ∀ (start : Int) (s : Uc) (c : UcClock), s.store = c.uc.store → s.left = none →
    c.uc.left = none → (∀ i ∈ l, c.now ≤ time i) → (l.Pairwise fun i j => time i ≤ time j) →
    ∃ acts, (run (ucClockStep cfg taskTimeout) c acts).uc.store =
      (splitLoop cfg time base count l start s).store := by
  induction l with
  | nil => exact fun start s c hs _ _ _ _ => ⟨[], hs.symm⟩
  | cons i l ih =>
    intro start s c hs hsl hcl hnow htime
    rw [List.pairwise_cons] at htime
    have hle := hnow i List.mem_cons_self
    rw [splitLoop]
    generalize (if i = count then base.fsize - 1 else start + cfg.splicMinSize - 1) = end_
    have hlate : c.now + ((time i - c.now).toNat : Int) = time i := by omega
    rcases insertSubTask_alive cfg base i count start end_ (time i) hsl with
      ⟨he, -⟩ | ⟨t, st, hg, he⟩
    · rw [he]
      exact ⟨[], hs.symm⟩
    · rw [he]
      -- the machine takes the same record at the same time
      have hstep : (ucClockStep cfg taskTimeout c
          (.insert base i count start end_ (time i - c.now).toNat)).uc =
          { c.uc with store := vfsSetTask st (subRecord t base i count start end_ (time i)) .waitSync } := by
        rw [hs] at hg
        unfold ucClockStep
        dsimp only
        rw [hlate]
        rcases insertSubTask_alive cfg base i count start end_ (time i) hcl with
          ⟨-, hn⟩ | ⟨t', st', hg', he'⟩
        · exact absurd (congrArg Prod.fst hg) (hn t)
        · rw [hg] at hg'
          obtain ⟨ht, rfl⟩ := Prod.mk.inj hg'
          obtain rfl := GetTask.ok.inj ht
          rw [he']
          rfl
      have hnext : (ucClockStep cfg taskTimeout c
          (.insert base i count start end_ (time i - c.now).toNat)).now = time i := hlate
      obtain ⟨acts, hacts⟩ := ih (start + cfg.splicMinSize)
        { s with store := vfsSetTask st (subRecord t base i count start end_ (time i)) .waitSync }
        (ucClockStep cfg taskTimeout c (.insert base i count start end_ (time i - c.now).toNat))
        (by rw [hstep]) hsl (by rw [hstep]; exact hcl) (fun j hj => by rw [hnext]; exact htime.1 j hj)
        htime.2
      exact ⟨.insert base i count start end_ (time i - c.now).toNat :: acts, hacts⟩

/-- **Only old records time out**, in whatever state `do_timeout_task` is called: in the receiving process
exactly when the records without an `stime` are old, or the time is small; in the sending process
always. -/
theorem only_old_time_out (taskTimeout : Int) (k : Nat) (start : Int) :
    (∀ (cfg : Cfg) (acts : List SmClockAct),
      SmOnlyOld taskTimeout (run (smClockStep cfg taskTimeout) (SmClock.init k start) acts) ↔
        UnstampedOld taskTimeout (run (smClockStep cfg taskTimeout) (SmClock.init k start) acts)) ∧
    ∀ (cfg : UcCfg) (sync : List Bytes → Option Bytes) (acts : List UcClockAct),
      UcOnlyOld taskTimeout (run (ucClockStep cfg taskTimeout) (UcClock.init k sync start) acts) := by
  constructor
  · intro cfg acts
    have htimed : Timed (run (smClockStep cfg taskTimeout) (SmClock.init k start) acts) :=
      run_invariant_all Timed (fun _ act h => h.step cfg taskTimeout act) (Timed.init k start) acts
    exact htimed.onlyOld_iff taskTimeout
  · intro cfg sync acts
    have htimed : UcTimed (run (ucClockStep cfg taskTimeout) (UcClock.init k sync start) acts) :=
      run_invariant_all UcTimed (fun _ act h => h.step cfg taskTimeout act)
        (UcTimed.init k sync start) acts
    exact htimed.onlyOld taskTimeout

/-- An upload that ends early, and ten seconds later `do_timeout_task`. -/
def earlyEnd : List SmClockAct :=
  (SmAct.post 3 (txt "h") (txt "/f") 1 1 2 (txt "a")).map .act ++ [.act (.close 3), .wait 10]

/-- Its record is not older than ten seconds and times out. -/
theorem young_times_out : ¬ ∀ (cfg : Cfg) (taskTimeout : Int) (k : Nat) (start : Int)
    (acts : List SmClockAct),
    SmOnlyOld taskTimeout (run (smClockStep cfg taskTimeout) (SmClock.init k start) acts) := by
  intro h
  have hyoung := h Cfg.sample 3600 1 5000 earlyEnd
  revert hyoung
  unfold SmOnlyOld
  decide +kernel

end VfsOss
