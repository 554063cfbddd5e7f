import VfsOss.Sm.Machine
import VfsOss.Sm.Proofs.PlaceProofs

/-!
# Proofs: the rounds of a pass

A pass of `check_fin_task` takes the records of `TASK_FIN` in order, one in each round. It takes at
most 129 of them and always returns.
-/

namespace VfsOss

open CLib

variable {cfg : Cfg} {io : MergeIo} {ios : Nat → MergeIo} {s : Sm} {k n : Nat} {t : Tasklist}
variable {rest : List Tasklist}

theorem vfsGetTask_fin (m : Nat → Bool) (hq : s.store.vfstask .fin = t :: rest) :
    vfsGetTask m s.store .fin = (.ok t.taken, s.popFin.store) := by
  rw [vfsGetTask_cons (by simp) hq, Sm.popFin, vfsGetTask_cons (by simp) hq]
  rfl

theorem fin_popFin (hq : s.store.vfstask .fin = t :: rest) : s.popFin.store.vfstask .fin = rest := by
  rw [Sm.popFin, vfsGetTask_cons (by simp) hq]
  simp

theorem alltask_popFin : s.popFin.store.alltask = s.store.alltask := alltask_vfsGetTask

theorem popFin_placed {loc : Nat → Loc} (h : Placed s.store loc)
    (hq : s.store.vfstask .fin = t :: rest) :
    Placed s.popFin.store (Function.update loc t.addr .held) :=
  (h.get (vfsGetTask_fin (fun _ => true) hq)).1

/-- A round with a record to process. -/
theorem finIter_cons (ho : s.once = some k) (hq : s.store.vfstask .fin = t :: rest) (hk : k < 128) :
    finIter cfg io s =
      finTask cfg io t.taken ({ s.popFin with once := some (k + 1) }.note (.fin t.taken)) := by
  unfold finIter
  simp only [ho, vfsGetTask_fin _ hq]
  rw [if_neg (by omega)]
  rfl

/-- The round after the 128th record: one more is taken, and the function returns. -/
theorem finIter_full (ho : s.once = some k) (hq : s.store.vfstask .fin = t :: rest) (hk : 128 ≤ k) :
    finIter cfg io s = { s.popFin with once := none }.note (.leak t.taken) := by
  unfold finIter
  simp only [ho, vfsGetTask_fin _ hq]
  rw [if_pos (by omega)]
  rfl

/-- The round that finds `TASK_FIN` empty. -/
theorem finIter_nil (ho : s.once = some k) (hq : s.store.vfstask .fin = []) :
    finIter cfg io s = { s with once := none } := by
  obtain ⟨r, hr, hne⟩ := vfsGetTask_nil (m := cfg.mallocOk) (by simp : TaskStatus.fin ≠ .home) hq
  unfold finIter
  rw [ho]
  dsimp only
  rw [hr]
  cases r with
  | ok t => exact absurd rfl (hne t)
  | err => rfl
  | nothing => rfl

/-- What is left of `TASK_FIN` after a round. -/
theorem finIter_placed (cfg : Cfg) (io : MergeIo) (hp : WellPlaced s.store) (ho : s.once = some k)
    (hq : s.store.vfstask .fin = t :: rest) (hk : k < 128) :
    WellPlaced (finIter cfg io s).store ∧ (finIter cfg io s).store.vfstask .fin = rest ∧
    (finIter cfg io s).once = some (k + 1) := by
  obtain ⟨loc, h⟩ := hp
  rw [finIter_cons ho hq hk]
  have h1 : Placed ({ s.popFin with once := some (k + 1) }.note (.fin t.taken)).store _ :=
    popFin_placed h hq
  obtain ⟨hf, loc', h2, -⟩ := finTask_placed cfg io (t := t.taken) h1
    (Function.update_self ..)
  exact ⟨⟨loc', h2⟩, hf.trans (fin_popFin hq), (finTask_frame ..).2⟩

/-- One more round is the round function applied once more. -/
theorem finLoop_succ (cfg : Cfg) (ios : Nat → MergeIo) (n : Nat) (s : Sm) : finLoop cfg ios (n + 1) s =
    match (finLoop cfg ios n s).once with
    | none => finLoop cfg ios n s
    | some once => finIter cfg (ios once) (finLoop cfg ios n s) := by
  induction n generalizing s with
  | zero => cases ho : s.once <;> simp [finLoop, ho]
  | succ n ih =>
    rw [finLoop]
    cases ho : s.once with
    | none => simp only [finLoop, ho]
    | some once =>
      simp only
      rw [ih]
      simp only [finLoop, ho]

theorem finLoop_once_none (h : s.once = none) : finLoop cfg ios n s = s := by
  cases n with
  | zero => rfl
  | succ n => rw [finLoop, h]

/-- A round is the last one, or it counts one more record. -/
theorem finIter_once (ho : s.once = some k) : (finIter cfg io s).once = none ∨
    (k < 128 ∧ (finIter cfg io s).once = some (k + 1)) := by
  rcases hq : s.store.vfstask .fin with _ | ⟨t, rest⟩
  · rw [finIter_nil ho hq]
    exact Or.inl rfl
  · by_cases hk : k < 128
    · rw [finIter_cons ho hq hk, (finTask_frame ..).2]
      exact Or.inr ⟨hk, rfl⟩
    · rw [finIter_full ho hq (by omega)]
      exact Or.inl rfl

/-- **A pass returns.** After 129 rounds the function has returned, whatever is in `TASK_FIN`. -/
theorem checkFinTask_returns : (checkFinTask cfg ios s).once = none := by
  have key : ∀ n k s, s.once = some k → k ≤ 128 → 129 ≤ n + k →
      (finLoop cfg ios n s).once = none := by
    intro n
    induction n with
    | zero => intro k s _ h1 h2; omega
    | succ n ih =>
      intro k s ho h1 h2
      rw [finLoop, ho]
      dsimp only
      rcases finIter_once ho with hnone | ⟨hk, hsome⟩
      · rw [finLoop_once_none hnone]
        exact hnone
      · exact ih (k + 1) _ hsome (by omega) (by omega)
  exact key 129 0 _ rfl (by omega) (by omega)

/-- The rounds of a pass as steps; behind the last one that is made they do nothing. -/
theorem run_finIter (n : Nat) : ∀ j s, s.once = none ∨ s.once = some j →
    run (smStep cfg) s ((List.range' j n).map fun i => .finIter (ios i)) = finLoop cfg ios n s := by
  induction n with
  | zero => exact fun _ _ _ => rfl
  | succ n ih =>
    intro j s ho
    rw [List.range'_succ, List.map_cons, run]
    show run (smStep cfg) (finIter cfg (ios j) s) _ = _
    rcases ho with ho | ho
    · have hidle : finIter cfg (ios j) s = s := by rw [finIter, ho]
      rw [hidle, ih (j + 1) s (Or.inl ho), finLoop_once_none ho, finLoop_once_none ho]
    · rw [ih (j + 1) _ ((finIter_once ho).imp id And.right), finLoop, ho]

/-- **A pass is its steps** when nothing else is done meanwhile, and the last of them leaves it. -/
theorem checkFinTask_run (ho : s.once = none) :
    run (smStep cfg) s (.finBegin :: (List.range' 0 129).map fun i => .finIter (ios i)) =
        checkFinTask cfg ios s ∧ (checkFinTask cfg ios s).once = none := by
  have hbegin : finBegin s = { s with once := some 0 } := if_pos ho
  refine ⟨?_, checkFinTask_returns⟩
  rw [run, show smStep cfg s .finBegin = finBegin s from rfl, hbegin, run_finIter 129 0 _ (Or.inr rfl),
    checkFinTask]

/-- After `j` rounds the first `j` records of the queue have been taken. -/
theorem rounds_spec (cfg : Cfg) (ios : Nat → MergeIo) (hp : WellPlaced s.store) {j : Nat} (hj : j ≤ (s.store.vfstask .fin).length)
    (hj' : j ≤ 128) :
    WellPlaced (rounds cfg ios s j).store ∧ (rounds cfg ios s j).once = some j ∧
    (rounds cfg ios s j).store.vfstask .fin = (s.store.vfstask .fin).drop j := by
  induction j with
  | zero => exact ⟨hp, rfl, rfl⟩
  | succ j ih =>
    obtain ⟨h1, h2, h3⟩ := ih (by omega) (by omega)
    have hq := List.drop_eq_getElem_cons (by omega : j < (s.store.vfstask .fin).length)
    rw [hq] at h3
    obtain ⟨h4, h5, h6⟩ := finIter_placed cfg (ios j) h1 h2 h3 (by omega)
    have hs : rounds cfg ios s (j + 1) = finIter cfg (ios j) (rounds cfg ios s j) := by
      unfold rounds at h2 ⊢
      rw [finLoop_succ, h2]
    rw [hs]
    exact ⟨h4, h6, h5⟩

theorem rounds_succ (cfg : Cfg) (ios : Nat → MergeIo) (hp : WellPlaced s.store) {j : Nat} (hj : j < (s.store.vfstask .fin).length)
    (hj' : j < 128) :
    rounds cfg ios s (j + 1) = finTask cfg (ios j) (s.store.vfstask .fin)[j].taken
      (roundStart cfg ios s j (s.store.vfstask .fin)[j].taken) := by
  obtain ⟨h1, h2, h3⟩ := rounds_spec cfg ios hp (Nat.le_of_lt hj) (by omega)
  rw [List.drop_eq_getElem_cons hj] at h3
  rw [roundStart, ← finIter_cons h2 h3 hj']
  unfold rounds at h2 ⊢
  rw [finLoop_succ, h2]

theorem checkFinTask_short (cfg : Cfg) (ios : Nat → MergeIo) (hp : WellPlaced s.store) (hl : (s.store.vfstask .fin).length ≤ 128) :
    checkFinTask cfg ios s =
      { rounds cfg ios s (s.store.vfstask .fin).length with once := none } := by
  obtain ⟨h1, h2, h3⟩ := rounds_spec cfg ios hp (le_refl _) hl
  rw [List.drop_length] at h3
  have key : ∀ n, finLoop cfg ios ((s.store.vfstask .fin).length + 1 + n) { s with once := some 0 } =
      { rounds cfg ios s (s.store.vfstask .fin).length with once := none } := by
    intro n
    induction n with
    | zero =>
      rw [Nat.add_zero, finLoop_succ]
      unfold rounds at h2 h3 ⊢
      rw [h2]
      exact finIter_nil h2 h3
    | succ n ih =>
      rw [← Nat.add_assoc, finLoop_succ, ih]
  have := key (128 - (s.store.vfstask .fin).length)
  rw [show (s.store.vfstask .fin).length + 1 + (128 - (s.store.vfstask .fin).length) = 129 by omega]
    at this
  exact this

end VfsOss
