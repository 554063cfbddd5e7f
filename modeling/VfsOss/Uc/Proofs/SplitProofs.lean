import VfsOss.Uc.Blocks
import VfsOss.CLib.Proofs.DecimalProofs
import VfsOss.CLib.Proofs.PathProofs
import VfsOss.Task.Proofs.PlacementProofs

/-!
# Proofs: cutting a file into blocks

A process that is not killed queues every block of the file, behind what was queued.
-/

namespace VfsOss

open CLib

variable {cfg : UcCfg} {s s' : Uc} {f : Uc → Uc}

/-! ## Changes others can see -/

theorem effect_none (h : s.left = none) : s.effect f = f s := by
  rw [Uc.effect, h]

theorem effect_dead (h : s.left = some 0) : s.effect f = s := by
  rw [Uc.effect, h]

theorem effect_succ {n : Nat} (h : s.left = some (n + 1)) : s.effect f = { f s with left := some n } := by
  rw [Uc.effect, h]

/-- A change of one part of the state: it is made, or the process has been killed. -/
theorem effect_cases (s : Uc) (f : Uc → Uc) (hf : (f s).left = s.left) :
    s.left = some 0 ∧ s.effect f = s ∨
    s.left ≠ some 0 ∧ (s.left = none → (s.effect f).left = none) ∧
      (s.effect f).store = (f s).store ∧ (s.effect f).sync = (f s).sync ∧
      (s.effect f).watchDirs = (f s).watchDirs := by
  match h : s.left with
  | none =>
    rw [effect_none h]
    exact Or.inr ⟨by simp, fun _ => hf.trans h, rfl, rfl, rfl⟩
  | some 0 => exact Or.inl ⟨rfl, effect_dead h⟩
  | some (n + 1) =>
    rw [effect_succ h]
    exact Or.inr ⟨by simp, by simp, rfl, rfl, rfl⟩

/-! ## One block -/

/-- The process has queued `ps` and left everything else alone; one that has been killed is as it was. -/
structure Queues (s s' : Uc) (ps : List Piece) : Prop where
  placed : WellPlaced s'.store
  queued : s'.queued = s.queued ++ ps
  sync : s'.sync = s.sync
  watch : s'.watchDirs = s.watchDirs
  alive : s.left = none → s'.left = none
  dead : s.left = some 0 → s' = s

theorem Queues.refl (h : WellPlaced s.store) : Queues s s [] :=
  ⟨h, by simp, rfl, rfl, fun h => h, fun _ => rfl⟩

theorem Queues.trans {s'' : Uc} {ps ps' : List Piece} (h : Queues s s' ps) (h' : Queues s' s'' ps') :
    Queues s s'' (ps ++ ps') where
  placed := h'.placed
  queued := by rw [h'.queued, h.queued, List.append_assoc]
  sync := h'.sync.trans h.sync
  watch := h'.watch.trans h.watch
  alive hl := h'.alive (h.alive hl)
  dead hl := by
    obtain rfl := h.dead hl
    exact h'.dead hl

/-- With memory there is always a record to be had. -/
theorem vfsGetTask_home {m : Nat → Bool} (hm : ∀ n, m n = true) (st : TaskStore) :
    ∃ task st', vfsGetTask m st .home = (.ok task, st') := by
  unfold vfsGetTask
  rw [if_neg (by simp)]
  cases st.vfstask .home with
  | nil =>
    rw [if_pos rfl, if_pos (hm _)]
    exact ⟨_, _, rfl⟩
  | cons t rest => exact ⟨_, _, rfl⟩

/-- A record from `TASK_HOME` put into another queue is last in it. -/
theorem Placed.home_set {m : Nat → Bool} {st st' : TaskStore} {loc : Nat → Loc} {task t : Tasklist}
    {q : TaskStatus} (hp : Placed st loc) (hg : vfsGetTask m st .home = (.ok task, st'))
    (haddr : t.addr = task.addr) (hq : q ≠ .unknown) (hne : q ≠ .home) :
    WellPlaced (vfsSetTask st' t q) ∧
      (vfsSetTask st' t q).vfstask q = st.vfstask q ++ [{ t with status := q }] := by
  obtain ⟨hp1, -⟩ := hp.get hg
  rw [← haddr] at hp1
  have hheld : Function.update loc t.addr .held t.addr = .held := Function.update_self ..
  refine ⟨⟨_, hp1.set q hq (by rw [hheld]; simp) (by rw [hheld]; simp)⟩, ?_⟩
  have hwait : st'.vfstask q = st.vfstask q := by
    rcases vfsGetTask_ok hg with ⟨u, rest, -, -, hv, -⟩ | ⟨-, -, -, hv, -⟩
    · rw [hv, Function.update_of_ne hne]
    · rw [hv]
  rw [vfstask_vfsSetTask hq (hp1.not_queued (by rw [hheld]; simp)), Function.update_self, hwait]

theorem insertSubTask_spec (hm : ∀ n, cfg.mallocOk n = true) (h : WellPlaced s.store) (base : TaskBase)
    (idx count start end_ now : Int) :
    ∃ s', insertSubTask cfg base idx count start end_ now s = some s' ∧
      (s.left = some 0 ∧ s' = s ∨
        s.left ≠ some 0 ∧ Queues s s' [⟨base.filename, base.type, idx, count, start, end_⟩]) := by
  obtain ⟨loc, hp⟩ := h
  obtain ⟨task, st, hg⟩ := vfsGetTask_home hm s.store
  unfold insertSubTask
  rw [hg]
  refine ⟨_, rfl, ?_⟩
  generalize ht : subRecord task base idx count start end_ now = t
  have haddr : t.addr = task.addr := by rw [← ht]; rfl
  have hpiece : t.piece = ⟨base.filename, base.type, idx, count, start, end_⟩ := by rw [← ht]; rfl
  rcases effect_cases s (fun s => { s with store := vfsSetTask st t .waitSync }) rfl with
    hdead | ⟨hne, halive, hstore, hsync, hwatch⟩
  · exact Or.inl hdead
  · obtain ⟨hp', hlast⟩ := hp.home_set (q := .waitSync) hg haddr (by simp) (by simp)
    refine Or.inr ⟨hne, by rw [hstore]; exact hp', ?_, hsync, hwatch, halive, fun h => absurd h hne⟩
    rw [Uc.queued, hstore]
    dsimp only
    rw [hlast, List.map_append, ← hpiece]
    rfl

/-! ## The loop -/

/-- The indices from one on behind the first `k`. -/
def idxsFrom (k : Nat) : Nat → List Int
  | 0 => []
  | n + 1 => ((k : Int) + 1) :: idxsFrom (k + 1) n

theorem idxs_eq (count : Int) : idxs count = idxsFrom 0 count.toNat := by
  have key : ∀ n k, idxsFrom k n = (List.range' k n).map fun j : Nat => (j : Int) + 1 := by
    intro n
    induction n with
    | zero => exact fun _ => rfl
    | succ n ih =>
      intro k
      rw [idxsFrom, ih, List.range'_succ, List.map_cons]
  rw [key, idxs, List.range_eq_range']

theorem splitLoop_spec (hm : ∀ n, cfg.mallocOk n = true) (time : Int → Int) (base : TaskBase)
    (count : Int) : ∀ (n k : Nat) (s : Uc), WellPlaced s.store →
    let s' := splitLoop cfg time base count (idxsFrom k n) (cfg.splicMinSize * k) s
    ∃ ps, Queues s s' ps ∧
      ps <+: (idxsFrom k n).map (pieceAt cfg base.filename base.type base.fsize count) ∧
      (ps = (idxsFrom k n).map (pieceAt cfg base.filename base.type base.fsize count) ∨
        s'.left = some 0) := by
  intro n
  induction n with
  | zero => exact fun k s h => ⟨[], .refl h, List.prefix_rfl, Or.inl rfl⟩
  | succ n ih =>
    intro k s h
    dsimp only
    rw [idxsFrom, splitLoop]
    generalize hend : (if (k : Int) + 1 = count then base.fsize - 1
      else cfg.splicMinSize * k + cfg.splicMinSize - 1) = end_
    obtain ⟨s1, hs1, hcase⟩ := insertSubTask_spec hm h base (k + 1) count (cfg.splicMinSize * k) end_
      (time (k + 1))
    rw [hs1]
    have hstart : cfg.splicMinSize * k + cfg.splicMinSize = cfg.splicMinSize * ((k + 1 : Nat) : Int) := by
      push_cast
      ring
    have hpiece : pieceAt cfg base.filename base.type base.fsize count (k + 1) =
        ⟨base.filename, base.type, k + 1, count, cfg.splicMinSize * k, end_⟩ := by
      have h1 : cfg.splicMinSize * ((k : Int) + 1 - 1) = cfg.splicMinSize * k := by ring
      have h2 : cfg.splicMinSize * ((k : Int) + 1) = cfg.splicMinSize * k + cfg.splicMinSize := by ring
      rw [pieceAt, h1, h2, hend]
    rw [List.map_cons, hpiece]
    dsimp only
    rw [hstart]
    rcases hcase with ⟨hdead, rfl⟩ | ⟨hne, hq⟩
    · -- the process has been killed
      obtain ⟨ps, hq, -, -⟩ := ih (k + 1) s1 h
      have hs := hq.dead hdead
      rw [hs]
      exact ⟨[], .refl h, List.nil_prefix, Or.inr hdead⟩
    · obtain ⟨ps, hq', hpre, hdone⟩ := ih (k + 1) s1 hq.placed
      refine ⟨_, hq.trans hq', ?_, ?_⟩
      · exact (List.prefix_cons_inj _).mpr hpre
      · rcases hdone with hdone | hdone
        · exact Or.inl (by rw [hdone]; rfl)
        · exact Or.inr hdone

/-! ## The number of blocks -/

/-- Rounding up adds one when there is a remainder. -/
theorem blockCount_eq {size : Int} (h0 : 0 ≤ size) :
    blockCount cfg size =
      if size.tmod cfg.splicMinSize ≠ 0 then size.tdiv cfg.splicMinSize + 1
      else size.tdiv cfg.splicMinSize := by
  have hpos := cfg.pos
  have hdiv := Int.mul_ediv_add_emod size cfg.splicMinSize
  have hmod0 := Int.emod_nonneg size (Int.ne_of_gt hpos)
  have hmod1 := Int.emod_lt_of_pos size hpos
  unfold blockCount
  rw [Int.tdiv_eq_ediv_of_nonneg h0, Int.tmod_eq_emod_of_nonneg h0]
  generalize size / cfg.splicMinSize = q at hdiv ⊢
  generalize size % cfg.splicMinSize = r at hdiv hmod0 hmod1 ⊢
  generalize cfg.splicMinSize = d at *
  split
  · next hz =>
    have hs : size + d - 1 = (r - 1) + (q + 1) * d := by
      have : (q + 1) * d = d * q + d := by ring
      omega
    rw [hs, Int.add_mul_ediv_right _ _ (by omega), Int.ediv_eq_zero_of_lt (by omega) (by omega)]
    omega
  · next hz =>
    have hs : size + d - 1 = (d - 1) + q * d := by rw [mul_comm]; omega
    rw [hs, Int.add_mul_ediv_right _ _ (by omega), Int.ediv_eq_zero_of_lt (by omega) (by omega)]
    omega

/-- The number of blocks is counted modulo `2 ^ 32`. -/
theorem splicCount_eq_toInt32 {size : Int} (h0 : 0 ≤ size) :
    splicCount cfg size = toInt32 (blockCount cfg size) := by
  unfold splicCount
  rw [blockCount_eq h0]
  dsimp only
  split
  · rw [toInt32, toInt32, Int.bmod_add_bmod, ← toInt32]
  · rfl

/-- The `int` holds the number of blocks when that fits. -/
theorem splicCount_eq {size : Int} (h0 : 0 < size) (h : blockCount cfg size < 2 ^ 31) :
    splicCount cfg size = blockCount cfg size := by
  have hpos : 0 ≤ blockCount cfg size :=
    Int.ediv_nonneg (by have := cfg.pos; omega) (Int.le_of_lt cfg.pos)
  rw [splicCount_eq_toInt32 (Int.le_of_lt h0), toInt32_of_range (by omega) (by omega)]

theorem blockCount_pos (cfg : UcCfg) {size : Int} (h0 : 0 < size) : 0 < blockCount cfg size := by
  have hpos := cfg.pos
  unfold blockCount
  have hone : 1 ≤ (size + cfg.splicMinSize - 1) / cfg.splicMinSize :=
    Int.le_ediv_of_mul_le hpos (by omega)
  omega

/-! ## A whole file -/

/-- What `split_task` does, with the `.sync_time` file it writes `text` to and the blocks `full` of the
file: it has been killed before the time was stored, and then nothing has been queued, or the time is
stored. A process that has not been killed has queued every block. -/
structure Splits (file : List Bytes) (text : Bytes) (full : List Piece) (s s' : Uc) : Prop where
  placed : WellPlaced s'.store
  watch : s'.watchDirs = s.watchDirs
  alive : s.left = none → s'.left = none
  dead : s.left = some 0 → s' = s
  others : ∀ p, p ≠ file → s'.sync p = s.sync p
  outcome : ∃ ps, s'.queued = s.queued ++ ps ∧ ps <+: full ∧
    (s'.left = some 0 ∧ ps = [] ∧ (s'.sync file = s.sync file ∨ s'.sync file = some []) ∨
      s'.sync file = some text ∧ (ps = full ∨ s'.left = some 0))

/-- One of the two changes of a `.sync_time` file. -/
theorem syncEffect_cases (file : List Bytes) (text : Bytes) (s : Uc) :
    let s' := s.effect fun s => { s with sync := Function.update s.sync file (some text) }
    s'.store = s.store ∧ s'.watchDirs = s.watchDirs ∧ (s.left = none → s'.left = none) ∧
      (s.left = some 0 ∧ s' = s ∨
        s.left ≠ some 0 ∧ s'.sync = Function.update s.sync file (some text)) := by
  intro s'
  rcases effect_cases s (fun s => { s with sync := Function.update s.sync file (some text) }) rfl with
    ⟨hl, he⟩ | ⟨hne, halive, hstore, hsync, hwatch⟩
  · have he : s' = s := he
    rw [he]
    exact ⟨rfl, rfl, fun h => h, Or.inl ⟨hl, rfl⟩⟩
  · exact ⟨hstore, hwatch, halive, Or.inr ⟨hne, hsync⟩⟩

theorem updateSyncTime_spec (st : Stat) (filename : Bytes) (s : Uc) :
    let file := syncPlace (dirname filename)
    let s' := updateSyncTime (some st) filename s
    s'.store = s.store ∧ s'.watchDirs = s.watchDirs ∧ (s.left = none → s'.left = none) ∧
      (s.left = some 0 → s' = s) ∧ (∀ p, p ≠ file → s'.sync p = s.sync p) ∧
      (s'.left = some 0 ∧ (s'.sync file = s.sync file ∨ s'.sync file = some []) ∨
        s'.sync file = some (fmtInt st.ctime)) := by
  intro file s'
  have h1 := syncEffect_cases file [] s
  dsimp only at h1
  generalize hs1 : (s.effect fun s => { s with sync := Function.update s.sync file (some []) }) = s1 at h1
  have h2 := syncEffect_cases file (fmtInt st.ctime) s1
  have hs' : s' = s1.effect fun s => { s with sync := Function.update s.sync file (some (fmtInt st.ctime)) } := by
    rw [← hs1]
    rfl
  dsimp only at h2
  rw [← hs'] at h2
  obtain ⟨hstore1, hwatch1, halive1, hcase1⟩ := h1
  obtain ⟨hstore2, hwatch2, halive2, hcase2⟩ := h2
  have hother : ∀ (σ : List Bytes → Option Bytes) (t : Bytes) (p : List Bytes), p ≠ file →
      Function.update σ file (some t) p = σ p := fun σ t p hp => Function.update_of_ne hp ..
  refine ⟨hstore2.trans hstore1, hwatch2.trans hwatch1, fun h => halive2 (halive1 h), fun h => ?_,
    fun p hp => ?_, ?_⟩
  · rcases hcase1 with ⟨-, he1⟩ | ⟨hne, -⟩
    · rcases hcase2 with ⟨-, he2⟩ | ⟨hne, -⟩
      · exact he2.trans he1
      · exact absurd (by rw [he1]; exact h) hne
    · exact absurd h hne
  · rcases hcase1 with ⟨-, he1⟩ | ⟨-, he1⟩ <;> rcases hcase2 with ⟨-, he2⟩ | ⟨-, he2⟩
    · rw [he2, he1]
    · rw [he2, hother _ _ _ hp, he1]
    · rw [he2, he1, hother _ _ _ hp]
    · rw [he2, hother _ _ _ hp, he1, hother _ _ _ hp]
  · rcases hcase2 with ⟨hl2, he2⟩ | ⟨-, he2⟩
    · refine Or.inl ⟨by rw [he2]; exact hl2, ?_⟩
      rw [he2]
      rcases hcase1 with ⟨-, he1⟩ | ⟨-, he1⟩
      · exact Or.inl (by rw [he1])
      · exact Or.inr (by rw [he1, Function.update_self])
    · exact Or.inr (by rw [he2, Function.update_self])

/-- What `split_task` queues when the process is not killed, whatever becomes of the `.sync_time` file. -/
theorem splitTask_queued (hm : ∀ n, cfg.mallocOk n = true) (time : Int → Int) (stat : Option Stat)
    (base : TaskBase) (hp : WellPlaced s.store) (hl : s.left = none) :
    let s' := splitTask cfg time stat base s
    WellPlaced s'.store ∧ s'.left = none ∧ s'.queued = s.queued ++
      if base.fsize = 0 then [] else (idxs (splicCount cfg base.fsize)).map
        (pieceAt cfg base.filename base.type base.fsize (splicCount cfg base.fsize)) := by
  unfold splitTask
  by_cases hsize : base.fsize = 0
  · rw [if_pos hsize, if_pos hsize, List.append_nil]
    exact ⟨hp, hl, rfl⟩
  rw [if_neg hsize, if_neg hsize]
  dsimp only
  generalize hs1 : updateSyncTime stat (snprintf 256 base.filename) s = s1
  have hstore : s1.store = s.store ∧ s1.left = none := by
    rw [← hs1]
    cases stat with
    | none => exact ⟨rfl, hl⟩
    | some st =>
      obtain ⟨hstore, -, halive, -⟩ := updateSyncTime_spec st (snprintf 256 base.filename) s
      exact ⟨hstore, halive hl⟩
  have hspec := splitLoop_spec hm time { base with hostname := snprintf 256 cfg.hostname }
    (splicCount cfg base.fsize) (splicCount cfg base.fsize).toNat 0 s1 (by rw [hstore.1]; exact hp)
  simp only [Nat.cast_zero, mul_zero] at hspec
  obtain ⟨ps, hq, -, hdone⟩ := hspec
  have halive := hq.alive hstore.2
  rw [idxs_eq]
  refine ⟨hq.placed, halive, ?_⟩
  rcases hdone with rfl | hdead
  · rw [hq.queued, Uc.queued, hstore.1, ← Uc.queued]
  · rw [halive] at hdead
    contradiction

/-- What `split_task` does for a file that is not empty. -/
theorem splitTask_spec (hm : ∀ n, cfg.mallocOk n = true) (time : Int → Int) (st : Stat) (base : TaskBase)
    (hp : WellPlaced s.store) (hsize : base.fsize ≠ 0) (hname : base.filename.length ≤ 255) :
    Splits (syncPlace (dirname base.filename)) (fmtInt st.ctime)
      ((idxs (splicCount cfg base.fsize)).map
        (pieceAt cfg base.filename base.type base.fsize (splicCount cfg base.fsize)))
      s (splitTask cfg time (some st) base s) := by
  have hcut : snprintf 256 base.filename = base.filename := by
    rw [snprintf, List.take_of_length_le (by omega)]
  unfold splitTask
  rw [if_neg hsize, hcut]
  obtain ⟨hstore, hwatch, halive, hdead, hother, hcase⟩ := updateSyncTime_spec st base.filename s
  dsimp only
  generalize updateSyncTime (some st) base.filename s = s1 at hstore hwatch halive hdead hother hcase
  have hp1 : WellPlaced s1.store := by
    rw [hstore]
    exact hp
  have hspec := splitLoop_spec hm time { base with hostname := snprintf 256 cfg.hostname }
    (splicCount cfg base.fsize) (splicCount cfg base.fsize).toNat 0 s1 hp1
  rw [idxs_eq]
  simp only [Nat.cast_zero, mul_zero] at hspec
  obtain ⟨ps, hq, hpre, hdone⟩ := hspec
  have hqueued : s1.queued = s.queued := by rw [Uc.queued, hstore, Uc.queued]
  refine ⟨hq.placed, hq.watch.trans hwatch, fun h => hq.alive (halive h), fun h => ?_, fun p hne => ?_,
    ps, by rw [hq.queued, hqueued], hpre, ?_⟩
  · have h1 := hdead h
    exact (hq.dead (by rw [h1]; exact h)).trans h1
  · rw [hq.sync]
    exact hother p hne
  · rw [hq.sync]
    rcases hcase with ⟨hl, hsync⟩ | hsync
    · have hkilled := hq.dead hl
      have hnil : ps = [] := by
        have hlen := congrArg List.length hq.queued
        rw [hkilled, List.length_append] at hlen
        exact List.length_eq_zero_iff.mp (by omega)
      exact Or.inl ⟨by rw [hkilled]; exact hl, hnil, hsync⟩
    · exact Or.inr ⟨hsync, hdone⟩

end VfsOss
