import VfsOss.Sm.Http
import VfsOss.Task.Proofs.PlacementProofs

/-!
# Proofs: a pass over `TASK_FIN` moves no record it has not taken

Everything `check_fin_task` does between two pops happens in the hash table, `TASK_HOME` and
`TASK_WAIT`: the records of `TASK_FIN` and those of the connections stay where they are.
-/

namespace VfsOss

open CLib

variable {cfg : Cfg} {io : MergeIo} {s s' s'' : Sm} {loc loc' : Nat → Loc}

/-- A place that is neither `TASK_FIN` nor a connection. -/
def Loc.aside : Loc → Bool
  | .queue st => st ≠ .fin
  | .conn _ => false
  | _ => true

/-- The records of `TASK_FIN` and of the connections are the same ones. -/
structure Stay (loc loc' : Nat → Loc) : Prop where
  fin : ∀ {a}, loc' a = .queue .fin ↔ loc a = .queue .fin
  conn : ∀ {a fd}, loc' a = .conn fd ↔ loc a = .conn fd

theorem Stay.refl : Stay loc loc := ⟨Iff.rfl, Iff.rfl⟩

theorem Stay.trans {loc'' : Nat → Loc} (h : Stay loc loc') (h' : Stay loc' loc'') : Stay loc loc'' :=
  ⟨h'.fin.trans h.fin, h'.conn.trans h.conn⟩

/-- One record moved from one aside place to another. -/
theorem Stay.move {a : Nat} {l : Loc} (ha : (loc a).aside = true) (hl : l.aside = true) :
    Stay loc (Function.update loc a l) := by
  constructor
  · intro b
    by_cases hb : b = a
    · subst hb
      rw [Function.update_self]
      constructor
      · rintro rfl
        exact absurd hl (by decide)
      · intro h
        rw [h] at ha
        exact absurd ha (by decide)
    · rw [Function.update_of_ne hb]
  · intro b fd
    by_cases hb : b = a
    · subst hb
      rw [Function.update_self]
      constructor
      · rintro rfl
        exact absurd hl (by simp [Loc.aside])
      · intro h
        rw [h] at ha
        exact absurd ha (by simp [Loc.aside])
    · rw [Function.update_of_ne hb]

/-- A part of the pass that keeps away from `TASK_FIN`, the connections and the records that have been
taken out. -/
structure Internal (s s' : Sm) : Prop where
  acon : s'.acon = s.acon
  once : s'.once = s.once
  store : ∀ loc, Placed s.store loc → s'.store.vfstask .fin = s.store.vfstask .fin ∧
    ∃ loc', Placed s'.store loc' ∧ Stay loc loc' ∧ ∀ a, loc a = .held → loc' a = .held

theorem Internal.refl : Internal s s :=
  ⟨rfl, rfl, fun loc h => ⟨rfl, loc, h, Stay.refl, fun _ ha => ha⟩⟩

theorem Internal.trans (h : Internal s s') (h' : Internal s' s'') : Internal s s'' := by
  refine ⟨h'.acon.trans h.acon, h'.once.trans h.once, fun loc hl => ?_⟩
  obtain ⟨hf, loc', hl', hs, hh⟩ := h.store loc hl
  obtain ⟨hf', loc'', hl'', hs', hh'⟩ := h'.store loc' hl'
  exact ⟨hf'.trans hf, loc'', hl'', hs.trans hs', fun a ha => hh' a (hh a ha)⟩

/-- A change of the files and the history on top. -/
theorem Internal.congr (h : Internal s s') (hs : s''.store = s'.store) (ha : s''.acon = s'.acon)
    (ho : s''.once = s'.once) : Internal s s'' :=
  ⟨ha.trans h.acon, ho.trans h.once, by rw [hs]; exact h.store⟩

@[simp] theorem note_store (e : Event) : (s.note e).store = s.store := rfl

@[simp] theorem note_fs (e : Event) : (s.note e).fs = s.fs := rfl

@[simp] theorem note_acon (e : Event) : (s.note e).acon = s.acon := rfl

@[simp] theorem note_once (e : Event) : (s.note e).once = s.once := rfl

@[simp] theorem note_log (e : Event) : (s.note e).log = s.log ++ [e] := rfl

section Store

variable {m : Nat → Bool} {st st' : TaskStore} {t : Tasklist} {q : TaskStatus}
variable {f : Bytes} {i c : Int}

theorem fin_vfsSetTask (h : Placed st loc) (ht : ∀ q, loc t.addr ≠ .queue q) (hs : q ≠ .fin) :
    (vfsSetTask st t q).vfstask .fin = st.vfstask .fin := by
  by_cases hu : q = .unknown
  · simp [vfsSetTask, hu]
  · rw [vfstask_vfsSetTask hu (h.not_queued ht), Function.update_of_ne (Ne.symm hs)]

theorem fin_vfsGetTask (hs : q ≠ .fin) :
    (vfsGetTask m st q).2.vfstask .fin = st.vfstask .fin :=
  vfstask_vfsGetTask_ne (Ne.symm hs)

/-- A record taken from the table and put into a queue other than `TASK_FIN`. -/
theorem Placed.take_set (h : Placed st loc) (hg : getTaskFromAlltask st f i c = some (t, st'))
    (hs : q ≠ .fin) (hu : q ≠ .unknown) :
    (vfsSetTask st' t q).vfstask .fin = st.vfstask .fin ∧
    ∃ loc', Placed (vfsSetTask st' t q) loc' ∧ Stay loc loc' ∧
      ∀ a, loc a = .held → loc' a = .held := by
  obtain ⟨h1, hl, -⟩ := h.take hg
  have hheld : Function.update loc t.addr .held t.addr = .held := Function.update_self ..
  have h2 := h1.set q hu (by rw [hheld]; simp) (by rw [hheld]; simp)
  rw [Function.update_idem] at h2
  refine ⟨?_, _, h2, Stay.move (by rw [hl]; rfl) ?_, ?_⟩
  · rw [fin_vfsSetTask h1 (by rw [hheld]; simp) hs, (getTaskFromAlltask_some hg).2.1]
  · simpa [Loc.aside] using hs
  · intro a ha
    have hat : a ≠ t.addr := fun he => by rw [he, hl] at ha; exact Loc.noConfusion ha
    rwa [Function.update_of_ne hat]

end Store

/-! ## The functions of the pass -/

/-- What a round of `check_lack_task` can do. -/
theorem lackOne_cases (cfg : Cfg) (s : Sm) (task : Tasklist) (localfile : Bytes) (i : Int) :
    lackOne cfg task localfile s i = s ∨
    s.fs.content (subfile localfile i task.sub.count) = none ∧
      ((∀ t, (vfsGetTask cfg.mallocOk s.store .home).1 ≠ .ok t) ∧
        lackOne cfg task localfile s i =
          { s with store := (vfsGetTask cfg.mallocOk s.store .home).2 } ∨
      ∃ task0 st, vfsGetTask cfg.mallocOk s.store .home = (.ok task0, st) ∧
        lackOne cfg task localfile s i = lackAsk task i task0 st s) := by
  unfold lackOne
  split
  · exact Or.inl rfl
  · next hc =>
    refine Or.inr ⟨hc, ?_⟩
    rcases hg : vfsGetTask cfg.mallocOk s.store .home with ⟨r, st⟩
    cases r with
    | ok task0 => exact Or.inr ⟨task0, st, rfl, rfl⟩
    | err => exact Or.inl ⟨by simp, rfl⟩
    | nothing => exact Or.inl ⟨by simp, rfl⟩

theorem lackAsk_internal {task task0 : Tasklist} {i : Int} {st : TaskStore}
    (hg : vfsGetTask cfg.mallocOk s.store .home = (.ok task0, st)) :
    Internal s (lackAsk task i task0 st s) := by
  refine ⟨rfl, rfl, fun loc h => ?_⟩
  obtain ⟨h1, hl⟩ := h.get hg
  have h2 : Placed (setTaskFromAlltask st task.base.filename i task.sub.count 1)
      (Function.update loc task0.addr .held) := h1.mark
  have hheld : Function.update loc task0.addr .held (lackRecord task task0 i).addr = .held :=
    Function.update_self ..
  have h3 := h2.set .wait (by simp) (by rw [hheld]; simp) (by rw [hheld]; simp)
  have hupd : Function.update (Function.update loc task0.addr .held)
      (lackRecord task task0 i).addr (.queue .wait) =
      Function.update loc task0.addr (.queue .wait) := Function.update_idem ..
  rw [hupd] at h3
  refine ⟨?_, _, h3, Stay.move ?_ rfl, ?_⟩
  · have hget := congrArg (fun p => p.2.vfstask .fin) hg
    refine (fin_vfsSetTask (q := .wait) h2 (by rw [hheld]; simp) (by simp)).trans
      (hget.symm.trans ?_)
    exact fin_vfsGetTask (by simp)
  · rcases hl with hl | ⟨-, hl⟩ <;> rw [hl] <;> rfl
  · intro a ha
    have hat : a ≠ task0.addr := by
      rintro rfl
      rcases hl with hl | ⟨-, hl⟩ <;> rw [hl] at ha <;> exact Loc.noConfusion ha
    rwa [Function.update_of_ne hat]

theorem lackOne_internal (cfg : Cfg) (task : Tasklist) (localfile : Bytes) (i : Int) :
    Internal s (lackOne cfg task localfile s i) := by
  rcases lackOne_cases cfg s task localfile i with h | ⟨-, ⟨hn, h⟩ | ⟨task0, st, hg, h⟩⟩
  · rw [h]
    exact Internal.refl
  · rw [h]
    refine ⟨rfl, rfl, fun loc hl => ⟨?_, loc, hl.get_none hn, Stay.refl, fun _ ha => ha⟩⟩
    exact fin_vfsGetTask (by simp)
  · rw [h]
    exact lackAsk_internal hg

/-- What every round of a loop preserves, the loop does. -/
theorem foldl_induct {α β : Type} {P : β → Prop} {g : β → α → β} {l : List α} {b : β}
    (hstep : ∀ b, ∀ a ∈ l, P b → P (g b a)) (hb : P b) : P (l.foldl g b) := by
  induction l generalizing b with
  | nil => exact hb
  | cons a l ih =>
    exact ih (fun b a ha => hstep b a (by simp [ha])) (hstep b a (by simp) hb)

theorem checkLackTask_internal (cfg : Cfg) (task : Tasklist) : Internal s (checkLackTask cfg task s) := by
  unfold checkLackTask
  dsimp only
  split
  · exact Internal.refl
  · refine foldl_induct (P := Internal s) (fun b i _ hb => ?_) ?_
    · exact hb.trans (lackOne_internal ..)
    · exact Internal.refl.congr rfl rfl rfl

/-- What a round of the merge loop can do. -/
theorem mergeOne_cases (io : MergeIo) (hostname filename : Bytes) (count : Int) (ofd : Nat)
    (idx : Int) (s : Sm) :
    getTaskFromAlltask s.store filename idx count = none ∧
      mergeOne io hostname filename count ofd idx s = (s, false) ∨
    ∃ task st, getTaskFromAlltask s.store filename idx count = some (task, st) ∧
      (task.base.expire ≠ 0 ∧ mergeOne io hostname filename count ofd idx s =
        ({ s with store := vfsSetTask st task .home }.note (.skip hostname filename task), true) ∨
      task.base.expire = 0 ∧ mergeOne io hostname filename count ofd idx s =
        (({ s with store := st }.note (.ioErr task.base.tmpfile)).note (.leak task), false) ∧
        (io.openIn idx = true → s.fs.content task.base.tmpfile = none) ∨
      task.base.expire = 0 ∧ ∃ c, s.fs.content task.base.tmpfile = some c ∧
        ∃ d err, copyLoop (io.read idx) (io.write idx) c.length 0 c = (d, err) ∧
        ∃ fs, fs = (if io.unlink idx then
            (s.fs.pwrite ofd (s.fs.node ofd).length d).unlink task.base.tmpfile
          else s.fs.pwrite ofd (s.fs.node ofd).length d) ∧
        ∃ s', s' = { s with store := vfsSetTask st task .home, fs := fs }.note
            (.concat hostname filename task) ∧
        ((err = true ∨ io.unlink idx = false) ∧ mergeOne io hostname filename count ofd idx s =
          (s'.note (.ioErr task.base.tmpfile), false) ∨
        (err = false ∧ io.unlink idx = true) ∧ mergeOne io hostname filename count ofd idx s =
          (s', true))) := by
  unfold mergeOne
  rcases hg : getTaskFromAlltask s.store filename idx count with _ | ⟨task, st⟩
  · exact Or.inl ⟨rfl, rfl⟩
  · refine Or.inr ⟨task, st, rfl, ?_⟩
    dsimp only
    by_cases he : task.base.expire = 0
    · rw [if_neg (by simp [he])]
      rcases ho : (if io.openIn idx then s.fs.content task.base.tmpfile else none) with _ | c
      · refine Or.inr (Or.inl ⟨he, rfl, fun hi => ?_⟩)
        rwa [if_pos hi] at ho
      · have hc : s.fs.content task.base.tmpfile = some c := by
          split at ho
          · exact ho
          · exact absurd ho (by simp)
        refine Or.inr (Or.inr ⟨he, c, hc, _, _, rfl, _, rfl, _, rfl, ?_⟩)
        by_cases herr : (copyLoop (io.read idx) (io.write idx) c.length 0 c).2 = true ∨
            ¬ io.unlink idx = true
        · refine Or.inl ⟨by simpa using herr, ?_⟩
          dsimp only
          rw [if_pos herr]
        · refine Or.inr ⟨by simpa using herr, ?_⟩
          dsimp only
          rw [if_neg herr]
    · exact Or.inl ⟨he, by rw [if_pos he]⟩

theorem mergeOne_internal (io : MergeIo) (hostname filename : Bytes) (count : Int) (ofd : Nat)
    (idx : Int) :
    Internal s (mergeOne io hostname filename count ofd idx s).1 := by
  rcases mergeOne_cases io hostname filename count ofd idx s with ⟨-, h⟩ | ⟨task, st, hg, hc⟩
  · rw [h]
    exact Internal.refl
  · have key : Internal s { s with store := vfsSetTask st task .home } :=
      ⟨rfl, rfl, fun loc hl => hl.take_set (q := .home) hg (by simp) (by simp)⟩
    rcases hc with ⟨-, h⟩ | ⟨-, h, -⟩ | ⟨-, c, -, d, err, -, fs, -, s', rfl, ⟨-, h⟩ | ⟨-, h⟩⟩
    · rw [h]
      exact key.congr rfl rfl rfl
    · rw [h]
      refine ⟨rfl, rfl, fun loc hl => ?_⟩
      obtain ⟨h1, hloc, -⟩ := hl.take hg
      refine ⟨by simp [(getTaskFromAlltask_some hg).2.1], _, h1,
        Stay.move (by rw [hloc]; rfl) rfl, ?_⟩
      intro a ha
      have hat : a ≠ task.addr := fun he => by rw [he, hloc] at ha; exact Loc.noConfusion ha
      rwa [Function.update_of_ne hat]
    · rw [h]
      exact key.congr rfl rfl rfl
    · rw [h]
      exact key.congr rfl rfl rfl

/-- What every round of the merge loop preserves, the loop does. -/
theorem mergeLoop_induct {P : Sm → Prop} {hostname filename : Bytes} {count : Int} {ofd : Nat}
    {l : List Int} (hstep : ∀ s, ∀ idx ∈ l, P s → P (mergeOne io hostname filename count ofd idx s).1)
    (hs : P s) : P (mergeLoop io hostname filename count ofd l s) := by
  induction l generalizing s with
  | nil => exact hs
  | cons idx l ih =>
    have h1 := hstep s idx (by simp) hs
    rw [mergeLoop]
    split
    · exact ih (fun s idx hi => hstep s idx (by simp [hi])) h1
    · exact h1

/-- A merge whose output opens: the loop over the blocks, then the report. -/
theorem doMergeFile_open (cfg : Cfg) {io : MergeIo} (h : io.openOut = true) (s : Sm)
    (hostname srcip filename : Bytes) (count : Int) (filemd5 : Bytes) :
    ∃ text, doMergeFile cfg io hostname srcip filename count filemd5 s =
      (mergeLoop io hostname filename count (s.fs.creat (getLocaldir cfg hostname filename)).1
        (idxs count) ({ s with fs := (s.fs.creat (getLocaldir cfg hostname filename)).2 }.note
          (.merge hostname filename count))).note (.report srcip text io.connect) := by
  unfold doMergeFile
  rw [if_pos h]
  exact ⟨_, rfl⟩

theorem doMergeFile_internal (cfg : Cfg) (io : MergeIo) (hostname srcip filename : Bytes)
    (count : Int) (filemd5 : Bytes) :
    Internal s (doMergeFile cfg io hostname srcip filename count filemd5 s) := by
  unfold doMergeFile
  dsimp only
  split
  · refine Internal.congr (mergeLoop_induct (P := Internal s) (fun b i _ hb => ?_) ?_) rfl rfl rfl
    · exact hb.trans (mergeOne_internal ..)
    · exact Internal.refl.congr rfl rfl rfl
  · exact Internal.refl.congr rfl rfl rfl

/-- What a round of `clear_alltask_timeout` can do. -/
theorem clearOne_cases (hostname filename : Bytes) (count : Int) (s : Sm) (idx : Int) :
    getTaskFromAlltask s.store filename idx count = none ∧
      clearOne hostname filename count s idx = s ∨
    ∃ task st, getTaskFromAlltask s.store filename idx count = some (task, st) ∧
      clearOne hostname filename count s idx =
        { s with store := vfsSetTask st task .home }.note (.giveUp hostname task) := by
  unfold clearOne
  rcases hg : getTaskFromAlltask s.store filename idx count with _ | ⟨task, st⟩
  · exact Or.inl ⟨rfl, rfl⟩
  · exact Or.inr ⟨task, st, rfl, rfl⟩

theorem clearOne_internal (hostname filename : Bytes) (count idx : Int) :
    Internal s (clearOne hostname filename count s idx) := by
  rcases clearOne_cases hostname filename count s idx with ⟨-, h⟩ | ⟨task, st, hg, h⟩ <;> rw [h]
  · exact Internal.refl
  · exact ⟨rfl, rfl, fun loc hl => hl.take_set (q := .home) hg (by simp) (by simp)⟩

theorem clearAlltaskTimeout_internal (hostname filename : Bytes) (count : Int) :
    Internal s (clearAlltaskTimeout hostname filename count s) :=
  foldl_induct (P := Internal s) (fun _ _ _ hb => hb.trans (clearOne_internal ..)) Internal.refl

/-! ## One round of the pass -/

theorem finTask_frame (cfg : Cfg) (io : MergeIo) (t : Tasklist) :
    (finTask cfg io t s).acon = s.acon ∧ (finTask cfg io t s).once = s.once := by
  have hl : Internal s (checkLackTask cfg t s) := checkLackTask_internal cfg t
  have hc := clearAlltaskTimeout_internal (s := s) t.base.hostname t.base.filename t.sub.count
  unfold finTask
  split
  · split
    · exact ⟨rfl, rfl⟩
    · exact ⟨hc.acon, hc.once⟩
  · dsimp only
    split
    · have hm := doMergeFile_internal cfg io
        (s := { checkLackTask cfg t s with store := addTaskToAlltask (checkLackTask cfg t s).store t })
        t.base.hostname t.base.srcip t.base.filename t.sub.count t.base.filemd5
      exact ⟨hm.acon.trans hl.acon, hm.once.trans hl.once⟩
    · exact ⟨hl.acon, hl.once⟩

/-- A record that has been taken out is put into the table or a queue, or is lost; nothing else of
`TASK_FIN` and the connections moves. -/
theorem finTask_placed (cfg : Cfg) (io : MergeIo) {t : Tasklist} (h : Placed s.store loc) (ht : loc t.addr = .held) :
    (finTask cfg io t s).store.vfstask .fin = s.store.vfstask .fin ∧
    ∃ loc', Placed (finTask cfg io t s).store loc' ∧ Stay loc loc' := by
  unfold finTask
  split
  · split
    · have h1 := h.set (t := { t with base := { t.base with
        retry := (t.base.retry + 1) % 256, overstatus := .unknown } }) .wait (by simp)
        (by rw [ht]; simp) (by rw [ht]; simp)
      refine ⟨?_, _, h1, Stay.move (by rw [ht]; rfl) rfl⟩
      exact fin_vfsSetTask (q := .wait) h (by rw [ht]; simp) (by simp)
    · have hi : Internal s ((clearAlltaskTimeout t.base.hostname t.base.filename t.sub.count s).note
          (.leak t)) := (clearAlltaskTimeout_internal ..).congr rfl rfl rfl
      obtain ⟨hf, loc', h1, hs, -⟩ := hi.store loc h
      exact ⟨hf, loc', h1, hs⟩
  · have hi : Internal s (checkLackTask cfg t s) := checkLackTask_internal cfg t
    obtain ⟨hf, loc', h1, hs, hh⟩ := hi.store loc h
    have ht' : loc' t.addr = .held := hh _ ht
    have h2 := h1.add (t := t) (by rw [ht']; simp) (by rw [ht']; simp)
    have hs2 : Stay loc (Function.update loc' t.addr _) :=
      hs.trans (Stay.move (by rw [ht']; rfl) (Eq.refl (Loc.aside (.chain (getVfsTaskHash
        t.base.filename t.sub.idx t.sub.count)))))
    dsimp only
    split
    · have hm : Internal { checkLackTask cfg t s with
          store := addTaskToAlltask (checkLackTask cfg t s).store t } _ :=
        doMergeFile_internal cfg io t.base.hostname t.base.srcip t.base.filename
          t.sub.count t.base.filemd5
      obtain ⟨hf', loc'', h3, hs3, -⟩ := hm.store _ h2
      exact ⟨hf'.trans hf, loc'', h3, hs2.trans hs3⟩
    · exact ⟨hf, _, h2, hs2⟩

end VfsOss
