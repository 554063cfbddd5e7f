import VfsOss.Sm.Proofs.PlaceProofs

/-!
# Proofs: what the parts of a pass write into the history

Every function only appends, and each only appends events of its own kinds.
-/

namespace VfsOss

open CLib

variable {cfg : Cfg} {io : MergeIo} {s s' s'' : Sm} {P Q : Event → Prop}

/-- The history has grown by events with a property. -/
def Grew (P : Event → Prop) (s s' : Sm) : Prop :=
  ∃ es, s'.log = s.log ++ es ∧ ∀ e ∈ es, P e

theorem Grew.refl : Grew P s s := ⟨[], by simp, by simp⟩

theorem Grew.trans (h : Grew P s s') (h' : Grew P s' s'') : Grew P s s'' := by
  obtain ⟨es, he, hp⟩ := h
  obtain ⟨es', he', hp'⟩ := h'
  refine ⟨es ++ es', by rw [he', he, List.append_assoc], fun e hm => ?_⟩
  rcases List.mem_append.mp hm with hm | hm
  · exact hp e hm
  · exact hp' e hm

theorem Grew.mono (h : Grew P s s') (hpq : ∀ e, P e → Q e) : Grew Q s s' := by
  obtain ⟨es, he, hp⟩ := h
  exact ⟨es, he, fun e hm => hpq e (hp e hm)⟩

theorem Grew.and (h : Grew P s s') (h' : Grew Q s s') : Grew (fun e => P e ∧ Q e) s s' := by
  obtain ⟨es, he, hp⟩ := h
  obtain ⟨es', he', hq⟩ := h'
  obtain rfl := List.append_cancel_left (he.symm.trans he')
  exact ⟨es, he, fun e hm => ⟨hp e hm, hq e hm⟩⟩

theorem Grew.of_log_eq (h : s'.log = s.log) : Grew P s s' := ⟨[], by simp [h], by simp⟩

theorem Grew.note (h : Grew P s s') {e : Event} (he : P e) : Grew P s (s'.note e) :=
  h.trans ⟨[e], rfl, by simpa using he⟩

/-- An event of the history after growing was there before, or has the property. -/
theorem Grew.mem (h : Grew P s s') {e : Event} (he : e ∈ s'.log) : e ∈ s.log ∨ P e := by
  obtain ⟨es, hl, hp⟩ := h
  rw [hl] at he
  rcases List.mem_append.mp he with he | he
  · exact Or.inl he
  · exact Or.inr (hp e he)

theorem Grew.mem_of_mem (h : Grew P s s') {e : Event} (he : e ∈ s.log) : e ∈ s'.log := by
  obtain ⟨es, hl, -⟩ := h
  rw [hl]
  exact List.mem_append_left _ he

/-- Events a filter rejects do not show in the filtered history. -/
theorem Grew.filter_eq (h : Grew P s s') {q : Event → Bool} (hq : ∀ e, P e → q e = false) :
    s'.log.filter q = s.log.filter q := by
  obtain ⟨es, hl, hp⟩ := h
  rw [hl, List.filter_append]
  have : es.filter q = [] := List.filter_eq_nil_iff.mpr fun e he => by simp [hq e (hp e he)]
  rw [this, List.append_nil]

theorem lackOne_grew (task : Tasklist) (localfile : Bytes) (i : Int) :
    Grew (fun e => (∃ t, e = .expire task.base.hostname t) ∨ ∃ t, e = .lack t) s
      (lackOne cfg task localfile s i) := by
  rcases lackOne_cases cfg s task localfile i with h | ⟨-, ⟨-, h⟩ | ⟨task0, st, -, h⟩⟩
  · rw [h]
    exact Grew.refl
  · rw [h]
    exact Grew.of_log_eq rfl
  · rw [h]
    refine ⟨_, rfl, fun e he => ?_⟩
    rcases List.mem_append.mp he with he | he
    · obtain ⟨t, -, rfl⟩ := List.mem_map.mp he
      exact Or.inl ⟨t, rfl⟩
    · exact Or.inr ⟨_, List.mem_singleton.mp he⟩

theorem checkLackTask_grew (cfg : Cfg) (task : Tasklist) :
    Grew (fun e => (∃ t, e = .expire task.base.hostname t) ∨ ∃ t, e = .lack t) s
      (checkLackTask cfg task s) := by
  unfold checkLackTask
  dsimp only
  split
  · exact Grew.refl
  · refine foldl_induct (P := Grew _ s) (fun b i _ hb => ?_) (Grew.of_log_eq rfl)
    exact hb.trans (lackOne_grew ..)

/-- The events of a merge, without the opening one. -/
def MergeEvent (hostname filename : Bytes) (e : Event) : Prop :=
  (∃ t, e = .skip hostname filename t ∨ e = .concat hostname filename t ∨ e = .leak t) ∨
    (∃ p, e = .ioErr p) ∨ ∃ srcip text sent, e = .report srcip text sent

theorem mergeOne_grew (io : MergeIo) (hostname filename : Bytes) (count : Int) (ofd : Nat)
    (idx : Int) : Grew (MergeEvent hostname filename) s
      (mergeOne io hostname filename count ofd idx s).1 := by
  rcases mergeOne_cases io hostname filename count ofd idx s with ⟨-, h⟩ | ⟨task, st, -, hc⟩
  · rw [h]
    exact Grew.refl
  · rcases hc with ⟨-, h⟩ | ⟨-, h, -⟩ | ⟨-, c, -, d, err, -, fs, -, s', rfl, ⟨-, h⟩ | ⟨-, h⟩⟩
    · rw [h]
      exact Grew.note (Grew.of_log_eq rfl) (Or.inl ⟨task, Or.inl rfl⟩)
    · rw [h]
      exact Grew.note (Grew.note (Grew.of_log_eq rfl) (Or.inr (Or.inl ⟨_, rfl⟩)))
        (Or.inl ⟨task, Or.inr (Or.inr rfl)⟩)
    · rw [h]
      exact Grew.note (Grew.note (Grew.of_log_eq rfl) (Or.inl ⟨task, Or.inr (Or.inl rfl)⟩))
        (Or.inr (Or.inl ⟨_, rfl⟩))
    · rw [h]
      exact Grew.note (Grew.of_log_eq rfl) (Or.inl ⟨task, Or.inr (Or.inl rfl)⟩)

theorem mergeLoop_grew (io : MergeIo) (hostname filename : Bytes) (count : Int) (ofd : Nat)
    (l : List Int) :
    Grew (MergeEvent hostname filename) s (mergeLoop io hostname filename count ofd l s) :=
  mergeLoop_induct (P := Grew _ s) (fun _ _ _ hb => hb.trans (mergeOne_grew ..)) Grew.refl

theorem doMergeFile_grew (cfg : Cfg) (io : MergeIo) (hostname srcip filename : Bytes) (count : Int)
    (filemd5 : Bytes) :
    Grew (fun e => e = .merge hostname filename count ∨ MergeEvent hostname filename e) s
      (doMergeFile cfg io hostname srcip filename count filemd5 s) := by
  unfold doMergeFile
  dsimp only
  split
  · refine Grew.note (Grew.trans ?_ ((mergeLoop_grew io hostname filename count _ _).mono
      fun e he => Or.inr he)) (Or.inr (Or.inr (Or.inr ⟨_, _, _, rfl⟩)))
    exact Grew.note (Grew.of_log_eq rfl) (Or.inl rfl)
  · exact Grew.note Grew.refl (Or.inr (Or.inr (Or.inl ⟨_, rfl⟩)))

theorem clearAlltaskTimeout_grew (hostname filename : Bytes) (count : Int) :
    Grew (fun e => ∃ t, e = .giveUp hostname t) s (clearAlltaskTimeout hostname filename count s) := by
  refine foldl_induct (P := Grew _ s) (fun b i _ hb => hb.trans ?_) Grew.refl
  unfold clearOne
  split
  · exact Grew.refl
  · next task st _ => exact Grew.note (Grew.of_log_eq rfl) ⟨task, rfl⟩

/-- The events of processing the record `t`. -/
def FinEvent (t : Tasklist) (e : Event) : Prop :=
  (∃ v, e = .expire t.base.hostname v ∨ e = .lack v ∨ e = .giveUp t.base.hostname v ∨ e = .leak v) ∨
    e = .merge t.base.hostname t.base.filename t.sub.count ∨
    MergeEvent t.base.hostname t.base.filename e

theorem finTask_grew (cfg : Cfg) (io : MergeIo) (t : Tasklist) :
    Grew (FinEvent t) s (finTask cfg io t s) := by
  have hl : Grew (FinEvent t) s (checkLackTask cfg t s) := (checkLackTask_grew cfg t).mono fun e he => by
    rcases he with ⟨v, rfl⟩ | ⟨v, rfl⟩
    · exact Or.inl ⟨v, Or.inl rfl⟩
    · exact Or.inl ⟨v, Or.inr (Or.inl rfl)⟩
  unfold finTask
  split
  · split
    · exact Grew.of_log_eq rfl
    · refine Grew.note ((clearAlltaskTimeout_grew ..).mono fun e he => ?_)
        (Or.inl ⟨t, Or.inr (Or.inr (Or.inr rfl))⟩)
      obtain ⟨v, rfl⟩ := he
      exact Or.inl ⟨v, Or.inr (Or.inr (Or.inl rfl))⟩
  · dsimp only
    split
    · refine (hl.trans (Grew.of_log_eq rfl)).trans ((doMergeFile_grew ..).mono fun e he => ?_)
      exact Or.inr he
    · exact hl.trans (Grew.of_log_eq rfl)

/-- The events of a round of `check_fin_task`. -/
theorem finIter_events (cfg : Cfg) (io : MergeIo) (s : Sm) :
    Grew (fun e => ∃ t, e = .fin t ∨ FinEvent t e) s (finIter cfg io s) := by
  unfold finIter
  split
  · exact .refl
  · split
    · next t st _ =>
      split
      · exact Grew.note (.of_log_eq rfl) ⟨t, Or.inr (Or.inl ⟨t, Or.inr (Or.inr (Or.inr rfl))⟩)⟩
      · refine Grew.trans (Grew.note (.of_log_eq rfl) ⟨t, Or.inl rfl⟩)
          ((finTask_grew cfg io t).mono fun e he => ?_)
        exact ⟨t, Or.inr he⟩
    · exact .of_log_eq rfl

end VfsOss
