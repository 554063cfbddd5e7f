import Mathlib.Data.List.Perm.Subperm
import VfsOss.Uc.OpenFiles
import VfsOss.Uc.Proofs.DispatchProofs

/-!
# Proofs: a file is left open exactly when its connection is not set up

Every file in a buffer is open, and in no other one. A call of `inotify_new_task` then adds the file it has opened to
those that are in no buffer, or none, and nothing ever takes one away.
-/

namespace VfsOss

open CLib

variable {d : UcFds} {c fd lfd : Nat} {io : NewTaskIo} {ios : Nat → NewTaskIo} {m : Nat → Bool} {n : Nat}
variable {s : UcSender} {a : UcSenderAct}

namespace UcFds

/-- Every file in a buffer is open and in no other buffer, and is not taken for a socket. -/
structure Sound (d : UcFds) : Prop where
  isOpen : ∀ {c fd}, d.sendFd c = some fd → fd ∈ d.files
  once : ∀ {c c' fd}, d.sendFd c = some fd → d.sendFd c' = some fd → c = c'
  apart : ∀ {fd}, fd ∈ d.files → fd ∉ d.others

/-- An operation keeps the descriptors sound, and the files that are in no buffer. -/
structure Keeps (d d' : UcFds) : Prop where
  sound : d'.Sound
  unowned : ∀ fd, d'.Unowned fd ↔ d.Unowned fd

theorem Keeps.refl (h : d.Sound) : d.Keeps d := ⟨h, fun _ => Iff.rfl⟩

theorem Keeps.trans {d₁ d₂ d₃ : UcFds} (h : d₁.Keeps d₂) (h' : d₂.Keeps d₃) : d₁.Keeps d₃ :=
  ⟨h'.sound, fun fd => (h'.unowned fd).trans (h.unowned fd)⟩

/-! ## Single descriptors -/

/-- There is always a descriptor that is not in use. -/
theorem lowest_notMem (d : UcFds) : d.lowest ∉ d.used := by
  have hsome : ((List.range (d.used.length + 1)).find? fun fd => fd ∉ d.used).isSome := by
    rw [List.find?_isSome]
    by_contra hall
    have hsub : List.range (d.used.length + 1) ⊆ d.used := fun fd hfd => by
      by_contra hnot
      exact hall ⟨fd, hfd, decide_eq_true hnot⟩
    have hlen := (List.nodup_range.subperm hsub).length_le
    rw [List.length_range] at hlen
    omega
  obtain ⟨fd, hfd⟩ := Option.isSome_iff_exists.mp hsome
  have hlowest : d.lowest = fd := by
    unfold lowest
    rw [hfd]
    rfl
  rw [hlowest]
  have hnot := List.find?_some hfd
  exact of_decide_eq_true hnot

theorem mem_files_close : lfd ∈ (d.close fd).files ↔ lfd ∈ d.files ∧ lfd ≠ fd := by
  simp [close, List.mem_filter]

theorem mem_others_close : lfd ∈ (d.close fd).others ↔ lfd ∈ d.others ∧ lfd ≠ fd := by
  simp [close, List.mem_filter]

/-- A descriptor that is no file is opened. -/
theorem Sound.addOther (h : d.Sound) (hfd : fd ∉ d.used) : d.Keeps { d with others := d.others ++ [fd] } := by
  refine ⟨⟨h.isOpen, h.once, fun {e} he ho => ?_⟩, fun _ => Iff.rfl⟩
  rcases List.mem_append.mp ho with ho | ho
  · exact h.apart he ho
  · rw [List.mem_singleton.mp ho] at he
    exact hfd (List.mem_append_left _ he)

/-- A descriptor that is no file is closed. -/
theorem Sound.closeOther (h : d.Sound) (hfd : fd ∉ d.files) : d.Keeps (d.close fd) := by
  have hmem : ∀ e, e ∈ (d.close fd).files ↔ e ∈ d.files := fun e => by
    rw [mem_files_close]
    exact and_iff_left_of_imp fun he => fun heq => hfd (heq ▸ he)
  refine ⟨⟨fun {c e} he => (hmem e).mpr (h.isOpen he), h.once, fun {e} he ho => ?_⟩, fun e => ?_⟩
  · exact h.apart ((hmem e).mp he) (mem_others_close.mp ho).1
  · exact and_congr_left fun _ => hmem e

theorem dropFile_sendFd : (d.dropFile c).sendFd = Function.update d.sendFd c none := by
  unfold dropFile
  split
  · rename_i hn
    rw [← hn, Function.update_eq_self]
  · rfl

theorem Sound.dropFile (h : d.Sound) (c : Nat) : d.Keeps (d.dropFile c) := by
  have hsend : ∀ {c' e}, (d.dropFile c).sendFd c' = some e → c' ≠ c ∧ d.sendFd c' = some e := by
    intro c' e he
    rw [dropFile_sendFd] at he
    by_cases hc : c' = c
    · rw [hc, Function.update_self] at he
      cases he
    · rw [Function.update_of_ne hc] at he
      exact ⟨hc, he⟩
  cases hf : d.sendFd c with
  | none =>
    have hsame : d.dropFile c = d := by
      unfold UcFds.dropFile
      rw [hf]
    rw [hsame]
    exact .refl h
  | some fd =>
    have hmem : ∀ e, e ∈ (d.dropFile c).files ↔ e ∈ d.files ∧ e ≠ fd := fun e => by
      unfold UcFds.dropFile
      rw [hf]
      exact mem_files_close
    have hothers : ∀ {e}, e ∈ (d.dropFile c).others → e ∈ d.others := fun {e} he => by
      unfold UcFds.dropFile at he
      rw [hf] at he
      exact (mem_others_close.mp he).1
    refine ⟨⟨fun {c' e} he => ?_, fun he he' => h.once (hsend he).2 (hsend he').2,
      fun {e} he ho => h.apart ((hmem e).mp he).1 (hothers ho)⟩, fun e => ?_⟩
    · obtain ⟨hne, he⟩ := hsend he
      exact (hmem e).mpr ⟨h.isOpen he, fun heq => hne (h.once he (heq ▸ hf))⟩
    · constructor
      · rintro ⟨he, hno⟩
        obtain ⟨he, hne⟩ := (hmem e).mp he
        refine ⟨he, fun c' hc' => ?_⟩
        by_cases hc : c' = c
        · rw [hc, hf] at hc'
          exact hne (Option.some.inj hc').symm
        · refine hno c' ?_
          rw [dropFile_sendFd, Function.update_of_ne hc]
          exact hc'
      · rintro ⟨he, hno⟩
        exact ⟨(hmem e).mpr ⟨he, fun heq => hno c (heq ▸ hf)⟩, fun c' hc' => hno c' (hsend hc').2⟩

/-- A file is handed to a buffer. -/
theorem Sound.mybuffSetfile (h : d.Sound) (hl : d.Unowned lfd) :
    (d.mybuffSetfile c lfd).Sound ∧
      ∀ fd, (d.mybuffSetfile c lfd).Unowned fd ↔ d.Unowned fd ∧ fd ≠ lfd := by
  obtain ⟨hs, hu⟩ := h.dropFile c
  obtain ⟨hlopen, hlno⟩ := (hu lfd).mpr hl
  have hself : (d.mybuffSetfile c lfd).sendFd c = some lfd := Function.update_self ..
  have hother : ∀ {c'}, c' ≠ c → (d.mybuffSetfile c lfd).sendFd c' = (d.dropFile c).sendFd c' :=
    fun hc => Function.update_of_ne hc ..
  have hcase : ∀ {c' fd}, (d.mybuffSetfile c lfd).sendFd c' = some fd →
      c' = c ∧ fd = lfd ∨ c' ≠ c ∧ (d.dropFile c).sendFd c' = some fd := by
    intro c' fd hfd
    by_cases hc : c' = c
    · rw [hc, hself] at hfd
      exact .inl ⟨hc, (Option.some.inj hfd).symm⟩
    · rw [hother hc] at hfd
      exact .inr ⟨hc, hfd⟩
  refine ⟨⟨fun {c' fd} hfd => ?_, fun {c₁ c₂ fd} h₁ h₂ => ?_, hs.apart⟩, fun fd => ?_⟩
  · rcases hcase hfd with ⟨-, rfl⟩ | ⟨-, hfd⟩
    · exact hlopen
    · exact hs.isOpen hfd
  · rcases hcase h₁ with ⟨rfl, rfl⟩ | ⟨-, hold₁⟩
    · rcases hcase h₂ with ⟨rfl, -⟩ | ⟨-, hold₂⟩
      · rfl
      · exact absurd hold₂ (hlno c₂)
    · rcases hcase h₂ with ⟨-, rfl⟩ | ⟨-, hold₂⟩
      · exact absurd hold₁ (hlno c₁)
      · exact hs.once hold₁ hold₂
  · rw [← hu fd]
    constructor
    · rintro ⟨hfd, hno⟩
      have hne : fd ≠ lfd := fun heq => hno c (heq ▸ hself)
      refine ⟨⟨hfd, fun c' hc' => ?_⟩, hne⟩
      by_cases hc : c' = c
      · rw [hc, dropFile_sendFd, Function.update_self] at hc'
        cases hc'
      · exact hno c' ((hother hc).trans hc')
    · rintro ⟨⟨hfd, hno⟩, hne⟩
      refine ⟨hfd, fun c' hc' => ?_⟩
      rcases hcase hc' with ⟨-, heq⟩ | ⟨-, hc'⟩
      · exact hne heq
      · exact hno c' hc'

/-! ## `inotify_new_task` -/

/-- `createsocket` returns a descriptor that is no file exactly when nothing fails. -/
theorem Sound.createsocket (h : d.Sound) (io : NewTaskIo) :
    d.Keeps (d.createsocket io).2 ∧ ((d.createsocket io).1.isSome = (io.socket && io.connect)) ∧
      ∀ c ∈ (d.createsocket io).1, c ∉ (d.createsocket io).2.files := by
  have hnew : d.lowest ∉ d.files := fun hm => d.lowest_notMem (List.mem_append_left _ hm)
  have hadd := h.addOther d.lowest_notMem
  unfold UcFds.createsocket
  cases hsock : io.socket with
  | false => exact ⟨.refl h, rfl, fun c hc => nomatch hc⟩
  | true =>
    cases hconn : io.connect with
    | false => exact ⟨hadd.trans (hadd.sound.closeOther hnew), rfl, fun c hc => nomatch hc⟩
    | true =>
      refine ⟨hadd, rfl, fun c hc => ?_⟩
      rw [← Option.some.inj hc]
      exact hnew

theorem Sound.activeConnect (h : d.Sound) (io : NewTaskIo) :
    d.Keeps (d.activeConnect io).2 ∧
      (d.activeConnect io).1.isSome = (io.socket && io.connect && io.initconn) := by
  obtain ⟨hk, hsome, hno⟩ := h.createsocket io
  unfold UcFds.activeConnect
  split
  · rename_i d' heq
    rw [heq] at hk hsome
    rw [← hsome]
    exact ⟨hk, rfl⟩
  · rename_i c d' heq
    rw [heq] at hk hsome hno
    rw [← hsome]
    cases io.initconn with
    | false => exact ⟨hk.trans (hk.sound.closeOther (hno c rfl)), rfl⟩
    | true => exact ⟨hk.trans (hk.sound.dropFile c), rfl⟩

/-- A file is opened. -/
theorem Sound.addFile (h : d.Sound) (hfd : fd ∉ d.used) :
    Sound { d with files := d.files ++ [fd] } ∧
      ∀ e, Unowned { d with files := d.files ++ [fd] } e ↔ d.Unowned e ∨ e = fd := by
  have hclosed : ∀ c, d.sendFd c ≠ some fd := fun c hc => hfd (List.mem_append_left _ (h.isOpen hc))
  refine ⟨⟨fun he => List.mem_append_left _ (h.isOpen he), h.once, fun {e} he ho => ?_⟩, fun e => ?_⟩
  · rcases List.mem_append.mp he with he | he
    · exact h.apart he ho
    · rw [List.mem_singleton.mp he] at ho
      exact hfd (List.mem_append_right _ ho)
  · constructor
    · rintro ⟨he, hno⟩
      rcases List.mem_append.mp he with he | he
      · exact .inl ⟨he, hno⟩
      · exact .inr (List.mem_singleton.mp he)
    · rintro (⟨he, hno⟩ | rfl)
      · exact ⟨List.mem_append_left _ he, hno⟩
      · exact ⟨List.mem_append_right _ (List.mem_singleton_self _), hclosed⟩

/-- A call leaves the file it has opened in no buffer, or none. -/
theorem Sound.inotifyNewTask (h : d.Sound) (io : NewTaskIo) :
    (d.inotifyNewTask io).2.Sound ∧
      ∀ fd, (d.inotifyNewTask io).2.Unowned fd ↔ d.Unowned fd ∨ io.leaks = true ∧ fd = d.lowest := by
  obtain ⟨hs, hu⟩ := h.addFile d.lowest_notMem
  obtain ⟨hk, hsome⟩ := hs.activeConnect io
  have hnew : ¬ d.Unowned d.lowest := fun hun => d.lowest_notMem (List.mem_append_left _ hun.1)
  unfold UcFds.inotifyNewTask NewTaskIo.leaks
  cases io.open_ with
  | false => exact ⟨h, fun fd => by simp⟩
  | true =>
    rw [if_neg (by simp)]
    dsimp only
    split
    · rename_i d' heq
      rw [heq] at hk hsome
      refine ⟨hk.sound, fun fd => ?_⟩
      rw [hk.unowned, hu, ← hsome]
      simp
    · rename_i c d' heq
      rw [heq] at hk hsome
      obtain ⟨hs', hu'⟩ := hk.sound.mybuffSetfile (c := c) ((hk.unowned d.lowest).mpr ((hu _).mpr (.inr rfl)))
      refine ⟨hs', fun fd => ?_⟩
      rw [hu', hk.unowned, hu, ← hsome]
      constructor
      · rintro ⟨hun | heq, hne⟩
        · exact .inl hun
        · exact absurd heq hne
      · rintro (hun | ⟨hleak, -⟩)
        · exact ⟨.inl hun, fun heq => hnew (heq ▸ hun)⟩
        · cases hleak

/-- The calls of one round: what is in no buffer stays so, and such a file is left exactly when one of them leaks. -/
theorem Sound.attempts (h : d.Sound) (ios : Nat → NewTaskIo) (k : Nat) (l : List Tasklist) :
    (attempts (newTask ios) (d, k) l).2.1.Sound ∧
    (∀ fd, d.Unowned fd → (VfsOss.attempts (newTask ios) (d, k) l).2.1.Unowned fd) ∧
    ((∀ fd, ¬ d.Unowned fd) → ((∀ fd, ¬ (VfsOss.attempts (newTask ios) (d, k) l).2.1.Unowned fd) ↔
      ∀ j < l.length, (ios (k + j)).leaks = false)) := by
  induction l generalizing d k with
  | nil => exact ⟨h, fun _ hu => hu, fun hno => ⟨fun _ j hj => absurd hj (Nat.not_lt_zero j), fun _ => hno⟩⟩
  | cons t rest ih =>
    obtain ⟨hs, hu⟩ := h.inotifyNewTask (ios k)
    obtain ⟨hs', hkeep, hiff⟩ := ih hs (k + 1)
    refine ⟨hs', fun fd hfd => hkeep fd ((hu fd).mpr (.inl hfd)), fun hno => ?_⟩
    have hshift : (∀ j < (t :: rest).length, (ios (k + j)).leaks = false) ↔
        (ios k).leaks = false ∧ ∀ j < rest.length, (ios (k + 1 + j)).leaks = false := by
      constructor
      · intro hall
        refine ⟨hall 0 (Nat.succ_pos _), fun j hj => ?_⟩
        rw [Nat.add_assoc, Nat.add_comm 1 j]
        exact hall (j + 1) (Nat.succ_lt_succ hj)
      · rintro ⟨hfirst, hrest⟩ j hj
        cases j with
        | zero => exact hfirst
        | succ j =>
          rw [Nat.add_comm j 1, ← Nat.add_assoc]
          exact hrest j (Nat.lt_of_succ_lt_succ hj)
    rw [hshift]
    cases hleak : (ios k).leaks with
    | false =>
      have hno' : ∀ fd, ¬ (d.inotifyNewTask (ios k)).2.Unowned fd := fun fd hfd => by
        rcases (hu fd).mp hfd with hfd | ⟨hl, -⟩
        · exact hno fd hfd
        · rw [hleak] at hl
          cases hl
      exact (hiff hno').trans (iff_and_self.mpr fun _ => rfl)
    | true =>
      refine ⟨fun hall => ?_, fun hall => nomatch hall.1⟩
      exact absurd (hkeep _ ((hu d.lowest).mpr (.inr ⟨hleak, rfl⟩))) (hall d.lowest)

end UcFds

/-! ## Runs -/

/-- The descriptors are sound and the queues well placed. -/
structure UcSender.Sound (s : UcSender) : Prop where
  fds : s.fds.Sound
  placed : WellPlaced s.store

/-- A step keeps the sender sound. From a state in which every open file is in a buffer it leaves such a state
exactly when it meets the condition. -/
theorem ucSenderStep_spec (h : s.Sound) (a : UcSenderAct) :
    (ucSenderStep m n s a).Sound ∧
      ((∀ fd, ¬ s.fds.Unowned fd) → (NoneUnowned m n s a ↔ StepConnects n s a)) := by
  cases a with
  | check ios =>
    have htried := checkTask_tried m n (newTask ios) (s.fds, 0) h.placed
    have hplaced := (checkTask_walked m n (newTask ios) (s.fds, 0) h.placed).placed
    obtain ⟨hs, -, hiff⟩ := h.fds.attempts ios 0 (((waitingToSend s.store).take (n - 1)).map Tasklist.popped)
    have hfds : (ucSenderStep m n s (.check ios)).fds =
        (attempts (newTask ios) (s.fds, 0) (((waitingToSend s.store).take (n - 1)).map Tasklist.popped)).2.1 :=
      congrArg Prod.fst htried
    refine ⟨⟨hfds ▸ hs, hplaced⟩, fun hno => ?_⟩
    unfold NoneUnowned StepConnects
    rw [hfds, hiff hno, List.length_map, List.length_take]
    simp only [Nat.zero_add]
  | queues store => exact ⟨⟨h.fds, store.2⟩, fun hno => ⟨fun _ => trivial, fun _ => hno⟩⟩
  | sent c =>
    have hk := h.fds.dropFile c
    refine ⟨⟨hk.sound, h.placed⟩, fun hno => ⟨fun _ => trivial, fun _ fd hfd => ?_⟩⟩
    exact hno fd ((hk.unowned fd).mp hfd)
  | closed c =>
    have hk : s.fds.Keeps (s.fds.doClose c) := by
      unfold UcFds.doClose
      split
      · rename_i ho
        exact h.fds.closeOther fun hf => h.fds.apart hf ho
      · exact .refl h.fds
    refine ⟨⟨hk.sound, h.placed⟩, fun hno => ⟨fun _ => trivial, fun _ fd hfd => ?_⟩⟩
    exact hno fd ((hk.unowned fd).mp hfd)

theorem start_sound (n : Nat) (others : List Nat) : (UcSender.start n others).Sound :=
  ⟨⟨fun h => (nomatch h), fun h => (nomatch h), fun h => (nomatch h)⟩, initTaskInfo_placed n⟩

/-- **Files left open**: after every step of a run every file that has been opened is in a buffer or closed, exactly
in the runs in which the connection is set up for every file that is opened. -/
theorem files_owned_iff (mallocOk : Nat → Bool) (csMaxTaskRunOnce n : Nat) (others : List Nat)
    (as : List UcSenderAct) :
    RunOk (ucSenderStep mallocOk csMaxTaskRunOnce) (NoneUnowned mallocOk csMaxTaskRunOnce)
        (UcSender.start n others) as ↔
      RunOk (ucSenderStep mallocOk csMaxTaskRunOnce) (StepConnects csMaxTaskRunOnce) (UcSender.start n others) as := by
  have h0 : (UcSender.start n others).Sound ∧ ∀ fd, ¬ (UcSender.start n others).fds.Unowned fd :=
    ⟨start_sound n others, fun fd hfd => nomatch hfd.1⟩
  constructor
  · refine RunOk.of_invariant (fun s => s.Sound ∧ ∀ fd, ¬ s.fds.Unowned fd) ?_ ?_ h0
    · rintro s a ⟨hs, -⟩ hnone
      exact ⟨(ucSenderStep_spec hs a).1, hnone⟩
    · rintro s a ⟨hs, hno⟩ hnone
      exact ((ucSenderStep_spec hs a).2 hno).mp hnone
  · refine RunOk.of_invariant (fun s => s.Sound ∧ ∀ fd, ¬ s.fds.Unowned fd) ?_ ?_ h0
    · rintro s a ⟨hs, hno⟩ hok
      exact ⟨(ucSenderStep_spec hs a).1, ((ucSenderStep_spec hs a).2 hno).mpr hok⟩
    · rintro s a ⟨hs, hno⟩ hok
      exact ((ucSenderStep_spec hs a).2 hno).mpr hok

/-- One block is queued, and the SM cannot be reached in three rounds. -/
def smDownRun : List UcSenderAct :=
  [.queues ⟨onlyQueue .waitSync [.fresh 0] 1, onlyQueue_placed (by decide) (by decide)⟩,
    .check fun _ => ⟨true, true, false, true⟩, .check fun _ => ⟨true, true, false, true⟩,
    .check fun _ => ⟨true, true, false, true⟩]

/-- Every round leaves one more descriptor open. -/
theorem files_leaked :
    ¬ RunOk (ucSenderStep (fun _ => true) 32) (NoneUnowned (fun _ => true) 32) (UcSender.start 1 [0, 1, 2])
        smDownRun ∧
      (run (ucSenderStep (fun _ => true) 32) (UcSender.start 1 [0, 1, 2]) (smDownRun.take 2)).fds.files = [3] ∧
      (run (ucSenderStep (fun _ => true) 32) (UcSender.start 1 [0, 1, 2]) smDownRun).fds.files = [3, 4, 5] ∧
      ∀ c, (run (ucSenderStep (fun _ => true) 32) (UcSender.start 1 [0, 1, 2]) smDownRun).fds.sendFd c = none := by
  refine ⟨fun h => ?_, by decide, by decide, fun c => rfl⟩
  obtain ⟨-, hround, -⟩ := h
  exact hround 3 ⟨by decide, fun c => by rintro ⟨⟩⟩

end VfsOss
