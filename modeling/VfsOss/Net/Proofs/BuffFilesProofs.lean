import VfsOss.Net.BuffFiles

/-!
# Proofs: buffers close what they own

For a buffer of a slot of `acon` the descriptors handed to it are those it has closed and the one it
holds. The other buffers are never handed a file; while `do_run` is not entered nothing happens to
theirs, and when it is, the descriptor 0 that `defconn` holds from the start is closed.
-/

namespace VfsOss

open CLib

variable {maxfds : Nat}

/-! ## The law of a history -/

/-- One more event keeps the law if it keeps it at the end of the history. -/
theorem OwnsFiles.cons {hist : List (FdEvent maxfds)} {e : FdEvent maxfds} (h : OwnsFiles hist)
    (hle : ∀ x fd, (e :: hist).count (.closed x fd) ≤ (e :: hist).count (.handed x fd))
    (heq : ∀ x, e = .reinited x → ∀ fd, 0 ≤ fd →
      hist.count (.closed x fd) = hist.count (.handed x fd)) : OwnsFiles (e :: hist) := by
  intro x fd
  refine ⟨?_, ?_⟩
  · intro h' hsuf
    obtain rfl | hsuf := List.suffix_cons_iff.mp hsuf
    · exact hle x fd
    · exact (h x fd).1 h' hsuf
  · intro hfd h' hsuf
    obtain heqn | hsuf := List.suffix_cons_iff.mp hsuf
    · obtain ⟨rfl, rfl⟩ := List.cons_eq_cons.mp heqn
      exact heq x rfl fd hfd
    · exact (h x fd).2 hfd h' hsuf

/-- The buffer of an event. -/
def FdEvent.buff : FdEvent maxfds → BuffId maxfds
  | .handed x _ => x
  | .closed x _ => x
  | .reinited x => x

/-- The buffers that `set_client_fd` and `add_fd_2_efd` work on. -/
def BuffId.IsSlot : BuffId maxfds → Prop
  | .send _ => True
  | .recv _ => True
  | _ => False

/-- The descriptors handed to a buffer of a slot are those it has closed and the one it holds; the
other buffers have no history. -/
structure Accounted (held : BuffId maxfds → Int) (hist : List (FdEvent maxfds)) : Prop where
  owns : OwnsFiles hist
  slot : ∀ x, x.IsSlot → ∀ fd, 0 ≤ fd →
    hist.count (.closed x fd) + (if held x = fd then 1 else 0) = hist.count (.handed x fd)
  negative : ∀ x fd, fd < 0 → hist.count (.closed x fd) = 0
  other : ∀ x, ¬ x.IsSlot → ∀ e ∈ hist, e.buff ≠ x

namespace Accounted

variable {held : BuffId maxfds → Int} {hist : List (FdEvent maxfds)} {x : BuffId maxfds} {d : Int}

/-- Never more closed than handed, in the terms of the accounts. -/
theorem count_le (h : Accounted held hist) (y : BuffId maxfds) (fd : Int) :
    hist.count (.closed y fd) ≤ hist.count (.handed y fd) :=
  (h.owns y fd).1 hist (List.suffix_refl _)

/-- Only the descriptors held count. -/
theorem congr {held' : BuffId maxfds → Int} (h : Accounted held hist)
    (heq : ∀ y, y.IsSlot → held' y = held y) : Accounted held' hist := by
  refine ⟨h.owns, ?_, h.negative, h.other⟩
  intro y hy fd hfd
  rw [heq y hy]
  exact h.slot y hy fd hfd

/-- A buffer closes the descriptor it holds. -/
theorem close (h : Accounted held hist) (hx : x.IsSlot) (hd : held x = d) (hpos : 0 ≤ d) :
    Accounted (Function.update held x (-1)) (.closed x d :: hist) := by
  have hself := h.slot x hx d hpos
  rw [if_pos hd] at hself
  refine ⟨h.owns.cons ?_ (by simp), ?_, ?_, ?_⟩
  · intro y fd
    have hle := h.count_le y fd
    rw [List.count_cons, List.count_cons_of_ne (by simp)]
    by_cases heq : FdEvent.closed x d = FdEvent.closed y fd
    · obtain ⟨rfl, rfl⟩ := FdEvent.closed.inj heq
      rw [if_pos (by simp)]
      omega
    · rw [if_neg (by simpa using heq)]
      omega
  · intro y hy fd hfd
    have hold := h.slot y hy fd hfd
    have hhand : (FdEvent.closed x d :: hist).count (.handed y fd) = hist.count (.handed y fd) :=
      List.count_cons_of_ne (by simp)
    rw [hhand]
    by_cases hyx : y = x
    · subst hyx
      rw [Function.update_self, if_neg (show ¬ (-1 : Int) = fd by omega), List.count_cons]
      by_cases hfdd : d = fd
      · subst hfdd
        rw [if_pos (by simp)]
        omega
      · rw [if_neg (show ¬ held y = fd by omega)] at hold
        rw [if_neg (by simpa using hfdd)]
        omega
    · have hne : FdEvent.closed x d ≠ .closed y fd := fun he => hyx (FdEvent.closed.inj he).1.symm
      rw [Function.update_of_ne hyx, List.count_cons_of_ne hne]
      exact hold
  · intro y fd hfd
    rw [List.count_cons, h.negative y fd hfd, if_neg]
    simp only [beq_iff_eq, FdEvent.closed.injEq, not_and]
    omega
  · intro y hy e he
    obtain rfl | he := List.mem_cons.mp he
    · rintro rfl
      exact hy hx
    · exact h.other y hy e he

/-- A file is handed to a buffer that holds none. -/
theorem hand (h : Accounted held hist) (hx : x.IsSlot) (hneg : held x < 0) (fd : Int) :
    Accounted (Function.update held x fd) (.handed x fd :: hist) := by
  refine ⟨h.owns.cons ?_ (by simp), ?_, ?_, ?_⟩
  · intro y fd'
    have hle := h.count_le y fd'
    rw [List.count_cons_of_ne (by simp), List.count_cons]
    omega
  · intro y hy fd' hfd'
    have hold := h.slot y hy fd' hfd'
    rw [List.count_cons_of_ne (by simp)]
    by_cases hyx : y = x
    · subst hyx
      rw [if_neg (show ¬ held y = fd' by omega)] at hold
      rw [Function.update_self, List.count_cons]
      by_cases heq : fd = fd'
      · rw [if_pos heq, if_pos (by simpa using heq)]
        omega
      · rw [if_neg heq, if_neg (by simpa using heq)]
        omega
    · have hne : FdEvent.handed x fd ≠ .handed y fd' := fun he => hyx (FdEvent.handed.inj he).1.symm
      rw [Function.update_of_ne hyx, List.count_cons_of_ne hne]
      exact hold
  · intro y fd' hfd'
    rw [List.count_cons_of_ne (by simp)]
    exact h.negative y fd' hfd'
  · intro y hy e he
    obtain rfl | he := List.mem_cons.mp he
    · rintro rfl
      exact hy hx
    · exact h.other y hy e he

/-- A buffer that holds nothing is reinitialised. -/
theorem reinited (h : Accounted held hist) (hx : x.IsSlot) (hneg : held x < 0) :
    Accounted held (.reinited x :: hist) := by
  refine ⟨h.owns.cons ?_ ?_, ?_, ?_, ?_⟩
  · intro y fd
    rw [List.count_cons_of_ne (by simp), List.count_cons_of_ne (by simp)]
    exact h.count_le y fd
  · intro y hy fd hfd
    obtain rfl := FdEvent.reinited.inj hy
    have hold := h.slot x hx fd hfd
    rw [if_neg (by omega)] at hold
    exact hold
  · intro y hy fd hfd
    rw [List.count_cons_of_ne (by simp), List.count_cons_of_ne (by simp)]
    exact h.slot y hy fd hfd
  · intro y fd hfd
    rw [List.count_cons_of_ne (by simp)]
    exact h.negative y fd hfd
  · intro y hy e he
    obtain rfl | he := List.mem_cons.mp he
    · rintro rfl
      exact hy hx
    · exact h.other y hy e he

end Accounted

/-! ## The calls -/

/-- What a buffer holds, by its `fd`. -/
def Buffs.held (s : Buffs maxfds) (x : BuffId maxfds) : Int := (s.bufs x).fd

theorem Buffs.held_closing (s : Buffs maxfds) (x : BuffId maxfds) (r : MemBuff × List Int) :
    (s.closing x r).held = Function.update s.held x r.1.fd := by
  funext y
  by_cases hyx : y = x
  · subst hyx
    simp [Buffs.held, Buffs.closing]
  · simp [Buffs.held, Buffs.closing, hyx]

namespace Accounted

variable {s : Buffs maxfds} {x : BuffId maxfds}

/-- A call that closes what the buffer holds. -/
theorem closing (h : Accounted s.held s.hist) (hx : x.IsSlot) {b : MemBuff}
    (hpos : 0 ≤ s.held x) (hb : b.fd = -1) :
    Accounted (s.closing x (b, [s.held x])).held (s.closing x (b, [s.held x])).hist := by
  rw [Buffs.held_closing, hb]
  exact h.close hx rfl hpos

/-- A call that closes nothing and leaves the descriptor. -/
theorem keeping (h : Accounted s.held s.hist) {b : MemBuff} (hb : b.fd = s.held x) :
    Accounted (s.closing x (b, [])).held (s.closing x (b, [])).hist := by
  rw [Buffs.held_closing, hb, Function.update_eq_self]
  exact h

theorem skipfile (h : Accounted s.held s.hist) (hx : x.IsSlot) (n : Nat) :
    Accounted (s.skipfile x n).held (s.skipfile x n).hist := by
  unfold Buffs.skipfile MemBuff.skipfile
  split
  · next hpos =>
    split
    · exact h.closing hx hpos rfl
    · exact h.keeping rfl
  · exact h.keeping rfl

theorem reinit (h : Accounted s.held s.hist) (hx : x.IsSlot) :
    Accounted (s.reinit x).held (s.reinit x).hist := by
  have hdrop : Accounted (s.closing x (s.bufs x).dropFile).held
      (s.closing x (s.bufs x).dropFile).hist ∧ (s.closing x (s.bufs x).dropFile).held x < 0 := by
    rw [Buffs.held_closing, Function.update_self, ← Buffs.held_closing]
    unfold MemBuff.dropFile
    split
    · next hpos => exact ⟨h.closing hx hpos rfl, show (-1 : Int) < 0 by decide⟩
    · next hneg => exact ⟨h.keeping rfl, show (s.bufs x).fd < 0 by omega⟩
  exact hdrop.1.reinited hx hdrop.2

/-- `mybuff_setfile`: the file that was held is closed, then the new one is held. -/
theorem setfile (h : Accounted s.held s.hist) (hx : x.IsSlot) (fd offset : Int) (len : Nat) :
    Accounted (s.setfile x fd offset len).held (s.setfile x fd offset len).hist := by
  have hheld : (s.setfile x fd offset len).held = Function.update s.held x fd :=
    Buffs.held_closing s x _
  rw [hheld]
  by_cases hpos : 0 ≤ s.held x
  · have hclosed : (s.setfile x fd offset len).hist =
        .handed x fd :: .closed x (s.held x) :: s.hist := by
      change .handed x fd :: (List.map (.closed x) (if 0 ≤ s.held x then [s.held x] else [])).reverse ++
        s.hist = _
      rw [if_pos hpos]
      rfl
    have hhand := (h.close hx rfl hpos).hand hx (by rw [Function.update_self]; decide) fd
    rw [Function.update_idem] at hhand
    rw [hclosed]
    exact hhand
  · have hkept : (s.setfile x fd offset len).hist = .handed x fd :: s.hist := by
      change .handed x fd :: (List.map (.closed x) (if 0 ≤ s.held x then [s.held x] else [])).reverse ++
        s.hist = _
      rw [if_neg hpos]
      rfl
    rw [hkept]
    exact h.hand hx (by omega) fd

theorem start : Accounted (Buffs.start maxfds).held (Buffs.start maxfds).hist := by
  refine ⟨?_, ?_, fun _ _ _ => rfl, fun _ _ e he => nomatch he⟩
  · intro x fd
    refine ⟨?_, fun _ h hsuf => ?_⟩
    · intro h hsuf
      obtain rfl := List.suffix_nil.mp hsuf
      exact Nat.le_refl _
    · exact absurd (List.suffix_nil.mp hsuf) (List.cons_ne_nil _ _)
  · intro x hx fd hfd
    have hneg : (0 + if (-1 : Int) = fd then 1 else 0) = 0 := by
      rw [if_neg (by omega)]
    cases x with
    | send i => exact hneg
    | recv i => exact hneg
    | defSend => exact hx.elim
    | defRecv => exact hx.elim
    | databuff => exact hx.elim

/-- Every step but the entry of `do_run` keeps the accounts. -/
theorem step (h : Accounted s.held s.hist) {a : BuffAct maxfds} (ha : a ≠ .doRun) :
    Accounted (s.step a).held (s.step a).hist := by
  cases a with
  | addFd fd => exact (h.reinit (x := .send fd) trivial).reinit (x := .recv fd) trivial
  | setClientFd fd localfd offset len => exact h.setfile (x := .send fd) trivial localfd offset len
  | sendFile fd n =>
    unfold Buffs.step
    dsimp only
    split
    · exact h.skipfile (x := .send fd) trivial n
    · exact h
  | agentLogInit =>
    refine h.congr fun y hy => ?_
    have hne : y ≠ .databuff := by
      rintro rfl
      exact hy
    simp [Buffs.held, Buffs.step, hne]
  | doRun => exact absurd rfl ha
  | data x block size len =>
    exact h.keeping (x := x) (b := { s.bufs x with data := block, size := size, len := len }) rfl

end Accounted

/-! ## Runs -/

/-- While `do_run` is not entered, `defconn` holds the descriptor 0. -/
theorem held_defSend_step {s : Buffs maxfds} {a : BuffAct maxfds} (ha : a ≠ .doRun)
    (h : s.held .defSend = 0) : (s.step a).held .defSend = 0 := by
  cases a with
  | addFd fd =>
    simpa [Buffs.step, Buffs.reinit, Buffs.closing, Buffs.held] using h
  | setClientFd fd localfd offset len =>
    simpa [Buffs.step, Buffs.setfile, Buffs.closing, Buffs.held] using h
  | sendFile fd n =>
    unfold Buffs.step
    dsimp only
    split
    · simpa [Buffs.skipfile, Buffs.closing, Buffs.held] using h
    · exact h
  | agentLogInit => simpa [Buffs.step, Buffs.held] using h
  | doRun => exact absurd rfl ha
  | data x block size len =>
    by_cases hx : x = .defSend
    · subst hx
      simpa [Buffs.step, Buffs.held] using h
    · simpa [Buffs.step, Buffs.held, Ne.symm hx] using h

theorem accounted_run (acts : List (BuffAct maxfds)) {s : Buffs maxfds}
    (h : Accounted s.held s.hist) (hdef : s.held .defSend = 0) (hacts : .doRun ∉ acts) :
    Accounted (s.run acts).held (s.run acts).hist ∧ (s.run acts).held .defSend = 0 := by
  induction acts generalizing s with
  | nil => exact ⟨h, hdef⟩
  | cons a acts ih =>
    have ha : a ≠ .doRun := fun he => hacts (he ▸ List.mem_cons_self)
    exact ih (h.step ha) (held_defSend_step ha hdef) fun hmem => hacts (List.mem_cons_of_mem _ hmem)

theorem hist_suffix_closing (s : Buffs maxfds) (x : BuffId maxfds) (r : MemBuff × List Int) :
    s.hist <:+ (s.closing x r).hist := List.suffix_append _ _

theorem hist_suffix_reinit (s : Buffs maxfds) (x : BuffId maxfds) :
    s.hist <:+ (s.reinit x).hist :=
  (hist_suffix_closing s x _).trans (List.suffix_cons _ _)

/-- Nothing is taken out of the history. -/
theorem hist_suffix_step (s : Buffs maxfds) (a : BuffAct maxfds) :
    s.hist <:+ (s.step a).hist := by
  cases a with
  | addFd fd => exact (hist_suffix_reinit s _).trans (hist_suffix_reinit _ _)
  | setClientFd fd localfd offset len =>
    exact (hist_suffix_closing s _ _).trans (List.suffix_cons _ _)
  | sendFile fd n =>
    unfold Buffs.step
    dsimp only
    split
    · exact hist_suffix_closing s _ _
    · exact List.suffix_refl _
  | agentLogInit => exact List.suffix_refl _
  | doRun => exact (hist_suffix_reinit s _).trans (hist_suffix_reinit _ _)
  | data x block size len => exact List.suffix_refl _

theorem hist_suffix_run (acts : List (BuffAct maxfds)) (s : Buffs maxfds) :
    s.hist <:+ (s.run acts).hist := by
  induction acts generalizing s with
  | nil => exact List.suffix_refl _
  | cons a acts ih => exact (hist_suffix_step s a).trans (ih _)

/-- The first entry of `do_run` closes the descriptor 0, which nobody handed to `defconn`. -/
theorem not_owns_of_doRun {s : Buffs maxfds} (h : Accounted s.held s.hist)
    (hdef : s.held .defSend = 0) {hist : List (FdEvent maxfds)}
    (hsuf : (s.step .doRun).hist <:+ hist) : ¬ OwnsFiles hist := by
  intro howns
  have hfd : (s.bufs .defSend).fd ≥ 0 := by
    change s.held .defSend ≥ 0
    omega
  have hreinit : (s.reinit .defSend).hist = .reinited .defSend :: .closed .defSend 0 :: s.hist := by
    unfold Buffs.reinit Buffs.closing MemBuff.dropFile
    rw [if_pos hfd, show (s.bufs .defSend).fd = 0 from hdef]
    rfl
  have hclosed : FdEvent.closed .defSend 0 :: s.hist <:+ hist := by
    refine List.IsSuffix.trans ?_ (((hist_suffix_reinit (s.reinit .defSend) .defRecv)).trans hsuf)
    rw [hreinit]
    exact List.suffix_cons _ _
  have hcount := (howns .defSend 0).1 _ hclosed
  have hnone : s.hist.count (.handed .defSend 0) = 0 :=
    List.count_eq_zero.mpr fun hmem => h.other .defSend (fun hf => hf) _ hmem rfl
  rw [List.count_cons_self, List.count_cons_of_ne (by simp), hnone] at hcount
  omega

/-- In a run of the program the buffers close only what they own, and all of it, if and only if the
agent's `do_run` is not entered. -/
theorem buffers_own_iff (acts : List (BuffAct maxfds)) :
    OwnsFiles ((Buffs.start maxfds).run acts).hist ↔ BuffAct.doRun ∉ acts := by
  constructor
  · intro howns hmem
    obtain ⟨before, after, rfl, hbefore⟩ := List.eq_append_cons_of_mem hmem
    have hacc := accounted_run before Accounted.start rfl hbefore
    refine not_owns_of_doRun hacc.1 hacc.2 ?_ howns
    unfold Buffs.run
    rw [List.foldl_append, List.foldl_cons]
    exact hist_suffix_run after _
  · intro hacts
    exact (accounted_run acts Accounted.start rfl hacts).1.owns

/-- The agent of a server that has just started. -/
theorem buffers_own_not : ¬ OwnsFiles ((Buffs.start 4096).run [.doRun]).hist := by
  intro h
  have hhist : ((Buffs.start 4096).run [.doRun]).hist =
      [.reinited .defRecv, .closed .defRecv 0, .reinited .defSend, .closed .defSend 0] := rfl
  have hsuf : [.closed .defSend 0] <:+ ((Buffs.start 4096).run [.doRun]).hist :=
    ⟨[.reinited .defRecv, .closed .defRecv 0, .reinited .defSend], hhist.symm⟩
  have hcount := (h .defSend 0).1 _ hsuf
  rw [List.count_cons_self] at hcount
  simp at hcount

end VfsOss
