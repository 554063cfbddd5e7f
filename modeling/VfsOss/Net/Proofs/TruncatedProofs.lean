import VfsOss.Net.Truncated

/-!
# Proofs: a file that has become shorter

At the end of the file a step depends on `errno` alone: the loop goes round, `do_send` returns to be called again, or
the connection is closed.
-/

namespace VfsOss

variable {size : Nat} {left : Nat → Nat} {ans : Nat → SockAns} {c : FileSender} {e i : Nat} {a : SockAns}

/-- The file segment begins at or behind the end of the file, and nothing is left but it. -/
structure FileSender.AtEnd (size : Nat) (c : FileSender) : Prop where
  phase : c.phase = .file
  data : c.data = 0
  flen : 0 < c.flen
  short : size ≤ c.foffset

namespace FileSender.AtEnd

theorem step (h : c.AtEnd size) : fileSendStep size e a c = c.notSent := by
  unfold fileSendStep FileSender.sendfileRound
  rw [h.phase]
  exact if_pos h.short

/-- The loop goes round. -/
theorem spins (h : c.AtEnd size) (he : c.errno = eintr) : c.notSent = c := by
  unfold FileSender.notSent
  rw [if_pos he, ← h.phase]

/-- `do_send` returns, and its next call gets to the end of the file again. -/
theorem retries (h : c.AtEnd size) (he : Retried c.errno) :
    c.notSent.phase = .idle ∧ (fileSendStep size e a c.notSent).AtEnd size ∧
      (fileSendStep size e a c.notSent).errno = e := by
  have hne : c.errno ≠ eintr := by
    rcases he with he | he
    · rw [he]
      decide
    · rw [he]
      decide
  have hidle : c.notSent.phase = .idle := by
    unfold FileSender.notSent
    exact (if_neg hne).trans (if_pos he)
  have henter : fileSendStep size e a c.notSent = c.notSent.enter e := by
    unfold fileSendStep
    rw [hidle]
  have hphase : (c.notSent.enter e).phase = .file := by
    show (if c.data > 0 then SendPhase.data else if c.flen > 0 then .file else .served) = .file
    rw [if_neg (by rw [h.data]; exact Nat.lt_irrefl 0), if_pos h.flen]
  rw [henter]
  exact ⟨hidle, ⟨hphase, h.data, h.flen, h.short⟩, rfl⟩

/-- The connection is closed. -/
theorem closes (he : c.errno ≠ eintr) (hr : ¬ Retried c.errno) : c.notSent.phase = .closed := by
  unfold FileSender.notSent
  exact (if_neg he).trans (if_neg hr)

end FileSender.AtEnd

/-- The values of `errno` from the next call on. -/
theorem leftover_next (c' : FileSender) (k : Nat) (hc : c'.errno = left i) :
    leftover left (c', i + 1) k = leftover left (c, i) (k + 1) := by
  cases k with
  | zero => exact hc
  | succ k => exact congrArg left (by omega)

/-- The first step of a run before the others. -/
theorem fileSendRun_succ (ans : Nat → SockAns) (n : Nat) (d : FileSender × Nat) :
    fileSendRun size left ans (n + 1) d =
      fileSendRun size left (fun k => ans (k + 1)) n (fileSendNext size left (ans 0) d) := by
  induction n with
  | zero => rfl
  | succ n ih =>
    rw [fileSendRun, ih]
    rfl

/-- A step at the end of the file. -/
theorem FileSender.AtEnd.next (h : c.AtEnd size) : fileSendNext size left a (c, i) = (c.notSent, i) := by
  unfold fileSendNext
  dsimp only
  rw [h.step, if_neg (by rw [h.phase]; simp)]

/-- Two steps that lead to the end of the file again. -/
theorem FileSender.AtEnd.again (h : c.AtEnd size) (hr : Retried c.errno) (left : Nat → Nat) (i : Nat)
    (ans : Nat → SockAns) :
    ∃ c', c'.AtEnd size ∧ c'.errno = left i ∧ ∀ n,
      fileSendRun size left ans (n + 2) (c, i) = fileSendRun size left (fun k => ans (k + 2)) n (c', i + 1) := by
  obtain ⟨hidle, hend, herr⟩ := h.retries (e := left i) (a := ans 1) hr
  refine ⟨_, hend, herr, fun n => ?_⟩
  rw [fileSendRun_succ, h.next, fileSendRun_succ]
  unfold fileSendNext
  dsimp only
  rw [if_pos hidle]

/-- A connection that is closed had its last value of `errno`. -/
theorem closesAtLast_of_ends (n : Nat) : ∀ (c : FileSender) (i : Nat) (ans : Nat → SockAns), c.AtEnd size →
    (fileSendRun size left ans n (c, i)).1.phase = .closed → ClosesAtLast left (c, i) := by
  induction n using Nat.strongRecOn with
  | ind n ih =>
    intro c i ans h hclosed
    cases n with
    | zero => exact absurd (h.phase.symm.trans hclosed) (by simp)
    | succ n =>
      by_cases he : c.errno = eintr
      · rw [fileSendRun_succ, h.next, h.spins he] at hclosed
        exact ih n (Nat.lt_succ_self n) c i _ h hclosed
      · by_cases hr : Retried c.errno
        · cases n with
          | zero =>
            rw [fileSendRun_succ, h.next] at hclosed
            exact absurd ((h.retries (e := 0) (a := ans 0) hr).1.symm.trans hclosed) (by simp)
          | succ n =>
            obtain ⟨c', hend, herr, hrun⟩ := h.again hr left i ans
            rw [hrun n] at hclosed
            obtain ⟨k, hk, hj⟩ := ih n (by omega) c' (i + 1) _ hend hclosed
            rw [leftover_next (c := c) c' k herr] at hk
            refine ⟨k + 1, hk, fun j hlt => ?_⟩
            cases j with
            | zero => exact hr
            | succ j =>
              rw [← leftover_next (c := c) c' j herr]
              exact hj j (Nat.lt_of_succ_lt_succ hlt)
        · exact ⟨0, ⟨he, hr⟩, fun j hj => absurd hj (Nat.not_lt_zero j)⟩

/-- With such values of `errno` the connection is closed. -/
theorem ends_of_closesAtLast (k : Nat) : ∀ (c : FileSender) (i : Nat) (ans : Nat → SockAns), c.AtEnd size →
    (leftover left (c, i) k ≠ eintr ∧ ¬ Retried (leftover left (c, i) k)) →
    (∀ j < k, Retried (leftover left (c, i) j)) → TransferEnds size left ans (c, i) := by
  induction k with
  | zero =>
    intro c i ans h hk _
    refine ⟨1, ?_⟩
    rw [fileSendRun_succ, h.next]
    exact FileSender.AtEnd.closes hk.1 hk.2
  | succ k ih =>
    intro c i ans h hk hj
    obtain ⟨c', hend, herr, hrun⟩ := h.again (hj 0 (Nat.succ_pos k)) left i ans
    have hnext := fun j => leftover_next (c := c) c' j herr
    obtain ⟨n, hn⟩ := ih c' (i + 1) (fun j => ans (j + 2)) hend (by rw [hnext]; exact hk) fun j hlt => by
      rw [hnext]
      exact hj (j + 1) (Nat.succ_lt_succ hlt)
    exact ⟨n + 2, by rw [hrun]; exact hn⟩

/-! ## Where the end of the file can be met -/

/-- In the loop around `sendfile64` the data has gone out and some of the segment is left. -/
def FileSender.InOrder (c : FileSender) : Prop := c.phase = .file → c.data = 0 ∧ 0 < c.flen

theorem FileSender.inOrder_enter (e : Nat) (c : FileSender) : (c.enter e).InOrder := by
  intro hphase
  have hphase : (if c.data > 0 then SendPhase.data else if c.flen > 0 then .file else .served) = .file := hphase
  split_ifs at hphase with hdata hlen
  · exact ⟨Nat.eq_zero_of_not_pos hdata, hlen⟩

theorem FileSender.inOrder_sendRound (c : FileSender) (a : SockAns) : (c.sendRound a).InOrder := by
  intro hphase
  cases a with
  | took k =>
    have hphase : (if accepted c.data k < c.data then SendPhase.idle
      else if c.flen > 0 then .file else .served) = .file := hphase
    split_ifs at hphase with hmore hlen
    · exact ⟨Nat.sub_eq_zero_of_le (Nat.le_of_not_lt hmore), hlen⟩
  | fail e =>
    have hphase : (if e = eintr then SendPhase.data else if e = eagain then .idle else .closed) = .file := hphase
    split_ifs at hphase

theorem FileSender.InOrder.sendfileRound (h : c.InOrder) (hc : c.phase = .file) (size : Nat) (a : SockAns) :
    (c.sendfileRound size a).InOrder := by
  unfold FileSender.sendfileRound
  dsimp only
  split
  · exact fun _ => h hc
  · cases a with
    | took k =>
      intro hphase
      dsimp only at hphase
      split_ifs at hphase
    | fail e => exact fun _ => h hc

theorem FileSender.InOrder.step (h : c.InOrder) (size e : Nat) (a : SockAns) : (fileSendStep size e a c).InOrder := by
  unfold fileSendStep
  cases hp : c.phase with
  | idle => exact c.inOrder_enter e
  | data => exact c.inOrder_sendRound a
  | file => exact h.sendfileRound hp size a
  | served => exact h
  | closed => exact h

theorem inOrder_run (size : Nat) (left : Nat → Nat) (i : Nat) (ans : Nat → SockAns) (hc : c.InOrder) (n : Nat) :
    (fileSendRun size left ans n (c, i)).1.InOrder := by
  induction n with
  | zero => exact hc
  | succ n ih => exact ih.step size _ _

/-- **A shortened file ends the transfer**, for every send buffer and wherever the end of the file is met, exactly if
the values left in `errno` close the connection at last. -/
theorem shortened_file_ends_iff (size : Nat) (left : Nat → Nat) (start : FileSender) (ans ans' : Nat → SockAns) (n : Nat)
    (hidle : start.phase = .idle) (hfile : (fileSendRun size left ans n (start, 0)).1.phase = .file)
    (hshort : size ≤ (fileSendRun size left ans n (start, 0)).1.foffset) :
    TransferEnds size left ans' (fileSendRun size left ans n (start, 0)) ↔
      ClosesAtLast left (fileSendRun size left ans n (start, 0)) := by
  have horder := inOrder_run size left 0 ans (c := start) (fun h => absurd (hidle.symm.trans h) (by simp)) n
  obtain ⟨hdata, hlen⟩ := horder hfile
  have hend : (fileSendRun size left ans n (start, 0)).1.AtEnd size := ⟨hfile, hdata, hlen, hshort⟩
  constructor
  · rintro ⟨k, hk⟩
    exact closesAtLast_of_ends k _ _ ans' hend hk
  · rintro ⟨k, hk, hj⟩
    exact ends_of_closesAtLast k _ _ ans' hend hk hj

/-- A connection that has sent the first 100 of 200 bytes of a file, which has no more any longer. -/
def halfSent : FileSender := ⟨0, 100, 100, 0, .idle⟩

theorem shortened_file_ends_first :
    TransferEnds 100 (fun _ => 0) (fun _ => .took 1) (fileSendRun 100 (fun _ => 0) (fun _ => .took 1) 1 (halfSent, 0)) :=
  (shortened_file_ends_iff 100 (fun _ => 0) halfSent (fun _ => .took 1) (fun _ => .took 1) 1 rfl rfl (by decide)).mpr
    ⟨0, ⟨by decide, fun h => by cases h <;> contradiction⟩, fun j hj => absurd hj (Nat.not_lt_zero j)⟩

/-- With one value left over at every call the last value is that one. -/
theorem leftover_const (d : FileSender × Nat) (k : Nat) (he : d.1.errno = e) : leftover (fun _ => e) d k = e := by
  cases k with
  | zero => exact he
  | succ k => rfl

/-- With `EINTR` left over the loop around `sendfile64` goes round for ever, with `EAGAIN` `do_send` is called for
ever. -/
theorem shortened_file_goes_on :
    ¬ TransferEnds 100 (fun _ => eintr) (fun _ => .took 1)
      (fileSendRun 100 (fun _ => eintr) (fun _ => .took 1) 1 (halfSent, 0)) ∧
    ¬ TransferEnds 100 (fun _ => eagain) (fun _ => .took 1)
      (fileSendRun 100 (fun _ => eagain) (fun _ => .took 1) 1 (halfSent, 0)) := by
  refine ⟨fun ⟨n, hn⟩ => ?_, fun ⟨n, hn⟩ => ?_⟩
  · obtain ⟨k, hk, -⟩ := closesAtLast_of_ends n _ _ _ ⟨rfl, rfl, by decide, by decide⟩ hn
    exact hk.1 (leftover_const _ k rfl)
  · obtain ⟨k, hk, -⟩ := closesAtLast_of_ends n _ _ _ ⟨rfl, rfl, by decide, by decide⟩ hn
    exact hk.2 (Or.inl (leftover_const _ k rfl))

end VfsOss
