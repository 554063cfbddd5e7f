import VfsOss.Net.Pend

/-!
# Proofs: the pending lists hold live connections unless a linked one is closed

A call of `do_send` or `do_recv` leaves the state alone, puts the connection off or closes it, and only
closing a linked connection ends that what is linked is live.
-/

namespace VfsOss

open CLib

variable {maxfds fd e : Nat} {flag tmp : Bool} {d dir : Dir} {s : Pend} {a : PendAct} {rest : List Nat}
variable {send : SendCall} {call : RecvCall}

/-- A slot that has been set up holds its own descriptor or none. -/
def Pend.Named (maxfds : Nat) (s : Pend) : Prop :=
  ∀ fd, 0 < (s.acon fd).incarnation → ((s.acon fd).fd = fd ∨ (s.acon fd).fd = -1) ∧ fd < maxfds

/-- Every deferral has run on the connection for which it was recorded. -/
def Pend.RanLive (s : Pend) : Prop := ∀ r ∈ s.ran, r.deferred = r.incarnation

theorem Pend.Named.eq (h : s.Named maxfds) (ho : (s.acon fd).IsOpen) : (s.acon fd).fd = fd := by
  rcases (h fd ho.1).1 with he | he
  · exact he
  · have := ho.2
    omega

/-! ## Single slots -/

@[simp] theorem setConn_self {c : PendConn} : (s.setConn fd c).acon fd = c := by
  show Function.update s.acon fd c fd = c
  exact Function.update_self ..

theorem setConn_of_ne {c : PendConn} (he : e ≠ fd) : (s.setConn fd c).acon e = s.acon e := by
  show Function.update s.acon fd c e = s.acon e
  exact Function.update_of_ne he ..

theorem linked_setConn {c : PendConn} : (s.setConn fd c).Linked d e ↔ s.Linked d e := Iff.rfl

theorem Pend.Named.setConn {c : PendConn} (h : s.Named maxfds)
    (hc : 0 < c.incarnation → (c.fd = fd ∨ c.fd = -1) ∧ fd < maxfds) :
    (s.setConn fd c).Named maxfds := by
  intro e he
  by_cases hf : e = fd
  · subst hf
    rw [setConn_self] at he ⊢
    exact hc he
  · rw [setConn_of_ne hf] at he ⊢
    exact h e he

/-! ## `do_close` -/

theorem doClose_of_open (h : s.Named maxfds) (ho : (s.acon fd).IsOpen) :
    s.doClose maxfds fd = s.setConn fd { s.acon fd with fd := -1 } := by
  have hlt := (h fd ho.1).2
  unfold Pend.doClose
  rw [if_pos (by omega), Int.toNat_natCast]
  exact if_neg (by have := ho.2; omega)

theorem doClose_of_not_open (hi : 0 < (s.acon fd).incarnation) (ho : ¬ (s.acon fd).IsOpen) :
    s.doClose maxfds fd = s := by
  have hneg : (s.acon fd).fd < 0 := by
    by_contra hn
    exact ho ⟨hi, by omega⟩
  unfold Pend.doClose
  split
  · rw [Int.toNat_natCast]
    exact if_pos hneg
  · rfl

theorem doClose_named (h : s.Named maxfds) (hi : 0 < (s.acon fd).incarnation) :
    (s.doClose maxfds fd).Named maxfds := by
  by_cases ho : (s.acon fd).IsOpen
  · rw [doClose_of_open h ho]
    exact h.setConn fun _ => ⟨.inr rfl, (h fd hi).2⟩
  · rw [doClose_of_not_open hi ho]
    exact h

theorem doClose_ran (fd : Int) : (s.doClose maxfds fd).ran = s.ran := by
  unfold Pend.doClose
  dsimp only
  split <;> [split; skip] <;> rfl

/-- Closing a connection that is not linked keeps the lists live. -/
theorem doClose_live (h : s.Named maxfds) (hl : s.Live) (hi : 0 < (s.acon fd).incarnation)
    (hu : (s.acon fd).IsOpen → ¬ ∃ d, s.Linked d fd) : (s.doClose maxfds fd).Live := by
  by_cases ho : (s.acon fd).IsOpen
  · rw [doClose_of_open h ho]
    intro d e he
    have hne : e ≠ fd := by
      rintro rfl
      exact hu ho ⟨d, he⟩
    rw [setConn_of_ne hne]
    exact hl d e he
  · rw [doClose_of_not_open hi ho]
    exact hl

/-- Closing a linked connection leaves a closed slot in a list. -/
theorem doClose_not_live (h : s.Named maxfds) (ho : (s.acon fd).IsOpen) (hlk : s.Linked d fd) :
    ¬ (s.doClose maxfds fd).Live := by
  rw [doClose_of_open h ho]
  intro hl
  have h1 := (hl d fd hlk).1.2
  rw [setConn_self] at h1
  exact absurd h1 (by show ¬ (0 : Int) ≤ -1; omega)

/-! ## `add_to_pend` -/

theorem addToPend_named (h : s.Named maxfds) : (s.addToPend d tmp fd).Named maxfds :=
  h.setConn (h fd)

/-- Only the slot that is put off becomes linked. -/
theorem linked_addToPend (hlk : (s.addToPend d tmp fd).Linked dir e) :
    s.Linked dir e ∨ dir = d ∧ e = fd := by
  by_cases hd : dir = d
  · subst hd
    rcases hlk with hm | hm
    · have hm : e ∈ Function.update s.pendList dir
          (if tmp then (s.pendList dir).erase fd else (s.pendList dir).erase fd ++ [fd]) dir := hm
      rw [Function.update_self] at hm
      cases tmp with
      | true => exact .inl (.inl (List.mem_of_mem_erase hm))
      | false =>
        rcases List.mem_append.mp hm with hm | hm
        · exact .inl (.inl (List.mem_of_mem_erase hm))
        · exact .inr ⟨rfl, List.mem_singleton.mp hm⟩
    · have hm : e ∈ Function.update s.tmpList dir
          (if tmp then (s.tmpList dir).erase fd ++ [fd] else (s.tmpList dir).erase fd) dir := hm
      rw [Function.update_self] at hm
      cases tmp with
      | false => exact .inl (.inr (List.mem_of_mem_erase hm))
      | true =>
        rcases List.mem_append.mp hm with hm | hm
        · exact .inl (.inr (List.mem_of_mem_erase hm))
        · exact .inr ⟨rfl, List.mem_singleton.mp hm⟩
  · rcases hlk with hm | hm
    · exact .inl (.inl (by rwa [show (s.addToPend d tmp fd).pendList dir = s.pendList dir from
        Function.update_of_ne hd ..] at hm))
    · exact .inl (.inr (by rwa [show (s.addToPend d tmp fd).tmpList dir = s.tmpList dir from
        Function.update_of_ne hd ..] at hm))

theorem addToPend_acon_self : (s.addToPend d tmp fd).acon fd =
    { s.acon fd with
      pendFrom := Function.update (s.acon fd).pendFrom d (s.acon fd).incarnation } :=
  setConn_self

theorem addToPend_acon_of_ne (he : e ≠ fd) : (s.addToPend d tmp fd).acon e = s.acon e :=
  setConn_of_ne he

theorem addToPend_live (hl : s.Live) (ho : (s.acon fd).IsOpen) : (s.addToPend d tmp fd).Live := by
  intro dir e hlk
  by_cases he : e = fd
  · subst he
    rw [addToPend_acon_self]
    refine ⟨ho, ?_⟩
    show Function.update (s.acon e).pendFrom d (s.acon e).incarnation dir = (s.acon e).incarnation
    by_cases hd : dir = d
    · subst hd
      exact Function.update_self ..
    · rw [Function.update_of_ne hd]
      rcases linked_addToPend hlk with hlk | ⟨hd', -⟩
      · exact (hl dir e hlk).2
      · exact absurd hd' hd
  · rw [addToPend_acon_of_ne he]
    rcases linked_addToPend hlk with hlk | ⟨-, he'⟩
    · exact hl dir e hlk
    · exact absurd he' he

/-! ## `do_send` and `do_recv` -/

/-- What a call that may close the connection comes to. -/
inductive Handled (maxfds fd : Nat) (closes : Bool) (s : Pend) : Pend → Prop
  | alone : Handled maxfds fd closes s s
  | putOff (d : Dir) (tmp : Bool) (ho : (s.acon fd).IsOpen) :
      Handled maxfds fd closes s (s.addToPend d tmp fd)
  | closed (hc : closes = true) : Handled maxfds fd closes s (s.doClose maxfds fd)

namespace Handled

variable {closes : Bool} {s' : Pend}

theorem named (h : Handled maxfds fd closes s s') (hn : s.Named maxfds)
    (hi : 0 < (s.acon fd).incarnation) : s'.Named maxfds := by
  cases h with
  | alone => exact hn
  | putOff d tmp ho => exact addToPend_named hn
  | closed hc => exact doClose_named hn hi

theorem ran (h : Handled maxfds fd closes s s') : s'.ran = s.ran := by
  cases h with
  | alone => rfl
  | putOff d tmp ho => rfl
  | closed hc => exact doClose_ran _

theorem mono {closes' : Bool} (h : Handled maxfds fd closes s s') (hc : closes → closes') :
    Handled maxfds fd closes' s s' := by
  cases h with
  | alone => exact .alone
  | putOff d tmp ho => exact .putOff d tmp ho
  | closed h => exact .closed (hc h)

theorem live (h : Handled maxfds fd closes s s') (hn : s.Named maxfds) (hl : s.Live)
    (hi : 0 < (s.acon fd).incarnation)
    (hu : ¬ ((s.acon fd).IsOpen ∧ closes = true ∧ ∃ d, s.Linked d fd)) : s'.Live := by
  cases h with
  | alone => exact hl
  | putOff d tmp ho => exact addToPend_live hl ho
  | closed hc => exact doClose_live hn hl hi fun ho hlk => hu ⟨ho, hc, hlk⟩

end Handled

theorem isOpen_of_not_neg (hi : 0 < (s.acon fd).incarnation) (hf : ¬ (s.acon fd).fd < 0) :
    (s.acon fd).IsOpen :=
  ⟨hi, by omega⟩

theorem doSend_handled (hi : 0 < (s.acon fd).incarnation) :
    Handled maxfds fd send.closes s (s.doSend maxfds fd flag send) := by
  unfold Pend.doSend
  rw [if_neg (by omega), Int.toNat_natCast]
  split
  · exact .alone
  · rename_i hf
    split
    · exact .putOff _ _ (isOpen_of_not_neg hi hf)
    · rename_i hp
      split
      · rename_i hr
        exact .closed (by simp [SendCall.closes, hp, hr])
      · rename_i hr
        split
        · rename_i hs
          exact .closed (by simp [SendCall.closes, hp, hr, hs])
        · exact .alone
      · exact .alone

theorem doRecv_handled (hi : 0 < (s.acon fd).incarnation) :
    Handled maxfds fd call.closes s (s.doRecv maxfds fd flag call) := by
  unfold Pend.doRecv
  rw [if_neg (by omega), Int.toNat_natCast]
  split
  · exact .alone
  · rename_i hf
    split
    · exact .putOff _ _ (isOpen_of_not_neg hi hf)
    · rename_i hp
      split
      · rename_i he
        exact .closed (by simp [RecvCall.closes, hp, he])
      · split
        · rename_i hr
          exact (doSend_handled hi).mono fun hc => by simp [RecvCall.closes, hp, hr, hc]
        · rename_i hr
          exact .closed (by simp [RecvCall.closes, hp, hr])
        · exact .alone

/-- A call that closes an open connection does so. -/
theorem doSend_closes (ho : (s.acon fd).IsOpen) (hc : send.closes) :
    s.doSend maxfds fd flag send = s.doClose maxfds fd := by
  have hf : ¬ (s.acon fd).fd < 0 := by
    have := ho.2
    omega
  unfold SendCall.closes at hc
  simp only [Bool.and_eq_true, Bool.or_eq_true, decide_eq_true_eq, Bool.not_eq_true] at hc
  obtain ⟨hp, hr⟩ := hc
  unfold Pend.doSend
  rw [if_neg (by omega), Int.toNat_natCast, if_neg hf, if_neg (by simp [hp])]
  rcases hr with hr | ⟨hr, hs⟩
  · rw [hr]
  · rw [hr]
    exact if_pos hs

theorem doRecv_closes (ho : (s.acon fd).IsOpen) (hc : call.closes) :
    s.doRecv maxfds fd flag call = s.doClose maxfds fd := by
  have hf : ¬ (s.acon fd).fd < 0 := by
    have := ho.2
    omega
  unfold RecvCall.closes at hc
  simp only [Bool.and_eq_true, Bool.or_eq_true, decide_eq_true_eq, Bool.not_eq_true] at hc
  obtain ⟨hp, hr⟩ := hc
  unfold Pend.doRecv
  rw [if_neg (by omega), Int.toNat_natCast, if_neg hf, if_neg (by simp [hp])]
  split
  · rfl
  · rename_i he
    rcases hr with (hr | hr) | ⟨hr, hs⟩
    · exact absurd hr he
    · rw [hr]
    · rw [hr]
      exact doSend_closes ho hs

/-! ## The steps -/

theorem acceptNew_cases (maxfds fd : Nat) (initconn : Bool) (s : Pend) :
    s.acceptNew maxfds fd initconn = s ∨ ¬ (s.acon fd).IsOpen ∧ fd < maxfds ∧
      s.acceptNew maxfds fd initconn =
        s.setConn fd { s.acon fd with fd := fd, incarnation := (s.acon fd).incarnation + 1 } := by
  unfold Pend.acceptNew
  dsimp only
  split
  · exact .inl rfl
  · rename_i h
    exact .inr ⟨fun ho => h (.inl ho), by omega, rfl⟩

theorem startScan_linked (hlk : (s.startScan d).Linked dir e) : s.Linked dir e := by
  by_cases hd : dir = d
  · subst hd
    rcases hlk with hm | hm
    · have hm : e ∈ Function.update s.pendList dir (s.pendList dir ++ s.tmpList dir) dir := hm
      rw [Function.update_self] at hm
      exact List.mem_append.mp hm
    · have hm : e ∈ Function.update s.tmpList dir [] dir := hm
      rw [Function.update_self] at hm
      cases hm
  · rcases hlk with hm | hm
    · exact .inl (by rwa [show (s.startScan d).pendList dir = s.pendList dir from
        Function.update_of_ne hd ..] at hm)
    · exact .inr (by rwa [show (s.startScan d).tmpList dir = s.tmpList dir from
        Function.update_of_ne hd ..] at hm)

theorem startScan_live (hl : s.Live) : (s.startScan d).Live :=
  fun dir e hlk => hl dir e (startScan_linked hlk)

theorem unlink_linked (hp : s.pendList d = fd :: rest) (hlk : (s.unlink d fd rest).Linked dir e) :
    s.Linked dir e := by
  rcases hlk with hm | hm
  · by_cases hd : dir = d
    · subst hd
      have hm : e ∈ Function.update s.pendList dir rest dir := hm
      rw [Function.update_self] at hm
      exact .inl (hp ▸ List.mem_cons_of_mem _ hm)
    · exact .inl (by rwa [show (s.unlink d fd rest).pendList dir = s.pendList dir from
        Function.update_of_ne hd ..] at hm)
  · exact .inr hm

theorem unlink_live (hl : s.Live) (hp : s.pendList d = fd :: rest) : (s.unlink d fd rest).Live :=
  fun dir e hlk => hl dir e (unlink_linked hp hlk)

/-- The connection whose turn is taken is the one that was put off. -/
theorem unlink_ranLive (hl : s.Live) (hr : s.RanLive) (hp : s.pendList d = fd :: rest) :
    (s.unlink d fd rest).RanLive := by
  intro r hm
  have hm : r ∈ if (s.acon fd).fd < 0 then s.ran else s.ran ++ [_] := hm
  split at hm
  · exact hr r hm
  · rcases List.mem_append.mp hm with hm | hm
    · exact hr r hm
    · rw [List.mem_singleton.mp hm]
      exact (hl d fd (.inl (hp ▸ List.mem_cons_self ..))).2

/-- A call that a round of `scan_pend_list` makes closes an open connection. -/
def RecvCall.closesIn (call : RecvCall) : Dir → Bool
  | .send => call.send.closes
  | .recv => call.closes

/-- A round of `scan_pend_list` goes on to the next list or handles the first slot of this one. -/
theorem scanNext_cases (hn : s.Named maxfds) (hl : s.Live) (call : RecvCall) :
    s.scanNext maxfds call = s ∨ s.scanNext maxfds call = s.startScan .recv ∨
    s.scanNext maxfds call = { s with scan := none } ∨
    ∃ d fd rest, s.scan = some d ∧ s.pendList d = fd :: rest ∧ (s.acon fd).IsOpen ∧
      Handled maxfds fd (call.closesIn d) (s.unlink d fd rest) (s.scanNext maxfds call) := by
  have hopen : ∀ {d fd rest}, s.pendList d = fd :: rest → (s.acon fd).IsOpen :=
    fun hp => (hl _ _ (.inl (hp ▸ List.mem_cons_self ..))).1
  unfold Pend.scanNext
  split
  · exact .inl rfl
  · rename_i hs
    split
    · exact .inr (.inl rfl)
    · rename_i fd rest hp
      refine .inr (.inr (.inr ⟨.send, fd, rest, hs, hp, hopen hp, ?_⟩))
      rw [hn.eq (hopen hp)]
      exact doSend_handled (s := s.unlink .send fd rest) (hopen hp).1
  · rename_i hs
    split
    · exact .inr (.inr (.inl rfl))
    · rename_i fd rest hp
      refine .inr (.inr (.inr ⟨.recv, fd, rest, hs, hp, hopen hp, ?_⟩))
      rw [hn.eq (hopen hp)]
      exact doRecv_handled (s := s.unlink .recv fd rest) (hopen hp).1

/-- A round whose call closes the connection does so. -/
theorem scanNext_closes (hn : s.Named maxfds) (hs : s.scan = some d) (hp : s.pendList d = fd :: rest)
    (ho : (s.acon fd).IsOpen) (hc : call.closesIn d) :
    s.scanNext maxfds call = (s.unlink d fd rest).doClose maxfds fd := by
  unfold Pend.scanNext
  rw [hs]
  cases d with
  | send =>
    dsimp only
    rw [hp]
    dsimp only
    rw [hn.eq ho]
    exact doSend_closes (s := s.unlink .send fd rest) ho hc
  | recv =>
    dsimp only
    rw [hp]
    dsimp only
    rw [hn.eq ho]
    exact doRecv_closes (s := s.unlink .recv fd rest) ho hc

/-- What a step does: nothing to the connections, a connection set up, or one handled in a state that is
as good. -/
theorem pendStep_cases (hn : s.Named maxfds) (hl : s.Live) (a : PendAct) :
    pendStep maxfds s a = s ∨ (∃ d, pendStep maxfds s a = s.startScan d) ∨
    pendStep maxfds s a = { s with scan := none } ∨
    (∃ fd, ¬ (s.acon fd).IsOpen ∧ fd < maxfds ∧ pendStep maxfds s a =
      s.setConn fd { s.acon fd with fd := fd, incarnation := (s.acon fd).incarnation + 1 }) ∨
    ∃ s₀ fd closes, s₀.Named maxfds ∧ s₀.Live ∧ (s.RanLive → s₀.RanLive) ∧
      0 < (s₀.acon fd).incarnation ∧ Handled maxfds fd closes s₀ (pendStep maxfds s a) ∧
      ((s₀.acon fd).IsOpen ∧ closes = true ∧ (∃ d, s₀.Linked d fd) → ClosesLinked s a) := by
  have hclose : ∀ {s : Pend} {fd : Nat}, Handled maxfds fd true s (s.doClose maxfds fd) :=
    .closed rfl
  cases a with
  | accept fd initconn =>
    simp only [pendStep]
    split
    · rcases acceptNew_cases maxfds fd initconn s with he | ⟨ho, hlt, he⟩
      · exact .inl he
      · exact .inr (.inr (.inr (.inl ⟨fd, ho, hlt, he⟩)))
    · exact .inl rfl
  | error fd =>
    simp only [pendStep]
    split
    · rename_i h
      exact .inr (.inr (.inr (.inr ⟨s, fd, true, hn, hl, id, h.2, hclose,
        fun hc => ⟨h.1, hc.1, hc.2.2⟩⟩)))
    · exact .inl rfl
  | readable fd call =>
    simp only [pendStep]
    split
    · rename_i h
      exact .inr (.inr (.inr (.inr ⟨s, fd, call.closes, hn, hl, id, h.2, doRecv_handled h.2,
        fun hc => ⟨h.1, hc⟩⟩)))
    · exact .inl rfl
  | writable fd call =>
    simp only [pendStep]
    split
    · rename_i h
      exact .inr (.inr (.inr (.inr ⟨s, fd, call.closes, hn, hl, id, h.2, doSend_handled h.2,
        fun hc => ⟨h.1, hc⟩⟩)))
    · exact .inl rfl
  | timeout fd =>
    simp only [pendStep]
    split
    · rename_i h
      exact .inr (.inr (.inr (.inr ⟨s, fd, true, hn, hl, id, h.2, hclose,
        fun hc => ⟨h.1, hc.1, hc.2.2⟩⟩)))
    · exact .inl rfl
  | scanBegin =>
    simp only [pendStep]
    split
    · exact .inr (.inl ⟨.send, rfl⟩)
    · exact .inl rfl
  | scanNext call =>
    rcases scanNext_cases hn hl call with he | he | he | ⟨d, fd, rest, hs, hp, ho, hh⟩
    · exact .inl he
    · exact .inr (.inl ⟨_, he⟩)
    · exact .inr (.inr (.inl he))
    · refine .inr (.inr (.inr (.inr ⟨s.unlink d fd rest, fd, call.closesIn d, hn, unlink_live hl hp,
        fun hr => unlink_ranLive hl hr hp, ho.1, hh, fun hc => ⟨d, fd, rest, hs, hp, ho, ?_, hc.2.2⟩⟩)))
      cases d <;> exact hc.2.1

theorem pendStep_named (hn : s.Named maxfds) (hl : s.Live) : (pendStep maxfds s a).Named maxfds := by
  rcases pendStep_cases hn hl a with
    he | ⟨d, he⟩ | he | ⟨fd, ho, hlt, he⟩ | ⟨s₀, fd, closes, hn₀, -, -, hi, hh, -⟩
  · rw [he]
    exact hn
  · rw [he]
    exact hn
  · rw [he]
    exact hn
  · rw [he]
    exact hn.setConn fun _ => ⟨.inl rfl, hlt⟩
  · exact hh.named hn₀ hi

/-- A step that closes no linked connection. -/
theorem pendStep_live (hn : s.Named maxfds) (hl : s.Live) (hr : s.RanLive) (hu : StepUnlinked s a) :
    StepLive maxfds s a := by
  show (pendStep maxfds s a).Live ∧ (pendStep maxfds s a).RanLive
  rcases pendStep_cases hn hl a with
    he | ⟨d, he⟩ | he | ⟨fd, ho, hlt, he⟩ | ⟨s₀, fd, closes, hn₀, hl₀, hr₀, hi, hh, hc⟩
  · rw [he]
    exact ⟨hl, hr⟩
  · rw [he]
    exact ⟨startScan_live hl, hr⟩
  · rw [he]
    exact ⟨hl, hr⟩
  · rw [he]
    refine ⟨fun d e hlk => ?_, hr⟩
    have hne : e ≠ fd := by
      rintro rfl
      exact ho (hl d e hlk).1
    rw [setConn_of_ne hne]
    exact hl d e hlk
  · refine ⟨hh.live hn₀ hl₀ hi fun h => hu (hc h), fun r hm => hr₀ hr r ?_⟩
    rwa [hh.ran] at hm

/-- A step that closes a linked connection. -/
theorem pendStep_not_live (hn : s.Named maxfds) (hc : ClosesLinked s a) :
    ¬ (pendStep maxfds s a).Live := by
  cases a with
  | accept fd initconn => exact hc.elim
  | error fd =>
    obtain ⟨hs, ho, d, hlk⟩ := hc
    show ¬ Pend.Live (if s.scan = none ∧ _ then _ else _)
    rw [if_pos ⟨hs, ho.1⟩]
    exact doClose_not_live hn ho hlk
  | readable fd call =>
    obtain ⟨hs, ho, hcl, d, hlk⟩ := hc
    show ¬ Pend.Live (if s.scan = none ∧ _ then _ else _)
    rw [if_pos ⟨hs, ho.1⟩, doRecv_closes ho hcl]
    exact doClose_not_live hn ho hlk
  | writable fd call =>
    obtain ⟨hs, ho, hcl, d, hlk⟩ := hc
    show ¬ Pend.Live (if s.scan = none ∧ _ then _ else _)
    rw [if_pos ⟨hs, ho.1⟩, doSend_closes ho hcl]
    exact doClose_not_live hn ho hlk
  | timeout fd =>
    obtain ⟨hs, ho, d, hlk⟩ := hc
    show ¬ Pend.Live (if s.scan = none ∧ _ then _ else _)
    rw [if_pos ⟨hs, ho.1⟩]
    exact doClose_not_live hn ho hlk
  | scanBegin => exact hc.elim
  | scanNext call =>
    obtain ⟨dir, fd, rest, hs, hp, ho, hcl, d, hlk⟩ := hc
    have hcl : call.closesIn dir = true := by cases dir <;> exact hcl
    show ¬ (s.scanNext maxfds call).Live
    rw [scanNext_closes hn hs hp ho hcl]
    exact doClose_not_live (s := s.unlink dir fd rest) hn ho hlk

/-! ## Runs -/

theorem named_init (maxfds : Nat) : Pend.init.Named maxfds :=
  fun _ h => absurd h (Nat.lt_irrefl 0)

theorem live_init : Pend.init.Live := by
  rintro d fd (hm | hm) <;> cases hm

/-- Deferred work belongs to a live connection after every step of a run, and every deferral has run on
the connection for which it was recorded, exactly in the runs that close no connection while it is linked
in a pending list. -/
theorem deferred_live_iff (maxfds : Nat) (as : List PendAct) :
    RunOk (pendStep maxfds) (StepLive maxfds) Pend.init as ↔
      RunOk (pendStep maxfds) StepUnlinked Pend.init as := by
  constructor
  · refine RunOk.of_invariant (fun s => s.Named maxfds ∧ s.Live) ?_ ?_ ⟨named_init maxfds, live_init⟩
    · rintro s a ⟨hn, hl⟩ h
      exact ⟨pendStep_named hn hl, h.1⟩
    · rintro s a ⟨hn, hl⟩ h hc
      exact pendStep_not_live hn hc h.1
  · refine RunOk.of_invariant (fun s => s.Named maxfds ∧ s.Live ∧ s.RanLive) ?_ ?_
      ⟨named_init maxfds, live_init, fun r hm => nomatch hm⟩
    · rintro s a ⟨hn, hl, hr⟩ hu
      exact ⟨pendStep_named hn hl, pendStep_live hn hl hr hu⟩
    · rintro s a ⟨hn, hl, hr⟩ hu
      exact pendStep_live hn hl hr hu

/-- The connection of descriptor 5 is read, its answer is put off, and the peer goes away before the lists
are scanned. The next peer is given descriptor 5. -/
def reusedRun : List PendAct :=
  [.accept 5 true, .readable 5 ⟨false, false, .send, ⟨true, .addEpollout, .close⟩⟩, .error 5,
    .accept 5 true, .scanBegin, .scanNext ⟨false, false, .addEpollin, ⟨false, .addEpollin, .close⟩⟩]

/-- What was put off for the first connection runs on the second one and closes it. -/
theorem reused_descriptor_closed :
    ¬ RunOk (pendStep 4096) (StepLive 4096) Pend.init reusedRun ∧
      (run (pendStep 4096) Pend.init reusedRun).ran = [⟨5, .send, 1, 2⟩] ∧
      ((run (pendStep 4096) Pend.init (reusedRun.take 5)).acon 5).fd = 5 ∧
      ((run (pendStep 4096) Pend.init reusedRun).acon 5).fd = -1 := by
  refine ⟨fun h => ?_, by decide, by decide, by decide⟩
  obtain ⟨-, -, ⟨hl, -⟩, -⟩ := h
  exact absurd (hl .send 5 (.inl (by decide))).1.2 (by decide)

end VfsOss
