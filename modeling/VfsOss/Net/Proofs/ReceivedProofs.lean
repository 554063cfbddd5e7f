import VfsOss.Net.Received
import VfsOss.Net.Proofs.MybuffProofs

/-!
# Proofs: what has been received reaches the plugin

The live bytes of the buffer end with those that no call of `svc_recv` has seen. Outside the loop of `do_recv` there
are none.
-/

namespace VfsOss

open CLib

variable {initBuffSize : Nat} {mem : Nat → UInt8} {c : RecvConn} {svc : SvcRecv}

/-- The bookkeeping of a connection. -/
structure RecvConn.Keeps (c : RecvConn) : Prop where
  live : c.buff.len + c.consumed = c.received.length
  offeredLe : c.offered ≤ c.received.length
  consumedLe : c.consumed ≤ c.offered
  seen : ∀ i < c.offered, c.Offered i
  unseen : ∀ call ∈ c.calls, call.1 + call.2.length ≤ c.offered
  tail : c.buff.live.drop (c.offered - c.consumed) = c.received.drop c.offered

/-- Outside the loop of `do_recv` every byte has been offered. -/
def RecvConn.Idle (c : RecvConn) : Prop := c.inCall = false → c.offered = c.received.length

theorem RecvConn.keeps_start (buff : Mybuff) (h : buff.live = []) : (RecvConn.start buff h).Keeps where
  live := by
    have hlen := buff.length_live
    rw [h] at hlen
    exact hlen.symm
  offeredLe := Nat.le_refl 0
  consumedLe := Nat.le_refl 0
  seen i hi := absurd hi (Nat.not_lt_zero i)
  unseen call hc := absurd hc List.not_mem_nil
  tail := by rw [show (RecvConn.start buff h).buff.live = [] from h]; rfl

/-- Bytes put behind the live ones. -/
theorem RecvConn.Keeps.append (h : c.Keeps) (d : Bytes) :
    RecvConn.Keeps { c with buff := mybuffSetdata initBuffSize mem c.buff d, received := c.received ++ d } where
  live := by
    have hlive := h.live
    simp only [len_mybuffSetdata, List.length_append]
    omega
  offeredLe := by
    have hle := h.offeredLe
    simp only [List.length_append]
    omega
  consumedLe := h.consumedLe
  seen i hi := by
    obtain ⟨call, hc, hlo, hhi, heq⟩ := h.seen i hi
    have hlt : i < c.received.length := Nat.lt_of_lt_of_le hi h.offeredLe
    exact ⟨call, hc, hlo, hhi, heq.trans (List.getElem?_append_left hlt).symm⟩
  unseen := h.unseen
  tail := by
    have hlive := h.live
    have hle := h.offeredLe
    have hcle := h.consumedLe
    simp only [live_mybuffSetdata]
    rw [List.drop_append_of_le_length (by rw [c.buff.length_live]; omega), h.tail, List.drop_append_of_le_length hle]

/-- A call of `svc_recv` sees every byte that none before has seen. -/
theorem RecvConn.Keeps.call (h : c.Keeps) :
    ∀ i < c.received.length, RecvConn.Offered { c with calls := c.calls ++ [(c.consumed, c.buff.live)] } i := by
  intro i hi
  by_cases hlt : i < c.offered
  · obtain ⟨call, hc, hrest⟩ := h.seen i hlt
    exact ⟨call, List.mem_append_left _ hc, hrest⟩
  · have hlive := h.live
    have hcle := h.consumedLe
    have hlen := c.buff.length_live
    refine ⟨_, List.mem_append_right _ (List.mem_singleton_self _), ?_, ?_, ?_⟩
    · show c.consumed ≤ i
      omega
    · show i < c.consumed + c.buff.live.length
      omega
    · have htail := congrArg (fun l => l[i - c.offered]?) h.tail
      simp only [List.getElem?_drop] at htail
      rw [show c.offered - c.consumed + (i - c.offered) = i - c.consumed by omega,
        show c.offered + (i - c.offered) = i by omega] at htail
      exact htail

theorem RecvConn.Keeps.svcRecv (h : c.Keeps) (svc : SvcRecv) : (c.svcRecv svc).Keeps := by
  have hlen := c.buff.length_live
  have hlive := h.live
  have hle := svc.le c.buff
  have hb := (svc.answer c.buff).2.length_live
  have hkeeps : RecvConn.Keeps { c with
      inCall := false
      buff := (svc.answer c.buff).2
      offered := c.received.length
      consumed := c.consumed + (c.buff.len - (svc.answer c.buff).2.len)
      calls := c.calls ++ [(c.consumed, c.buff.live)] } := by
    refine ⟨?_, Nat.le_refl _, ?_, fun i hi => h.call i hi, fun call hc => ?_, ?_⟩
    · show (svc.answer c.buff).2.len + (c.consumed + (c.buff.len - (svc.answer c.buff).2.len)) = c.received.length
      omega
    · show c.consumed + (c.buff.len - (svc.answer c.buff).2.len) ≤ c.received.length
      omega
    · rcases List.mem_append.mp hc with hc | hc
      · exact Nat.le_trans (h.unseen call hc) h.offeredLe
      · rw [List.mem_singleton.mp hc]
        show c.consumed + c.buff.live.length ≤ c.received.length
        omega
    · show (svc.answer c.buff).2.live.drop _ = c.received.drop c.received.length
      rw [List.drop_length, List.drop_eq_nil_of_le]
      show (svc.answer c.buff).2.live.length ≤
        c.received.length - (c.consumed + (c.buff.len - (svc.answer c.buff).2.len))
      omega
  unfold RecvConn.svcRecv
  dsimp only
  split
  · exact ⟨hkeeps.live, hkeeps.offeredLe, hkeeps.consumedLe, hkeeps.seen, hkeeps.unseen, hkeeps.tail⟩
  · exact hkeeps

theorem RecvConn.svcRecv_idle (c : RecvConn) (svc : SvcRecv) :
    (c.svcRecv svc).offered = (c.svcRecv svc).received.length := by
  unfold RecvConn.svcRecv
  dsimp only
  split <;> rfl

theorem RecvConn.Keeps.doClose (h : c.Keeps) : c.doClose.Keeps :=
  ⟨h.live, h.offeredLe, h.consumedLe, h.seen, h.unseen, h.tail⟩

/-- Every byte has been offered exactly if none has come since the last call. -/
theorem RecvConn.Keeps.offered_iff (h : c.Keeps) :
    (∀ i < c.received.length, c.Offered i) ↔ c.offered = c.received.length := by
  constructor
  · intro hall
    by_contra hne
    have hlt : c.offered < c.received.length := Nat.lt_of_le_of_ne h.offeredLe hne
    obtain ⟨call, hc, -, hhi, -⟩ := hall c.offered hlt
    exact absurd (h.unseen call hc) (Nat.not_le.mpr hhi)
  · intro heq i hi
    exact h.seen i (heq ▸ hi)

/-- What every state of a connection satisfies. -/
structure RecvConn.Sound (c : RecvConn) : Prop where
  keeps : c.Keeps
  idle : c.isOpen = true → c.Idle

theorem RecvConn.Keeps.sound_svcRecv (h : c.Keeps) (svc : SvcRecv) : (c.svcRecv svc).Sound :=
  ⟨h.svcRecv svc, fun _ _ => c.svcRecv_idle svc⟩

theorem RecvConn.Keeps.sound_doClose (h : c.Keeps) : c.doClose.Sound := 
  ⟨h.doClose, fun hopen => absurd hopen Bool.false_ne_true⟩

/-- The loop goes on. -/
theorem RecvConn.Keeps.sound_inCall (h : c.Keeps) : RecvConn.Sound { c with inCall := true } :=
  ⟨⟨h.live, h.offeredLe, h.consumedLe, h.seen, h.unseen, h.tail⟩, fun _ hidle => absurd hidle (by simp)⟩

theorem recvStep_recv (hopen : c.isOpen = true) (r : RecvRes initBuffSize) (svc : SvcRecv) :
    recvStep mem c (.recv r svc) = c.round mem svc r := if_pos hopen

theorem RecvConn.round_full {d : Bytes} {pos : d ≠ []} {le : d.length ≤ initBuffSize} (hfull : d.length = initBuffSize) :
    c.round mem svc (.bytes d pos le) =
      { c with
        inCall := true
        buff := mybuffSetdata initBuffSize mem c.buff d
        received := c.received ++ d } := if_pos hfull

theorem RecvConn.Keeps.sound_round (h : c.Keeps) (svc : SvcRecv) (r : RecvRes initBuffSize) :
    (c.round mem svc r).Sound := by
  cases r with
  | bytes d pos le =>
    rw [RecvConn.round]
    split
    · exact (h.append d).sound_inCall
    · exact (h.append d).sound_svcRecv svc
  | eof => exact h.sound_doClose
  | eintr => exact h.sound_inCall
  | eagain => exact h.sound_svcRecv svc
  | error => exact h.sound_doClose

theorem RecvConn.Sound.step (h : c.Sound) (a : RecvAct initBuffSize) : (recvStep mem c a).Sound := by
  cases a with
  | close =>
    rw [recvStep]
    split
    · exact h
    · exact h.keeps.sound_doClose
  | recv r svc =>
    rw [recvStep]
    split
    · exact h.keeps.sound_round svc r
    · exact h

/-- Behind a call of `svc_recv` there is nothing to drop. -/
theorem RecvConn.Keeps.offered_svcRecv (h : c.Keeps) (svc : SvcRecv) :
    ∀ i < (c.svcRecv svc).received.length, (c.svcRecv svc).Offered i :=
  (h.svcRecv svc).offered_iff.mpr (c.svcRecv_idle svc)

/-- Closing drops nothing exactly if every byte has been offered. -/
theorem RecvConn.Keeps.offered_doClose (h : c.Keeps) :
    (∀ i < c.doClose.received.length, c.doClose.Offered i) ↔ c.offered = c.received.length :=
  h.doClose.offered_iff

/-- The two ends of the loop that close the connection at once. -/
theorem dropsNothing_close (h : c.Sound) {a : RecvAct initBuffSize} (hopen : c.isOpen = true)
    (hstep : recvStep mem c a = c.doClose) (hend : ∃ svc, a = .recv .eof svc ∨ a = .recv .error svc) :
    DropsNothing mem c a ↔ ¬ EndsBehindFullRead c a := by
  unfold DropsNothing
  rw [hstep, h.keeps.offered_doClose]
  constructor
  · intro hdrop hends
    exact absurd (hdrop hopen rfl) (Nat.ne_of_lt hends.2.1)
  · intro hends _ _
    by_contra hne
    exact hends ⟨hopen, Nat.lt_of_le_of_ne h.keeps.offeredLe hne, hend⟩

theorem not_endsBehind_close (c : RecvConn) : ¬ EndsBehindFullRead c (.close : RecvAct initBuffSize) := by
  rintro ⟨-, -, svc, h | h⟩
  · cases h
  · cases h

theorem not_endsBehind_recv {r : RecvRes initBuffSize} (heof : r ≠ .eof) (herr : r ≠ .error) :
    ¬ EndsBehindFullRead c (.recv r svc) := by
  rintro ⟨-, -, svc', h | h⟩
  · exact heof (RecvAct.recv.inj h).1
  · exact herr (RecvAct.recv.inj h).1

/-- A step drops nothing exactly if it does not end the loop behind a full read. -/
theorem dropsNothing_iff (h : c.Sound) (a : RecvAct initBuffSize) :
    DropsNothing mem c a ↔ ¬ EndsBehindFullRead c a := by
  by_cases hopen : c.isOpen = true
  · cases a with
    | close =>
      refine iff_of_true (fun _ hclosed => ?_) (not_endsBehind_close c)
      rw [recvStep] at hclosed ⊢
      by_cases hin : c.inCall = true
      · rw [if_pos hin, hopen] at hclosed
        exact absurd hclosed (by simp)
      · rw [if_neg hin]
        exact h.keeps.offered_doClose.mpr (h.idle hopen (Bool.not_eq_true _ ▸ hin))
    | recv r svc =>
      cases r with
      | bytes d pos le =>
        refine iff_of_true (fun _ hclosed => ?_) (not_endsBehind_recv (by simp) (by simp))
        rw [recvStep_recv hopen, RecvConn.round] at hclosed ⊢
        by_cases hfull : d.length = initBuffSize
        · rw [if_pos hfull] at hclosed
          exact absurd (hopen.symm.trans hclosed) (by simp)
        · rw [if_neg hfull]
          exact (h.keeps.append d).offered_svcRecv svc
      | eof => exact dropsNothing_close h hopen (recvStep_recv hopen _ svc) ⟨svc, Or.inl rfl⟩
      | eintr =>
        refine iff_of_true (fun _ hclosed => ?_) (not_endsBehind_recv (by simp) (by simp))
        rw [recvStep_recv hopen] at hclosed
        exact absurd (hopen.symm.trans hclosed) (by simp)
      | eagain =>
        refine iff_of_true (fun _ _ => ?_) (not_endsBehind_recv (by simp) (by simp))
        rw [recvStep_recv hopen]
        exact h.keeps.offered_svcRecv svc
      | error => exact dropsNothing_close h hopen (recvStep_recv hopen _ svc) ⟨svc, Or.inr rfl⟩
  · exact iff_of_true (fun ho => absurd ho hopen) fun hends => hopen hends.1

/-- The runs that drop nothing. -/
theorem runOk_dropsNothing (buff : Mybuff) (hnew : buff.live = []) (as : List (RecvAct initBuffSize)) :
    RunOk (recvStep mem) (DropsNothing mem) (RecvConn.start buff hnew) as ↔
      RunOk (recvStep mem) (fun c a => ¬ EndsBehindFullRead c a) (RecvConn.start buff hnew) as :=
  RunOk.iff_of_invariant RecvConn.Sound (fun _ a h => h.step a) (fun _ a h => dropsNothing_iff h a)
    ⟨RecvConn.keeps_start buff hnew, fun _ _ => rfl⟩ as

/-- **No received byte is dropped**, in any run of a connection, exactly if no end of the stream and no error comes
right behind reads that have filled the I/O buffer. -/
theorem nothing_dropped_iff (initBuffSize : Nat) (mem : Nat → UInt8) (buff : Mybuff) (hnew : buff.live = [])
    (as : List (RecvAct initBuffSize)) :
    RunOk (recvStep mem) (DropsNothing mem) (RecvConn.start buff hnew) as ↔
      RunOk (recvStep mem) (fun c a => ¬ EndsBehindFullRead c a) (RecvConn.start buff hnew) as :=
  runOk_dropsNothing buff hnew as

theorem zero_within (b : Mybuff) : 0 ≤ b.data.length := Nat.zero_le _

/-- A plugin that consumes all it is given. -/
def consumesAll : SvcRecv := ⟨fun b => (false, ⟨b.data, 0, zero_within b⟩), fun _ => Nat.zero_le _⟩

theorem nothing_dropped_short :
    RunOk (recvStep fun _ => 0) (DropsNothing fun _ => 0) (RecvConn.start mybuffInit rfl)
      [.recv (.bytes [1, 2] (by decide) (by decide)) consumesAll, .recv (.eof : RecvRes 20480) consumesAll] :=
  (nothing_dropped_iff 20480 (fun _ => 0) mybuffInit rfl _).mpr
    ⟨not_endsBehind_recv (by simp) (by simp), fun h => absurd h.2.1 (by decide), trivial⟩

/-- A read that fills the I/O buffer. -/
def fullRead : RecvRes 20480 :=
  .bytes (List.replicate 20480 1) (List.ne_nil_of_length_pos (by rw [List.length_replicate]; decide))
    (Nat.le_of_eq List.length_replicate)

/-- The peer sends as many bytes as the I/O buffer holds and closes: `svc_recv` is never called for them. -/
theorem full_read_dropped :
    ¬ RunOk (recvStep fun _ => 0) (DropsNothing fun _ => 0) (RecvConn.start mybuffInit rfl)
      [.recv fullRead consumesAll, .recv .eof consumesAll] := by
  intro h
  obtain ⟨-, hends, -⟩ := (runOk_dropsNothing mybuffInit rfl _).mp h
  rw [recvStep_recv rfl, fullRead, RecvConn.round_full List.length_replicate] at hends
  refine hends ⟨rfl, ?_, consumesAll, Or.inl rfl⟩
  simp only [RecvConn.start, List.nil_append, List.length_replicate]
  exact Nat.succ_pos _

end VfsOss
