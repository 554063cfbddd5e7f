import VfsOss.Net.Proofs.SendProofs
import VfsOss.Net.Wakeup

/-!
# Proofs: what is left to send is sent

A connection with something left to send waits for `EPOLLOUT` or for its turn. Every call of `do_send` that is not put
off sets this right by its result, so only `do_recv` can break it.
-/

namespace VfsOss

open CLib

variable {c : OutConn} {io : SendIo} {r : OutRecv} {a : OutAct} {s : Sender}

/-- The connection waits for a turn if something is left to send. -/
def OutConn.Awaited (c : OutConn) : Prop :=
  c.out.isOpen = true → c.pending ≠ [] → c.epollout = .due ∨ c.deferred = true

/-! ## One turn -/

/-- What `do_send` comes to, told by its `ret`. -/
theorem doSendBuff_ret (ho : s.isOpen = true) (hp : io.pend = false) :
    ((doSendBuff s io).isOpen = true → OutConn.sendRet s io = .addEpollin → (doSendBuff s io).buf.pending = []) ∧
    ((doSendBuff s io).isOpen = true → OutConn.sendRet s io ≠ .close) := by
  obtain ⟨-, hd⟩ := sendData_moved io.send s
  unfold doSendBuff OutConn.sendRet
  rw [if_neg (by rw [ho, hp]; simp)]
  generalize sendData io.send s = d at hd
  obtain ⟨ret, s1⟩ := d
  dsimp only
  by_cases hret : ret = .addEpollin
  · obtain ⟨-, hdone⟩ := sendFile_moved io.sendfile (hd hret)
    rw [if_pos hret, if_pos hret]
    generalize sendFile io.sendfile s1 = f at hdone
    obtain ⟨ret2, s2⟩ := f
    cases ret2 with
    | addEpollin => exact ⟨fun _ _ => hdone rfl, fun _ => by simp⟩
    | addEpollout => exact ⟨fun _ h => absurd h (by simp), fun _ => by simp⟩
    | close => exact ⟨fun _ h => absurd h (by simp), fun h => absurd h (by simp)⟩
  · rw [if_neg hret, if_neg hret]
    cases ret with
    | addEpollin => exact absurd rfl hret
    | addEpollout => exact ⟨fun _ h => absurd h (by simp), fun _ => by simp⟩
    | close => exact ⟨fun _ h => absurd h (by simp), fun h => absurd h (by simp)⟩

/-- A call of `do_send` leaves nothing forgotten. -/
theorem doSend_awaited (io : SendIo) (c : OutConn) : (c.doSend io).Awaited := by
  intro hopen hne
  unfold OutConn.doSend at hopen hne ⊢
  split
  · next ho =>
    rw [if_pos ho] at hopen hne
    split
    · exact Or.inr rfl
    · next hp =>
      rw [if_neg hp] at hopen hne
      obtain ⟨hnil, hclose⟩ := doSendBuff_ret ho (by simpa using hp)
      refine Or.inl ?_
      have hret : OutConn.sendRet c.out io = .addEpollout := by
        cases hret : OutConn.sendRet c.out io with
        | addEpollin => exact absurd (hnil hopen hret) hne
        | addEpollout => rfl
        | close => exact absurd hret (hclose hopen)
      show (OutConn.sendRet c.out io).event = .due
      rw [hret]
      rfl
  · next ho =>
    rw [if_neg ho] at hopen
    exact absurd hopen ho

theorem doClose_awaited (c : OutConn) : c.doClose.Awaited := fun h => absurd h (by simp [OutConn.doClose])

theorem modifyFdEvent_awaited (c : OutConn) : (c.modifyFdEvent .due).Awaited := fun _ _ => Or.inl rfl

/-- Only a `RECV_ADD_EPOLLIN` of `svc_recv` forgets. -/
theorem doRecv_awaited (h : c.Awaited) : (c.doRecv r).Awaited ↔ ¬ c.Forgets (.readable r) := by
  unfold OutConn.doRecv
  by_cases hidle : ¬ c.out.isOpen ∨ r.pends
  · rw [if_pos hidle]
    refine iff_of_true h fun hf => ?_
    obtain ⟨hopen, hpends, -⟩ := hf
    rcases hidle with hclosed | hp
    · exact hclosed hopen
    · exact absurd (hp.symm.trans hpends) (by simp)
  rw [if_neg hidle]
  rw [not_or, not_not] at hidle
  obtain ⟨hopen, hpends⟩ := hidle
  by_cases hends : r.ends = true
  · rw [if_pos hends]
    refine iff_of_true (doClose_awaited c) fun hf => ?_
    exact absurd (hends.symm.trans hf.2.2.1) (by simp)
  rw [if_neg hends]
  dsimp only
  generalize hc : (if r.eagain then c.modifyFdEvent .no else c) = c1
  have hsame : c1.out = c.out ∧ c1.deferred = c.deferred := by
    rw [← hc]
    split
    · exact ⟨rfl, rfl⟩
    · exact ⟨rfl, rfl⟩
  have hother : r.svcRecv ≠ .addEpollin → ¬ c.Forgets (.readable r) := fun hne hf => hne hf.2.2.2.1
  cases hret : r.svcRecv with
  | send => exact iff_of_true (doSend_awaited _ _) (hother (by rw [hret]; simp))
  | addEpollout => exact iff_of_true (modifyFdEvent_awaited _) (hother (by rw [hret]; simp))
  | addEpollall => exact iff_of_true (modifyFdEvent_awaited _) (hother (by rw [hret]; simp))
  | close => exact iff_of_true (doClose_awaited _) (hother (by rw [hret]; simp))
  | addEpollin =>
    have hpend : ((c1.say r.reply).modifyFdEvent .no).pending = (r.reply c.out.buf).pending := by
      rw [← hsame.1]
      rfl
    have hdef : ((c1.say r.reply).modifyFdEvent .no).deferred = c.deferred := hsame.2
    constructor
    · intro haw hf
      obtain ⟨-, -, -, -, hdeferred, hne⟩ := hf
      have hopen1 : ((c1.say r.reply).modifyFdEvent .no).out.isOpen = true := by
        show c1.out.isOpen = true
        rw [hsame.1]
        exact hopen
      rcases haw hopen1 (by rw [hpend]; exact hne) with hout | hin
      · exact absurd hout (by simp [OutConn.modifyFdEvent])
      · rw [hdef, hdeferred] at hin
        exact absurd hin (by simp)
    · intro hf _ hne
      rw [hpend] at hne
      refine Or.inr ?_
      rw [hdef]
      by_contra hdeferred
      exact hf ⟨hopen, by simpa using hpends, by simpa using hends, hret, by simpa using hdeferred, hne⟩

/-- **The step.** -/
theorem outStep_awaited (h : c.Awaited) (a : OutAct) : (outStep c a).Awaited ↔ ¬ c.Forgets a := by
  cases a with
  | readable r => exact doRecv_awaited h
  | writable r io =>
    refine iff_of_true ?_ not_false
    unfold outStep OutConn.writable
    dsimp only
    split
    · exact h
    · exact doSend_awaited _ _
  | scan io =>
    refine iff_of_true ?_ not_false
    unfold outStep OutConn.scan
    dsimp only
    split
    · exact doSend_awaited _ _
    · exact h
  | activeSend f =>
    refine iff_of_true ?_ not_false
    unfold outStep
    dsimp only
    split
    · exact modifyFdEvent_awaited _
    · exact h
  | close => exact iff_of_true (doClose_awaited c) not_false

/-! ## The turns that follow -/

theorem retry_took (k : Nat) (rs : List SockRes) : retry (.took k :: rs) = .took k := rfl

theorem accepted_pos (len n : Nat) : 0 < accepted len n := by
  unfold accepted
  omega

/-- A socket that takes something of the data. -/
theorem sendData_takes (k : Nat) (rs : List SockRes) (s : Sender) : (sendData (.took k :: rs) s).1 ≠ .close ∧
    (s.buf.data.live ≠ [] → s.sent.length < (sendData (.took k :: rs) s).2.sent.length) := by
  unfold sendData
  cases hg : mybuffGetdata s.buf.data with
  | none => exact ⟨by simp, fun hlive => absurd ((mybuffGetdata_eq_none _).mp hg) hlive⟩
  | some d =>
    rw [retry_took]
    refine ⟨?_, fun hlive => ?_⟩
    · dsimp only
      split
      · simp
      · simp
    · rw [mybuffGetdata_of_live _ hlive] at hg
      obtain rfl := Option.some.inj hg
      have hlen : 0 < s.buf.data.len := by
        rw [← Mybuff.length_live]
        exact List.length_pos_iff.mpr hlive
      have hpos := accepted_pos s.buf.data.len k
      have hle := s.buf.data.le
      dsimp only
      rw [List.length_append, List.length_take]
      omega

/-- A socket that takes something of the file. -/
theorem sendFile_takes (k : Nat) (rs : List SockRes) (s : Sender) : (sendFile (.took k :: rs) s).1 ≠ .close ∧
    ((s.buf.file.map FileSeg.bytes).getD [] ≠ [] → s.sent.length < (sendFile (.took k :: rs) s).2.sent.length) := by
  unfold sendFile
  cases hg : mybuffGetfile s.buf with
  | none => exact ⟨by simp, fun hfile => absurd (mybuffGetfile_eq_none.mp hg) hfile⟩
  | some f =>
    rw [retry_took]
    refine ⟨?_, fun _ => ?_⟩
    · dsimp only
      generalize accepted (if f.flen > gsize then gsize else f.flen) k = n
      split
      · simp
      · simp
    · obtain ⟨-, hpos⟩ := mybuffGetfile_eq_some.mp hg
      have hacc := accepted_pos (if f.flen > gsize then gsize else f.flen) k
      dsimp only
      rw [List.length_append, List.length_take, f.length_bytes]
      omega

/-- A turn in which the socket takes something keeps the connection, and sends something. -/
theorem doSendBuff_takes (ho : s.isOpen = true) (hio : io.Takes) :
    (doSendBuff s io).isOpen = true ∧
    (s.buf.pending ≠ [] → s.sent.length < (doSendBuff s io).sent.length) := by
  obtain ⟨k, rs, hsend⟩ := hio.send
  obtain ⟨j, rs', hsendfile⟩ := hio.sendfile
  obtain ⟨hret1, htake1⟩ := sendData_takes k rs s
  obtain ⟨hmoved1, hnil⟩ := sendData_moved io.send s
  have hkeep := sendData_sent io.send s
  have hidle : s.buf.data.live = [] → sendData io.send s = (.addEpollin, s) := by
    intro hlive
    unfold sendData
    rw [(mybuffGetdata_eq_none _).mpr hlive]
  unfold doSendBuff
  rw [if_neg (by rw [ho, hio.pend]; simp)]
  rw [← hsend] at hret1 htake1
  generalize sendData io.send s = d at hret1 htake1 hmoved1 hnil hkeep hidle
  obtain ⟨ret1, s1⟩ := d
  -- the result of both parts, before it is acted on
  obtain ⟨ret, s2, hboth, hret, hopen, htake⟩ : ∃ ret s2,
      (if ret1 = .addEpollin then sendFile io.sendfile s1 else (ret1, s1)) = (ret, s2) ∧ ret ≠ .close ∧
      s2.isOpen = true ∧ (s.buf.pending ≠ [] → s.sent.length < s2.sent.length) := by
    by_cases hret : ret1 = .addEpollin
    · obtain ⟨hret2, htake2⟩ := sendFile_takes j rs' s1
      obtain ⟨hmoved2, -⟩ := sendFile_moved io.sendfile (hnil hret)
      have hkeep2 := (sendFile_sent io.sendfile s1).length_le
      rw [← hsendfile] at hret2 htake2
      rw [if_pos hret]
      refine ⟨_, _, rfl, hret2, (hmoved2.isOpen.trans hmoved1.isOpen).trans ho, fun hne => ?_⟩
      by_cases hlive : s.buf.data.live = []
      · obtain rfl : s1 = s := congrArg Prod.snd (hidle hlive)
        refine htake2 fun hfile => hne ?_
        rw [SendBuff.pending, hlive, hfile, List.nil_append]
      · exact Nat.lt_of_lt_of_le (htake1 hlive) hkeep2
    · rw [if_neg hret]
      refine ⟨_, _, rfl, hret1, hmoved1.isOpen.trans ho, fun _ => htake1 fun hlive => hret ?_⟩
      exact congrArg Prod.fst (hidle hlive)
  dsimp only
  rw [hboth]
  cases ret with
  | close => exact absurd rfl hret
  | addEpollout => exact ⟨hopen, htake⟩
  | addEpollin =>
    refine ⟨?_, htake⟩
    show (!io.svcClose) = true
    rw [hio.svcClose]
    rfl

/-- A connection that waits for nothing gets no turn. -/
theorem serve_idle (hout : c.epollout ≠ .due) (hdef : c.deferred = false) : c.serve io = c := by
  unfold OutConn.serve
  rw [if_neg (by rw [hdef]; simp), if_neg hout]

/-- One more turn of a connection that waits for it. -/
theorem serve_progress (h : c.Awaited) (ho : c.out.isOpen = true) (hio : io.Takes) :
    (c.serve io).Awaited ∧ (c.serve io).out.isOpen = true ∧
    (c.serve io).out.sent ++ (c.serve io).pending = c.out.sent ++ c.pending ∧
    (c.serve io).pending.length ≤ c.pending.length - 1 := by
  by_cases hidle : c.epollout ≠ .due ∧ c.deferred = false
  · have hnil : c.pending = [] := by
      by_contra hne
      rcases h ho hne with h | h
      · exact hidle.1 h
      · exact absurd (h.symm.trans hidle.2) (by simp)
    rw [serve_idle hidle.1 hidle.2, hnil]
    exact ⟨h, ho, rfl, Nat.le_refl _⟩
  · obtain ⟨c1, hserve, hc1⟩ : ∃ c1 : OutConn, c.serve io = c1.doSend io ∧ c1.out = c.out := by
      unfold OutConn.serve OutConn.scan OutConn.writable
      by_cases hdef : c.deferred = true
      · rw [if_pos hdef, if_pos hdef]
        exact ⟨_, rfl, rfl⟩
      · have hout : c.epollout = .due := by
          by_contra hout
          exact hidle ⟨hout, by simpa using hdef⟩
        rw [if_neg hdef, if_pos hout, if_neg (by rw [hout]; simp)]
        exact ⟨_, rfl, rfl⟩
    have hsend : (c1.doSend io).out = doSendBuff c.out io := by
      unfold OutConn.doSend
      rw [hc1, if_pos ho, if_neg (by rw [hio.pend]; simp)]
    obtain ⟨hopen, htake⟩ := doSendBuff_takes ho hio
    obtain ⟨hstream, -⟩ := doSendBuff_moved c.out io
    rw [hserve]
    refine ⟨doSend_awaited io c1, by rw [hsend]; exact hopen, ?_, ?_⟩
    · rw [OutConn.pending, hsend]
      exact hstream
    · have hlen := congrArg List.length hstream
      have hkeep := (doSendBuff_sent c.out io).length_le
      rw [List.length_append, List.length_append] at hlen
      rw [OutConn.pending, hsend, OutConn.pending]
      by_cases hne : c.out.buf.pending = []
      · rw [hne] at hlen ⊢
        rw [List.length_nil] at hlen
        omega
      · have hmore := htake hne
        omega

/-- As many turns as there are bytes left send them all. -/
theorem OutConn.Awaited.willBeSent (h : c.Awaited) : c.WillBeSent := by
  intro ho ios
  induction ios generalizing c with
  | nil =>
    intro _ hlen
    have hnil : c.pending = [] := List.length_eq_zero_iff.mp (Nat.le_zero.mp hlen)
    refine ⟨?_, hnil⟩
    rw [hnil, List.append_nil]
    rfl
  | cons io ios ih =>
    intro hios hlen
    obtain ⟨haw, hopen, hstream, hless⟩ := serve_progress h ho (hios io List.mem_cons_self)
    rw [List.length_cons] at hlen
    obtain ⟨hsent, hnil⟩ := ih haw hopen (fun io' hin => hios io' (List.mem_cons_of_mem _ hin)) (by omega)
    refine ⟨?_, hnil⟩
    rw [run, hsent, hstream]

theorem run_serve_idle (hout : c.epollout ≠ .due) (hdef : c.deferred = false) (ios : List SendIo) :
    run OutConn.serve c ios = c := by
  induction ios with
  | nil => rfl
  | cons io ios ih => rw [run, serve_idle hout hdef, ih]

/-- A turn in which the socket takes a byte. -/
def oneByte : SendIo := ⟨false, [.took 1], [.took 1], false⟩

theorem takes_oneByte : oneByte.Takes := ⟨rfl, ⟨1, [], rfl⟩, ⟨1, [], rfl⟩, rfl⟩

theorem willBeSent_iff : c.WillBeSent ↔ c.Awaited := by
  refine ⟨fun h ho hne => ?_, fun h => h.willBeSent⟩
  by_contra hidle
  rw [not_or] at hidle
  have hrun := run_serve_idle hidle.1 (by simpa using hidle.2)
    (List.replicate c.pending.length oneByte)
  obtain ⟨-, hnil⟩ := h ho (List.replicate c.pending.length oneByte)
    (fun io hin => (List.eq_of_mem_replicate hin) ▸ takes_oneByte) (by rw [List.length_replicate])
  rw [hrun] at hnil
  exact hne hnil

/-! ## The run -/

theorem run_awaited_iff (h : c.Awaited) (acts : List OutAct) :
    RunOk outStep (fun c a => (outStep c a).WillBeSent) c acts ↔ RunOk outStep (fun c a => ¬ c.Forgets a) c acts := by
  induction acts generalizing c with
  | nil => exact Iff.rfl
  | cons a acts ih =>
    have hstep : (outStep c a).WillBeSent ↔ ¬ c.Forgets a := willBeSent_iff.trans (outStep_awaited h a)
    constructor
    · intro hok
      exact ⟨hstep.mp hok.1, (ih (willBeSent_iff.mp hok.1)).mp hok.2⟩
    · intro hok
      have haw := (outStep_awaited h a).mpr hok.1
      exact ⟨hstep.mpr hok.1, (ih haw).mpr hok.2⟩

/-- **What is left to send is sent**, in every state of a run of a connection, exactly if no step of the run forgets it:
if `svc_recv` never returns `RECV_ADD_EPOLLIN` over a buffer that is not empty while no turn is put off. -/
theorem output_sent_iff (initBuffSize : Nat) (mem : Nat → UInt8) (sendBuff : Mybuff) (deferred : Bool)
    (acts : List OutAct) :
    RunOk outStep (fun c a => (outStep c a).WillBeSent) (.start initBuffSize mem sendBuff deferred) acts ↔
      RunOk outStep (fun c a => ¬ c.Forgets a) (.start initBuffSize mem sendBuff deferred) acts := by
  refine run_awaited_iff (fun _ hne => ?_) acts
  refine absurd ?_ hne
  show (mybuffReinit initBuffSize mem sendBuff).live ++ [] = []
  rw [live_mybuffReinit, List.append_nil]

/-- A reply of two bytes, of which the socket takes one; then half a request arrives. -/
example :
    let reply : SendBuff → SendBuff := fun b => { b with data := mybuffSetdata 8 (fun _ => 0) b.data [1, 2] }
    let c := run outStep (.start 8 (fun _ => 0) mybuffInit false)
      [.readable ⟨false, false, false, reply, .send, oneByte⟩,
        .readable ⟨false, false, false, id, .addEpollin, oneByte⟩]
    c.pending = [2] ∧ c.epollout = .no ∧ c.deferred = false := by decide

end VfsOss
