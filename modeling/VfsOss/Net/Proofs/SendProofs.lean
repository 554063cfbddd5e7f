import VfsOss.Net.Send
import VfsOss.Net.Proofs.MybuffProofs
import VfsOss.CLib.Run

/-!
# Proofs: sending loses nothing

A call moves bytes from the front of what the buffer holds to the end of what the socket has taken.
-/

namespace VfsOss

open CLib

variable {s s' : Sender} {b : SendBuff} {rs : List SockRes}

theorem accepted_le {len n : Nat} (h : 0 < len) : accepted len n ≤ len := by
  unfold accepted
  omega

/-! ## The file segment -/

theorem FileSeg.length_bytes (f : FileSeg) : f.bytes.length = f.flen := by
  have := f.le
  simp only [FileSeg.bytes, List.length_take, List.length_drop]
  omega

theorem mybuffGetfile_eq_some {f : FileSeg} :
    mybuffGetfile b = some f ↔ b.file = some f ∧ 0 < f.flen := by
  unfold mybuffGetfile
  rw [Option.filter_eq_some_iff]
  simp

theorem mybuffGetfile_eq_none :
    mybuffGetfile b = none ↔ (b.file.map FileSeg.bytes).getD [] = [] := by
  unfold mybuffGetfile
  cases hf : b.file with
  | none => simp
  | some f =>
    have hlen := f.length_bytes
    rw [Option.filter_eq_none_iff]
    constructor
    · intro h
      have h0 : f.flen = 0 := by simpa using h f rfl
      exact List.length_eq_zero_iff.mp (hlen.trans h0)
    · intro h g hg
      obtain rfl := Option.some.inj hg
      have h0 : f.bytes = [] := h
      rw [h0] at hlen
      simp [← hlen]

/-- What is left of the segment after `n` bytes of it. -/
theorem mybuffSkipfile_bytes {f : FileSeg} (hf : b.file = some f) (n : Nat) :
    ((mybuffSkipfile b n).file.map FileSeg.bytes).getD [] = f.bytes.drop n := by
  have hlen := f.length_bytes
  unfold mybuffSkipfile
  rw [hf]
  dsimp only
  split
  · next h => simp [List.drop_eq_nil_of_le (by omega : f.bytes.length ≤ n)]
  · next h =>
    simp only [Option.map_some, Option.getD_some, FileSeg.bytes]
    rw [List.drop_take, List.drop_drop]

theorem mybuffSkipfile_data (n : Nat) : (mybuffSkipfile b n).data = b.data := by
  unfold mybuffSkipfile
  split
  · rfl
  · split <;> rfl

/-! ## One call -/

/-- Bytes have gone from the buffer to the socket; after a return of `SEND_ADD_EPOLLIN` none of the
part `left` is there any more. -/
structure Moved (s s' : Sender) : Prop where
  stream : s'.sent ++ s'.buf.pending = s.sent ++ s.buf.pending
  served : s'.served = s.served
  isOpen : s'.isOpen = s.isOpen

theorem Moved.refl : Moved s s := ⟨rfl, rfl, rfl⟩

theorem sendData_moved (rs : List SockRes) (s : Sender) :
    Moved s (sendData rs s).2 ∧
    ((sendData rs s).1 = .addEpollin → (sendData rs s).2.buf.data.live = []) := by
  unfold sendData
  cases hg : mybuffGetdata s.buf.data with
  | none => exact ⟨.refl, fun _ => (mybuffGetdata_eq_none s.buf.data).mp hg⟩
  | some p =>
    obtain ⟨data, len⟩ := p
    have hlive : s.buf.data.live ≠ [] := fun hn => by
      rw [(mybuffGetdata_eq_none s.buf.data).mpr hn] at hg
      exact absurd hg (by simp)
    rw [mybuffGetdata_of_live s.buf.data hlive] at hg
    obtain ⟨rfl, rfl⟩ := Prod.mk.inj (Option.some.inj hg)
    have hlen := s.buf.data.length_live
    have hpos : 0 < s.buf.data.len := by
      rw [← hlen]
      exact List.length_pos_iff.mpr hlive
    cases hr : retry rs with
    | took k =>
      have hn : accepted s.buf.data.len k ≤ s.buf.data.len := accepted_le hpos
      dsimp only
      generalize accepted s.buf.data.len k = n at hn
      have htake : s.buf.data.data.take n = s.buf.data.live.take n := by
        rw [Mybuff.live, List.take_take, Nat.min_eq_left hn]
      have hskip := live_mybuffSkipdata s.buf.data n
      refine ⟨⟨?_, rfl, rfl⟩, fun hret => ?_⟩
      · simp only [SendBuff.pending, hskip, htake]
        rw [List.append_assoc, ← List.append_assoc (List.take n _), List.take_append_drop]
      · have hall : s.buf.data.len ≤ n := by
          by_contra hlt
          simp only [if_pos (Nat.lt_of_not_le hlt)] at hret
          exact absurd hret (by simp)
        simp only [hskip]
        exact List.drop_eq_nil_of_le (by omega)
    | eintr => exact ⟨.refl, fun h => absurd h (by simp)⟩
    | eagain => exact ⟨.refl, fun h => absurd h (by simp)⟩
    | enoent => exact ⟨.refl, fun h => absurd h (by simp)⟩
    | error => exact ⟨.refl, fun h => absurd h (by simp)⟩

/-- The file is only sent when no data is left before it. -/
theorem sendFile_moved (rs : List SockRes) (hd : s.buf.data.live = []) :
    Moved s (sendFile rs s).2 ∧
    ((sendFile rs s).1 = .addEpollin → (sendFile rs s).2.buf.pending = []) := by
  unfold sendFile
  cases hg : mybuffGetfile s.buf with
  | none =>
    refine ⟨.refl, fun _ => ?_⟩
    simp only [SendBuff.pending, hd, mybuffGetfile_eq_none.mp hg, List.append_nil]
  | some f =>
    obtain ⟨hf, hpos⟩ := mybuffGetfile_eq_some.mp hg
    have hlen := f.length_bytes
    dsimp only
    cases hr : retry rs with
    | took k =>
      dsimp only
      generalize accepted (if f.flen > gsize then gsize else f.flen) k = n
      have hskip := mybuffSkipfile_bytes hf n
      have hdata := mybuffSkipfile_data (b := s.buf) n
      have hpend : s.buf.pending = f.bytes := by simp [SendBuff.pending, hd, hf]
      have hpend' : (mybuffSkipfile s.buf n).pending = f.bytes.drop n := by
        rw [SendBuff.pending, hskip, hdata, hd, List.nil_append]
      refine ⟨⟨?_, rfl, rfl⟩, fun hret => ?_⟩
      · simp only [hpend, hpend']
        rw [List.append_assoc, List.take_append_drop]
      · have hall : f.flen ≤ n := by
          by_contra hlt
          simp only [if_pos (Nat.lt_of_not_le hlt)] at hret
          exact absurd hret (by simp)
        simp only [hpend']
        exact List.drop_eq_nil_of_le (by omega)
    | eintr => exact ⟨.refl, fun h => absurd h (by simp)⟩
    | eagain => exact ⟨.refl, fun h => absurd h (by simp)⟩
    | enoent => exact ⟨.refl, fun h => absurd h (by simp)⟩
    | error => exact ⟨.refl, fun h => absurd h (by simp)⟩

theorem Moved.trans {s'' : Sender} (h : Moved s s') (h' : Moved s' s'') : Moved s s'' :=
  ⟨h'.stream.trans h.stream, h'.served.trans h.served, h'.isOpen.trans h.isOpen⟩

/-- What a call does: bytes are moved, and `svc_send` is called only with an empty buffer. -/
theorem doSendBuff_moved (s : Sender) (io : SendIo) :
    (doSendBuff s io).sent ++ (doSendBuff s io).buf.pending = s.sent ++ s.buf.pending ∧
    ((doSendBuff s io).served = s.served ∨
      (doSendBuff s io).served = s.served ++ [(doSendBuff s io).sent] ∧
      (doSendBuff s io).buf.pending = []) := by
  unfold doSendBuff
  split
  · exact ⟨rfl, Or.inl rfl⟩
  · obtain ⟨h1, hd⟩ := sendData_moved io.send s
    generalize sendData io.send s = r at h1 hd
    obtain ⟨ret, s1⟩ := r
    obtain ⟨ret2, s2, hr, h2, hdone⟩ : ∃ ret2 s2,
        (if ret = .addEpollin then sendFile io.sendfile s1 else (ret, s1)) = (ret2, s2) ∧
        Moved s s2 ∧ (ret2 = .addEpollin → s2.buf.pending = []) := by
      split
      · next hret =>
        obtain ⟨h2, hdone⟩ := sendFile_moved io.sendfile (hd hret)
        exact ⟨_, _, rfl, h1.trans h2, hdone⟩
      · next hret => exact ⟨_, _, rfl, h1, fun h => absurd h hret⟩
    dsimp only
    rw [hr]
    cases ret2 with
    | close => exact ⟨h2.stream, Or.inl h2.served⟩
    | addEpollout => exact ⟨h2.stream, Or.inl h2.served⟩
    | addEpollin => exact ⟨h2.stream, Or.inr ⟨by rw [← h2.served], hdone rfl⟩⟩

/-! ## What has been sent stays sent -/

theorem sendData_sent (rs : List SockRes) (s : Sender) : s.sent <+: (sendData rs s).2.sent := by
  unfold sendData
  cases mybuffGetdata s.buf.data with
  | none => exact List.prefix_rfl
  | some d =>
    cases retry rs with
    | took k => exact List.prefix_append _ _
    | eintr => exact List.prefix_rfl
    | eagain => exact List.prefix_rfl
    | enoent => exact List.prefix_rfl
    | error => exact List.prefix_rfl

theorem sendFile_sent (rs : List SockRes) (s : Sender) : s.sent <+: (sendFile rs s).2.sent := by
  unfold sendFile
  cases mybuffGetfile s.buf with
  | none => exact List.prefix_rfl
  | some f =>
    cases retry rs with
    | took k => exact List.prefix_append _ _
    | eintr => exact List.prefix_rfl
    | eagain => exact List.prefix_rfl
    | enoent => exact List.prefix_rfl
    | error => exact List.prefix_rfl

theorem doSendBuff_sent (s : Sender) (io : SendIo) : s.sent <+: (doSendBuff s io).sent := by
  unfold doSendBuff
  split
  · exact List.prefix_rfl
  · have hdata := sendData_sent io.send s
    generalize sendData io.send s = r at hdata
    have hboth : s.sent <+: (if r.1 = .addEpollin then sendFile io.sendfile r.2 else r).2.sent := by
      split
      · exact hdata.trans (sendFile_sent _ _)
      · exact hdata
    dsimp only
    generalize (if r.1 = .addEpollin then sendFile io.sendfile r.2 else r) = r at hboth
    obtain ⟨ret, s'⟩ := r
    cases ret with
    | close => exact hboth
    | addEpollout => exact hboth
    | addEpollin => exact hboth

/-! ## Any number of calls -/

/-- **The stream is sent intact.** Whatever the socket does, what it has taken followed by what the
buffer holds is the data followed by the file segment, and `svc_send` is called only when the socket has
taken all of it. -/
theorem send_stream_intact (b : SendBuff) (ios : List SendIo) :
    (run doSendBuff (.start b) ios).sent ++ (run doSendBuff (.start b) ios).buf.pending = b.pending ∧
    ∀ x ∈ (run doSendBuff (.start b) ios).served, x = b.pending := by
  refine run_invariant_all
    (fun s : Sender => s.sent ++ s.buf.pending = b.pending ∧ ∀ x ∈ s.served, x = b.pending)
    (fun s io h => ?_) ⟨rfl, fun x hx => absurd hx (by simp [Sender.start])⟩ ios
  obtain ⟨hstream, hserved⟩ := doSendBuff_moved s io
  refine ⟨hstream.trans h.1, fun x hx => ?_⟩
  rcases hserved with he | ⟨he, hdone⟩
  · rw [he] at hx
    exact h.2 x hx
  · rw [he] at hx
    rcases List.mem_append.mp hx with hx | hx
    · exact h.2 x hx
    · rw [hdone, List.append_nil, h.1] at hstream
      rw [List.mem_singleton.mp hx, hstream]

end VfsOss
