import VfsOss.Net.Proofs.MybuffProofs
import VfsOss.Sm.Descriptor
import VfsOss.Proto.Proofs.HeaderProofs
import VfsOss.CLib.Proofs.DecimalProofs
import VfsOss.Sm.Proofs.HandoverProofs

/-!
# Proofs: what `check_req` accepts

A record is made in a step exactly when a header is found, with the header's numbers in it. While the
headers describe blocks, the bytes of every block are counted up to its length.
-/

namespace VfsOss

open CLib

variable {cfg : Cfg} {opens : Bool} {io : RecvIo} {s s' : Sm} {fd : Nat} {chunk : Bytes} {l : HeaderLines}
variable {peer : Peer} {loc : Nat → Loc} {t : Tasklist}

/-! ## The record made from a header -/

/-- The position a header gives its block. -/
def HttpHeader.sub (h : HttpHeader) : TaskSub :=
  { TaskSub.zero with idx := h.idx, count := h.count, start := h.start, end_ := h.end_ }

/-- The same, from the lines. -/
def HeaderLines.sub (l : HeaderLines) : TaskSub :=
  { TaskSub.zero with
    idx := toInt32 (atol l.idx)
    count := toInt32 (atol l.count)
    start := atol l.start
    end_ := atol l.end_ }

theorem values_of_carries {values : List Bytes} {text : Bytes}
    (h : Carries (SmClient.fields.map Field.item) values text) : ∃ l : HeaderLines, l.values = values := by
  have hlen : ∀ {items values : List Bytes} {text : Bytes}, Carries items values text →
      values.length = items.length := by
    intro items values text hc
    induction hc with
    | nil => rfl
    | cons _ _ _ _ _ _ ih => rw [List.length_cons, List.length_cons, ih]
  match values, hlen h with
  | [a, b, c, d, e, f, g, i, j], _ => exact ⟨⟨a, b, c, d, e, f, g, i, j⟩, rfl⟩

/-- The header `parse_header` leaves for lines that are there. -/
theorem parseHeader_lines {text : Bytes} (h0 : HttpHeader)
    (h : Carries (SmClient.fields.map Field.item) l.values text) :
    (SmClient.parseHeader h0 text).1 = true ∧
    (SmClient.parseHeader h0 text).2.1.type = UInt8.ofInt (atoi l.type) ∧
    (SmClient.parseHeader h0 text).2.1.sub = l.sub := by
  obtain ⟨r, hr⟩ := parseFields_carried h h0
  unfold SmClient.parseHeader
  rw [hr]
  exact ⟨rfl, rfl, rfl⟩

theorem doPrepareRecvfile_log (cfg : Cfg) (io : RecvIo) (fd : Nat) (peer : Peer) (t : Tasklist) (n : Int)
    (s : Sm) : (doPrepareRecvfile cfg io fd peer t n s).2.log = s.log := by
  unfold doPrepareRecvfile
  split
  · rfl
  · dsimp only
    split <;> rfl

/-- The names in that header. -/
theorem parseHeader_names {text : Bytes} (h0 : HttpHeader)
    (h : Carries (SmClient.fields.map Field.item) l.values text) :
    (SmClient.parseHeader h0 text).2.1.filename = snprintf 255 l.filename ∧
    (SmClient.parseHeader h0 text).2.1.hostname = snprintf 128 l.hostname := by
  obtain ⟨r, hr⟩ := parseFields_carried h h0
  unfold SmClient.parseHeader
  rw [hr]
  exact ⟨rfl, rfl⟩

/-- A record made from a header with the lines: the position it gives, and its names. -/
structure Tasklist.MadeFrom (t : Tasklist) (l : HeaderLines) : Prop where
  sub : t.sub = l.sub
  hostname : t.base.hostname = snprintf 256 (snprintf 128 l.hostname)
  filename : t.base.filename = snprintf 256 (snprintf 255 l.filename)

/-- `check_req` behind a parsed header makes a record, with the position and the names the header gives. -/
theorem startTask_post (cfg : Cfg) (io : RecvIo) (fd : Nat) (peer : Peer) (clen : Nat) (hty : peer.header.type ≠ 250)
    (hrec : ∃ t, (vfsGetTask cfg.mallocOk s.store .home).1 = .ok t) :
    ∃ t, t.sub = peer.header.sub ∧ t.base.hostname = snprintf 256 peer.header.hostname ∧
      t.base.filename = snprintf 256 peer.header.filename ∧
      (startTask cfg io fd peer clen s).2.log = s.log ++ [.post t] := by
  obtain ⟨task, hrec⟩ := hrec
  unfold startTask
  rw [if_neg hty]
  rcases hg : vfsGetTask cfg.mallocOk s.store .home with ⟨r, st⟩
  rw [hg] at hrec
  obtain rfl : r = .ok task := hrec
  dsimp only
  refine ⟨{ task with
    base := (convertHttpheader2Task peer.header { TaskBase.zero with usrcip := peer.ip } .zero).1
    sub := (convertHttpheader2Task peer.header { TaskBase.zero with usrcip := peer.ip } .zero).2
    got := [] }, rfl, rfl, rfl, ?_⟩
  rw [setConn_log, doPrepareRecvfile_log]
  rfl

/-- Nothing is made for the query, or without a record. -/
theorem startTask_quiet (cfg : Cfg) (io : RecvIo) (fd clen : Nat)
    (h : ¬ (peer.header.type ≠ 250 ∧ ∃ t, (vfsGetTask cfg.mallocOk s.store .home).1 = .ok t)) :
    (startTask cfg io fd peer clen s).2.log = s.log := by
  unfold startTask
  dsimp only
  split
  · rfl
  · next hty =>
    rcases hg : vfsGetTask cfg.mallocOk s.store .home with ⟨r, st⟩
    rw [hg] at h
    cases r with
    | ok task => exact absurd ⟨hty, task, rfl⟩ h
    | err => rfl
    | nothing => rfl

/-- What `check_req` finds in the buffer of the connection. -/
structure Finds (cfg : Cfg) (s : Sm) (fd : Nat) (l : HeaderLines) : Prop where
  bytes : 0 < (s.acon fd).recvBuff.len
  header : HeaderAt (s.acon fd).recvBuff.data l
  record : ∃ t, (vfsGetTask cfg.mallocOk s.store .home).1 = .ok t

theorem mybuffGetdata_pos {b : Mybuff} : (∃ r, mybuffGetdata b = some r) ↔ 0 < b.len := by
  rw [← Option.isSome_iff_exists, Option.isSome_iff_ne_none, ne_eq, mybuffGetdata_eq_none, ← b.length_live]
  exact List.length_pos_iff.symm

theorem checkReq_post (io : RecvIo) (peer : Peer) (h : Finds cfg s fd l) :
    ∃ t : Tasklist, t.MadeFrom l ∧ (checkReq Mybuff.data cfg io fd peer s).2.log = s.log ++ [.post t] := by
  obtain ⟨r, hr⟩ := mybuffGetdata_pos.mpr h.bytes
  obtain ⟨e, he⟩ := Option.isSome_iff_exists.mp h.header.complete
  obtain ⟨hok, hty, hsub⟩ := parseHeader_lines peer.header h.header.lines
  obtain ⟨hfile, hhost⟩ := parseHeader_names peer.header h.header.lines
  unfold checkReq
  simp only [hr, he]
  rw [if_neg (by simp [hok])]
  obtain ⟨t, ht, hthost, htfile, hlog⟩ := startTask_post (s := s.setConn fd { s.acon fd with
      recvBuff := (s.acon fd).recvBuff.store
        (SmClient.parseHeader peer.header (cstr (s.acon fd).recvBuff.data)).2.2 })
    cfg io fd { peer with
      sockStat := .recvHeadIng
      header := (SmClient.parseHeader peer.header (cstr (s.acon fd).recvBuff.data)).2.1 } (e + 4) (hty ▸ h.header.block) h.record
  exact ⟨t, ⟨ht.trans hsub, hhost ▸ hthost, hfile ▸ htfile⟩, hlog⟩

theorem checkReq_quiet (io : RecvIo) (peer : Peer) (h : ∀ l, ¬ Finds cfg s fd l) :
    (checkReq Mybuff.data cfg io fd peer s).2.log = s.log := by
  unfold checkReq
  split
  · rfl
  · next r hr =>
    dsimp only
    split
    · rfl
    · next e he =>
      split
      · rfl
      · next hcase =>
        refine startTask_quiet (s := s.setConn fd _) cfg io fd _ ?_
        rintro ⟨hty, hrec⟩
        have hok : (SmClient.parseHeader peer.header (cstr (s.acon fd).recvBuff.data)).1 = true := by
          by_contra hno
          exact hcase ⟨hno, hty⟩
        obtain ⟨values, hc, -⟩ := carries_of_parseFields hok
        obtain ⟨l, rfl⟩ := values_of_carries hc
        obtain ⟨-, htype, -⟩ := parseHeader_lines peer.header hc
        exact h l ⟨mybuffGetdata_pos.mp ⟨r, hr⟩, ⟨by rw [he]; rfl, hc, htype ▸ hty⟩, hrec⟩

/-! ## The records of a call -/

theorem recvBody_log (io : RecvIo) (fd : Nat) (p : Peer) (s : Sm) :
    (recvBody io fd p s).2.log = s.log := by
  unfold recvBody
  split
  · rfl
  · next task _ =>
    split
    · rfl
    · next data datalen _ =>
      dsimp only
      generalize (if datalen ≤ (toInt32 (task.base.fsize - task.base.getlen) % 2 ^ 64).toNat then datalen
        else (toInt32 (task.base.fsize - task.base.getlen) % 2 ^ 64).toNat) = len
      split
      · rfl
      · next k _ =>
        generalize data.take (min k len) = bytes
        split
        · rfl
        · split
          · split <;> rfl
          · rfl

/-- Only `check_req` makes records: the events of a call are those of its `check_req`. -/
theorem svcRecv_log (cfg : Cfg) (io : RecvIo) (peer : Peer) (s : Sm) (hu : (s.acon fd).user = some peer) :
    (svcRecv Mybuff.data cfg io fd s).2.log =
      if peer.sockStat = .recvBodyIng then s.log else (checkReq Mybuff.data cfg io fd peer s).2.log := by
  unfold svcRecv
  rw [hu]
  dsimp only
  split
  · exact recvBody_log ..
  · rcases hr : checkReq Mybuff.data cfg io fd peer s with ⟨r, s1⟩
    cases r with
    | again => rfl
    | send => rfl
    | close =>
      dsimp only
      split <;> rfl
    | addEpollin =>
      dsimp only
      split
      · rfl
      · exact recvBody_log ..

/-- What `do_recv` finds is what `check_req` finds behind `mybuff_setdata`. -/
theorem requests_iff : Requests cfg s fd chunk io l ↔ (s.acon fd).isOpen = true ∧
    (∃ p, (s.acon fd).user = some p ∧ p.sockStat ≠ .recvBodyIng) ∧
    Finds cfg (s.setConn fd { s.acon fd with
      recvBuff := mybuffSetdata cfg.initBuffSize io.mem (s.acon fd).recvBuff chunk }) fd l := by
  constructor
  · rintro ⟨ho, hi, hb, hh, hr⟩
    refine ⟨ho, hi, ?_, ?_, hr⟩
    · rw [setConn_acon]
      exact hb
    · rw [setConn_acon]
      exact hh
  · rintro ⟨ho, hi, hb, hh, hr⟩
    rw [setConn_acon] at hb hh
    exact ⟨ho, hi, hb, hh, hr⟩

/-- A header that is found makes a record. -/
theorem doRecv_post (ht : Tidy s) (h : Requests cfg s fd chunk io l) :
    ∃ t : Tasklist, t.MadeFrom l ∧ (doRecv Mybuff.data cfg io fd chunk s).2.log = s.log ++ [.post t] := by
  obtain ⟨ho, ⟨p, hu, hp⟩, hf⟩ := requests_iff.mp h
  obtain ⟨s0, hsame, -, -, -, rfl, -, -, hm⟩ := doRecv_svcRecv cfg io Mybuff.data fd chunk ht ho
  rw [hm.log_eq, svcRecv_log cfg io p _ (by rw [setConn_acon]; exact hu), if_neg hp]
  exact checkReq_post io p hf

/-- Without one there is none. -/
theorem doRecv_quiet (ht : Tidy s) (h : ∀ l, ¬ Requests cfg s fd chunk io l) :
    (doRecv Mybuff.data cfg io fd chunk s).2.log = s.log := by
  by_cases ho : (s.acon fd).isOpen = true
  · obtain ⟨s0, hsame, -, -, -, rfl, -, -, hm⟩ := doRecv_svcRecv cfg io Mybuff.data fd chunk ht ho
    rw [hm.log_eq]
    rcases hu : (s.acon fd).user with _ | p
    · unfold svcRecv
      rw [show ((s.setConn fd _).acon fd).user = none from by rw [setConn_acon]; exact hu]
      rfl
    · rw [svcRecv_log cfg io p _ (by rw [setConn_acon]; exact hu)]
      split
      · rfl
      · next hp =>
        exact checkReq_quiet io p fun l hf => h l (requests_iff.mpr ⟨ho, ⟨p, hu, hp⟩, hf⟩)
  · rw [doRecv_closed cfg io Mybuff.data chunk ho]

/-- The records a call makes are those of the headers it finds. -/
theorem mem_doRecv_post (ht : Tidy s) :
    .post t ∈ s.since (doRecv Mybuff.data cfg io fd chunk s).2 →
    ∃ l, Requests cfg s fd chunk io l ∧ t.MadeFrom l := by
  intro hm
  unfold Sm.since at hm
  by_cases h : ∃ l, Requests cfg s fd chunk io l
  · obtain ⟨l, h⟩ := h
    obtain ⟨v, hv, hlog⟩ := doRecv_post ht h
    rw [hlog, List.drop_left] at hm
    obtain rfl : t = v := Event.post.inj (List.mem_singleton.mp hm)
    exact ⟨l, h, hv⟩
  · rw [doRecv_quiet ht (not_exists.mp h), List.drop_length] at hm
    exact absurd hm (by simp)

/-! ## The bytes of a block -/

/-- What is counted of a block that is being received. -/
structure Counting (t : Tasklist) : Prop where
  fsize : t.base.fsize = t.len
  getlen : t.base.getlen = t.got.length
  le : (t.got.length : Int) ≤ t.len
  pos : 0 < t.len

/-- The invariant: the bytes of the blocks being received are counted, and a block that is `OVER_OK` has
as many as its header said. -/
structure ByteCounts (s : Sm) : Prop where
  fin : ∀ t ∈ s.store.vfstask .fin, t.base.overstatus = .ok → (t.got.length : Int) = t.len
  recv : ∀ {fd t f}, s.recv fd = some (t, f) → Counting t

theorem ByteCounts.update (fd : Nat) (r : Option (Tasklist × Nat × Nat)) (h : ByteCounts s)
    (hf : ∀ t ∈ s'.store.vfstask .fin, t ∈ s.store.vfstask .fin ∨
      (t.base.overstatus = .ok → (t.got.length : Int) = t.len))
    (hr : s'.recv = Function.update s.recv fd r) (hc : ∀ {t f}, r = some (t, f) → Counting t) :
    ByteCounts s' := by
  refine ⟨fun t ht => ?_, fun {fd' t f} ht => ?_⟩
  · rcases hf t ht with ht | ht
    · exact h.fin t ht
    · exact ht
  · rw [hr] at ht
    by_cases hfd : fd' = fd
    · subst hfd
      rw [Function.update_self] at ht
      exact hc ht
    · rw [Function.update_of_ne hfd] at ht
      exact h.recv ht

theorem ByteCounts.keep (h : ByteCounts s)
    (hf : ∀ t ∈ s'.store.vfstask .fin, t ∈ s.store.vfstask .fin ∨
      (t.base.overstatus = .ok → (t.got.length : Int) = t.len))
    (hr : s'.recv = s.recv) : ByteCounts s' :=
  h.update 0 (s.recv 0) hf (by rw [hr, Function.update_eq_self]) h.recv

theorem ByteCounts.same (h : ByteCounts s) (hs : SameRecords s s') : ByteCounts s' :=
  h.keep (fun _ ht => Or.inl (hs.store ▸ ht)) hs.recv

/-- The records of `TASK_FIN` when one has been put there. -/
theorem mem_fin_put {st : TaskStore} {u : Tasklist} (hs : s'.store = vfsSetTask st u .fin)
    (hst : st.vfstask .fin = s.store.vfstask .fin)
    (hu : u.base.overstatus = .ok → (u.got.length : Int) = u.len) :
    ∀ t ∈ s'.store.vfstask .fin, t ∈ s.store.vfstask .fin ∨
      (t.base.overstatus = .ok → (t.got.length : Int) = t.len) := by
  intro t ht
  rw [hs] at ht
  rcases mem_vfsSetTask ht with ⟨ht, -⟩ | ⟨-, -, rfl⟩
  · exact Or.inl (hst ▸ ht)
  · exact Or.inr hu

theorem ByteCounts.headMove (h : ByteCounts s) (hl : Sited s loc) (hm : HeadMove cfg opens fd s s')
    (hok : ∀ t, s'.log = s.log ++ [.post t] → 0 < t.len ∧ t.len < 2 ^ 63) : ByteCounts s' := by
  have hget : (vfsGetTask cfg.mallocOk s.store .home).2.vfstask .fin = s.store.vfstask .fin :=
    fin_vfsGetTask (by simp)
  cases hm with
  | stay hs => exact h.same hs
  | ask host store fs log recv =>
    obtain ⟨hf, -, -⟩ := getTaskUnok_aside cfg host hl.placed
    exact h.keep (fun t ht => Or.inl (by rwa [store, hf] at ht)) recv
  | noRecord none store fs log recv =>
    exact h.keep (fun t ht => Or.inl (by rwa [store, hget] at ht)) recv
  | refuse task0 t st home posted store fs log recv =>
    rw [home] at hget
    exact h.keep (mem_fin_put store hget fun he => absurd he (by simp [Tasklist.over])) recv
  | start task0 t st home posted opened free store fs log recv =>
    rw [home] at hget
    refine h.update _ _ (fun v hv => Or.inl (by rwa [store, hget] at hv)) recv fun {v f} hv => ?_
    obtain ⟨rfl, -⟩ := Prod.mk.inj (Option.some.inj hv)
    obtain ⟨hpos, hlt⟩ := hok t log
    have hgot : (prepared cfg t).got = [] := posted.got
    have hlen : (prepared cfg t).len = t.len := rfl
    refine ⟨toInt64_of_range (n := t.len) (by omega) hlt, by rw [hgot]; rfl, ?_, by rwa [hlen]⟩
    rw [hgot, hlen]
    exact Int.le_of_lt hpos

theorem ByteCounts.closeMove (h : ByteCounts s) (hm : CloseMove fd s s') : ByteCounts s' := by
  cases hm with
  | stay hs => exact h.same hs
  | abort t f recv0 store fs log recv =>
    exact h.update _ _ (mem_fin_put store rfl fun he => absurd he (by simp [Tasklist.over])) recv
      fun hv => absurd hv (by simp)

/-- A write never takes more than what is missing of the block: either the missing length fits an `int`
and bounds it, or it is longer than any write. -/
theorem Counting.fits (bytes : Bytes) (h : Counting t)
    (hf : bytes.length ≤ (toInt32 (t.base.fsize - t.base.getlen) % 2 ^ 64).toNat)
    (hw : bytes.length ≤ 0x7ffff000) : (t.got.length + bytes.length : Int) ≤ t.len := by
  have hle := h.le
  rw [h.fsize, h.getlen] at hf
  by_cases hr : t.len - t.got.length < 2 ^ 31
  · rw [toInt32_of_range (by omega) hr] at hf
    omega
  · omega

theorem Counting.receive {bytes : Bytes} (h : Counting t)
    (hle : (t.got.length + bytes.length : Int) ≤ t.len) : Counting (t.receive bytes bytes.length) := by
  refine ⟨h.fsize, ?_, ?_, h.pos⟩
  · show t.base.getlen + bytes.length = ((t.got ++ bytes).length : Int)
    rw [h.getlen, List.length_append]
    omega
  · show ((t.got ++ bytes).length : Int) ≤ t.len
    rw [List.length_append]
    omega

theorem ByteCounts.recvBody (h : ByteCounts s) (hb : AtBody s fd peer) {io : RecvIo}
    (hw : io.WritesShort) : ByteCounts (recvBody io fd peer s).2 := by
  unfold VfsOss.recvBody
  split
  · exact h
  · next task htask =>
    obtain ⟨node, off, hf, hrecv⟩ := hb.tidy.receiving hb.user htask
    have hrecv0 : s.recv fd = some (task, node, off) := (recv_of_user hb.user).trans hrecv
    have hc := h.recv hrecv0
    split
    · exact h
    · next data datalen hdata =>
      dsimp only
      split
      · exact h
      · next k hk =>
        generalize hrem : (toInt32 (task.base.fsize - task.base.getlen) % 2 ^ 64).toNat = remainlen
        generalize hbytes : data.take (min k (if datalen ≤ remainlen then datalen else remainlen)) =
          bytes
        have hlen : bytes.length ≤ remainlen ∧ bytes.length ≤ k := by
          rw [← hbytes, List.length_take]
          split <;> omega
        have hk' := hw _ k hk
        have hle := hc.fits bytes (by rw [hrem]; exact hlen.1) (by omega)
        rw [toInt32_of_range (n := (bytes.length : Int)) (by omega) (by omega)]
        rw [hf, if_neg (by omega)]
        split
        · next hdone =>
          rw [if_pos (show closeTmpCheckMv ((some (node, off)).map fun p =>
            (p.1, p.2 + bytes.length)) = true from rfl)]
          refine h.update fd none (mem_fin_put (s := s) rfl rfl fun _ => ?_)
            (OnlyConn.recv_update (.of_update (Function.update_idem ..) rfl) ?_) fun hv => absurd hv (by simp)
          · show ((task.got ++ bytes).length : Int) = task.len
            have hdone : task.base.fsize ≤ task.base.getlen + bytes.length := hdone
            rw [hc.fsize, hc.getlen] at hdone
            rw [List.length_append]
            omega
          · rw [Sm.recv, setPeer_acon]
            rfl
        · refine h.update fd (some (task.receive bytes bytes.length, node, off + bytes.length))
            (fun _ ht => Or.inl ht)
            (OnlyConn.recv_update (.of_update (Function.update_idem ..) rfl) ?_) fun {v f} hv => ?_
          · rw [Sm.recv, setPeer_acon]
            rfl
          · obtain ⟨rfl, -⟩ := Prod.mk.inj (Option.some.inj hv)
            exact hc.receive hle

/-! ## Steps and runs -/

theorem clampLong_le (n : Int) : clampLong n ≤ 2 ^ 63 - 1 := by
  unfold clampLong
  omega

theorem toInt64_pos {n : Int} (hn : n ≤ 2 ^ 63) (h : 0 < toInt64 n) (h0 : 0 ≤ n) : n < 2 ^ 63 := by
  by_contra hc
  obtain rfl : n = 2 ^ 63 := by omega
  exact absurd h (by decide)

/-- The numbers of the header are those of the record. -/
theorem HeaderLines.Describe.wellFormed (h : l.Describe) (ht : t.sub = l.sub) :
    t.WellFormed ∧ 0 < t.len ∧ t.len < 2 ^ 63 := by
  have hlen : t.len = atol l.end_ - atol l.start + 1 := by
    rw [Tasklist.len, ht]
    rfl
  refine ⟨⟨?_, ?_, ?_, ?_⟩, ?_, hlen ▸ h.length⟩
  · rw [ht]
    exact h.first
  · rw [ht]
    exact h.last
  · rw [ht]
    exact h.start
  · rw [ht]
    exact h.end_
  · have hle := h.end_
    omega

theorem Tasklist.WellFormed.describe (h : t.WellFormed) (hpos : 0 < (prepared cfg t).base.fsize)
    (ht : t.sub = l.sub) : l.Describe := by
  obtain ⟨h1, h2, h3, h4⟩ := h
  rw [ht] at h1 h2 h3 h4
  have hpos : 0 < toInt64 (t.sub.end_ - t.sub.start + 1) := hpos
  rw [ht] at hpos
  refine ⟨h1, h2, h3, h4, ?_⟩
  have hend : atol l.end_ ≤ 2 ^ 63 - 1 := clampLong_le _
  have h3 : 0 ≤ atol l.start := h3
  have h4 : atol l.start ≤ atol l.end_ := h4
  exact toInt64_pos (by omega) hpos (by omega)

/-- A step that makes only well-formed records found a header that describes a block, if any. -/
theorem stepDescribes_of_posts (ht : Tidy s) {a : SmAct} (h : ∀ t, .post t ∈ s.since (smStep cfg s a) →
    t.WellFormed ∧ 0 < (prepared cfg t).base.fsize) : StepDescribes cfg s a := by
  cases a with
  | recv fd chunk io =>
    intro l hl
    obtain ⟨t, ⟨hsub, -, -⟩, hlog⟩ := doRecv_post ht hl
    obtain ⟨hw, hpos⟩ := h t (by
      show .post t ∈ (doRecv Mybuff.data cfg io fd chunk s).2.log.drop s.log.length
      rw [hlog, List.drop_left]
      exact List.mem_singleton_self _)
    exact hw.describe hpos hsub
  | _ => trivial

/-- Only a call of `do_recv` makes records, from the headers it finds. -/
theorem mem_since_post (hs : Tidy s) {a : SmAct} (hm : .post t ∈ s.since (smStep cfg s a)) :
    ∃ fd chunk io l, a = .recv fd chunk io ∧ Requests cfg s fd chunk io l ∧ t.MadeFrom l := by
  have hsame : (smStep cfg s a).log ≠ s.log := by
    intro he
    rw [Sm.since, he, List.drop_length] at hm
    exact absurd hm (by simp)
  cases a with
  | accept fd ip mem => exact absurd (acceptNew_same cfg mem fd ip hs).2.1.log hsame
  | recv fd chunk io =>
    obtain ⟨l, hl, hmade⟩ := mem_doRecv_post hs hm
    exact ⟨fd, chunk, io, l, rfl, hl, hmade⟩
  | send fd n => exact absurd (doSend_move fd n hs).2.2.log_eq hsame
  | close fd => exact absurd (doClose_move fd hs).1.log_eq hsame
  | finBegin => exact absurd (finBegin_same s).log hsame
  | finIter io =>
    obtain ⟨es, hlog, hes⟩ := finIter_events cfg io s
    rw [Sm.since, show (smStep cfg s (.finIter io)).log = s.log ++ es from hlog, List.drop_left] at hm
    obtain ⟨v, he | (⟨u, he | he | he | he⟩ | he | (⟨u, he | he | he⟩ | ⟨p, he⟩ | ⟨p, q, b, he⟩))⟩ :=
      hes _ hm <;> exact absurd he (by simp)
  | began hostname filename =>
    rw [Sm.since, show (smStep cfg s (.began hostname filename)).log = s.log ++ [.began hostname filename]
      from rfl, List.drop_left] at hm
    exact absurd (List.mem_singleton.mp hm) (by simp)

theorem wellFormed_of_post (hs : Tidy s) {a : SmAct} (hd : StepDescribes cfg s a)
    (hm : .post t ∈ s.since (smStep cfg s a)) : t.WellFormed ∧ 0 < t.len ∧ t.len < 2 ^ 63 := by
  obtain ⟨fd, chunk, io, l, rfl, hl, hmade⟩ := mem_since_post hs hm
  exact (hd l hl).wellFormed hmade.sub

theorem ByteCounts.doRecv (h : ByteCounts s) (hs : WellSited s) {io : RecvIo} (hw : io.WritesShort)
    (hd : StepDescribes cfg s (.recv fd chunk io)) :
    ByteCounts (doRecv Mybuff.data cfg io fd chunk s).2 := by
  obtain ⟨ht, loc, hl⟩ := hs
  by_cases ho : (s.acon fd).isOpen = true
  · obtain ⟨s0, hsame, -, ht0, ho0, -, -, -, hm3⟩ := doRecv_svcRecv cfg io Mybuff.data fd chunk ht ho
    obtain ⟨s1, hm1, hbody⟩ := svcRecv_phases cfg io Mybuff.data ht0 ho0
    have hlog : (VfsOss.doRecv Mybuff.data cfg io fd chunk s).2.log = s1.log := by
      rw [hm3.log_eq]
      rcases hbody with ⟨-, he⟩ | ⟨p, -, -, he⟩ <;> rw [he]
      exact recvBody_log ..
    have h1 : ByteCounts s1 := h.headMove hl (hm1.same_left hsame) fun t he =>
      (wellFormed_of_post ht hd (by
        show .post t ∈ (VfsOss.doRecv Mybuff.data cfg io fd chunk s).2.log.drop s.log.length
        rw [hlog, he, List.drop_left]
        exact List.mem_singleton_self _)).2
    rcases hbody with ⟨-, he⟩ | ⟨p, -, hb, he⟩
    · rw [he] at hm3
      exact h1.closeMove hm3
    · rw [he] at hm3
      exact (h1.recvBody hb hw).closeMove hm3
  · rw [doRecv_closed cfg io Mybuff.data chunk ho]
    exact h

theorem ByteCounts.smStep (h : ByteCounts s) (hs : WellSited s) {a : SmAct} (hw : a.WritesShort)
    (hd : StepDescribes cfg s a) : ByteCounts (smStep cfg s a) := by
  have ht := hs.1
  cases a with
  | accept fd ip mem => exact h.same (acceptNew_same cfg mem fd ip ht).2.1
  | recv fd chunk io => exact h.doRecv hs hw hd
  | send fd n => exact h.closeMove (doSend_move fd n ht).2.2
  | close fd => exact h.closeMove (doClose_move fd ht).1
  | finBegin => exact h.same (finBegin_same s)
  | finIter io =>
    obtain ⟨hacon, hfin⟩ := finIter_frame cfg io hs
    exact h.keep (fun t ht => Or.inl (hfin t ht)) (recv_of_acon hacon)
  | began hostname filename => exact ⟨h.fin, h.recv⟩

theorem ByteCounts.accepts (h : ByteCounts s) (hs : WellSited s) {a : SmAct} (hw : a.WritesShort)
    (hd : StepDescribes cfg s a) : StepAccepts cfg s a := by
  have h' := h.smStep hs hw hd
  refine ⟨fun t hm => ?_, fun hr => ⟨(h'.recv hr).fsize, ?_⟩, h'.fin⟩
  · obtain ⟨hwf, hpos, hlt⟩ := wellFormed_of_post hs.1 hd hm
    refine ⟨hwf, ?_⟩
    show 0 < toInt64 t.len
    rw [toInt64_of_range (by omega) hlt]
    exact hpos
  · rw [(h'.recv hr).fsize]
    exact (h'.recv hr).pos

theorem init_byteCounts (n : Nat) : ByteCounts (Sm.init n) := by
  refine ⟨fun t ht => ?_, fun ht => ?_⟩
  · exact absurd ht (by simp [Sm.init, initTaskInfo])
  · exact absurd ht (by simp [Sm.recv, Sm.init, Conn.unused])

/-- **Accepted descriptors.** When no write takes more bytes than a `write` can, the steps of a run
accept only well-formed records and complete only whole blocks if and only if every header that is found
in the run describes a block. -/
theorem accepts_described_iff (cfg : Cfg) (n : Nat) (as : List SmAct) (hw : ∀ a ∈ as, a.WritesShort) :
    RunOk (smStep cfg) (StepAccepts cfg) (Sm.init n) as ↔
      RunOk (smStep cfg) (StepDescribes cfg) (Sm.init n) as := by
  constructor
  · intro h
    exact h.of_invariant WellSited (fun _ a hs _ => smStep_sited hs a)
      (fun _ _ hs h => stepDescribes_of_posts hs.1 h.posts) (init_sited n)
  · intro h
    exact (h.and (RunOk.of_actions hw _)).of_invariant (fun s => WellSited s ∧ ByteCounts s)
      (fun _ a hs h => ⟨smStep_sited hs.1 a, hs.2.smStep hs.1 h.2 h.1⟩)
      (fun _ _ hs h => hs.2.accepts hs.1 h.2 h.1) ⟨init_sited n, init_byteCounts n⟩

/-- The first of three blocks, of three bytes. -/
theorem accepts_described_first :
    RunOk (smStep .sample) (StepAccepts .sample) (Sm.init 1) (SmAct.describe 3 1 3 0 2 (txt "abc")) := by
  refine (accepts_described_iff .sample 1 _ fun a ha => ?_).mpr
    ⟨trivial, stepDescribes_of_posts (smStep_sited (init_sited 1) _).1 fun t ht => ?_, trivial⟩
  · rcases List.mem_cons.mp ha with rfl | ha
    · trivial
    · obtain rfl := List.mem_singleton.mp ha
      intro n k hk
      obtain rfl : min n 0x7ffff000 = k := Option.some.inj hk
      exact Nat.min_le_right ..
  · have hlog : (run (smStep .sample) (Sm.init 1) (SmAct.describe 3 1 3 0 2 (txt "abc"))).log.all
        (Event.ofPost fun t => decide (t.WellFormed ∧ 0 < toInt64 t.len)) = true := by
      decide +kernel
    rw [SmAct.describe, run, run, run] at hlog
    show t.WellFormed ∧ 0 < toInt64 t.len
    simpa [Event.ofPost] using List.all_eq_true.mp hlog (.post t) (List.mem_of_mem_drop ht)

/-- The header says block 0 of three, from byte 10 to byte 3; three bytes complete it. -/
theorem negative_length_accepted :
    ¬ RunOk (smStep .sample) (StepAccepts .sample) (Sm.init 1)
      (SmAct.describe 3 0 3 10 3 (txt "abc")) := by
  rw [SmAct.describe, RunOk, RunOk]
  rintro ⟨-, h, -⟩
  have hfin : ∃ t ∈ (run (smStep .sample) (Sm.init 1) (SmAct.describe 3 0 3 10 3 (txt "abc"))).store.vfstask
      .fin, t.base.overstatus = .ok ∧ (t.got.length : Int) ≠ t.len := by
    decide +kernel
  rw [SmAct.describe, run, run, run] at hfin
  obtain ⟨t, ht, ho, hne⟩ := hfin
  exact hne (h.bytes t ht ho)

end VfsOss
