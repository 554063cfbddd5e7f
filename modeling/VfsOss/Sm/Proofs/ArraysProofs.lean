import VfsOss.Sm.Arrays
import VfsOss.Sm.Proofs.DescriptorProofs
import VfsOss.Sm.Proofs.PathBuffersProofs

/-!
# Proofs: where the arrays hold

A call either overruns an array, or does what the function without the arrays does.
-/

namespace VfsOss

open CLib

variable {cfg : Cfg} {io : RecvIo} {scan : Mybuff → Bytes} {s : Sm} {fd : Nat} {chunk : Bytes} {l : HeaderLines}
variable {peer : Peer} {t : Tasklist}

theorem afterLocaldir_guarded {α : Type} (cfg : Cfg) (hostname filename : Bytes) (x : α) :
    Guarded ((getLocaldir cfg hostname filename).length ≤ 255) (afterLocaldir cfg hostname filename x) x := by
  refine .of_exists ?_ x
  unfold getLocaldirInto sprintf
  rw [strcpy_ok_iff, show outfile.length = 256 from List.length_replicate]
  omega

/-- The reply of a query is put together in `taskbuf`. -/
theorem taskbuf_guarded {α : Type} (cfg : Cfg) (st : TaskStore) (hostname : Bytes) (x : α) :
    Guarded (ReplyFits cfg st hostname)
      (sprintf taskbuf (getTaskUnok cfg st hostname).1 >>= fun _ => .ok x) x := by
  refine .of_exists ?_ x
  unfold sprintf
  rw [strcpy_ok_iff, show taskbuf.length = 10240 from List.length_replicate, Nat.zero_add]
  rfl

/-! ## The upload -/

theorem doPrepareRecvfileInto_guarded (cfg : Cfg) (io : RecvIo) (fd : Nat) (task : Tasklist) (fsize : Int) (s : Sm)
    (hp : peer.sockStat = .recvHeadIng) :
    Guarded ((getLocaldir cfg task.base.hostname task.base.filename).length ≤ 255)
      (doPrepareRecvfileInto cfg io fd peer task fsize s) (doPrepareRecvfile cfg io fd peer task fsize s) := by
  unfold doPrepareRecvfileInto doPrepareRecvfile
  rw [if_neg (not_not.mpr hp), if_neg (not_not.mpr hp)]
  refine ((afterLocaldir_guarded ..).bind ?_).congr (and_iff_left trivial).symm
  dsimp only
  rcases openTmpLocalfile4Write .. with ⟨base, _ | node, fs⟩
  · exact .pure _
  · exact .pure _

/-- What the arrays must hold behind a parsed header, when there is a record for a block. -/
def StartHolds (cfg : Cfg) (header : HttpHeader) (st : TaskStore) : Prop :=
  (header.type = 250 → ReplyFits cfg st header.hostname) ∧
  (header.type ≠ 250 → (∃ t, (vfsGetTask cfg.mallocOk st .home).1 = .ok t) →
    (getLocaldir cfg (headerTask header).1.hostname (headerTask header).1.filename).length ≤ 255)

theorem startTaskInto_guarded (cfg : Cfg) (io : RecvIo) (fd clen : Nat) (s : Sm) (hp : peer.sockStat = .recvHeadIng) :
    Guarded (StartHolds cfg peer.header s.store) (startTaskInto cfg true io fd peer clen s)
      (startTask cfg io fd peer clen s) := by
  unfold startTaskInto startTask vfsGetTaskLocked
  refine .ite (fun _ => taskbuf_guarded ..) fun _ => ?_
  rw [if_pos rfl]
  rcases hg : vfsGetTask cfg.mallocOk s.store .home with ⟨r, st⟩
  cases r with
  | ok task =>
    exact ((doPrepareRecvfileInto_guarded cfg io fd _ _ _ hp).map _).congr ⟨fun h => h ⟨task, rfl⟩, fun h _ => h⟩
  | err => exact (Guarded.pure _).congr ⟨fun _ => trivial, fun _ ⟨_, h⟩ => nomatch h⟩
  | nothing => exact (Guarded.pure _).congr ⟨fun _ => trivial, fun _ ⟨_, h⟩ => nomatch h⟩

/-- What they must hold in a call of `check_req`: it comes to the end of a header and goes on behind it. -/
def ReqHolds (scan : Mybuff → Bytes) (cfg : Cfg) (fd : Nat) (peer : Peer) (s : Sm) : Prop :=
  let r := SmClient.parseHeader peer.header (cstr (scan (s.acon fd).recvBuff))
  (mybuffGetdata (s.acon fd).recvBuff).isSome →
  (strstr (cstr (scan (s.acon fd).recvBuff)) (crlf ++ crlf)).isSome →
  (r.1 = true ∨ r.2.1.type = 250) → StartHolds cfg r.2.1 s.store

theorem checkReqInto_guarded (scan : Mybuff → Bytes) (cfg : Cfg) (io : RecvIo) (fd : Nat) (peer : Peer) (s : Sm) :
    Guarded (ReqHolds scan cfg fd peer s) (checkReqInto scan cfg true io fd peer s)
      (checkReq scan cfg io fd peer s) := by
  unfold checkReqInto checkReq ReqHolds
  cases mybuffGetdata (s.acon fd).recvBuff with
  | none => exact (Guarded.pure _).congr (by simp)
  | some d =>
    dsimp only
    cases strstr (cstr (scan (s.acon fd).recvBuff)) (crlf ++ crlf) with
    | none => exact (Guarded.pure _).congr (by simp)
    | some e =>
      dsimp only
      refine (Guarded.ite (fun _ => .pure _) fun _ => startTaskInto_guarded cfg io fd (e + 4) _ (by rfl)).congr ?_
      generalize SmClient.parseHeader peer.header (cstr (scan (s.acon fd).recvBuff)) = r
      simp only [Option.isSome_some, forall_const, setConn_store]
      constructor
      · intro h
        refine ⟨fun _ => trivial, fun hc => h ?_⟩
        by_contra hno
        obtain ⟨hr, hty⟩ := not_or.mp hno
        exact hc ⟨hr, hty⟩
      · rintro ⟨-, h⟩ hor
        refine h ?_
        rintro ⟨hr, hty⟩
        rcases hor with hor | hor
        · exact hr hor
        · exact hty hor

/-- What they must hold in a call of `svc_recv`. -/
def RecvHolds (scan : Mybuff → Bytes) (cfg : Cfg) (fd : Nat) (s : Sm) : Prop :=
  ∀ peer, (s.acon fd).user = some peer → peer.sockStat ≠ .recvBodyIng → ReqHolds scan cfg fd peer s

theorem svcRecvInto_guarded (scan : Mybuff → Bytes) (cfg : Cfg) (io : RecvIo) (fd : Nat) (s : Sm) :
    Guarded (RecvHolds scan cfg fd s) (svcRecvInto scan cfg io fd s) (svcRecv scan cfg io fd s) := by
  unfold svcRecvInto svcRecv RecvHolds
  cases (s.acon fd).user with
  | none => exact (Guarded.pure _).congr (by simp)
  | some peer =>
    dsimp only
    refine (Guarded.ite (fun _ => .pure _) fun _ =>
      (checkReqInto_guarded scan cfg io fd peer s).bind (q := True) ?_).congr ?_
    · rcases checkReq scan cfg io fd peer s with ⟨r, s'⟩
      cases r with
      | again => exact .pure _
      | send => exact .pure _
      | close => rcases hu : (s'.acon fd).user with _ | p <;> simp only [hu] <;> exact .pure _
      | addEpollin => rcases hu : (s'.acon fd).user with _ | p <;> simp only [hu] <;> exact .pure _
    · simp

theorem doRecvInto_guarded (scan : Mybuff → Bytes) (cfg : Cfg) (io : RecvIo) (fd : Nat) (chunk : Bytes) (s : Sm) :
    Guarded ((s.acon fd).isOpen = true → RecvHolds scan cfg fd (s.setConn fd { s.acon fd with
      recvBuff := mybuffSetdata cfg.initBuffSize io.mem (s.acon fd).recvBuff chunk }))
      (doRecvInto scan cfg io fd chunk s) (doRecv scan cfg io fd chunk s) := by
  unfold doRecvInto doRecv
  refine (Guarded.ite (fun _ => (svcRecvInto_guarded scan cfg io fd _).map _) fun _ => .pure _).congr ?_
  simp

/-- The path of a record is that of the lines it is made from. -/
theorem localdir_headerTask {text : Bytes} (cfg : Cfg) (h0 : HttpHeader)
    (h : Carries (SmClient.fields.map Field.item) l.values text) :
    getLocaldir cfg (headerTask (SmClient.parseHeader h0 text).2.1).1.hostname
      (headerTask (SmClient.parseHeader h0 text).2.1).1.filename = l.localdir cfg := by
  obtain ⟨hfile, hhost⟩ := parseHeader_names h0 h
  show getLocaldir cfg (snprintf 256 (SmClient.parseHeader h0 text).2.1.hostname)
    (snprintf 256 (SmClient.parseHeader h0 text).2.1.filename) = _
  rw [hfile, hhost, snprintf_snprintf (by omega), snprintf_snprintf (by omega)]
  rfl

/-- What a call of `do_recv` asks of the arrays, in terms of what it finds in the buffer. -/
theorem arraysHold_recv_iff : ArraysHold cfg s (.recv fd chunk io) ↔
    ((s.acon fd).isOpen = true → RecvHolds Mybuff.data cfg fd (s.setConn fd { s.acon fd with
      recvBuff := mybuffSetdata cfg.initBuffSize io.mem (s.acon fd).recvBuff chunk })) := by
  unfold ArraysHold RecvHolds ReqHolds
  simp only [setConn_acon, setConn_store]
  constructor
  · rintro ⟨hup, hquery⟩ ho p hu hp hsome hend hor
    have hbytes : 0 < (s.acon fd).recvBuff.len + chunk.length :=
      mybuffGetdata_pos.mp (Option.isSome_iff_exists.mp hsome)
    refine ⟨fun hty => hquery _ ⟨ho, hbytes, p, hu, hp, hend, hty, rfl⟩, fun hty hrec => ?_⟩
    obtain ⟨values, hc, -⟩ := carries_of_parseFields (hor.resolve_right hty)
    obtain ⟨l, rfl⟩ := values_of_carries hc
    obtain ⟨-, htype, -⟩ := parseHeader_lines p.header hc
    rw [localdir_headerTask cfg p.header hc]
    exact hup l ⟨ho, ⟨p, hu, hp⟩, hbytes, ⟨hend, hc, htype ▸ hty⟩, hrec⟩
  · intro h
    constructor
    · rintro l ⟨ho, ⟨p, hu, hp⟩, hbytes, ⟨hend, hc, hblock⟩, hrec⟩
      obtain ⟨hok, htype, -⟩ := parseHeader_lines p.header hc
      rw [← localdir_headerTask cfg p.header hc]
      exact (h ho p hu hp (Option.isSome_iff_exists.mpr (mybuffGetdata_pos.mpr hbytes)) hend (Or.inl hok)).2
        (htype ▸ hblock) hrec
    · rintro hostname ⟨ho, hbytes, p, hu, hp, hend, hty, hhost⟩
      rw [← hhost]
      exact (h ho p hu hp (Option.isSome_iff_exists.mpr (mybuffGetdata_pos.mpr hbytes)) hend (Or.inr hty)).1 hty

/-! ## The merge -/

/-- The path of a record fits the arrays of `check_lack_task` and `do_merge_file`. -/
def Tasklist.PathFits (cfg : Cfg) (t : Tasklist) : Prop :=
  (getLocaldir cfg t.base.hostname t.base.filename).length ≤ 255

theorem finTaskInto_guarded (cfg : Cfg) (io : MergeIo) (t : Tasklist) (s : Sm) :
    Guarded (t.base.overstatus = .ok → t.PathFits cfg) (finTaskInto cfg io t s) (finTask cfg io t s) := by
  unfold finTaskInto
  by_cases hover : t.base.overstatus = .ok
  · unfold finTask
    rw [if_neg (not_not.mpr hover), if_neg (not_not.mpr hover)]
    have hlack := afterLocaldir_guarded cfg t.base.hostname t.base.filename (checkLackTask cfg t s)
    refine (hlack.bind (q := (checkTaskAllsubIsok _ _ _ = true → t.PathFits cfg) ∧ (_ → True))
      (.ite (fun _ => afterLocaldir_guarded ..) fun _ => .pure _)).congr ?_
    exact ⟨fun h => ⟨h hover, fun _ => h hover, fun _ => trivial⟩, fun h _ => h.1⟩
  · rw [if_pos hover]
    exact (Guarded.pure _).congr ⟨fun _ => trivial, fun _ h => absurd h hover⟩

theorem finIterInto_guarded (cfg : Cfg) (io : MergeIo) (s : Sm) :
    Guarded (∀ t ∈ processed s (.finIter io), t.base.overstatus = .ok → t.PathFits cfg)
      (finIterInto cfg io s) (finIter cfg io s) := by
  unfold finIterInto finIter processed
  rcases ho : s.once with _ | k
  · exact (Guarded.pure _).congr (by simp)
  · rcases hq : s.store.vfstask .fin with _ | ⟨u, rest⟩
    · obtain ⟨r, hr, hne⟩ := vfsGetTask_nil (m := cfg.mallocOk) (by simp : TaskStatus.fin ≠ .home) hq
      dsimp only
      rw [hr]
      cases r with
      | ok t => exact absurd rfl (hne t)
      | err => exact (Guarded.pure _).congr (by simp)
      | nothing => exact (Guarded.pure _).congr (by simp)
    · simp only [vfsGetTask_fin _ hq]
      refine (Guarded.ite (fun _ => .pure _) fun _ => finTaskInto_guarded cfg io u.taken _).congr ?_
      by_cases hk : k < 128
      · have hno : ¬ 128 < k + 1 := by omega
        simp [hk, hno]
      · have hyes : 128 < k + 1 := by omega
        simp [hk, hyes]

/-! ## The machine -/

/-- Where the arrays hold in a step, whatever is in the queues. -/
theorem smStepInto_guarded (cfg : Cfg) (s : Sm) (a : SmAct) :
    Guarded (ArraysHold cfg s a ∧ ∀ t ∈ processed s a, t.base.overstatus = .ok → t.PathFits cfg)
      (smStepInto cfg s a) (smStep cfg s a) := by
  cases a with
  | recv fd chunk io =>
    refine ((doRecvInto_guarded Mybuff.data cfg io fd chunk s).map _).congr ?_
    rw [← arraysHold_recv_iff]
    exact ⟨fun h => h.1, fun h => ⟨h, fun t ht => absurd ht (by simp [processed])⟩⟩
  | finIter io =>
    exact (finIterInto_guarded cfg io s).congr ⟨fun h => h.2, fun h => ⟨trivial, h⟩⟩
  | accept fd ip mem => exact (Guarded.pure _).congr (by simp [ArraysHold, processed])
  | send fd n => exact (Guarded.pure _).congr (by simp [ArraysHold, processed])
  | close fd => exact (Guarded.pure _).congr (by simp [ArraysHold, processed])
  | finBegin => exact (Guarded.pure _).congr (by simp [ArraysHold, processed])
  | began hostname filename => exact (Guarded.pure _).congr (by simp [ArraysHold, processed])

end VfsOss
