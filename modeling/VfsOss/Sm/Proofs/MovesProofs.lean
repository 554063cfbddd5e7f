import VfsOss.Sm.Moves
import VfsOss.Sm.Proofs.PlaceProofs

/-!
# Proofs: the calls into the receiving plugin are the moves

`doRecv` is a first, a second and a third move on its connection, and `doSend` and `doClose` are third
moves.
-/

namespace VfsOss

open CLib

variable {cfg : Cfg} {opens : Bool} {io : RecvIo} {scan : Mybuff → Bytes} {s s' s'' : Sm} {fd : Nat} {c : Conn} {p : Peer}

/-! ## Changing one connection -/

@[simp] theorem setConn_store : (s.setConn fd c).store = s.store := rfl

@[simp] theorem setConn_fs : (s.setConn fd c).fs = s.fs := rfl

@[simp] theorem setConn_log : (s.setConn fd c).log = s.log := rfl

@[simp] theorem setConn_once : (s.setConn fd c).once = s.once := rfl

@[simp] theorem setConn_acon : (s.setConn fd c).acon fd = c := Function.update_self ..

theorem setConn_acon_ne {fd' : Nat} (h : fd' ≠ fd) : (s.setConn fd c).acon fd' = s.acon fd' :=
  Function.update_of_ne h ..

@[simp] theorem setPeer_store : (s.setPeer fd p).store = s.store := rfl

@[simp] theorem setPeer_fs : (s.setPeer fd p).fs = s.fs := rfl

@[simp] theorem setPeer_log : (s.setPeer fd p).log = s.log := rfl

@[simp] theorem setPeer_once : (s.setPeer fd p).once = s.once := rfl

@[simp] theorem setPeer_acon : (s.setPeer fd p).acon fd = { s.acon fd with user := some p } :=
  setConn_acon

/-- The block a peer receives. -/
def Peer.recv (p : Peer) : Option (Tasklist × Nat × Nat) :=
  p.recvtask.bind fun t => p.localInFd.map fun f => (t, f)

theorem recv_of_user (h : (s.acon fd).user = some p) : s.recv fd = p.recv := by
  rw [Sm.recv, h]
  rfl

theorem recv_of_none (h : (s.acon fd).user = none) : s.recv fd = none := by
  rw [Sm.recv, h]
  rfl

theorem Peer.recv_none (h : p.recvtask = none) : p.recv = none := by
  rw [Peer.recv, h]
  rfl

/-- Only the connection `fd` has changed. -/
structure OnlyConn (fd : Nat) (s s' : Sm) : Prop where
  others : ∀ {fd'}, fd' ≠ fd → s'.acon fd' = s.acon fd'
  once : s'.once = s.once

theorem OnlyConn.refl : OnlyConn fd s s := ⟨fun _ => rfl, rfl⟩

theorem OnlyConn.trans (h : OnlyConn fd s s') (h' : OnlyConn fd s' s'') : OnlyConn fd s s'' :=
  ⟨fun hne => (h'.others hne).trans (h.others hne), h'.once.trans h.once⟩

theorem OnlyConn.of_update (ha : s'.acon = Function.update s.acon fd c) (ho : s'.once = s.once) :
    OnlyConn fd s s' :=
  ⟨fun hne => by rw [ha, Function.update_of_ne hne], ho⟩

theorem OnlyConn.setConn : OnlyConn fd s (s.setConn fd c) := .of_update rfl rfl

/-- What the connections receive, when one has changed. -/
theorem OnlyConn.recv (h : OnlyConn fd s s') : s'.recv = Function.update s.recv fd (s'.recv fd) := by
  funext fd'
  by_cases hne : fd' = fd
  · subst hne
    rw [Function.update_self]
  · rw [Function.update_of_ne hne, Sm.recv, Sm.recv, h.others hne]

theorem OnlyConn.recv_eq (h : OnlyConn fd s s') (hr : s'.recv fd = s.recv fd) : s'.recv = s.recv := by
  rw [h.recv, hr, Function.update_eq_self]

theorem OnlyConn.recv_update {r : Option (Tasklist × Nat × Nat)} (h : OnlyConn fd s s')
    (hr : s'.recv fd = r) : s'.recv = Function.update s.recv fd r := by
  rw [h.recv, hr]

theorem OnlyConn.tidy (h : OnlyConn fd s s') (ht : Tidy s) (hc : (s'.acon fd).Tidy) : Tidy s' := by
  intro fd'
  by_cases hne : fd' = fd
  · rwa [hne]
  · rw [h.others hne]
    exact ht fd'

theorem SameRecords.refl : SameRecords s s := ⟨rfl, rfl, rfl, rfl⟩

theorem SameRecords.trans (h : SameRecords s s') (h' : SameRecords s' s'') : SameRecords s s'' :=
  ⟨h'.store.trans h.store, h'.fs.trans h.fs, h'.log.trans h.log, h'.recv.trans h.recv⟩

theorem Conn.Tidy.receiving (h : c.Tidy) (hu : c.user = some p) {t : Tasklist}
    (ht : p.recvtask = some t) : ∃ node off, p.localInFd = some (node, off) ∧
    p.recv = some (t, node, off) := by
  obtain ⟨⟨node, off⟩, hf⟩ := Option.isSome_iff_exists.mp (h.file hu ht)
  refine ⟨node, off, hf, ?_⟩
  rw [Peer.recv, ht, hf]
  rfl

theorem Conn.Tidy.of_idle (hu : c.user = some p) (ho : c.isOpen = true) (hp : p.recvtask = none) : c.Tidy := by
  refine ⟨fun hc => ?_, fun hu' _ => ?_, fun hu' ht => ?_⟩
  · exact absurd (ho.symm.trans hc) (by simp)
  · rw [hu] at hu'
    rw [← Option.some.inj hu', hp]
  · rw [hu] at hu'
    rw [← Option.some.inj hu', hp] at ht
    exact absurd ht (by simp)

theorem Conn.Tidy.of_body (hu : c.user = some p) (ho : c.isOpen = true) (hp : p.sockStat = .recvBodyIng)
    (hf : p.recvtask.isSome → p.localInFd.isSome) : c.Tidy := by
  refine ⟨fun hc => ?_, fun hu' hne => ?_, fun hu' ht => ?_⟩
  · exact absurd (ho.symm.trans hc) (by simp)
  · rw [hu] at hu'
    exact absurd (Option.some.inj hu' ▸ hp) hne
  · rw [hu] at hu'
    obtain rfl := Option.some.inj hu'
    exact hf (by rw [ht]; rfl)

/-! ## The first phase -/

/-- What is left after `check_req`: the connection is still open, and it receives a block when
`RECV_ADD_EPOLLIN` is returned. -/
structure Checked (fd : Nat) (s : Sm) (r : RecvRet) (s' : Sm) : Prop where
  only : OnlyConn fd s s'
  isOpen : (s'.acon fd).isOpen = (s.acon fd).isOpen
  peer : ∃ p, (s'.acon fd).user = some p ∧
    (p.recvtask = none ∨
      r = .addEpollin ∧ p.sockStat = .recvBodyIng ∧ p.localInFd.isSome ∨
      r = .close ∧ p.localInFd = none)

theorem Checked.of_update {r : RecvRet} (hc : c.isOpen = (s.acon fd).isOpen)
    (ha : s'.acon = Function.update s.acon fd c) (ho : s'.once = s.once) (hu : c.user = some p)
    (hp : p.recvtask = none ∨ r = .addEpollin ∧ p.sockStat = .recvBodyIng ∧ p.localInFd.isSome ∨
      r = .close ∧ p.localInFd = none) : Checked fd s r s' := by
  have hfd : s'.acon fd = c := by rw [ha, Function.update_self]
  exact ⟨.of_update ha ho, by rw [hfd, hc], p, by rw [hfd, hu], hp⟩

/-- A state that differs by a change of one connection which leaves its block alone. -/
theorem OnlyConn.same (h : OnlyConn fd s s') (hs : s'.store = s.store) (hf : s'.fs = s.fs)
    (hl : s'.log = s.log) (hr : s'.recv fd = s.recv fd) : SameRecords s s' :=
  ⟨hs, hf, hl, h.recv_eq hr⟩

section Check

variable {peer : Peer}

theorem doPrepareRecvfile_eq (hp : peer.sockStat = .recvHeadIng) (task : Tasklist) (s : Sm) :
    doPrepareRecvfile cfg io fd peer task (toInt64 (task.sub.end_ - task.sub.start + 1)) s =
      if io.opens then
        (.addEpollin, { s with fs := (s.fs.creat (prepared cfg task).base.tmpfile).2 }.setPeer fd
          { peer with
            localInFd := some ((s.fs.creat (prepared cfg task).base.tmpfile).1, 0)
            sockStat := .recvBodyIng
            recvtask := some (prepared cfg task) })
      else
        (.close, { s with store := vfsSetTask s.store ((prepared cfg task).over .eOpenDstfile) .fin
          }.setPeer fd { peer with localInFd := none, recvtask := some ((prepared cfg task).over .eOpenDstfile) }) := by
  unfold doPrepareRecvfile openTmpLocalfile4Write
  rw [if_neg (by simp [hp])]
  by_cases ho : io.opens = true
  · simp only [if_pos ho]
    rfl
  · simp only [if_neg ho]
    rfl

/-- `check_req` behind a parsed header. -/
theorem startTask_move (cfg : Cfg) (io : RecvIo) (clen : Nat) (hp : peer.sockStat = .recvHeadIng) (hidle : peer.recvtask = none)
    (hfree : s.recv fd = none) :
    HeadMove cfg io.opens fd s (startTask cfg io fd peer clen s).2 ∧
    Checked fd s (startTask cfg io fd peer clen s).1 (startTask cfg io fd peer clen s).2 := by
  unfold startTask
  dsimp only
  split
  · -- the list of missing blocks
    have hchk : Checked fd s .send (({ s with
        store := (getTaskUnok cfg s.store peer.header.hostname).2.2 }.setPeer fd peer).setConn fd
        { ({ s with store := (getTaskUnok cfg s.store peer.header.hostname).2.2 }.setPeer fd peer).acon fd with
          sendBuff := mybuffSetdata cfg.initBuffSize io.mem (({ s with
            store := (getTaskUnok cfg s.store peer.header.hostname).2.2 }.setPeer fd peer).acon fd).sendBuff
            (getTaskUnok cfg s.store peer.header.hostname).1 }) :=
      .of_update (p := peer) (by simp) (Function.update_idem ..) rfl (by simp) (Or.inl hidle)
    refine ⟨.ask peer.header.hostname rfl rfl rfl (hchk.only.recv_eq ?_), hchk⟩
    rw [hfree, recv_of_user (p := peer) (by simp), Peer.recv_none hidle]
  · -- no record to be had
    have key : ∀ st, st = (vfsGetTask cfg.mallocOk s.store .home).2 →
        (∀ t, (vfsGetTask cfg.mallocOk s.store .home).1 ≠ .ok t) →
        HeadMove cfg io.opens fd s ({ s with store := st }.setPeer fd peer) ∧
        Checked fd s .again ({ s with store := st }.setPeer fd peer) := by
      intro st hst hn
      have hchk : Checked fd s .again ({ s with store := st }.setPeer fd peer) :=
        .of_update (c := { s.acon fd with user := some peer }) rfl rfl rfl rfl (Or.inl hidle)
      refine ⟨.noRecord hn hst rfl rfl (hchk.only.recv_eq ?_), hchk⟩
      rw [hfree, recv_of_user (p := peer) (by rw [setPeer_acon]), Peer.recv_none hidle]
    rcases hg : vfsGetTask cfg.mallocOk s.store .home with ⟨r, st⟩
    cases r with
    | ok task0 =>
      dsimp only
      generalize htask : ({ task0 with
        base := (convertHttpheader2Task peer.header { TaskBase.zero with usrcip := peer.ip } .zero).1
        sub := (convertHttpheader2Task peer.header { TaskBase.zero with usrcip := peer.ip } .zero).2
        got := [] } : Tasklist) = task
      have hlen : peer.header.end_ - peer.header.start + 1 = task.sub.end_ - task.sub.start + 1 := by
        rw [← htask]
        rfl
      have hpost : Posted task0 task := by
        rw [← htask]
        exact ⟨rfl, rfl, rfl, rfl, rfl⟩
      rw [hlen, doPrepareRecvfile_eq hp]
      split
      · next ho =>
        refine ⟨.start task0 task st hg hpost ho hfree rfl rfl rfl (OnlyConn.recv_update (.of_update
          (Function.update_idem ..) rfl) (recv_of_user (p := { peer with
            localInFd := some ((s.fs.creat (prepared cfg task).base.tmpfile).1, 0)
            sockStat := .recvBodyIng
            recvtask := some (prepared cfg task) }) ?_)), ?_⟩
        · rw [setConn_acon, setPeer_acon]
          rfl
        · exact .of_update (by simp) (Function.update_idem ..) rfl (by rw [setPeer_acon])
            (Or.inr (Or.inl ⟨rfl, rfl, rfl⟩))
      · refine ⟨.refuse task0 task st hg hpost rfl rfl rfl (OnlyConn.recv_eq (.of_update
          (Function.update_idem ..) rfl) ?_) hfree, ?_⟩
        · rw [hfree, Sm.recv, setConn_acon, setPeer_acon]
          rfl
        · exact .of_update (by simp) (Function.update_idem ..) rfl (by rw [setPeer_acon])
            (Or.inr (Or.inr ⟨rfl, rfl⟩))
    | err => exact key st (by rw [hg]) (by simp [hg])
    | nothing => exact key st (by rw [hg]) (by simp [hg])

theorem HeadMove.same_left (h : SameRecords s s') (hm : HeadMove cfg opens fd s' s'') : HeadMove cfg opens fd s s'' := by
  obtain ⟨hs, hf, hl, hr⟩ := h
  cases hm with
  | stay h' => exact .stay (SameRecords.trans ⟨hs, hf, hl, hr⟩ h')
  | ask host store fs log recv =>
    rw [hs] at store
    exact .ask host store (fs.trans hf) (log.trans hl) (recv.trans hr)
  | noRecord none store fs log recv =>
    rw [hs] at none store
    exact .noRecord none store (fs.trans hf) (log.trans hl) (recv.trans hr)
  | refuse task0 t st home posted store fs log recv free =>
    rw [hs] at home
    rw [hl] at log
    rw [hr] at free
    exact .refuse task0 t st home posted store (fs.trans hf) log (recv.trans hr) free
  | start task0 t st home posted opened free store fs log recv =>
    rw [hs] at home
    rw [hl] at log
    rw [hf] at fs recv
    rw [hr] at free recv
    exact .start task0 t st home posted opened free store fs log recv

theorem HeadMove.same_right (hm : HeadMove cfg opens fd s s') (h : SameRecords s' s'') : HeadMove cfg opens fd s s'' := by
  obtain ⟨hs, hf, hl, hr⟩ := h
  cases hm with
  | stay h' => exact .stay (h'.trans ⟨hs, hf, hl, hr⟩)
  | ask host store fs log recv =>
    exact .ask host (hs.trans store) (hf.trans fs) (hl.trans log) (hr.trans recv)
  | noRecord none store fs log recv =>
    exact .noRecord none (hs.trans store) (hf.trans fs) (hl.trans log) (hr.trans recv)
  | refuse task0 t st home posted store fs log recv free =>
    exact .refuse task0 t st home posted (hs.trans store) (hf.trans fs) (hl.trans log)
      (hr.trans recv) free
  | start task0 t st home posted opened free store fs log recv =>
    exact .start task0 t st home posted opened free (hs.trans store) (hf.trans fs) (hl.trans log)
      (hr.trans recv)

theorem checkReq_move (cfg : Cfg) (io : RecvIo) (scan : Mybuff → Bytes) (hu : (s.acon fd).user = some peer) (hidle : peer.recvtask = none) :
    HeadMove cfg io.opens fd s (checkReq scan cfg io fd peer s).2 ∧
    Checked fd s (checkReq scan cfg io fd peer s).1 (checkReq scan cfg io fd peer s).2 := by
  have hfree : s.recv fd = none := by rw [recv_of_user hu, Peer.recv_none hidle]
  have hstay : ∀ r, HeadMove cfg io.opens fd s s ∧ Checked fd s r s := fun r =>
    ⟨.stay .refl, .refl, rfl, peer, hu, Or.inl hidle⟩
  unfold checkReq
  split
  · exact hstay _
  · dsimp only
    split
    · exact hstay _
    · next e he =>
      generalize SmClient.parseHeader peer.header (cstr (scan (s.acon fd).recvBuff)) = r
      generalize hs1 : s.setConn fd { s.acon fd with
        recvBuff := (s.acon fd).recvBuff.store r.2.2 } = s1
      have honly : OnlyConn fd s s1 := hs1 ▸ OnlyConn.setConn
      have hu1 : (s1.acon fd).user = some peer := by rw [← hs1, setConn_acon, hu]
      have ho1 : (s1.acon fd).isOpen = (s.acon fd).isOpen := by rw [← hs1, setConn_acon]
      have hfree1 : s1.recv fd = none := by rw [recv_of_user hu1, Peer.recv_none hidle]
      have hsame : SameRecords s s1 := honly.same (by rw [← hs1]; rfl) (by rw [← hs1]; rfl)
        (by rw [← hs1]; rfl) (hfree1.trans hfree.symm)
      split
      · refine ⟨HeadMove.stay (hsame.trans (OnlyConn.setConn.same rfl rfl rfl ?_)), ?_⟩
        · rw [hfree1, Sm.recv, setConn_acon]
          simp [hidle]
        · exact ⟨honly.trans .setConn, by rw [setPeer_acon, ho1],
            { peer with sockStat := .recvHeadIng, header := r.2.1 }, by rw [setPeer_acon],
            Or.inl hidle⟩
      · obtain ⟨hm, hc⟩ := startTask_move cfg io (e + 4)
          (show ({ peer with sockStat := .recvHeadIng, header := r.2.1 } : Peer).sockStat = _ from rfl)
          hidle hfree1
        exact ⟨hm.same_left hsame, honly.trans hc.only, hc.isOpen.trans ho1, hc.peer⟩

end Check

/-! ## The second phase -/

/-- What is left after a call of `svc_recv`: the connection is open and tidy. -/
structure Kept (fd : Nat) (s s' : Sm) : Prop where
  only : OnlyConn fd s s'
  isOpen : (s'.acon fd).isOpen = true
  tidy : (s'.acon fd).Tidy

theorem Kept.of_update (ho : c.isOpen = true) (ha : s'.acon = Function.update s.acon fd c)
    (honce : s'.once = s.once) (ht : c.Tidy) : Kept fd s s' := by
  have hfd : s'.acon fd = c := by rw [ha, Function.update_self]
  exact ⟨.of_update ha honce, by rw [hfd, ho], by rwa [hfd]⟩

theorem recvBody_move (io : RecvIo) (ht : (s.acon fd).Tidy) (ho : (s.acon fd).isOpen = true)
    (hu : (s.acon fd).user = some p) (hb : p.sockStat = .recvBodyIng) :
    BodyMove fd s (recvBody io fd p s).2 ∧ Kept fd s (recvBody io fd p s).2 := by
  have hstay : BodyMove fd s s ∧ Kept fd s s := ⟨.stay .refl, .refl, ho, ht⟩
  unfold recvBody
  split
  · exact hstay
  · next task htask =>
    obtain ⟨node, off, hf, hrecv⟩ := ht.receiving hu htask
    have hrecv0 : s.recv fd = some (task, node, off) := (recv_of_user hu).trans hrecv
    split
    · exact hstay
    · next data datalen hdata =>
      dsimp only
      split
      · exact hstay
      · next k hk =>
        generalize hrem : (toInt32 (task.base.fsize - task.base.getlen) % 2 ^ 64).toNat = remainlen
        generalize hbytes : data.take (min k (if datalen ≤ remainlen then datalen else remainlen)) =
          bytes
        have hfits : bytes.length ≤ (toInt32 (task.base.fsize - task.base.getlen) % 2 ^ 64).toNat := by
          rw [hrem, ← hbytes, List.length_take]
          split <;> omega
        rw [hf]
        split
        · next hneg =>
          refine ⟨.overflow task node off bytes hrecv0 hfits hneg rfl rfl rfl
            (OnlyConn.recv_update (.of_update rfl rfl) ?_), ?_⟩
          · rw [Sm.recv, setPeer_acon]
            simp [htask]
          · refine .of_update (c := { s.acon fd with user := some { p with
              localInFd := some (node, off + bytes.length) } }) ho rfl rfl ?_
            exact .of_body rfl ho hb fun _ => rfl
        · next hpos =>
          split
          · next hdone =>
            rw [if_pos (show closeTmpCheckMv ((some (node, off)).map fun p =>
              (p.1, p.2 + bytes.length)) = true from rfl)]
            refine ⟨.finish task node off bytes hrecv0 hfits (by omega) hdone rfl rfl rfl
              (OnlyConn.recv_update (.of_update (Function.update_idem ..) rfl) ?_), ?_⟩
            · rw [Sm.recv, setPeer_acon]
              rfl
            · exact .of_update (c := _) (by simpa using ho) (Function.update_idem ..) rfl
                (.of_body rfl (by simpa using ho) hb (by simp))
          · next hmore =>
            refine ⟨.write task node off bytes hrecv0 hfits (by omega) (by omega) rfl rfl rfl
              (OnlyConn.recv_update (.of_update (Function.update_idem ..) rfl) ?_), ?_⟩
            · rw [Sm.recv, setPeer_acon]
              rfl
            · exact .of_update (c := _) (by simpa using ho) (Function.update_idem ..) rfl
                (.of_body rfl (by simpa using ho) hb fun _ => rfl)

/-! ## The third phase -/

theorem doClose_move (fd : Nat) (ht : Tidy s) : CloseMove fd s (doClose fd s) ∧ Tidy (doClose fd s) ∧
    OnlyConn fd s (doClose fd s) ∧ (doClose fd s).recv fd = none := by
  have key : ∀ s' : Sm, s'.acon = Function.update s.acon fd { s.acon fd with isOpen := false, user := none } →
      s'.once = s.once → Tidy s' ∧ OnlyConn fd s s' ∧ s'.recv fd = none := by
    intro s' ha ho
    have honly : OnlyConn fd s s' := .of_update ha ho
    have hu : (s'.acon fd).user = none := by rw [ha, Function.update_self]
    exact ⟨honly.tidy ht ⟨fun _ => hu, fun h => by simp [hu] at h, fun h => by simp [hu] at h⟩, honly,
      recv_of_none hu⟩
  unfold doClose
  split
  · unfold svcFiniconn
    rcases hu : (s.acon fd).user with _ | p
    · obtain ⟨htidy, honly, hnone⟩ := key (s.setConn fd { s.acon fd with isOpen := false })
        (by rw [← hu]; rfl) rfl
      exact ⟨.stay (honly.same rfl rfl rfl (hnone.trans (recv_of_none hu).symm)), htidy, honly, hnone⟩
    · dsimp only
      rcases hr : p.recvtask with _ | t
      · have hk := key (({ s with store := s.store }.setConn fd { s.acon fd with user := none }).setConn fd
          { ({ s with store := s.store }.setConn fd { s.acon fd with user := none }).acon fd with
            isOpen := false }) ?_ rfl
        · refine ⟨.stay (hk.2.1.same rfl rfl rfl (hk.2.2.trans ?_)), hk⟩
          rw [recv_of_user hu, Peer.recv_none hr]
        · rw [setConn_acon]
          exact Function.update_idem ..
      · obtain ⟨node, off, -, hrecv⟩ := (ht fd).receiving hu hr
        have hk := key (({ s with store := vfsSetTask s.store (t.over .peererr) .fin }.setConn fd
          { s.acon fd with user := none }).setConn fd
          { ({ s with store := vfsSetTask s.store (t.over .peererr) .fin }.setConn fd
            { s.acon fd with user := none }).acon fd with isOpen := false }) ?_ rfl
        · exact ⟨.abort t (node, off) ((recv_of_user hu).trans hrecv) rfl rfl rfl
            (hk.2.1.recv_update hk.2.2), hk⟩
        · rw [setConn_acon]
          exact Function.update_idem ..
  · next ho =>
    have hu := (ht fd).closed (by simpa using ho)
    exact ⟨.stay .refl, ht, .refl, recv_of_none hu⟩

/-! ## The calls -/

/-- The connection is open and receives a block: what `svc_recv` finds before the second phase. -/
structure AtBody (s : Sm) (fd : Nat) (p : Peer) : Prop where
  isOpen : (s.acon fd).isOpen = true
  tidy : (s.acon fd).Tidy
  user : (s.acon fd).user = some p
  body : p.sockStat = .recvBodyIng

/-- A call of `svc_recv` is a first phase, with or without the second. -/
theorem svcRecv_phases (cfg : Cfg) (io : RecvIo) (scan : Mybuff → Bytes) (ht : Tidy s) (ho : (s.acon fd).isOpen = true) :
    ∃ s1, HeadMove cfg io.opens fd s s1 ∧
      (Kept fd s s1 ∧ (svcRecv scan cfg io fd s).2 = s1 ∨
        ∃ p, OnlyConn fd s s1 ∧ AtBody s1 fd p ∧
          (svcRecv scan cfg io fd s).2 = (recvBody io fd p s1).2) := by
  unfold svcRecv
  split
  · exact ⟨s, .stay .refl, Or.inl ⟨⟨.refl, ho, ht fd⟩, rfl⟩⟩
  · next peer hu =>
    split
    · next hb => exact ⟨s, .stay .refl, Or.inr ⟨peer, .refl, ⟨ho, ht fd, hu, hb⟩, rfl⟩⟩
    · next hb =>
      obtain ⟨hm, hc⟩ := checkReq_move cfg io scan hu ((ht fd).idle hu hb)
      rcases hr : checkReq scan cfg io fd peer s with ⟨r, s1⟩
      rw [hr] at hm hc
      obtain ⟨honly, hkeep, p, hp, hcase⟩ := hc
      have hopen : (s1.acon fd).isOpen = true := hkeep.trans ho
      -- a peer without a record
      have hidle : p.recvtask = none → Kept fd s s1 := fun hn => ⟨honly, hopen, .of_idle hp hopen hn⟩
      cases r with
      | again => exact ⟨s1, hm, Or.inl ⟨hidle (by simpa using hcase), rfl⟩⟩
      | send => exact ⟨s1, hm, Or.inl ⟨hidle (by simpa using hcase), rfl⟩⟩
      | close =>
        dsimp only
        rw [hp]
        have hrecv : s1.recv fd = none := by
          rw [recv_of_user hp, Peer.recv]
          rcases hcase with h | h | h
          · simp [h]
          · exact absurd h.1 (by simp)
          · simp [h.2]
        have honly2 : OnlyConn fd s1 (s1.setPeer fd { p with recvtask := none }) := .setConn
        have hsame : SameRecords s1 (s1.setPeer fd { p with recvtask := none }) :=
          honly2.same rfl rfl rfl (by rw [hrecv, Sm.recv, setPeer_acon]; rfl)
        refine ⟨_, hm.same_right hsame, Or.inl ⟨⟨honly.trans honly2, ?_, ?_⟩, rfl⟩⟩
        · rw [setPeer_acon, hopen]
        · rw [setPeer_acon]
          exact .of_idle rfl hopen rfl
      | addEpollin =>
        dsimp only
        rw [hp]
        rcases hcase with h | ⟨-, hb1, hf⟩ | h
        · have hbody : recvBody io fd p s1 = (.close, s1) := by
            unfold recvBody
            rw [h]
          dsimp only
          rw [hbody]
          exact ⟨s1, hm, Or.inl ⟨hidle h, rfl⟩⟩
        · exact ⟨s1, hm, Or.inr ⟨p, honly, ⟨hopen, .of_body hp hopen hb1 fun _ => hf, hp, hb1⟩, rfl⟩⟩
        · exact absurd h.1 (by simp)

theorem svcRecv_moves (cfg : Cfg) (io : RecvIo) (scan : Mybuff → Bytes) (ht : Tidy s) (ho : (s.acon fd).isOpen = true) :
    ∃ s1, HeadMove cfg io.opens fd s s1 ∧ BodyMove fd s1 (svcRecv scan cfg io fd s).2 ∧
      Kept fd s (svcRecv scan cfg io fd s).2 := by
  obtain ⟨s1, hm, ⟨hk, he⟩ | ⟨p, honly, hb, he⟩⟩ := svcRecv_phases cfg io scan ht ho
  · rw [he]
    exact ⟨s1, hm, .stay .refl, hk⟩
  · obtain ⟨hm2, hk⟩ := recvBody_move io hb.tidy hb.isOpen hb.user hb.body
    rw [he]
    exact ⟨s1, hm, hm2, honly.trans hk.only, hk.isOpen, hk.tidy⟩

/-- A call of `do_recv` on an open connection: a call of `svc_recv` in a state with the same records,
and a third phase. -/
theorem doRecv_svcRecv (cfg : Cfg) (io : RecvIo) (scan : Mybuff → Bytes) (fd : Nat) (chunk : Bytes)
    (ht : Tidy s) (ho : (s.acon fd).isOpen = true) :
    ∃ s0, SameRecords s s0 ∧ OnlyConn fd s s0 ∧ Tidy s0 ∧ (s0.acon fd).isOpen = true ∧
      s0 = s.setConn fd { s.acon fd with
        recvBuff := mybuffSetdata cfg.initBuffSize io.mem (s.acon fd).recvBuff chunk } ∧
      Tidy (doRecv scan cfg io fd chunk s).2 ∧
      OnlyConn fd (svcRecv scan cfg io fd s0).2 (doRecv scan cfg io fd chunk s).2 ∧
      CloseMove fd (svcRecv scan cfg io fd s0).2 (doRecv scan cfg io fd chunk s).2 := by
  unfold doRecv
  rw [if_pos ho]
  dsimp only
  generalize hs0 : s.setConn fd { s.acon fd with
    recvBuff := mybuffSetdata cfg.initBuffSize io.mem (s.acon fd).recvBuff chunk } = s0
  have honly0 : OnlyConn fd s s0 := hs0 ▸ OnlyConn.setConn
  have hfd : s0.acon fd = { s.acon fd with
      recvBuff := mybuffSetdata cfg.initBuffSize io.mem (s.acon fd).recvBuff chunk } := by
    rw [← hs0, setConn_acon]
  have ho0 : (s0.acon fd).isOpen = true := by rw [hfd]; exact ho
  have ht0 : Tidy s0 := honly0.tidy ht (by rw [hfd]; exact ⟨(ht fd).closed, (ht fd).idle, (ht fd).file⟩)
  have hsame : SameRecords s s0 := honly0.same (by rw [← hs0]; rfl) (by rw [← hs0]; rfl)
    (by rw [← hs0]; rfl) (by rw [Sm.recv, Sm.recv, hfd])
  obtain ⟨s1, -, -, hk⟩ := svcRecv_moves cfg io scan ht0 ho0
  have ht2 : Tidy (svcRecv scan cfg io fd s0).2 := hk.only.tidy ht0 hk.tidy
  refine ⟨s0, hsame, honly0, ht0, ho0, rfl, ?_⟩
  split
  · obtain ⟨hm3, ht3, honly3, -⟩ := doClose_move fd ht2
    exact ⟨ht3, honly3, hm3⟩
  · exact ⟨ht2, .refl, .stay .refl⟩

theorem doRecv_closed (cfg : Cfg) (io : RecvIo) (scan : Mybuff → Bytes) (chunk : Bytes)
    (ho : ¬ (s.acon fd).isOpen = true) : (doRecv scan cfg io fd chunk s).2 = s := by
  unfold doRecv
  rw [if_neg ho]

/-- **A call of `do_recv`** is a move of each phase. -/
theorem doRecv_moves (cfg : Cfg) (io : RecvIo) (scan : Mybuff → Bytes) (fd : Nat) (chunk : Bytes)
    (ht : Tidy s) :
    Tidy (doRecv scan cfg io fd chunk s).2 ∧ OnlyConn fd s (doRecv scan cfg io fd chunk s).2 ∧
    ∃ s1 s2, HeadMove cfg io.opens fd s s1 ∧ BodyMove fd s1 s2 ∧
      CloseMove fd s2 (doRecv scan cfg io fd chunk s).2 := by
  by_cases ho : (s.acon fd).isOpen = true
  · obtain ⟨s0, hsame, honly0, ht0, ho0, -, ht3, honly3, hm3⟩ := doRecv_svcRecv cfg io scan fd chunk ht ho
    obtain ⟨s1, hm1, hm2, hk⟩ := svcRecv_moves cfg io scan ht0 ho0
    exact ⟨ht3, (honly0.trans hk.only).trans honly3, s1, _, hm1.same_left hsame, hm2, hm3⟩
  · rw [doRecv_closed cfg io scan chunk ho]
    exact ⟨ht, .refl, s, s, .stay .refl, .stay .refl, .stay .refl⟩

theorem CloseMove.same_left (h : SameRecords s s') (hm : CloseMove fd s' s'') : CloseMove fd s s'' := by
  obtain ⟨hs, hf, hl, hr⟩ := h
  cases hm with
  | stay h' => exact .stay (SameRecords.trans ⟨hs, hf, hl, hr⟩ h')
  | abort t f recv0 store fs log recv =>
    rw [hs] at store
    rw [hr] at recv0 recv
    exact .abort t f recv0 store (fs.trans hf) (log.trans hl) recv

theorem doSend_move (fd n : Nat) (ht : Tidy s) :
    Tidy (doSend fd n s).2 ∧ OnlyConn fd s (doSend fd n s).2 ∧ CloseMove fd s (doSend fd n s).2 := by
  unfold doSend
  split
  · dsimp only
    generalize hs0 : s.setConn fd { s.acon fd with
      sendBuff := mybuffSkipdata (s.acon fd).sendBuff n } = s0
    have honly0 : OnlyConn fd s s0 := hs0 ▸ OnlyConn.setConn
    have hfd : s0.acon fd = { s.acon fd with sendBuff := mybuffSkipdata (s.acon fd).sendBuff n } := by
      rw [← hs0, setConn_acon]
    have ht0 : Tidy s0 := honly0.tidy ht (by rw [hfd]; exact ⟨(ht fd).closed, (ht fd).idle, (ht fd).file⟩)
    have hsame : SameRecords s s0 := honly0.same (by rw [← hs0]; rfl) (by rw [← hs0]; rfl)
      (by rw [← hs0]; rfl) (by rw [Sm.recv, Sm.recv, hfd])
    split
    · obtain ⟨hm, ht1, honly1, -⟩ := doClose_move fd ht0
      exact ⟨ht1, honly0.trans honly1, hm.same_left hsame⟩
    · exact ⟨ht0, honly0, .stay hsame⟩
  · exact ⟨ht, .refl, .stay .refl⟩

/-- A new connection receives nothing yet. -/
theorem acceptNew_same (cfg : Cfg) (mem : Nat → UInt8) (fd ip : Nat) (ht : Tidy s) :
    Tidy (acceptNew cfg mem fd ip s) ∧ SameRecords s (acceptNew cfg mem fd ip s) ∧
    OnlyConn fd s (acceptNew cfg mem fd ip s) := by
  unfold acceptNew
  split
  · exact ⟨ht, .refl, .refl⟩
  · next ho =>
    have hu := (ht fd).closed (by simpa using ho)
    refine ⟨OnlyConn.tidy .setConn ht ?_, OnlyConn.same .setConn rfl rfl rfl ?_, .setConn⟩
    · rw [setConn_acon]
      exact .of_idle rfl rfl rfl
    · rw [recv_of_none hu, Sm.recv, setConn_acon]
      rfl

end VfsOss
