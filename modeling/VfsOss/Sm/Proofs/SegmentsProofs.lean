import VfsOss.Sm.Segments
import VfsOss.CLib.Proofs.FileSystemProofs
import VfsOss.Sm.Proofs.ArraysProofs
import VfsOss.Sm.Proofs.RoundTripProofs

/-!
# Proofs: an upload is received exactly, whatever the pieces

Behind any bytes of an upload the connection either waits for the end of the header, or receives the block
and has all bytes of it that have come, or is closed. Each call takes it from one such state to another.
-/

namespace VfsOss

open CLib

variable {cfg : Cfg} {io : RecvIo} {fd : Nat} {s s' : Sm} {p : Peer} {b c rest text : Bytes} {l : HeaderLines}

/-! ## The block -/

/-- The record of a block that has received the bytes `b`. -/
def Tasklist.holding (t : Tasklist) (b : Bytes) : Tasklist :=
  { t with base := { t.base with getlen := b.length }, got := b }

/-- What `check_req` starts a block with: the record, the store without it, the files with an empty temporary
file, and the node of that. -/
structure Start where
  task : Tasklist
  store : TaskStore
  fs : FileSystem Bytes
  node : Nat

variable {u : Start}

/-- The connection receives the block: `b` is in the file, `rest` in the buffer. -/
structure Start.Receiving (u : Start) (fd : Nat) (b rest : Bytes) (s : Sm) : Prop where
  store : s.store = u.store
  fs : s.fs = u.fs.setNode u.node b
  isOpen : (s.acon fd).isOpen = true
  user : ∃ p, (s.acon fd).user = some p ∧ p.sockStat = .recvBodyIng ∧
    p.recvtask = some (u.task.holding b) ∧ p.localInFd = some (u.node, b.length)
  live : (s.acon fd).recvBuff.live = rest

/-- The block is `OVER_OK` with the bytes `b`, and the connection is closed. -/
structure Start.Finished (u : Start) (fd : Nat) (b : Bytes) (s : Sm) : Prop where
  store : s.store = vfsSetTask u.store ((u.task.holding b).over .ok) .fin
  fs : s.fs = u.fs.setNode u.node b
  isOpen : (s.acon fd).isOpen = false

theorem pwrite_setNode (fs : FileSystem Bytes) (i : Nat) (b c : Bytes) :
    (fs.setNode i b).pwrite i b.length c = fs.setNode i (b ++ c) := by
  have hnode : (fs.setNode i b).node i = b := fs.node_setNode_self b
  rw [FileSystem.pwrite, hnode, splice_end]
  show FileSystem.mk .. = FileSystem.mk ..
  congr 1
  exact Function.update_idem ..

/-- What is taken of the buffer: as many bytes as the block still misses. -/
theorem recvBody_write (h : u.Receiving fd b rest s) (hw : io.write = some) (hne : rest ≠ [])
    (hlt : (b.length : Int) < u.task.base.fsize) (hmax : u.task.base.fsize ≤ 2 ^ 31 - 1)
    (htask : p.recvtask = some (u.task.holding b)) (hfile : p.localInFd = some (u.node, b.length)) :
    let bytes := rest.take (u.task.base.fsize.toNat - b.length)
    let s1 := { s with fs := u.fs.setNode u.node (b ++ bytes) }.setConn fd { s.acon fd with
      recvBuff := mybuffSkipdata (s.acon fd).recvBuff bytes.length }
    recvBody io fd p s =
      if u.task.base.fsize ≤ (b ++ bytes).length then
        (.close, { s1 with store := vfsSetTask s.store ((u.task.holding (b ++ bytes)).over .ok) .fin }.setPeer fd
          { p with localInFd := none, recvtask := none })
      else
        (.addEpollin, s1.setPeer fd { p with
          localInFd := some (u.node, (b ++ bytes).length)
          recvtask := some (u.task.holding (b ++ bytes)) }) := by
  intro bytes s1
  have hlive : (s.acon fd).recvBuff.live ≠ [] := by rwa [h.live]
  have hlen : (s.acon fd).recvBuff.len = rest.length := by rw [← Mybuff.length_live, h.live]
  have hremain : (toInt32 (u.task.base.fsize - b.length) % 2 ^ 64).toNat = u.task.base.fsize.toNat - b.length := by
    rw [toInt32_of_range (by omega) (by omega)]
    omega
  have hbytes : (s.acon fd).recvBuff.data.take (min rest.length (u.task.base.fsize.toNat - b.length)) = bytes := by
    rw [← List.take_take, ← hlen, List.take_take, Nat.min_comm, ← List.take_take]
    show List.take _ (s.acon fd).recvBuff.live = _
    rw [h.live]
  have hcount : toInt32 bytes.length = bytes.length := by
    have hle : bytes.length ≤ u.task.base.fsize.toNat - b.length := List.length_take_le ..
    exact toInt32_of_range (by omega) (by omega)
  have hmin : (if rest.length ≤ u.task.base.fsize.toNat - b.length then rest.length
      else u.task.base.fsize.toNat - b.length) = min rest.length (u.task.base.fsize.toNat - b.length) :=
    Nat.min_def.symm
  unfold recvBody
  rw [htask]
  dsimp only
  rw [mybuffGetdata_of_live _ hlive, hw]
  dsimp only [Tasklist.holding]
  simp only [hlen, hremain, hmin, Nat.min_self, hbytes, hcount, hfile, h.fs, pwrite_setNode, Option.map_some]
  rw [if_neg (by omega)]
  have hsum : (b.length : Int) + bytes.length = ((b ++ bytes).length : Int) := by
    rw [List.length_append]
    omega
  have hadd : b.length + bytes.length = (b ++ bytes).length := List.length_append.symm
  simp only [hsum, hadd, Int.toNat_natCast]
  split
  · rfl
  · rfl

/-- Closing a connection without a record only closes it. -/
theorem Start.Finished.of_close (hstore : s.store = vfsSetTask u.store ((u.task.holding b).over .ok) .fin)
    (hfs : s.fs = u.fs.setNode u.node b) (ho : (s.acon fd).isOpen = true) (hp : (s.acon fd).user = some p)
    (hn : p.recvtask = none) : u.Finished fd b (doClose fd s) := by
  unfold doClose svcFiniconn
  rw [if_pos ho, hp]
  simp only [hn]
  exact ⟨hstore, hfs, by rw [setConn_acon]⟩

namespace Start.Receiving

/-- Bytes that do not complete the block. -/
theorem more (h : u.Receiving fd b rest s) (hw : io.write = some) (hmax : u.task.base.fsize ≤ 2 ^ 31 - 1)
    (hlt : ((b ++ rest).length : Int) < u.task.base.fsize) (hp : (s.acon fd).user = some p) :
    (recvBody io fd p s).1 = .addEpollin ∧ u.Receiving fd (b ++ rest) [] (recvBody io fd p s).2 := by
  obtain ⟨p', hp', hstat, htask, hfile⟩ := h.user
  obtain rfl : p' = p := Option.some.inj (hp'.symm.trans hp)
  cases rest with
  | nil =>
    have hbody : recvBody io fd p' s = (.addEpollin, s) := by
      unfold recvBody
      rw [htask, (mybuffGetdata_eq_none _).mpr h.live]
    rw [hbody, List.append_nil]
    exact ⟨rfl, h⟩
  | cons d rest =>
    rw [List.length_append] at hlt
    have htake : (d :: rest).take (u.task.base.fsize.toNat - b.length) = d :: rest :=
      List.take_of_length_le (by omega)
    rw [recvBody_write h hw (List.cons_ne_nil _ _) (by omega) hmax htask hfile, htake,
      if_neg (by rw [List.length_append]; omega)]
    refine ⟨rfl, h.store, rfl, ?_, ⟨_, setPeer_user .., hstat, rfl, rfl⟩, ?_⟩
    · rw [setPeer_acon, setConn_acon]
      exact h.isOpen
    · rw [setPeer_acon, setConn_acon]
      show (mybuffSkipdata _ _).live = []
      rw [live_mybuffSkipdata, h.live, List.drop_length]

/-- Bytes that complete it. -/
theorem last (h : u.Receiving fd b rest s) (hw : io.write = some) (hmax : u.task.base.fsize ≤ 2 ^ 31 - 1)
    (hlt : (b.length : Int) < u.task.base.fsize) (hle : u.task.base.fsize ≤ ((b ++ rest).length : Int))
    (hp : (s.acon fd).user = some p) :
    (recvBody io fd p s).1 = .close ∧
    u.Finished fd ((b ++ rest).take u.task.base.fsize.toNat) (doClose fd (recvBody io fd p s).2) := by
  obtain ⟨p', hp', hstat, htask, hfile⟩ := h.user
  obtain rfl : p' = p := Option.some.inj (hp'.symm.trans hp)
  rw [List.length_append] at hle
  have hne : rest ≠ [] := by
    rintro rfl
    rw [List.length_nil] at hle
    omega
  have hbytes : b ++ rest.take (u.task.base.fsize.toNat - b.length) =
      (b ++ rest).take u.task.base.fsize.toNat := by
    have hb : b.take u.task.base.fsize.toNat = b := List.take_of_length_le (by omega)
    rw [List.take_append, hb]
  have hlen : u.task.base.fsize ≤ ((b ++ rest).take u.task.base.fsize.toNat).length := by
    rw [List.length_take, List.length_append]
    omega
  rw [recvBody_write h hw hne hlt hmax htask hfile, hbytes, if_pos hlen]
  refine ⟨rfl, .of_close ?_ rfl ?_ (setPeer_user ..) rfl⟩
  · rw [← h.store]
    rfl
  · rw [setPeer_acon]
    show ((Sm.setConn _ fd _).acon fd).isOpen = true
    rw [setConn_acon]
    exact h.isOpen

end Start.Receiving

/-! ## The header -/

/-- The connection waits for the end of the header: the bytes are in the buffer, and nothing else has
happened since `s0`. -/
structure Waiting (fd : Nat) (s0 : Sm) (b : Bytes) (s : Sm) : Prop where
  store : s.store = s0.store
  fs : s.fs = s0.fs
  isOpen : (s.acon fd).isOpen = true
  user : (s.acon fd).user = (s0.acon fd).user
  live : (s.acon fd).recvBuff.live = b

/-- The record that is made from a header. -/
def HttpHeader.post (header : HttpHeader) (ip : Nat) (task0 : Tasklist) : Tasklist :=
  { task0 with
    base := (convertHttpheader2Task header { TaskBase.zero with usrcip := ip } .zero).1
    sub := (convertHttpheader2Task header { TaskBase.zero with usrcip := ip } .zero).2
    got := [] }

/-- What a record is received with. -/
def Start.of (cfg : Cfg) (fs : FileSystem Bytes) (t : Tasklist) (st : TaskStore) : Start where
  task := prepared cfg t
  store := st
  fs := (fs.creat (prepared cfg t).base.tmpfile).2
  node := (fs.creat (prepared cfg t).base.tmpfile).1

theorem setNode_creat (fs : FileSystem Bytes) (path : Bytes) :
    (fs.creat path).2.setNode (fs.creat path).1 [] = (fs.creat path).2 := by
  have hnode : (fs.creat path).2.node (fs.creat path).1 = [] := fs.node_creat
  show FileSystem.mk .. = FileSystem.mk ..
  congr 1
  rw [← hnode, Function.update_eq_self]

/-- `check_req` behind the header of a block, with a record for it. -/
theorem startTask_post_eq {task0 : Tasklist} {st : TaskStore} (n : Nat)
    (hg : vfsGetTask cfg.mallocOk s.store .home = (.ok task0, st)) (hty : p.header.type ≠ 250) :
    startTask cfg io fd p n s =
      let t := p.header.post p.ip task0
      let r := doPrepareRecvfile cfg io fd p t (toInt64 (t.sub.end_ - t.sub.start + 1))
        ({ s with store := st }.note (.post t))
      (r.1, r.2.setConn fd { r.2.acon fd with recvBuff := mybuffSkipdata (r.2.acon fd).recvBuff n }) := by
  unfold startTask
  rw [if_neg hty, hg]
  rfl

theorem startTask_receiving {task0 : Tasklist} {st : TaskStore} (io : RecvIo) (fd n : Nat)
    (hg : vfsGetTask cfg.mallocOk s.store .home = (.ok task0, st)) (hty : p.header.type ≠ 250)
    (hstat : p.sockStat = .recvHeadIng) (ho : io.opens = true) (hopen : (s.acon fd).isOpen = true) :
    (startTask cfg io fd p n s).1 = .addEpollin ∧
    (Start.of cfg s.fs (p.header.post p.ip task0) st).Receiving fd [] ((s.acon fd).recvBuff.live.drop n)
      (startTask cfg io fd p n s).2 := by
  rw [startTask_post_eq n hg hty]
  dsimp only
  rw [doPrepareRecvfile_eq hstat, if_pos ho]
  refine ⟨rfl, rfl, (setNode_creat ..).symm, ?_, 
    ⟨_, (congrArg Conn.user setConn_acon).trans (setPeer_user ..), rfl, rfl, rfl⟩, ?_⟩
  · rw [setConn_acon, setPeer_acon]
    exact hopen
  · rw [setConn_acon, setPeer_acon]
    exact live_mybuffSkipdata _ n

theorem HeaderText.split (hh : HeaderText text l) : ∃ k, strstr text (crlf ++ crlf) = some k ∧ k + 4 = text.length :=
  Option.map_eq_some_iff.mp hh.ends

theorem HeaderText.ne_nil (hh : HeaderText text l) : text ≠ [] := by
  rintro rfl
  obtain ⟨k, -, hk⟩ := hh.split
  exact absurd hk (Nat.succ_ne_zero _)

/-- The end of the header has not come. -/
theorem checkReq_waiting (h : Waiting fd s' b s) (hb : strstr b (crlf ++ crlf) = none) (p : Peer) :
    checkReq Mybuff.live cfg io fd p s = (.again, s) := by
  have hc : strstr (cstr b) (crlf ++ crlf) = none :=
    strstr_none_of_append (by rw [← cstr_split b]; exact hb)
  unfold checkReq
  split
  · rfl
  · dsimp only
    rw [h.live, hc]

/-- It has come: the block is started. -/
theorem checkReq_receiving {task0 : Tasklist} {st : TaskStore} (h : Waiting fd s' (text ++ b) s)
    (hh : HeaderText text l) (hg : vfsGetTask cfg.mallocOk s'.store .home = (.ok task0, st))
    (ho : io.opens = true) :
    (checkReq Mybuff.live cfg io fd p s).1 = .addEpollin ∧
    (Start.of cfg s'.fs ((SmClient.parseHeader p.header text).2.1.post p.ip task0) st).Receiving fd [] b
      (checkReq Mybuff.live cfg io fd p s).2 := by
  obtain ⟨k, hk, hlen⟩ := hh.split
  obtain ⟨hok, htype, -⟩ := parseHeader_lines p.header hh.lines
  have hne : (s.acon fd).recvBuff.live ≠ [] := by
    rw [h.live]
    exact List.append_ne_nil_of_left_ne_nil hh.ne_nil b
  have hparse : SmClient.parseHeader p.header (text ++ cstr b) = (true,
      (SmClient.parseHeader p.header text).2.1, (SmClient.parseHeader p.header text).2.2 ++ cstr b) :=
    parseFields_append _ (Prod.ext hok rfl)
  have hkept : (SmClient.parseHeader p.header text).2.2.length = text.length := parseFields_length
  generalize hhead : (SmClient.parseHeader p.header text).2.1 = header at hparse htype ⊢
  generalize (SmClient.parseHeader p.header text).2.2 = written at hparse hkept
  have hlive : ((s.acon fd).recvBuff.store (written ++ cstr b)).live.drop text.length = b := by
    have hle : (written ++ cstr b).length ≤ (s.acon fd).recvBuff.len := by
      rw [← Mybuff.length_live, h.live, List.length_append, List.length_append, hkept]
      exact Nat.add_le_add_left (List.takeWhile_prefix _).length_le _
    rw [Mybuff.live_store _ _ hle, h.live, List.append_assoc, ← hkept, List.drop_left, List.length_append, hkept,
      ← List.drop_drop, List.drop_left]
    exact (cstr_split b).symm
  unfold checkReq
  rw [mybuffGetdata_of_live _ hne]
  dsimp only
  rw [h.live, cstr_append_of_not_mem hh.noNul, strstr_append hk, hparse]
  dsimp only
  rw [if_neg (by simp), hlen]
  have hstart := startTask_receiving io fd text.length
    (s := s.setConn fd { s.acon fd with recvBuff := (s.acon fd).recvBuff.store (written ++ cstr b) })
    (p := { p with sockStat := .recvHeadIng, header := header })
    (by rw [setConn_store, h.store]; exact hg) (htype ▸ hh.block) rfl ho (by rw [setConn_acon]; exact h.isOpen)
  rw [setConn_acon, setConn_fs, h.fs, hlive] at hstart
  exact hstart

/-- What `check_req` asks of the arrays when the header has come: that the path of its file fits. -/
theorem reqHolds_iff (hh : HeaderText text l) (hlive : (s.acon fd).recvBuff.live = text ++ b) (p : Peer) :
    ReqHolds Mybuff.live cfg fd p s ↔
      ((∃ t, (vfsGetTask cfg.mallocOk s.store .home).1 = .ok t) → (l.localdir cfg).length ≤ 255) := by
  obtain ⟨k, hk, -⟩ := hh.split
  obtain ⟨hok, htype, -⟩ := parseHeader_lines p.header hh.lines
  have hne : (s.acon fd).recvBuff.live ≠ [] := by
    rw [hlive]
    exact List.append_ne_nil_of_left_ne_nil hh.ne_nil b
  have hparse : SmClient.parseHeader p.header (text ++ cstr b) = (true,
      (SmClient.parseHeader p.header text).2.1, (SmClient.parseHeader p.header text).2.2 ++ cstr b) :=
    parseFields_append _ (Prod.ext hok rfl)
  have hty : (SmClient.parseHeader p.header text).2.1.type ≠ 250 := htype ▸ hh.block
  unfold ReqHolds StartHolds
  rw [mybuffGetdata_of_live _ hne, hlive, cstr_append_of_not_mem hh.noNul, strstr_append hk, hparse]
  dsimp only
  rw [localdir_headerTask cfg p.header hh.lines]
  simp [hty]

/-- Before that it asks for nothing. -/
theorem reqHolds_waiting (hlive : (s.acon fd).recvBuff.live = b) (hb : strstr b (crlf ++ crlf) = none) (p : Peer) :
    ReqHolds Mybuff.live cfg fd p s := by
  intro _ hend _
  rw [hlive, strstr_none_of_append (by rw [← cstr_split b]; exact hb)] at hend
  exact absurd hend (by simp)

/-! ## A call of `do_recv` -/

theorem doRecv_eq (cfg : Cfg) (io : RecvIo) (ho : (s.acon fd).isOpen = true) (c : Bytes) :
    ∃ s1, (s1.acon fd).isOpen = true ∧ s1.store = s.store ∧ s1.fs = s.fs ∧
      (s1.acon fd).user = (s.acon fd).user ∧ (s1.acon fd).recvBuff.live = (s.acon fd).recvBuff.live ++ c ∧
      (doRecv Mybuff.live cfg io fd c s).2 =
        if (svcRecv Mybuff.live cfg io fd s1).1 = .close then doClose fd (svcRecv Mybuff.live cfg io fd s1).2
        else (svcRecv Mybuff.live cfg io fd s1).2 := by
  refine ⟨s.setConn fd { s.acon fd with
    recvBuff := mybuffSetdata cfg.initBuffSize io.mem (s.acon fd).recvBuff c }, ?_, rfl, rfl, ?_, ?_, ?_⟩
  · rw [setConn_acon]
    exact ho
  · rw [setConn_acon]
  · rw [setConn_acon]
    exact live_mybuffSetdata ..
  · unfold doRecv
    rw [if_pos ho]

/-- Bytes that do not end the header. -/
theorem Waiting.goesOn (h : Waiting fd s' b s) (hp : (s'.acon fd).user = some p)
    (hidle : p.sockStat ≠ .recvBodyIng) (hb : strstr (b ++ c) (crlf ++ crlf) = none) :
    Waiting fd s' (b ++ c) (doRecv Mybuff.live cfg io fd c s).2 := by
  obtain ⟨s1, ho, hstore, hfs, hu, hlive, heq⟩ := doRecv_eq cfg io h.isOpen c
  have hw : Waiting fd s' (b ++ c) s1 :=
    ⟨hstore.trans h.store, hfs.trans h.fs, ho, hu.trans h.user, by rw [hlive, h.live]⟩
  have hsvc : svcRecv Mybuff.live cfg io fd s1 = (.addEpollin, s1) := by
    unfold svcRecv
    rw [hu, h.user, hp]
    dsimp only
    rw [if_neg hidle, checkReq_waiting hw hb]
  rw [heq, hsvc]
  exact hw

/-- The connection has been sent the bytes `d` of the block: it receives the block, or has all of it. -/
structure Start.After (u : Start) (fd : Nat) (d : Bytes) (s : Sm) : Prop where
  more : (d.length : Int) < u.task.base.fsize → u.Receiving fd d [] s
  last : u.task.base.fsize ≤ (d.length : Int) → u.Finished fd (d.take u.task.base.fsize.toNat) s

/-- A call in which the connection receives the block and `b` of it are in the file. -/
theorem Start.Receiving.after {r : RecvRet × Sm} (h : u.Receiving fd b rest s) (hp : (s.acon fd).user = some p)
    (hr : r = recvBody io fd p s) (hw : io.write = some) (hmax : u.task.base.fsize ≤ 2 ^ 31 - 1)
    (hlt : (b.length : Int) < u.task.base.fsize) :
    u.After fd (b ++ rest) (if r.1 = .close then doClose fd r.2 else r.2) := by
  subst hr
  refine ⟨fun hmore => ?_, fun hlast => ?_⟩
  · obtain ⟨hret, hrec⟩ := h.more hw hmax hmore hp
    rw [hret]
    exact hrec
  · obtain ⟨hret, hfin⟩ := h.last hw hmax hlt hlast hp
    rw [hret]
    exact hfin

/-- Bytes behind the header. -/
theorem Start.After.goesOn (h : u.After fd b s) (hw : io.write = some) (hmax : u.task.base.fsize ≤ 2 ^ 31 - 1)
    (c : Bytes) : u.After fd (b ++ c) (doRecv Mybuff.live cfg io fd c s).2 := by
  rcases Int.lt_or_le b.length u.task.base.fsize with hlt | hle
  · have hrec := h.more hlt
    obtain ⟨s1, ho, hstore, hfs, hu, hlive, heq⟩ := doRecv_eq cfg io hrec.isOpen c
    obtain ⟨p, hp, hstat, htask, hfile⟩ := hrec.user
    have hrec1 : u.Receiving fd b c s1 :=
      ⟨hstore.trans hrec.store, hfs.trans hrec.fs, ho, ⟨p, hu.trans hp, hstat, htask, hfile⟩,
        by rw [hlive, hrec.live, List.nil_append]⟩
    have hsvc : svcRecv Mybuff.live cfg io fd s1 = recvBody io fd p s1 := by
      unfold svcRecv
      rw [hu, hp]
      dsimp only
      rw [if_pos hstat]
    rw [heq]
    exact hrec1.after (hu.trans hp) hsvc hw hmax hlt
  · have hfin := h.last hle
    have htake : (b ++ c).take u.task.base.fsize.toNat = b.take u.task.base.fsize.toNat :=
      List.take_append_of_le_length (by omega)
    have hlen : (b.length : Int) ≤ ((b ++ c).length : Int) := by
      rw [List.length_append]
      omega
    rw [doRecv_closed cfg io Mybuff.live c (by rw [hfin.isOpen]; exact Bool.false_ne_true)]
    refine ⟨fun hlt => ?_, fun _ => htake ▸ hfin⟩
    omega

/-- Bytes that end the header. -/
theorem Waiting.starts {task0 : Tasklist} {st : TaskStore} {d : Bytes} (h : Waiting fd s' b s)
    (hh : HeaderText text l) (hp : (s'.acon fd).user = some p) (hidle : p.sockStat ≠ .recvBodyIng)
    (hg : vfsGetTask cfg.mallocOk s'.store .home = (.ok task0, st)) (hopens : io.opens = true)
    (hw : io.write = some) (hu : u = Start.of cfg s'.fs ((SmClient.parseHeader p.header text).2.1.post p.ip task0) st)
    (hmin : 0 < u.task.base.fsize) (hmax : u.task.base.fsize ≤ 2 ^ 31 - 1) (hc : b ++ c = text ++ d) :
    u.After fd d (doRecv Mybuff.live cfg io fd c s).2 := by
  obtain ⟨s1, ho, hstore, hfs, huser, hlive, heq⟩ := doRecv_eq cfg io h.isOpen c
  have hwait : Waiting fd s' (text ++ d) s1 :=
    ⟨hstore.trans h.store, hfs.trans h.fs, ho, huser.trans h.user, by rw [hlive, h.live, hc]⟩
  obtain ⟨hret, hrec⟩ := checkReq_receiving (p := p) hwait hh hg hopens
  rw [← hu] at hrec
  obtain ⟨p', hp', -⟩ := hrec.user
  have hsvc : svcRecv Mybuff.live cfg io fd s1 =
      recvBody io fd p' (checkReq Mybuff.live cfg io fd p s1).2 := by
    unfold svcRecv
    rw [huser, h.user, hp]
    dsimp only
    rw [if_neg hidle]
    rcases hreq : checkReq Mybuff.live cfg io fd p s1 with ⟨r, s2⟩
    rw [hreq] at hret hp'
    obtain rfl : r = .addEpollin := hret
    dsimp only
    rw [hp']
  rw [heq]
  exact hrec.after hp' hsvc hw hmax hmin

/-! ## The pieces -/

/-- The state behind the bytes `r` of an upload. -/
inductive Behind (s0 : Sm) (u : Start) (fd : Nat) (text : Bytes) : Bytes → Sm → Prop
  | header {r s} (hr : strstr r (crlf ++ crlf) = none) (h : Waiting fd s0 r s) : Behind s0 u fd text r s
  | body {d s} (h : u.After fd d s) : Behind s0 u fd text (text ++ d) s

/-- The first bytes of an upload are bytes of the header without its end, or the header and bytes of the
block. -/
theorem HeaderText.prefix_cases {r body : Bytes} (hh : HeaderText text l) (hr : r <+: text ++ body) :
    strstr r (crlf ++ crlf) = none ∨ ∃ d, d <+: body ∧ r = text ++ d := by
  rcases Nat.lt_or_ge r.length text.length with hlt | hge
  · obtain ⟨k, hk, hlen⟩ := hh.split
    have htake : r = text.take r.length := by
      rw [List.prefix_iff_eq_take.mp hr, List.length_take, List.take_append_of_le_length (by omega),
        Nat.min_eq_left (by rw [List.length_append]; omega)]
    rw [htake]
    exact Or.inl (strstr_take_none hk (by show _ < k + 4; omega))
  · obtain ⟨d, rfl⟩ := List.prefix_of_prefix_length_le (List.prefix_append text body) hr hge
    exact Or.inr ⟨d, (List.prefix_append_right_inj text).mp hr, rfl⟩

/-- What an upload starts from, and the assumptions about the calls. -/
structure Uploading (cfg : Cfg) (s0 : Sm) (u : Start) (fd : Nat) (text : Bytes) (l : HeaderLines) (p : Peer) : Prop where
  header : HeaderText text l
  peer : (s0.acon fd).user = some p
  idle : p.sockStat ≠ .recvBodyIng
  start : ∃ task0 st, vfsGetTask cfg.mallocOk s0.store .home = (.ok task0, st) ∧
    u = Start.of cfg s0.fs ((SmClient.parseHeader p.header text).2.1.post p.ip task0) st
  min : 0 < u.task.base.fsize
  max : u.task.base.fsize ≤ 2 ^ 31 - 1

variable {s0 : Sm}

theorem Behind.step {r body : Bytes} {call : RecvIo × Bytes} (hup : Uploading cfg s0 u fd text l p)
    (h : Behind s0 u fd text r s) (hopens : call.1.opens = true) (hw : call.1.write = some)
    (hr : r ++ call.2 <+: text ++ body) :
    Behind s0 u fd text (r ++ call.2) (doRecv Mybuff.live cfg call.1 fd call.2 s).2 := by
  cases h with
  | header hnone hwait =>
    rcases hup.header.prefix_cases hr with hnone | ⟨d, -, hd⟩
    · exact .header hnone (hwait.goesOn hup.peer hup.idle hnone)
    · obtain ⟨task0, st, hg, hu⟩ := hup.start
      rw [hd]
      exact .body (hwait.starts hup.header hup.peer hup.idle hg hopens hw hu hup.min hup.max hd)
  | body h =>
    rw [List.append_assoc]
    exact .body (h.goesOn hw hup.max call.2)

/-- The condition on the arrays in a call for a piece. -/
def PieceHolds (cfg : Cfg) (fd : Nat) (s : Sm) (call : RecvIo × Bytes) : Prop :=
  (s.acon fd).isOpen = true → RecvHolds Mybuff.live cfg fd (s.setConn fd { s.acon fd with
    recvBuff := mybuffSetdata cfg.initBuffSize call.1.mem (s.acon fd).recvBuff call.2 })

/-- The calls, as far as the arrays hold. -/
theorem recvChunks_guarded (cfg : Cfg) (fd : Nat) (s : Sm) (chunks : List (RecvIo × Bytes)) :
    Guarded (RunOk (fun s c => (doRecv Mybuff.live cfg c.1 fd c.2 s).2) (PieceHolds cfg fd) s chunks)
      (recvChunks cfg fd s chunks) (run (fun s c => (doRecv Mybuff.live cfg c.1 fd c.2 s).2) s chunks) :=
  guarded_run (fun s c => (doRecvInto_guarded Mybuff.live cfg c.1 fd c.2 s).map Prod.snd) s chunks

/-- The arrays hold when the path fits. -/
theorem Behind.holds {r body : Bytes} {call : RecvIo × Bytes} (hup : Uploading cfg s0 u fd text l p)
    (h : Behind s0 u fd text r s) (hfits : (l.localdir cfg).length ≤ 255) (hr : r ++ call.2 <+: text ++ body) :
    PieceHolds cfg fd s call := by
  intro ho p' hu hidle
  have hlive (b : Bytes) (hb : (s.acon fd).recvBuff.live = b) : ((s.setConn fd { s.acon fd with
      recvBuff := mybuffSetdata cfg.initBuffSize call.1.mem (s.acon fd).recvBuff call.2 }).acon fd).recvBuff.live =
        b ++ call.2 := by
    rw [setConn_acon, ← hb]
    exact live_mybuffSetdata ..
  cases h with
  | header hnone hwait =>
    rcases hup.header.prefix_cases hr with hnone | ⟨d, -, hd⟩
    · exact reqHolds_waiting (hlive r hwait.live) hnone p'
    · exact (reqHolds_iff hup.header (by rw [hlive r hwait.live, hd]) p').mpr fun _ => hfits
  | body h =>
    rename_i d
    rw [setConn_acon] at hu
    rcases Int.lt_or_le d.length u.task.base.fsize with hlt | hle
    · obtain ⟨q, hq, hstat, -⟩ := (h.more hlt).user
      exact absurd (Option.some.inj (hq.symm.trans hu) ▸ hstat) hidle
    · exact absurd (ho.symm.trans (h.last hle).isOpen) (by simp)

/-- **A run of calls**: the state behind all the bytes. -/
theorem Behind.run {body : Bytes} (hup : Uploading cfg s0 u fd text l p) (hfits : (l.localdir cfg).length ≤ 255)
    (chunks : List (RecvIo × Bytes)) :
    ∀ {r : Bytes} {s : Sm}, Behind s0 u fd text r s → FullCalls chunks → r ++ arrived chunks <+: text ++ body →
    ∃ s', recvChunks cfg fd s chunks = .ok s' ∧ Behind s0 u fd text (r ++ arrived chunks) s' := by
  induction chunks with
  | nil =>
    intro r s h _ _
    rw [show arrived [] = [] from rfl, List.append_nil]
    exact ⟨s, rfl, h⟩
  | cons call chunks ih =>
    intro r s h hfull hr
    have harr : r ++ arrived (call :: chunks) = (r ++ call.2) ++ arrived chunks := by
      rw [List.append_assoc]
      rfl
    rw [harr] at hr ⊢
    obtain ⟨hopens, hw⟩ := hfull call List.mem_cons_self
    have hpre : r ++ call.2 <+: text ++ body := (List.prefix_append _ _).trans hr
    obtain ⟨s', hs', hb⟩ := ih (h.step hup hopens hw hpre) (fun c hc => hfull c (List.mem_cons_of_mem _ hc)) hr
    refine ⟨s', ?_, hb⟩
    rw [recvChunks, List.foldlM_cons,
      (doRecvInto_guarded Mybuff.live cfg call.1 fd call.2 s).ok (h.holds hup hfits hpre)]
    exact hs'

/-! ## The outcome -/

/-- The record as it is put into `TASK_FIN`. -/
def Start.final (u : Start) (body : Bytes) : Tasklist :=
  (u.task.holding (body.take u.task.base.fsize.toNat)).over
    (if u.task.base.fsize ≤ body.length then .ok else .peererr)

/-- Behind the header no state waits for it. -/
theorem Behind.after {d : Bytes} (hh : HeaderText text l) (h : Behind s0 u fd text (text ++ d) s) :
    u.After fd d s := by
  generalize hr : text ++ d = r at h
  cases h with
  | header hnone _ =>
    obtain ⟨k, hk, -⟩ := hh.split
    rw [← hr, strstr_append hk] at hnone
    exact absurd hnone (Option.some_ne_none k)
  | body h => exact List.append_cancel_left hr ▸ h

theorem doClose_closed (ho : (s.acon fd).isOpen = false) : doClose fd s = s := by
  unfold doClose
  rw [if_neg (by rw [ho]; exact Bool.false_ne_true)]

/-- An upload that is received in one piece has a path that fits. -/
theorem ReceivesExactly.fits {body : Bytes} (h : ReceivesExactly cfg fd s text l body) (hfresh : (s.acon fd).Fresh)
    (hrec : ∃ t, (vfsGetTask cfg.mallocOk s.store .home).1 = .ok t) (hh : HeaderText text l) :
    (l.localdir cfg).length ≤ 255 := by
  obtain ⟨r, -, hr⟩ := h
  obtain ⟨s', hs', -⟩ := (hr [(.ok, text ++ body)] (fun c hc => by rw [List.mem_singleton.mp hc]; exact ⟨rfl, rfl⟩)
    (by simp [arrived])).closed
  obtain ⟨p, hp, hidle⟩ := hfresh.idle
  have hholds := (((recvChunks_guarded cfg fd s _).eq_of_ok hs').1.1 hfresh.isOpen) p
    (by rw [setConn_acon]; exact hp) hidle
  refine (reqHolds_iff hh (b := body) ?_ p).mp hholds hrec
  rw [setConn_acon]
  refine (live_mybuffSetdata ..).trans ?_
  rw [hfresh.empty, List.nil_append]

/-- The lines of the header `uc_client` builds for a block. -/
def headerLines (base : TaskBase) (sub : TaskSub) : HeaderLines where
  filename := base.filename
  type := fmtInt base.type.toNat
  datalen := fmtInt base.fsize
  start := fmtInt sub.start
  end_ := fmtInt sub.end_
  filemd5 := base.filemd5
  idx := fmtInt sub.idx
  count := fmtInt sub.count
  hostname := base.hostname

/-- A header that fits its lines is one of those whose blocks are received exactly. -/
theorem headerText_createHeader {base : TaskBase} {sub : TaskSub} (hs : Sendable base sub) (hfit : FitsLines base)
    (hty : base.type ≠ 250) : HeaderText (UcClient.createHeader base sub) (headerLines base sub) := by
  have htext : cstr (UcClient.createHeader base sub) = UcClient.createHeader base sub := by
    have h := cstr_header hs []
    rwa [List.append_nil, show cstr [] = [] from rfl, List.append_nil, ← createHeader_eq] at h
  have hend := headerEnd_of_fits hs hfit []
  rw [List.append_nil, SmClient.headerEnd, htext] at hend
  have hlines := carries_headLines hs (strstr_line hfit.2.1 crlf)
  rw [List.take_left, ← lastLine_whole hfit.1, ← createHeader_eq] at hlines
  have htype : atoi (fmtInt base.type.toNat) = base.type.toNat :=
    atoi_fmtInt (by omega) (by have := base.type.toNat_lt; omega)
  refine ⟨htext ▸ zero_not_mem_cstr _, hend, hlines, ?_⟩
  show UInt8.ofInt (atoi (fmtInt base.type.toNat)) ≠ 250
  rw [htype, ofInt_toNat]
  exact hty

end VfsOss
