import VfsOss.Dst.Client
import VfsOss.Sm.Proofs.SegmentsProofs
import VfsOss.Src.Http

/-!
# Proofs: an answer is received as it was sent

Behind any bytes of an answer the connection waits for the end of its header, or receives the segment and has
all bytes of it that have come, or is closed: the record is finished.
-/

namespace VfsOss

open CLib

namespace DstClient

variable {cfg : Cfg} {io : RecvIo} {fd : Nat} {s s' s0 : Sm} {p : Peer} {b c rest text : Bytes} {u : Start}
variable {task : Tasklist}

/-! ## Reading the header of an answer -/

/-- The status of an answer, and what is read behind it. -/
theorem answerLength_status (code : Int) (hlo : -2 ^ 31 ≤ code) (hhi : code < 2 ^ 31) (rest : Bytes) :
    answerLength (txt "HTTP/1.1 " ++ (fmtInt code ++ 32 :: rest)) =
      if code ≠ 200 ∧ code ≠ 206 then none
      else (strstr (txt "HTTP/1.1 " ++ (fmtInt code ++ 32 :: rest)) (txt "Content-Length: ")).map fun pleng =>
        atol ((txt "HTTP/1.1 " ++ (fmtInt code ++ 32 :: rest)).drop (pleng + (txt "Content-Length: ").length)) := by
  have hhttp : strstr (txt "HTTP/1.1 " ++ (fmtInt code ++ 32 :: rest)) (txt "HTTP/") = some 0 := by
    show strstr (txt "HTTP/" ++ (txt "1.1 " ++ (fmtInt code ++ 32 :: rest))) (txt "HTTP/") = some 0
    exact strstr_here _
  have hblank : strchr (txt "HTTP/1.1 " ++ (fmtInt code ++ 32 :: rest)) 32 = some 8 := by
    show strchr (txt "HTTP/1.1" ++ 32 :: (fmtInt code ++ 32 :: rest)) 32 = some 8
    exact strchr_append (by decide)
  have hcode : (txt "HTTP/1.1 " ++ (fmtInt code ++ 32 :: rest)).drop (0 + 8 + 1) = fmtInt code ++ 32 :: rest := rfl
  unfold answerLength
  rw [hhttp]
  dsimp only
  rw [List.drop_zero, hblank]
  dsimp only
  rw [hcode, atoi_fmtInt_append hlo hhi (by decide)]

/-- **The length of a segment** is read as it was written, whatever follows the header. -/
theorem answerLength_segment {n : Nat} (hn : n < 2 ^ 63) (rest : Bytes) :
    answerLength (SrcHttp.segmentAnswer n ++ rest) = some (n : Int) := by
  have hsplit : SrcHttp.segmentAnswer n ++ rest = txt "HTTP/1.1 " ++ (fmtInt 200 ++ 32 ::
      (txt "OK\r\nContent-Type: video/x-flv\r\n" ++
        (txt "Content-Length: " ++ (fmtInt n ++ 13 :: 10 :: 13 :: 10 :: rest)))) := by
    have htext : txt "HTTP/1.1 200 OK\r\nContent-Type: video/x-flv\r\nContent-Length: " = txt "HTTP/1.1 " ++
        (fmtInt 200 ++ 32 :: (txt "OK\r\nContent-Type: video/x-flv\r\n" ++ txt "Content-Length: ")) := by decide +kernel
    rw [SrcHttp.segmentAnswer, htext, show txt "\r\n\r\n" = [13, 10, 13, 10] from rfl]
    simp only [List.append_assoc, List.cons_append, List.nil_append]
  have hlength : SrcHttp.segmentAnswer n ++ rest =
      txt "HTTP/1.1 200 OK\r\nContent-Type: video/x-flv\r\n" ++
        (txt "Content-Length: " ++ (fmtInt n ++ 13 :: 10 :: 13 :: 10 :: rest)) := by
    have htext : txt "HTTP/1.1 200 OK\r\nContent-Type: video/x-flv\r\n" =
        txt "HTTP/1.1 " ++ (fmtInt 200 ++ 32 :: txt "OK\r\nContent-Type: video/x-flv\r\n") := by decide +kernel
    rw [hsplit, htext]
    simp only [List.append_assoc, List.cons_append]
  have hfound : strstr (SrcHttp.segmentAnswer n ++ rest) (txt "Content-Length: ") =
      some (txt "HTTP/1.1 200 OK\r\nContent-Type: video/x-flv\r\n").length := by
    rw [hlength, ← List.append_assoc]
    exact strstr_append (by decide +kernel) _
  rw [hsplit, answerLength_status 200 (by decide) (by decide), if_neg (by decide), ← hsplit, hfound, Option.map_some,
    hlength, ← List.drop_drop, List.drop_left, List.drop_left, atol_fmtInt_append (by omega) (by omega) (by decide)]

/-- An answer without a segment is refused. -/
theorem answerLength_refused {status : String} (h : status = "404 NOTFOUND" ∨ status = "416 RANGEERROR")
    (rest : Bytes) : answerLength (SrcHttp.emptyAnswer status ++ rest) = none := by
  obtain rfl | rfl := h
  · have htext : SrcHttp.emptyAnswer "404 NOTFOUND" = txt "HTTP/1.1 " ++ (fmtInt 404 ++ 32 ::
        txt "NOTFOUND\r\nContent-Type: video/x-flv\r\nContent-Length: 0\r\n\r\n") := by decide +kernel
    rw [htext, List.append_assoc, List.append_assoc, List.cons_append,
      answerLength_status 404 (by decide) (by decide), if_pos (by decide)]
  · have htext : SrcHttp.emptyAnswer "416 RANGEERROR" = txt "HTTP/1.1 " ++ (fmtInt 416 ++ 32 ::
        txt "RANGEERROR\r\nContent-Type: video/x-flv\r\nContent-Length: 0\r\n\r\n") := by decide +kernel
    rw [htext, List.append_assoc, List.append_assoc, List.cons_append,
      answerLength_status 416 (by decide) (by decide), if_pos (by decide)]

/-- The header of an answer: it ends at its only double end of line, and `n` is read from it. -/
structure HeadText (head : Bytes) (n : Option Nat) : Prop where
  noNul : (0 : UInt8) ∉ head
  ends : (strstr head (crlf ++ crlf)).map (· + 4) = some head.length
  reads : ∀ rest, answerLength (head ++ rest) = n.map Nat.cast

theorem headText_segment {n : Nat} (hn : n < 2 ^ 63) : HeadText (SrcHttp.segmentAnswer n) (some n) := by
  have hdigits : ∀ b : UInt8, b ≠ 45 → isDigit b = false → b ∉ fmtInt n := fun b => not_mem_fmtInt
  have hlines : SkipsLines (txt "HTTP/1.1 200 OK\r\nContent-Type: video/x-flv\r\n") :=
    (SkipsLines.line (txt "HTTP/1.1 200 OK") [] (by decide) List.not_mem_nil).append
      (.line (txt "Content-Type: video/x-flv") [] (by decide) List.not_mem_nil) ⟨_, _, rfl, by decide⟩
  have hlast : ¬ crlf <:+: txt "Content-Length: " ++ fmtInt n := by
    intro hin
    rcases List.mem_append.mp (hin.subset (show (13 : UInt8) ∈ crlf from List.mem_cons_self)) with hm | hm
    · exact absurd hm (by decide)
    · exact hdigits 13 (by decide) (by decide) hm
  have hsplit : SrcHttp.segmentAnswer n = txt "HTTP/1.1 200 OK\r\nContent-Type: video/x-flv\r\n" ++
      (txt "Content-Length: " ++ fmtInt n ++ (crlf ++ (crlf ++ []))) := by
    have hlines : txt "HTTP/1.1 200 OK\r\nContent-Type: video/x-flv\r\nContent-Length: " =
        txt "HTTP/1.1 200 OK\r\nContent-Type: video/x-flv\r\n" ++ txt "Content-Length: " := by decide +kernel
    rw [SrcHttp.segmentAnswer, hlines, show txt "\r\n\r\n" = crlf ++ (crlf ++ []) from rfl, List.append_assoc,
      List.append_assoc, List.append_assoc]
  have hstarts : StartsLine (txt "Content-Length: " ++ fmtInt n ++ (crlf ++ (crlf ++ []))) := ⟨67, _, rfl, by decide⟩
  refine ⟨?_, ?_, fun rest => answerLength_segment hn rest⟩
  · intro hm
    rcases List.mem_append.mp hm with hm | hm
    · rcases List.mem_append.mp hm with hm | hm
      · exact absurd hm (by decide +kernel)
      · exact hdigits 0 (by decide) (by decide) hm
    · exact absurd hm (by decide)
  · rw [hsplit, hlines _ hstarts, strstr_blank_line hlast]
    simp only [Option.map_some, List.length_append, List.length_nil, show crlf.length = 2 from rfl, Option.some.injEq]
    omega

theorem headText_refused {status : String} (h : status = "404 NOTFOUND" ∨ status = "416 RANGEERROR") :
    HeadText (SrcHttp.emptyAnswer status) none := by
  refine ⟨?_, ?_, answerLength_refused h⟩
  · obtain rfl | rfl := h
    · decide +kernel
    · decide +kernel
  · obtain rfl | rfl := h
    · decide +kernel
    · decide +kernel

/-! ## The send buffer -/

theorem recvBody_sendBuff (h : u.Receiving fd b rest s) (hp : (s.acon fd).user = some p) (hw : io.write = some)
    (hlt : (b.length : Int) < u.task.base.fsize) (hmax : u.task.base.fsize ≤ 2 ^ 31 - 1) :
    ((recvBody io fd p s).2.acon fd).sendBuff = (s.acon fd).sendBuff := by
  obtain ⟨p', hp', hstat, htask, hfile⟩ := h.user
  obtain rfl : p' = p := Option.some.inj (hp'.symm.trans hp)
  cases rest with
  | nil =>
    unfold recvBody
    rw [htask, (mybuffGetdata_eq_none _).mpr h.live]
  | cons d rest =>
    rw [recvBody_write h hw (List.cons_ne_nil _ _) hlt hmax htask hfile]
    split
    · rw [setPeer_acon]
      show ((Sm.setConn _ fd _).acon fd).sendBuff = _
      rw [setConn_acon]
    · rw [setPeer_acon, setConn_acon]

theorem doClose_sendBuff (fd : Nat) (s : Sm) : ((doClose fd s).acon fd).sendBuff = (s.acon fd).sendBuff := by
  unfold doClose svcFiniconn
  split
  · rw [setConn_acon]
    split
    · rfl
    · rw [setConn_acon]
  · rfl

/-! ## The calls -/

/-- What `check_task` leaves a connection in: it waits for the answer for a record, whose path fits the arrays. -/
structure Asking (cfg : Cfg) (fd : Nat) (task : Tasklist) (s0 : Sm) (p : Peer) : Prop where
  isOpen : (s0.acon fd).isOpen = true
  user : (s0.acon fd).user = some p
  sockStat : p.sockStat = .recvHeadIng
  recvtask : p.recvtask = some task
  live : (s0.acon fd).recvBuff.live = []
  clear : (s0.acon fd).recvBuff.Clear
  path : task.PathFits cfg

/-- What a segment of `n` bytes is received with. -/
def fetchStart (cfg : Cfg) (s0 : Sm) (task : Tasklist) (n : Nat) : Start where
  task := { task with
    base := { task.base with
      fsize := n
      getlen := 0
      tmpfile := subfile (getLocaldir cfg task.base.hostname task.base.filename) task.sub.idx task.sub.count }
    got := [] }
  store := s0.store
  fs := (s0.fs.creat (subfile (getLocaldir cfg task.base.hostname task.base.filename) task.sub.idx
    task.sub.count)).2
  node := (s0.fs.creat (subfile (getLocaldir cfg task.base.hostname task.base.filename) task.sub.idx
    task.sub.count)).1

theorem checkReq_waiting (h : Waiting fd s0 b s) (hclear : (s.acon fd).recvBuff.Clear)
    (hb : strstr (cstr b) (crlf ++ crlf) = none) (p : Peer) : checkReq cfg io fd p s = some (.again, s) := by
  unfold checkReq mybuffGetdata
  split
  · rfl
  · next block _ hblock =>
    split at hblock
    · obtain ⟨rfl, -⟩ := Prod.mk.inj (Option.some.inj hblock)
      dsimp only
      rw [hclear.cstr_data, h.live, hb]
    · cases hblock

variable {head : Bytes} {n : Option Nat}

theorem HeadText.split (hh : HeadText head n) : ∃ k, strstr head (crlf ++ crlf) = some k ∧ k + 4 = head.length :=
  Option.map_eq_some_iff.mp hh.ends

theorem HeadText.ne_nil (hh : HeadText head n) : head ≠ [] := by
  rintro rfl
  obtain ⟨k, -, hk⟩ := hh.split
  exact absurd hk (Nat.succ_ne_zero _)

/-- The header has come: what is done depends on the length that is read from it. -/
theorem checkReq_head (h : Waiting fd s0 (head ++ b) s) (hclear : (s.acon fd).recvBuff.Clear)
    (hh : HeadText head n) (p : Peer) :
    checkReq cfg io fd p s =
      match n with
      | none => some (.close, s)
      | some n => (doReq cfg io fd p n s).map fun r =>
          (r.1, r.2.setConn fd { r.2.acon fd with
            recvBuff := mybuffSkipdata (r.2.acon fd).recvBuff head.length }) := by
  obtain ⟨k, hk, hlen⟩ := hh.split
  have hne : (s.acon fd).recvBuff.live ≠ [] := by
    rw [h.live]
    exact List.append_ne_nil_of_left_ne_nil hh.ne_nil b
  unfold checkReq
  rw [mybuffGetdata_of_live _ hne]
  dsimp only
  rw [hclear.cstr_data, h.live, cstr_append_of_not_mem hh.noNul, strstr_append hk]
  dsimp only
  rw [hh.reads, hlen]
  cases n with
  | none => rfl
  | some n => rfl

/-- The segment is started. -/
theorem checkReq_starts (cfg : Cfg) {n : Nat} (h : Waiting fd s0 (head ++ b) s)
    (hclear : (s.acon fd).recvBuff.Clear) (hh : HeadText head (some n)) (hask : Asking cfg fd task s0 p)
    (ho : io.opens = true) :
    ∃ s1, checkReq cfg io fd p s = some (.addEpollin, s1) ∧
      (fetchStart cfg s0 task n).Receiving fd [] b s1 ∧ (s1.acon fd).sendBuff = (s.acon fd).sendBuff := by
  rw [checkReq_head h hclear hh]
  dsimp only
  have hinto := (doPrepareRecvfileInto_guarded cfg io fd { task with got := [] } n s hask.sockStat).ok hask.path
  rw [doReq, if_pos hask.sockStat, hask.recvtask, Option.bind_some, hinto, Except.toOption, Option.map_some]
  unfold doPrepareRecvfile openTmpLocalfile4Write
  rw [if_neg (by simp [hask.sockStat])]
  simp only [if_pos ho]
  refine ⟨_, rfl,
    ⟨h.store, ?_, ?_, ⟨_, (congrArg Conn.user setConn_acon).trans (setPeer_user ..), rfl, rfl, ?_⟩, ?_⟩, ?_⟩
  · rw [setConn_fs, setPeer_fs, h.fs]
    exact (setNode_creat ..).symm
  · rw [setConn_acon, setPeer_acon]
    exact h.isOpen
  · rw [h.fs]
    rfl
  · rw [setConn_acon, setPeer_acon]
    show (mybuffSkipdata _ _).live = b
    rw [live_mybuffSkipdata]
    show List.drop head.length (s.acon fd).recvBuff.live = b
    rw [h.live, List.drop_left]
  · rw [setConn_acon, setPeer_acon]

/-- A call of `do_recv`. -/
theorem doRecv_eq (cfg : Cfg) (io : RecvIo) (ho : (s.acon fd).isOpen = true) (c : Bytes) :
    ∃ s1, (s1.acon fd).isOpen = true ∧ s1.store = s.store ∧ s1.fs = s.fs ∧
      (s1.acon fd).user = (s.acon fd).user ∧ (s1.acon fd).recvBuff.live = (s.acon fd).recvBuff.live ++ c ∧
      (s1.acon fd).sendBuff = (s.acon fd).sendBuff ∧
      ((s.acon fd).recvBuff.Clear → (∀ i, io.mem i = 0) → (s1.acon fd).recvBuff.Clear) ∧
      doRecv cfg io fd c s = (svcRecv cfg io fd s1).map fun r =>
        if r.1 = .close then doClose fd r.2 else r.2 := by
  refine ⟨s.setConn fd { s.acon fd with
    recvBuff := mybuffSetdata cfg.initBuffSize io.mem (s.acon fd).recvBuff c }, ?_, rfl, rfl, ?_, ?_, ?_, ?_, ?_⟩
  · rw [setConn_acon]
    exact ho
  · rw [setConn_acon]
  · rw [setConn_acon]
    exact live_mybuffSetdata ..
  · rw [setConn_acon]
  · rw [setConn_acon]
    exact fun hclear hm => hclear.setdata hm c
  · unfold doRecv
    rw [if_pos ho]

/-- Closing a connection without a record. -/
theorem doClose_idle (ho : (s.acon fd).isOpen = true) (hp : (s.acon fd).user = some p) (hn : p.recvtask = none) :
    (doClose fd s).store = s.store ∧ (doClose fd s).fs = s.fs ∧ ((doClose fd s).acon fd).isOpen = false := by
  unfold doClose svcFiniconn
  rw [if_pos ho, hp]
  simp only [hn]
  exact ⟨rfl, rfl, by rw [setConn_acon]⟩

/-- A call of `do_recv` that has worked, and left the send buffer alone. -/
def Received (cfg : Cfg) (io : RecvIo) (fd : Nat) (c : Bytes) (s : Sm) (P : Sm → Prop) : Prop :=
  ∃ s', doRecv cfg io fd c s = some s' ∧ P s' ∧ (s'.acon fd).sendBuff = (s.acon fd).sendBuff

/-- A closed connection takes nothing. -/
theorem doRecv_closed (cfg : Cfg) (io : RecvIo) (c : Bytes) (ho : (s.acon fd).isOpen = false) :
    doRecv cfg io fd c s = some s := by
  unfold doRecv
  rw [if_neg (by rw [ho]; exact Bool.false_ne_true)]

theorem received_closed {P : Sm → Prop} (ho : (s.acon fd).isOpen = false) (hP : P s) : Received cfg io fd c s P :=
  ⟨s, doRecv_closed cfg io c ho, hP, rfl⟩

/-- Bytes that do not end the header. -/
theorem waiting_goesOn (h : Waiting fd s0 b s) (hclear : (s.acon fd).recvBuff.Clear) (cfg : Cfg)
    (hm : ∀ i, io.mem i = 0) (hask : Asking cfg fd task s0 p) (hb : strstr (b ++ c) (crlf ++ crlf) = none) :
    Received cfg io fd c s fun s' => Waiting fd s0 (b ++ c) s' ∧ (s'.acon fd).recvBuff.Clear := by
  obtain ⟨s1, ho, hstore, hfs, hu, hlive, hsend, hclear1, heq⟩ := doRecv_eq cfg io h.isOpen c
  have hc : strstr (cstr (b ++ c)) (crlf ++ crlf) = none :=
    strstr_none_of_append (by rw [← cstr_split (b ++ c)]; exact hb)
  have hw : Waiting fd s0 (b ++ c) s1 :=
    ⟨hstore.trans h.store, hfs.trans h.fs, ho, hu.trans h.user, by rw [hlive, h.live]⟩
  have hsvc : svcRecv cfg io fd s1 = some (.addEpollin, s1) := by
    unfold svcRecv
    rw [hu, h.user, hask.user]
    dsimp only
    rw [if_neg (by rw [hask.sockStat]; decide), checkReq_waiting hw (hclear1 hclear hm) hc]
  refine ⟨s1, ?_, ⟨hw, hclear1 hclear hm⟩, hsend⟩
  rw [heq, hsvc]
  rfl

/-- Bytes behind the header. -/
theorem after_goesOn (h : u.After fd b s) (cfg : Cfg) (hw : io.write = some)
    (hmax : u.task.base.fsize ≤ 2 ^ 31 - 1) (c : Bytes) : Received cfg io fd c s (u.After fd (b ++ c)) := by
  rcases Int.lt_or_le b.length u.task.base.fsize with hlt | hle
  · have hrec := h.more hlt
    obtain ⟨s1, ho, hstore, hfs, hu, hlive, hsend, -, heq⟩ := doRecv_eq cfg io hrec.isOpen c
    obtain ⟨p, hp, hstat, htask, hfile⟩ := hrec.user
    have hrec1 : u.Receiving fd b c s1 :=
      ⟨hstore.trans hrec.store, hfs.trans hrec.fs, ho, ⟨p, hu.trans hp, hstat, htask, hfile⟩,
        by rw [hlive, hrec.live, List.nil_append]⟩
    have hsvc : svcRecv cfg io fd s1 = some (recvBody io fd p s1) := by
      unfold svcRecv
      rw [hu, hp]
      dsimp only
      rw [if_pos hstat]
    refine ⟨_, by rw [heq, hsvc]; rfl, hrec1.after (hu.trans hp) rfl hw hmax hlt, ?_⟩
    split
    · rw [doClose_sendBuff, recvBody_sendBuff hrec1 (hu.trans hp) hw hlt hmax, hsend]
    · rw [recvBody_sendBuff hrec1 (hu.trans hp) hw hlt hmax, hsend]
  · have hfin := h.last hle
    have htake : (b ++ c).take u.task.base.fsize.toNat = b.take u.task.base.fsize.toNat :=
      List.take_append_of_le_length (by omega)
    refine received_closed hfin.isOpen ⟨fun hlt => ?_, fun _ => htake ▸ hfin⟩
    rw [List.length_append] at hlt
    omega

/-- Bytes that end a header with a length. -/
theorem waiting_starts {d : Bytes} {n : Nat} (h : Waiting fd s0 b s)
    (hclear : (s.acon fd).recvBuff.Clear) (cfg : Cfg) (hm : ∀ i, io.mem i = 0) (hh : HeadText head (some n))
    (hask : Asking cfg fd task s0 p) (hopens : io.opens = true) (hw : io.write = some) (hmin : 0 < n)
    (hmax : n ≤ 2 ^ 31 - 1) (hc : b ++ c = head ++ d) :
    Received cfg io fd c s ((fetchStart cfg s0 task n).After fd d) := by
  obtain ⟨s1, ho, hstore, hfs, hu, hlive, hsend, hclear1, heq⟩ := doRecv_eq cfg io h.isOpen c
  have hwait : Waiting fd s0 (head ++ d) s1 :=
    ⟨hstore.trans h.store, hfs.trans h.fs, ho, hu.trans h.user, by rw [hlive, h.live, hc]⟩
  obtain ⟨s2, hreq, hrec, hsend2⟩ := checkReq_starts cfg hwait (hclear1 hclear hm) hh hask hopens
  obtain ⟨p', hp', -⟩ := hrec.user
  have hsvc : svcRecv cfg io fd s1 = some (recvBody io fd p' s2) := by
    unfold svcRecv
    rw [hu, h.user, hask.user]
    dsimp only
    rw [if_neg (by rw [hask.sockStat]; decide), hreq]
    dsimp only
    rw [hp', Option.map_some]
  have hsize : (fetchStart cfg s0 task n).task.base.fsize = n := rfl
  have hlt : (([] : Bytes).length : Int) < (fetchStart cfg s0 task n).task.base.fsize := by
    rw [hsize, List.length_nil]
    omega
  have hbound : (fetchStart cfg s0 task n).task.base.fsize ≤ 2 ^ 31 - 1 := by
    rw [hsize]
    omega
  refine ⟨_, by rw [heq, hsvc]; rfl, hrec.after hp' rfl hw hbound hlt, ?_⟩
  split
  · rw [doClose_sendBuff, recvBody_sendBuff hrec hp' hw hlt hbound, hsend2, hsend]
  · rw [recvBody_sendBuff hrec hp' hw hlt hbound, hsend2, hsend]

/-- The record is finished as `OVER_E_OPEN_SRCFILE`, and the connection is closed. -/
structure Refused (fd : Nat) (task : Tasklist) (s0 s : Sm) : Prop where
  store : s.store = vfsSetTask s0.store (task.over .eOpenSrcfile) .fin
  fs : s.fs = s0.fs
  isOpen : (s.acon fd).isOpen = false

/-- Bytes that end a header without one. -/
theorem waiting_refused {d : Bytes} (h : Waiting fd s0 b s) (hclear : (s.acon fd).recvBuff.Clear) (cfg : Cfg)
    (hm : ∀ i, io.mem i = 0) (hh : HeadText head none) (hask : Asking cfg fd task s0 p) (hc : b ++ c = head ++ d) :
    Received cfg io fd c s (Refused fd task s0) := by
  obtain ⟨s1, ho, hstore, hfs, hu, hlive, hsend, hclear1, heq⟩ := doRecv_eq cfg io h.isOpen c
  have hwait : Waiting fd s0 (head ++ d) s1 :=
    ⟨hstore.trans h.store, hfs.trans h.fs, ho, hu.trans h.user, by rw [hlive, h.live, hc]⟩
  have hsvc : svcRecv cfg io fd s1 =
      some (.close, { s1 with store := vfsSetTask s1.store (task.over .eOpenSrcfile) .fin }.setPeer fd
        { p with recvtask := none }) := by
    unfold svcRecv
    rw [hu, h.user, hask.user]
    dsimp only
    rw [if_neg (by rw [hask.sockStat]; decide), checkReq_head hwait (hclear1 hclear hm) hh]
    dsimp only
    unfold refuse
    rw [hu, h.user, hask.user]
    dsimp only
    rw [hask.recvtask]
    rfl
  refine ⟨_, by rw [heq, hsvc]; rfl, ?_, ?_⟩
  · dsimp only
    rw [if_pos rfl]
    obtain ⟨hst, hfiles, hclosed⟩ := doClose_idle
      (s := { s1 with store := vfsSetTask s1.store (task.over .eOpenSrcfile) .fin }.setPeer fd
        { p with recvtask := none }) (by rw [setPeer_acon]; exact ho) (setPeer_user ..) rfl
    refine ⟨hst.trans ?_, hfiles.trans (hfs.trans h.fs), hclosed⟩
    rw [setPeer_store, hstore, h.store]
  · dsimp only
    rw [if_pos rfl, doClose_sendBuff, setPeer_acon]
    exact hsend

/-! ## The state behind the bytes of an answer -/

/-- The first bytes of an answer are bytes of its header without the end, or the header and bytes of the
segment. -/
theorem HeadText.prefix_cases {r body : Bytes} (hh : HeadText head n) (hr : r <+: head ++ body) :
    strstr r (crlf ++ crlf) = none ∨ ∃ d, d <+: body ∧ r = head ++ d := by
  rcases Nat.lt_or_ge r.length head.length with hlt | hge
  · obtain ⟨k, hk, hlen⟩ := hh.split
    have htake : r = head.take r.length := by
      rw [List.prefix_iff_eq_take.mp hr, List.length_take, List.take_append_of_le_length (by omega),
        Nat.min_eq_left (by rw [List.length_append]; omega)]
    rw [htake]
    exact Or.inl (strstr_take_none hk (by show _ < k + 4; omega))
  · obtain ⟨d, rfl⟩ := List.prefix_of_prefix_length_le (List.prefix_append head body) hr hge
    exact Or.inr ⟨d, (List.prefix_append_right_inj head).mp hr, rfl⟩

/-- The state behind the bytes `r` of an answer with the segment `seg`. -/
inductive Fetching (cfg : Cfg) (fd : Nat) (s0 : Sm) (task : Tasklist) (head : Bytes) (seg : Option Bytes) :
    Bytes → Sm → Prop
  | header {r : Bytes} {s : Sm} (hr : strstr r (crlf ++ crlf) = none) (h : Waiting fd s0 r s)
      (hclear : (s.acon fd).recvBuff.Clear) : Fetching cfg fd s0 task head seg r s
  | body {d : Bytes} {s : Sm} (bytes : Bytes) (hseg : seg = some bytes)
      (h : (fetchStart cfg s0 task bytes.length).After fd d s) : Fetching cfg fd s0 task head seg (head ++ d) s
  | refused {s : Sm} (hseg : seg = none) (h : Refused fd task s0 s) : Fetching cfg fd s0 task head seg head s

variable {seg : Option Bytes} {r : Bytes}

/-- **A call of `do_recv`.** -/
theorem Fetching.recv (h : Fetching cfg fd s0 task head seg r s) (hh : HeadText head (seg.map List.length))
    (hask : Asking cfg fd task s0 p) (hopens : io.opens = true) (hw : io.write = some) (hm : ∀ i, io.mem i = 0)
    (hsize : ∀ bytes, seg = some bytes → 0 < bytes.length ∧ bytes.length ≤ 2 ^ 31 - 1)
    (hr : r ++ c <+: head ++ seg.getD []) :
    Received cfg io fd c s (Fetching cfg fd s0 task head seg (r ++ c)) := by
  cases h with
  | header hnone hwait hclear =>
    rcases hh.prefix_cases hr with hnone | ⟨d, hd, heq⟩
    · obtain ⟨s', hs', hP, hsend⟩ := waiting_goesOn hwait hclear cfg hm hask hnone
      exact ⟨s', hs', .header hnone hP.1 hP.2, hsend⟩
    · cases hseg : seg with
      | none =>
        rw [hseg] at hh hd
        obtain rfl : d = [] := List.prefix_nil.mp hd
        obtain ⟨s', hs', hP, hsend⟩ := waiting_refused hwait hclear cfg hm hh hask heq
        rw [heq, List.append_nil]
        exact ⟨s', hs', .refused rfl hP, hsend⟩
      | some bytes =>
        rw [hseg] at hh
        obtain ⟨hmin, hmax⟩ := hsize bytes hseg
        obtain ⟨s', hs', hP, hsend⟩ := waiting_starts hwait hclear cfg hm hh hask hopens hw hmin hmax heq
        rw [heq]
        exact ⟨s', hs', .body bytes rfl hP, hsend⟩
  | body bytes hseg hafter =>
    have hmax := (hsize bytes hseg).2
    obtain ⟨s', hs', hP, hsend⟩ := after_goesOn hafter cfg hw
      (by show (bytes.length : Int) ≤ _; omega) c
    rw [List.append_assoc]
    exact ⟨s', hs', .body bytes hseg hP, hsend⟩
  | refused hseg href =>
    obtain rfl : c = [] := by
      rw [hseg, Option.getD_none, List.append_nil] at hr
      have hle := hr.length_le
      rw [List.length_append] at hle
      exact List.length_eq_zero_iff.mp (by omega)
    rw [List.append_nil]
    exact received_closed href.isOpen (.refused hseg href)

/-! ## Connections that have been accepted -/

/-- A connection that waits without a record, as `svc_initconn` leaves it. -/
structure Accepted (fd : Nat) (s0 : Sm) (p : Peer) : Prop where
  isOpen : (s0.acon fd).isOpen = true
  user : (s0.acon fd).user = some p
  sockStat : p.sockStat = .connected
  recvtask : p.recvtask = none
  live : (s0.acon fd).recvBuff.live = []
  clear : (s0.acon fd).recvBuff.Clear

theorem accepted_acceptNew {mem : Nat → UInt8} (cfg : Cfg) (hm : ∀ i, mem i = 0) (ip : Nat)
    (hclosed : (s.acon fd).isOpen = false) (hblank : (s.acon fd).recvBuff.Blank) :
    ∃ p, Accepted fd (acceptNew cfg mem fd ip s) p := by
  unfold acceptNew
  rw [if_neg (by rw [hclosed]; exact Bool.false_ne_true)]
  refine ⟨⟨.zero, none, ip, .connected, none⟩, ?_, ?_, rfl, rfl, ?_, ?_⟩
  all_goals rw [setConn_acon]
  · exact live_mybuffReinit _
  · exact hblank.reinit hm

/-- A whole header is never one that is waited for. -/
theorem checkReq_accepted (cfg : Cfg) (io : RecvIo) (hp : (s.acon fd).user = some p) (hstat : p.sockStat = .connected)
    (hb : strstr (cstr (s.acon fd).recvBuff.live) (crlf ++ crlf) ≠ none) (hclear : (s.acon fd).recvBuff.Clear) :
    ∃ s', checkReq cfg io fd p s = some (.close, s') ∧ (s'.acon fd).user = some p := by
  have hne : (s.acon fd).recvBuff.live ≠ [] := fun hnil => hb (by rw [hnil]; rfl)
  obtain ⟨k, hk⟩ := Option.ne_none_iff_exists'.mp hb
  unfold checkReq
  rw [mybuffGetdata_of_live _ hne]
  dsimp only
  rw [hclear.cstr_data, hk]
  dsimp only
  cases answerLength (cstr (s.acon fd).recvBuff.live) with
  | none => exact ⟨s, rfl, hp⟩
  | some fsize =>
    dsimp only
    rw [doReq, if_neg (by rw [hstat]; decide)]
    refine ⟨_, rfl, ?_⟩
    rw [setConn_acon]
    exact hp

/-- The process with other bytes in the receive buffer of a connection. -/
def received (fd : Nat) (s : Sm) (buff : Mybuff) : Sm := s.setConn fd { s.acon fd with recvBuff := buff }

theorem received_setConn (fd : Nat) (s : Sm) (buff buff' : Mybuff) :
    (received fd s buff).setConn fd { s.acon fd with recvBuff := buff' } = received fd s buff' := by
  show Sm.mk .. = Sm.mk ..
  congr 1
  exact Function.update_idem ..

/-- A call of `do_recv` on such a connection. -/
theorem Accepted.recv {buff : Mybuff} (ha : Accepted fd s p) (hlive : buff.live = b) (hclear : buff.Clear)
    (cfg : Cfg) (hm : ∀ i, io.mem i = 0) (c : Bytes) :
    (strstr (cstr (b ++ c)) (crlf ++ crlf) = none → doRecv cfg io fd c (received fd s buff) =
      some (received fd s (mybuffSetdata cfg.initBuffSize io.mem buff c))) ∧
    (strstr (cstr (b ++ c)) (crlf ++ crlf) ≠ none → doRecv cfg io fd c (received fd s buff) = none) := by
  have hclear1 : (mybuffSetdata cfg.initBuffSize io.mem buff c).Clear := hclear.setdata hm c
  have hlive1 : (mybuffSetdata cfg.initBuffSize io.mem buff c).live = b ++ c := by
    rw [live_mybuffSetdata, hlive]
  have hidle : p.sockStat ≠ .recvBodyIng := by rw [ha.sockStat]; decide
  have heq : doRecv cfg io fd c (received fd s buff) =
      (svcRecv cfg io fd (received fd s (mybuffSetdata cfg.initBuffSize io.mem buff c))).map fun r =>
        if r.1 = .close then doClose fd r.2 else r.2 := by
    have hconn : (received fd s buff).acon fd = { s.acon fd with recvBuff := buff } := setConn_acon
    unfold doRecv
    rw [hconn, if_pos ha.isOpen]
    exact congrArg (fun state => (svcRecv cfg io fd state).map _) (received_setConn fd s buff _)
  generalize mybuffSetdata cfg.initBuffSize io.mem buff c = buff1 at hclear1 hlive1 heq ⊢
  have hfd : (received fd s buff1).acon fd = { s.acon fd with recvBuff := buff1 } := setConn_acon
  have hp : ((received fd s buff1).acon fd).user = some p := by
    rw [hfd]
    exact ha.user
  constructor
  · intro hb
    have hwait : Waiting fd s (b ++ c) (received fd s buff1) := by
      refine ⟨rfl, rfl, ?_, ?_, ?_⟩ <;> rw [hfd]
      · exact ha.isOpen
      · exact hlive1
    have hsvc : svcRecv cfg io fd (received fd s buff1) = some (.addEpollin, received fd s buff1) := by
      unfold svcRecv
      rw [hp]
      dsimp only
      rw [if_neg hidle, checkReq_waiting hwait (by rw [hfd]; exact hclear1) hb]
    rw [heq, hsvc]
    rfl
  · intro hb
    obtain ⟨s2, hreq, hp2⟩ := checkReq_accepted cfg io hp ha.sockStat (by rw [hfd]; exact hlive1.symm ▸ hb)
      (by rw [hfd]; exact hclear1)
    have hsvc : svcRecv cfg io fd (received fd s buff1) = none := by
      unfold svcRecv
      rw [hp]
      dsimp only
      rw [if_neg hidle, hreq]
      dsimp only
      unfold refuse
      rw [hp2]
      dsimp only
      rw [ha.recvtask, Option.map_none]
    rw [heq, hsvc, Option.map_none]

/-- What has arrived cannot lose its double end of line. -/
theorem strstr_cstr_append (hb : strstr (cstr b) (crlf ++ crlf) ≠ none) (c : Bytes) :
    strstr (cstr (b ++ c)) (crlf ++ crlf) ≠ none := by
  by_cases hz : (0 : UInt8) ∈ b
  · rwa [cstr_append_of_mem hz]
  · obtain ⟨k, hk⟩ := Option.ne_none_iff_exists'.mp hb
    have hcstr : cstr b = b := by
      have h := cstr_append_of_not_mem hz []
      rwa [List.append_nil, show cstr [] = [] from rfl, List.append_nil] at h
    rw [hcstr] at hk
    rw [cstr_append_of_not_mem hz, strstr_append hk]
    exact Option.some_ne_none k

/-- What the calls come to: nothing but the bytes in the buffer, or the end of the process. -/
theorem Accepted.recvCalls (ha : Accepted fd s p) (cfg : Cfg) {calls : List (RecvIo × Bytes)}
    (hm : ∀ call ∈ calls, ∀ i, call.1.mem i = 0) {buff : Mybuff} (hlive : buff.live = b) (hclear : buff.Clear)
    (hb : strstr (cstr b) (crlf ++ crlf) = none) :
    (strstr (cstr (b ++ arrived calls)) (crlf ++ crlf) ≠ none →
      DstClient.recvCalls cfg fd (received fd s buff) calls = none) ∧
    (strstr (cstr (b ++ arrived calls)) (crlf ++ crlf) = none → ∃ buff' : Mybuff, buff'.live = b ++ arrived calls ∧
      DstClient.recvCalls cfg fd (received fd s buff) calls = some (received fd s buff')) := by
  induction calls generalizing b buff with
  | nil =>
    rw [show arrived [] = [] from rfl, List.append_nil]
    exact ⟨fun hend => absurd hb hend, fun _ => ⟨buff, hlive, rfl⟩⟩
  | cons call calls ih =>
    have harr : b ++ arrived (call :: calls) = (b ++ call.2) ++ arrived calls := by
      rw [List.append_assoc]
      rfl
    have hmem := hm call List.mem_cons_self
    obtain ⟨hlives, hdies⟩ := ha.recv hlive hclear cfg hmem call.2
    rw [harr]
    unfold DstClient.recvCalls
    by_cases hnext : strstr (cstr (b ++ call.2)) (crlf ++ crlf) = none
    · rw [hlives hnext, Option.bind_some]
      exact ih (fun c hc => hm c (List.mem_cons_of_mem _ hc)) (by rw [live_mybuffSetdata, hlive])
        (hclear.setdata hmem call.2) hnext
    · rw [hdies hnext, Option.bind_none]
      exact ⟨fun _ => rfl, fun hend => absurd hend (strstr_cstr_append hnext _)⟩

/-- **A peer that connects can end the process.** On a connection that has been accepted, and not made by
`check_task`, the process dies of a null pointer as soon as a double end of line has arrived in front of the first
NUL, whatever the pieces. Before that nothing changes but the bytes in the receive buffer of the connection. -/
theorem accepted_dies_iff {mem : Nat → UInt8} (cfg : Cfg) (hm : ∀ i, mem i = 0) (ip : Nat)
    (hclosed : (s.acon fd).isOpen = false) (hblank : (s.acon fd).recvBuff.Blank) (calls : List (RecvIo × Bytes))
    (hcalls : ∀ call ∈ calls, ∀ i, call.1.mem i = 0) :
    (DstClient.recvCalls cfg fd (acceptNew cfg mem fd ip s) calls = none ↔
      strstr (cstr (arrived calls)) (crlf ++ crlf) ≠ none) ∧
    (strstr (cstr (arrived calls)) (crlf ++ crlf) = none → ∃ buff : Mybuff, buff.live = arrived calls ∧
      DstClient.recvCalls cfg fd (acceptNew cfg mem fd ip s) calls =
        some (received fd (acceptNew cfg mem fd ip s) buff)) := by
  obtain ⟨p, ha⟩ := accepted_acceptNew cfg hm ip hclosed hblank
  have hsame : received fd (acceptNew cfg mem fd ip s) ((acceptNew cfg mem fd ip s).acon fd).recvBuff =
      acceptNew cfg mem fd ip s := by
    show Sm.mk .. = Sm.mk ..
    congr 1
    exact Function.update_eq_self ..
  obtain ⟨hdies, hwaits⟩ := ha.recvCalls cfg hcalls ha.live ha.clear rfl
  rw [hsame] at hdies hwaits
  refine ⟨⟨fun hnone hend => ?_, hdies⟩, hwaits⟩
  obtain ⟨buff, -, hsome⟩ := hwaits hend
  exact nomatch hnone.symm.trans hsome

/-- A request that comes in two pieces. -/
def splitRequest : List (RecvIo × Bytes) := [(.ok, txt "GET / HTTP/1.1\r\n"), (.ok, txt "\r\n")]

/-- The first piece changes nothing, the second ends the process. -/
theorem accepted_dies_iff_request :
    (∃ buff : Mybuff, buff.live = txt "GET / HTTP/1.1\r\n" ∧
      DstClient.recvCalls .sample 3 (acceptNew .sample (fun _ => 0) 3 0 (Sm.init 1)) (splitRequest.take 1) =
        some (received 3 (acceptNew .sample (fun _ => 0) 3 0 (Sm.init 1)) buff)) ∧
    DstClient.recvCalls .sample 3 (acceptNew .sample (fun _ => 0) 3 0 (Sm.init 1)) splitRequest = none := by
  have hblank : ((Sm.init 1).acon 3).recvBuff.Blank := fun _ hx => absurd hx List.not_mem_nil
  have hzero : ∀ call ∈ splitRequest, ∀ i, call.1.mem i = 0 := by
    intro call hc i
    simp only [splitRequest, List.mem_cons, List.not_mem_nil, or_false] at hc
    rcases hc with rfl | rfl
    · rfl
    · rfl
  constructor
  · exact (accepted_dies_iff .sample (fun _ => rfl) 0 rfl hblank (splitRequest.take 1)
      fun call hc => hzero call (List.mem_of_mem_take hc)).2 (by decide +kernel)
  · exact (accepted_dies_iff .sample (fun _ => rfl) 0 rfl hblank splitRequest hzero).1.mpr (by decide +kernel)

end DstClient

end VfsOss
