import VfsOss.Dst.Transfer
import VfsOss.Dst.Proofs.ClientProofs
import VfsOss.Src.Proofs.HttpProofs
import VfsOss.Task.Proofs.WalkProofs

/-!
# Proofs: a segment arrives as it was asked for

The bytes the server has received, those under way and those the client has not sent are the request; the bytes
the client has received and those under way are what the server has sent of its answer. Each step keeps that,
and with it the state of both ends.
-/

namespace VfsOss

open CLib

variable {cfg : Cfg} {files : FileSystem Bytes} {fd : Nat} {s s' s0 : Sm} {t task : Tasklist} {p : Peer}
variable {seg : Option Bytes} {head a b r request ans : Bytes} {w : Transfer} {hungUp : Prop}

/-! ## The request -/

/-- No line of what can be asked for is cut. -/
theorem createHeader_lines (hf : Fetchable t) : DstClient.createHeader t.base t.sub t.firstByte =
    txt "GET /us_oss HTTP/1.1\r\n" ++
    (txt "filename: " ++ (t.base.filename ++ crlf)) ++
    (txt "type: " ++ (fmtInt 2 ++ crlf)) ++
    (txt "datalen: " ++ (fmtInt (toInt64 (t.sub.end_ - t.sub.start + 1)) ++ crlf)) ++
    (txt "start: " ++ (fmtInt t.firstByte ++ crlf)) ++
    (txt "end: " ++ (fmtInt t.sub.end_ ++ crlf)) ++
    (txt "filemd5: " ++ (t.base.filemd5 ++ (crlf ++ (crlf ++ [])))) := by
  have hlen := toInt64_bounds (t.sub.end_ - t.sub.start + 1)
  have hfirst := toInt64_bounds (t.base.getlen + t.sub.start)
  have h1 := fmtInt_long_length hlen.1 hlen.2
  have h2 : (fmtInt t.firstByte).length ≤ 20 := fmtInt_long_length hfirst.1 hfirst.2
  have h3 := fmtInt_long_length hf.end_.1 hf.end_.2
  have h4 := hf.filemd5.1
  have hlast : sbuf (txt "filemd5: " ++ t.base.filemd5 ++ txt "\r\n\r\n") =
      txt "filemd5: " ++ (t.base.filemd5 ++ (crlf ++ (crlf ++ []))) := by
    rw [sbuf, snprintf_of_le, List.append_assoc]
    · rfl
    · rw [List.length_append, List.length_append]
      show 9 + _ + 4 < 64
      omega
  rw [DstClient.createHeader, sbuf_line (txt "datalen: ") _ (by show 9 + _ < 62; omega),
    sbuf_line (txt "start: ") _ (by show 7 + _ < 62; omega), sbuf_line (txt "end: ") _ (by show 5 + _ < 62; omega),
    hlast, List.append_assoc (txt "filename: ")]
  rfl

/-- The lines of the request carry the fields. -/
theorem carries_createHeader (hf : Fetchable t) : Carries (SrcHttp.fields.map Field.item)
    [t.base.filename, fmtInt 2, fmtInt (toInt64 (t.sub.end_ - t.sub.start + 1)), fmtInt t.firstByte,
      fmtInt t.sub.end_, t.base.filemd5] (DstClient.createHeader t.base t.sub t.firstByte) := by
  have hmd5 := Carries.next (txt "filemd5: ") (line_of_not_mem fun hm => (hf.filemd5.2 _ hm).2 rfl)
    (.nil (crlf ++ []))
  have hend := Carries.next (txt "end: ") (line_fmtInt t.sub.end_) hmd5
  have hstart := Carries.next (txt "start: ") (line_fmtInt t.firstByte) hend
  have hdatalen := Carries.next (txt "datalen: ") (line_fmtInt (toInt64 (t.sub.end_ - t.sub.start + 1))) hstart
  have htype := Carries.next (txt "type: ") (line_fmtInt 2) hdatalen
  have hname := Carries.line (txt "GET /us_oss HTTP/1.1\r\n") (txt "filename: ") (by decide)
    (line_of_not_mem fun hm => (hf.filename.2 _ hm).2 rfl) htype
  have hfields : SrcHttp.fields.map Field.item = [txt "filename: ", txt "type: ", txt "datalen: ",
    txt "start: ", txt "end: ", txt "filemd5: "] := rfl
  rw [createHeader_lines hf, hfields]
  simp only [List.append_assoc] at hname ⊢
  exact hname

/-- The request without its first five bytes. -/
def requestTail (t : Tasklist) : Bytes :=
  txt "us_oss HTTP/1.1" ++ ([] ++ crlf) ++
    (txt "filename: " ++ (t.base.filename ++ crlf)) ++
    (txt "type: " ++ (fmtInt 2 ++ crlf)) ++
    (txt "datalen: " ++ (fmtInt (toInt64 (t.sub.end_ - t.sub.start + 1)) ++ crlf)) ++
    (txt "start: " ++ (fmtInt t.firstByte ++ crlf)) ++
    (txt "end: " ++ (fmtInt t.sub.end_ ++ crlf))

theorem createHeader_eq_tail (hf : Fetchable t) : DstClient.createHeader t.base t.sub t.firstByte =
    txt "GET /" ++ (requestTail t ++ (txt "filemd5: " ++ t.base.filemd5 ++ (crlf ++ (crlf ++ [])))) := by
  have hget : txt "GET /us_oss HTTP/1.1\r\n" = txt "GET /" ++ (txt "us_oss HTTP/1.1" ++ ([] ++ crlf)) := by
    decide +kernel
  rw [createHeader_lines hf, requestTail, hget]
  simp only [List.append_assoc]

theorem requestTail_skips (hf : Fetchable t) : SkipsLines (requestTail t) := by
  have hnum : ∀ n, (13 : UInt8) ∉ fmtInt n := fun n => not_mem_fmtInt (by decide) (by decide)
  have hname : (13 : UInt8) ∉ t.base.filename := fun hm => (hf.filename.2 _ hm).2 rfl
  refine (((((SkipsLines.line (txt "us_oss HTTP/1.1") [] (by decide) List.not_mem_nil).append
    (.line _ _ (by decide) hname) ?_).append (.line _ _ (by decide) (hnum _)) ?_).append
    (.line _ _ (by decide) (hnum _)) ?_).append (.line _ _ (by decide) (hnum _)) ?_).append
    (.line _ _ (by decide) (hnum _)) ?_
  all_goals exact ⟨_, _, rfl, by decide⟩

theorem zero_not_mem_createHeader (hf : Fetchable t) :
    (0 : UInt8) ∉ DstClient.createHeader t.base t.sub t.firstByte := by
  have hnum : ∀ n, (0 : UInt8) ∉ fmtInt n := fun n => not_mem_fmtInt (by decide) (by decide)
  have hname : (0 : UInt8) ∉ t.base.filename := fun hm => (hf.filename.2 _ hm).1 rfl
  have hmd5 : (0 : UInt8) ∉ t.base.filemd5 := fun hm => (hf.filemd5.2 _ hm).1 rfl
  have hb : (0 : UInt8) ∉ crlf := by decide
  have hlast : (0 : UInt8) ∉ txt "filemd5: " ++ (t.base.filemd5 ++ (crlf ++ (crlf ++ []))) := by
    simp only [List.mem_append, not_or]
    exact ⟨by decide, hmd5, hb, hb, List.not_mem_nil⟩
  rw [createHeader_lines hf]
  intro hm
  rcases List.mem_append.mp hm with hm | hm
  · revert hm
    refine not_mem_line (not_mem_line (not_mem_line (not_mem_line (not_mem_line ?_ ?_ hname hb) ?_ (hnum _) hb)
      ?_ (hnum _) hb) ?_ (hnum _) hb) ?_ (hnum _) hb
    all_goals decide
  · exact hlast hm

/-- **The request is understood** by the server. -/
theorem requestText_createHeader (hf : Fetchable t) : SrcHttp.RequestText
    (DstClient.createHeader t.base t.sub t.firstByte) t.base.filename t.firstByte t.sub.end_ := by
  have hfirst := toInt64_bounds (t.base.getlen + t.sub.start)
  have hmd5 : ¬ crlf <:+: txt "filemd5: " ++ t.base.filemd5 := by
    intro hin
    rcases List.mem_append.mp (hin.subset (show (13 : UInt8) ∈ crlf from List.mem_cons_self)) with hm | hm
    · exact absurd hm (by decide)
    · exact (hf.filemd5.2 _ hm).2 rfl
  have hstarts : StartsLine (txt "filemd5: " ++ t.base.filemd5 ++ (crlf ++ (crlf ++ []))) :=
    ⟨102, _, rfl, by decide⟩
  have hdrop : (DstClient.createHeader t.base t.sub t.firstByte).drop 5 =
      requestTail t ++ (txt "filemd5: " ++ t.base.filemd5 ++ (crlf ++ (crlf ++ []))) := by
    rw [createHeader_eq_tail hf]
    rfl
  refine ⟨zero_not_mem_createHeader hf, ?_, ?_, ?_, ⟨6, ?_, by decide⟩, ?_⟩
  · rw [createHeader_eq_tail hf, requestTail]
    simp only [List.length_append]
    show 14 ≤ 5 + (_ + (9 + _ + _))
    omega
  · rw [createHeader_eq_tail hf]
    rfl
  · rw [hdrop, requestTail_skips hf _ hstarts, strstr_blank_line hmd5, createHeader_eq_tail hf]
    simp only [Option.map_some, List.length_append, List.length_nil]
    show some (5 + (_ + _) + 4) = some (5 + (_ + (_ + (2 + (2 + 0)))))
    congr 1
  · obtain ⟨rest, hurl⟩ : ∃ rest, requestTail t ++
        (txt "filemd5: " ++ t.base.filemd5 ++ (crlf ++ (crlf ++ []))) = txt "us_oss HTTP/1.1" ++ rest := by
      rw [requestTail]
      simp only [List.append_assoc]
      exact ⟨_, rfl⟩
    rw [hdrop, hurl]
    exact strstr_append (by decide) _
  · intro h
    obtain ⟨rest, hr⟩ := parseFields_carried (carries_createHeader hf) h
    refine ⟨_, rest, hr, ?_, ?_, ?_, ?_⟩
    · show snprintf 255 t.base.filename = _
      exact snprintf_of_le (by have := hf.filename.1; omega)
    · show UInt8.ofInt (atoi (fmtInt 2)) < 5
      decide +kernel
    · show atol (fmtInt t.firstByte) = _
      exact atol_fmtInt hfirst.1 hfirst.2
    · show atol (fmtInt t.sub.end_) = _
      exact atol_fmtInt hf.end_.1 hf.end_.2

/-! ## The answer -/

/-- The header of the answer, as the client reads it. -/
theorem headText_answerHead (filename : Bytes) (start end_ : Int)
    (hshort : ∀ bytes, SrcHttp.segmentOf files filename start end_ = some bytes → bytes.length < 2 ^ 31) :
    DstClient.HeadText (SrcHttp.answerHead files filename start end_)
      ((SrcHttp.segmentOf files filename start end_).map List.length) := by
  unfold SrcHttp.answerHead
  cases hseg : SrcHttp.segmentOf files filename start end_ with
  | some bytes =>
    have hlen := hshort bytes hseg
    exact DstClient.headText_segment (by omega)
  | none =>
    refine DstClient.headText_refused ?_
    split
    · exact Or.inl rfl
    · exact Or.inr rfl

/-- A segment is not empty. -/
theorem segmentOf_pos {filename bytes : Bytes} {start end_ : Int} (hpos : 0 ≤ start)
    (hseg : SrcHttp.segmentOf files filename start end_ = some bytes) : 0 < bytes.length := by
  unfold SrcHttp.segmentOf at hseg
  obtain ⟨content, -, hseg⟩ := Option.bind_eq_some_iff.mp hseg
  split at hseg
  · cases hseg
  · next hrange =>
    obtain rfl := Option.some.inj hseg
    rw [List.length_take, List.length_drop]
    omega

/-! ## The client -/

namespace DstClient

/-- States that differ in the send buffer of a connection. -/
structure SameButSend (fd : Nat) (s s' : Sm) : Prop where
  store : s'.store = s.store
  fs : s'.fs = s.fs
  isOpen : (s'.acon fd).isOpen = (s.acon fd).isOpen
  user : (s'.acon fd).user = (s.acon fd).user
  recvBuff : (s'.acon fd).recvBuff = (s.acon fd).recvBuff

theorem SameButSend.fetching (h : SameButSend fd s s') (hf : Fetching cfg fd s0 t head seg r s) :
    Fetching cfg fd s0 t head seg r s' := by
  cases hf with
  | header hr hw hclear =>
    exact .header hr ⟨h.store.trans hw.store, h.fs.trans hw.fs, h.isOpen.trans hw.isOpen, h.user.trans hw.user,
      h.recvBuff ▸ hw.live⟩ (h.recvBuff ▸ hclear)
  | body bytes hseg hafter =>
    refine .body bytes hseg ⟨fun hlt => ?_, fun hle => ?_⟩
    · obtain ⟨hstore, hfs, hopen, ⟨p, hp, hrest⟩, hlive⟩ := hafter.more hlt
      exact ⟨h.store.trans hstore, h.fs.trans hfs, h.isOpen.trans hopen, ⟨p, h.user.trans hp, hrest⟩,
        h.recvBuff ▸ hlive⟩
    · obtain ⟨hstore, hfs, hopen⟩ := hafter.last hle
      exact ⟨h.store.trans hstore, h.fs.trans hfs, h.isOpen.trans hopen⟩
  | refused hseg href =>
    exact .refused hseg ⟨h.store.trans href.store, h.fs.trans href.fs, h.isOpen.trans href.isOpen⟩

/-- The connection has ended before its record was done. -/
structure Broken (fd : Nat) (s0 : Sm) (task : Tasklist) (seg : Option Bytes) (s : Sm) : Prop where
  isOpen : (s.acon fd).isOpen = false
  fin : ∃ t, t.addr = task.addr ∧ t.sub = task.sub ∧ t.base.overstatus = .peererr ∧
    s.store = vfsSetTask s0.store t .fin ∧ (s.fs = s0.fs ∨ ∃ bytes part, seg = some bytes ∧ part <+: bytes ∧
      part.length < bytes.length ∧ s.fs.content t.base.tmpfile = some part)

/-- Closing a connection with a record. -/
theorem doClose_record (ho : (s.acon fd).isOpen = true) (hp : (s.acon fd).user = some p) (ht : p.recvtask = some t) :
    (doClose fd s).store = vfsSetTask s.store (t.over .peererr) .fin ∧ (doClose fd s).fs = s.fs ∧
      ((doClose fd s).acon fd).isOpen = false := by
  unfold doClose svcFiniconn
  rw [if_pos ho, hp]
  simp only [ht]
  exact ⟨rfl, rfl, by rw [setConn_acon]⟩

/-- **The end of the connection**, seen behind the bytes `r` of the answer. -/
theorem Fetching.hangUp (h : Fetching cfg fd s0 t head seg r s) (hask : Asking cfg fd t s0 p)
    (hr : r <+: head ++ seg.getD []) :
    Fetching cfg fd s0 t head seg r (doClose fd s) ∨ Broken fd s0 t seg (doClose fd s) := by
  cases h with
  | header hnone hwait _ =>
    obtain ⟨hstore, hfs, hclosed⟩ := doClose_record hwait.isOpen (hwait.user.trans hask.user) hask.recvtask
    refine Or.inr ⟨hclosed, t.over .peererr, rfl, rfl, rfl, ?_, Or.inl (hfs.trans hwait.fs)⟩
    rw [hstore, hwait.store]
  | @body d _ bytes hseg hafter =>
    subst hseg
    rcases Nat.lt_or_ge d.length bytes.length with hlt | hge
    · have hrec := hafter.more (by show (d.length : Int) < bytes.length; omega)
      obtain ⟨p', hp', -, htask, -⟩ := hrec.user
      obtain ⟨hstore, hfs, hclosed⟩ := doClose_record hrec.isOpen hp' htask
      have hd : d <+: bytes := (List.prefix_append_right_inj head).mp hr
      refine Or.inr ⟨hclosed, ((fetchStart cfg s0 t bytes.length).task.holding d).over .peererr, rfl, rfl, rfl, ?_,
        Or.inr ⟨bytes, d, rfl, hd, hlt, ?_⟩⟩
      · rw [hstore, hrec.store]
        rfl
      · rw [hfs, hrec.fs]
        exact FileSystem.content_setNode _ (FileSystem.names_creat_self _) _
    · have hfin := hafter.last (by show (bytes.length : Int) ≤ d.length; omega)
      rw [doClose_closed hfin.isOpen]
      exact Or.inl (.body bytes rfl hafter)
  | refused hseg href =>
    rw [doClose_closed href.isOpen]
    exact Or.inl (.refused hseg href)

/-- The record that a state is about, when it is still free to be put into a queue. -/
def Free (s0 : Sm) (task : Tasklist) : Prop := ∀ st, ∀ u ∈ s0.store.vfstask st, u.addr ≠ task.addr

theorem Free.fin {store : TaskStore} (h : Free s0 task) (ht : t.addr = task.addr)
    (hs : store = vfsSetTask s0.store t .fin) :
    store.vfstask .fin = s0.store.vfstask .fin ++ [{ t with status := .fin }] := by
  rw [hs, vfstask_vfsSetTask (by decide) fun st u hu => ht ▸ h st u hu, Function.update_self]

/-- What has become of the record. -/
theorem Fetching.outcome (h : Fetching cfg fd s0 t head seg r s) (hfree : Free s0 t) (hr : r <+: head ++ seg.getD []) :
    Pending fd s0 s ∨ (s.acon fd).isOpen = false ∧ Done s0 t seg hungUp s := by
  cases h with
  | header hnone hwait => exact Or.inl ⟨hwait.isOpen, by rw [hwait.store]⟩
  | @body d _ bytes hseg hafter =>
    subst hseg
    have hd : d <+: bytes := (List.prefix_append_right_inj head).mp hr
    rcases Nat.lt_or_ge d.length bytes.length with hlt | hge
    · have hrec := hafter.more (by show (d.length : Int) < bytes.length; omega)
      exact Or.inl ⟨hrec.isOpen, by rw [hrec.store]; rfl⟩
    · obtain rfl : d = bytes := hd.eq_of_length_le hge
      have hfin := hafter.last (le_refl (d.length : Int))
      have hall : d.take (fetchStart cfg s0 t d.length).task.base.fsize.toNat = d := List.take_length
      obtain ⟨hstore, hfs, hclosed⟩ := hfin
      rw [hall] at hstore hfs
      refine Or.inr ⟨hclosed, .ok _ d (hfree.fin (t := ((fetchStart cfg s0 t d.length).task.holding d).over .ok) rfl
        hstore) rfl rfl rfl rfl ?_⟩
      rw [hfs]
      exact FileSystem.content_setNode _ (FileSystem.names_creat_self _) _
  | refused hseg href =>
    exact Or.inr ⟨href.isOpen, .refused _ (hfree.fin (t := t.over .eOpenSrcfile) rfl href.store) rfl rfl rfl hseg
      href.fs⟩

theorem Broken.outcome (h : Broken fd s0 t seg s) (hfree : Free s0 t) (hung : hungUp) :
    (s.acon fd).isOpen = false ∧ Done s0 t seg hungUp s := by
  obtain ⟨t', haddr, hsub, hstatus, hstore, hfile⟩ := h.fin
  exact ⟨h.isOpen, .broken _ (hfree.fin haddr hstore) haddr hsub hstatus hung hfile⟩

/-- Behind the whole answer the connection is closed. -/
theorem Fetching.whole (h : Fetching cfg fd s0 t head seg (head ++ seg.getD []) s)
    (hh : HeadText head (seg.map List.length)) : (s.acon fd).isOpen = false := by
  generalize hr : head ++ seg.getD [] = r at h
  cases h with
  | header hnone _ _ =>
    obtain ⟨k, hk, -⟩ := hh.split
    rw [← hr, strstr_append hk] at hnone
    exact absurd hnone (Option.some_ne_none k)
  | @body d _ bytes hseg hafter =>
    subst hseg
    obtain rfl : bytes = d := List.append_cancel_left hr
    exact (hafter.last (le_refl (bytes.length : Int))).isOpen
  | refused _ href => exact href.isOpen

end DstClient

/-! ## Both ends -/

open DstClient

/-- What every step keeps. The server has been sent the bytes `rcvd` of the request, the client the bytes `got`
of the answer. -/
structure Going (cfg : Cfg) (fd : Nat) (s0 : Sm) (t : Tasklist) (head : Bytes) (seg : Option Bytes) (request : Bytes)
    (hungUp : Prop) (w : Transfer) (rcvd got : Bytes) (s : Sm) : Prop where
  client : w.client = some s
  server : SrcHttp.Serving request (head ++ seg.getD []) rcvd w.server
  sent : w.server.out.sent = got ++ w.answered
  asked : rcvd ++ w.asked <+: request
  unsent : (s.acon fd).isOpen = true → rcvd ++ w.asked ++ (s.acon fd).sendBuff.live = request
  state : Fetching cfg fd s0 t head seg got s ∨ hungUp ∧ Broken fd s0 t seg s

/-- A state of the transfer, whatever has been received. -/
def OnItsWay (cfg : Cfg) (fd : Nat) (s0 : Sm) (t : Tasklist) (head : Bytes) (seg : Option Bytes) (request : Bytes)
    (hungUp : Prop) (w : Transfer) : Prop :=
  ∃ rcvd got s, Going cfg fd s0 t head seg request hungUp w rcvd got s

variable {rcvd got : Bytes} {io : RecvIo}

/-- What the client has received is the beginning of the answer. -/
theorem Going.got_prefix (h : Going cfg fd s0 t head seg request hungUp w rcvd got s) :
    got ++ w.answered <+: head ++ seg.getD [] := by
  rw [← h.sent]
  cases h.server with
  | waiting _ _ _ _ sent _ _ =>
    rw [sent]
    exact List.nil_prefix
  | answered _ stream _ =>
    rw [← stream]
    exact List.prefix_append _ _

/-- **The client sends.** -/
theorem Going.ask (h : Going cfg fd s0 t head seg request hungUp w rcvd got s) (n : Nat) :
    OnItsWay cfg fd s0 t head seg request hungUp (transferStep cfg files fd w (.ask n)) := by
  have hstep : transferStep cfg files fd w (.ask n) =
      { w with client := some (DstClient.doSend fd n s).2, asked := w.asked ++ (DstClient.doSend fd n s).1 } := by
    simp only [transferStep, h.client]
  rw [hstep]
  unfold DstClient.doSend
  split
  · next ho =>
    have hwhole := h.unsent ho
    have hsame : SameButSend fd s (s.setConn fd { s.acon fd with
        sendBuff := mybuffSkipdata (s.acon fd).sendBuff n }) :=
      ⟨rfl, rfl, by rw [setConn_acon], by rw [setConn_acon], by rw [setConn_acon]⟩
    have hcut : rcvd ++ (w.asked ++ (s.acon fd).sendBuff.live.take n) ++ (s.acon fd).sendBuff.live.drop n =
        request := by
      rw [← List.append_assoc rcvd, List.append_assoc (rcvd ++ w.asked), List.take_append_drop]
      exact hwhole
    refine ⟨rcvd, got, _, rfl, h.server, h.sent, ?_, fun _ => ?_, ?_⟩
    · rw [← hcut]
      exact List.prefix_append _ _
    · rw [setConn_acon]
      show _ ++ (mybuffSkipdata _ n).live = _
      rw [live_mybuffSkipdata]
      exact hcut
    · rcases h.state with hf | ⟨-, hb⟩
      · exact Or.inl (hsame.fetching hf)
      · rw [hb.isOpen] at ho
        exact absurd ho Bool.false_ne_true
  · refine ⟨rcvd, got, s, rfl, h.server, h.sent, ?_, ?_, h.state⟩
    · rw [List.append_nil]
      exact h.asked
    · rw [List.append_nil]
      exact h.unsent

/-- **The server receives.** -/
theorem Going.serve (h : Going cfg fd s0 t head seg request hungUp w rcvd got s) {filename : Bytes} {start end_ : Int}
    (hans : head ++ seg.getD [] = SrcHttp.answer files filename start end_)
    (htext : SrcHttp.RequestText request filename start end_) (hpos : 0 ≤ start)
    (hshort : ∀ bytes, SrcHttp.segmentOf files filename start end_ = some bytes → bytes.length < 2 ^ 31)
    (n : Nat) {mem : Nat → UInt8} (hmem : ∀ i, mem i = 0) :
    OnItsWay cfg fd s0 t head seg request hungUp (transferStep cfg files fd w (.serve n mem)) := by
  have hsplit : rcvd ++ w.asked = (rcvd ++ w.asked.take n) ++ w.asked.drop n := by
    rw [List.append_assoc, List.take_append_drop]
  have hpre : rcvd ++ w.asked.take n <+: request := by
    have hle := h.asked
    rw [hsplit] at hle
    exact (List.prefix_append _ _).trans hle
  have hserver := h.server
  rw [hans] at hserver
  have hrecv := hserver.recv cfg.initBuffSize mem hmem htext hpos hshort hpre
  rw [← hans] at hrecv
  have hsent : (SrcHttp.doRecv cfg.initBuffSize mem files (w.asked.take n) w.server).out.sent =
      w.server.out.sent := SrcHttp.doRecv_sent ..
  refine ⟨_, got, s, h.client, hrecv, hsent.trans h.sent, ?_, ?_, h.state⟩
  · show rcvd ++ w.asked.take n ++ w.asked.drop n <+: request
    rw [← hsplit]
    exact h.asked
  · intro ho
    show rcvd ++ w.asked.take n ++ w.asked.drop n ++ _ = request
    rw [← hsplit]
    exact h.unsent ho

/-- **The server sends.** -/
theorem Going.answer (h : Going cfg fd s0 t head seg request hungUp w rcvd got s) (io : SendIo) :
    OnItsWay cfg fd s0 t head seg request hungUp (transferStep cfg files fd w (.answer io)) := by
  obtain ⟨more, hmore⟩ : w.server.out.sent <+: (SrcHttp.doSend io w.server).out.sent := doSendBuff_sent _ _
  refine ⟨rcvd, got, s, h.client, h.server.send io, ?_, h.asked, h.unsent, h.state⟩
  show (SrcHttp.doSend io w.server).out.sent = got ++ (w.answered ++ (SrcHttp.doSend io w.server).out.sent.drop _)
  rw [← hmore, List.drop_left, ← List.append_assoc, ← h.sent]

/-- **The client receives.** -/
theorem Going.fetch (h : Going cfg fd s0 t head seg request hungUp w rcvd got s)
    (hh : HeadText head (seg.map List.length)) (hask : Asking cfg fd t s0 p)
    (hsize : ∀ bytes, seg = some bytes → 0 < bytes.length ∧ bytes.length ≤ 2 ^ 31 - 1)
    (n : Nat) (hopens : io.opens = true) (hw : io.write = some) (hm : ∀ i, io.mem i = 0) :
    OnItsWay cfg fd s0 t head seg request hungUp (transferStep cfg files fd w (.fetch n io)) := by
  have hsplit : got ++ w.answered = (got ++ w.answered.take n) ++ w.answered.drop n := by
    rw [List.append_assoc, List.take_append_drop]
  have hpre : got ++ w.answered.take n <+: head ++ seg.getD [] := by
    have hle := h.got_prefix
    rw [hsplit] at hle
    exact (List.prefix_append _ _).trans hle
  have hrecv : DstClient.Received cfg io fd (w.answered.take n) s fun s' =>
      (s.acon fd).isOpen = false ∧ s' = s ∧ (hungUp ∧ Broken fd s0 t seg s) ∨
      Fetching cfg fd s0 t head seg (got ++ w.answered.take n) s' := by
    rcases h.state with hf | hb
    · obtain ⟨s', hs', hP, hsend⟩ := hf.recv hh hask hopens hw hm hsize hpre
      exact ⟨s', hs', Or.inr hP, hsend⟩
    · exact received_closed hb.2.isOpen (Or.inl ⟨hb.2.isOpen, rfl, hb⟩)
  obtain ⟨s', hs', hP, hsend⟩ := hrecv
  have hstep : transferStep cfg files fd w (.fetch n io) =
      { w with answered := w.answered.drop n, client := some s' } := by
    show ({ w with answered := _, client := w.client.bind _ } : Transfer) = _
    rw [h.client, Option.bind_some, hs']
  rw [hstep]
  refine ⟨rcvd, got ++ w.answered.take n, s', rfl, h.server, h.sent.trans hsplit, h.asked, fun ho => ?_, ?_⟩
  · rw [hsend]
    refine h.unsent ?_
    cases hopen : (s.acon fd).isOpen with
    | true => rfl
    | false =>
      obtain rfl : s = s' := by
        have hclosed := DstClient.doRecv_closed cfg io (w.answered.take n) hopen
        exact Option.some.inj (hclosed.symm.trans hs')
      rw [hopen] at ho
      exact absurd ho Bool.false_ne_true
  · rcases hP with ⟨-, rfl, hb⟩ | hf
    · exact Or.inr hb
    · exact Or.inl hf

/-- **The connection ends.** -/
theorem Going.hangUp (h : Going cfg fd s0 t head seg request hungUp w rcvd got s) (hask : Asking cfg fd t s0 p)
    (hung : hungUp) : OnItsWay cfg fd s0 t head seg request hungUp (transferStep cfg files fd w .hangUp) := by
  have hstep : transferStep cfg files fd w .hangUp = { w with client := some (doClose fd s) } := by
    show ({ w with client := w.client.map (doClose fd) } : Transfer) = _
    rw [h.client]
    rfl
  have hclosed : ((doClose fd s).acon fd).isOpen = false := by
    unfold doClose
    split
    · rw [setConn_acon]
    · next ho => exact Bool.eq_false_iff.mpr ho
  rw [hstep]
  refine ⟨rcvd, got, _, rfl, h.server, h.sent, h.asked, fun ho => ?_, ?_⟩
  · rw [hclosed] at ho
    exact absurd ho Bool.false_ne_true
  · rcases h.state with hf | hb
    · rcases hf.hangUp hask ((List.prefix_append _ _).trans h.got_prefix) with hf | hb
      · exact Or.inl hf
      · exact Or.inr ⟨hung, hb⟩
    · rw [doClose_closed hb.2.isOpen]
      exact Or.inr hb

/-- What a state comes to. -/
theorem Going.sound (h : Going cfg fd s0 t head seg request hungUp w rcvd got s) (hfree : Free s0 t)
    (hh : HeadText head (seg.map List.length)) : w.Sound fd s0 t seg hungUp := by
  refine ⟨s, h.client, ?_, fun hquiet => ?_⟩
  · rcases h.state with hf | ⟨hung, hb⟩
    · exact hf.outcome hfree ((List.prefix_append _ _).trans h.got_prefix)
    · exact Or.inr (hb.outcome hfree hung)
  · by_contra ho
    rw [Bool.not_eq_false] at ho
    have hwhole := h.unsent ho
    rw [hquiet.asked, hquiet.unsent s h.client, List.append_nil, List.append_nil] at hwhole
    have hsent := h.sent
    rw [hquiet.answered, List.append_nil] at hsent
    cases h.server with
    | waiting short _ _ _ _ _ _ =>
      rw [hwhole] at short
      exact absurd short (Nat.lt_irrefl _)
    | answered _ stream _ =>
      rw [hquiet.unanswered, List.append_nil, hsent] at stream
      rcases h.state with hf | ⟨-, hb⟩
      · rw [stream] at hf
        rw [hf.whole hh] at ho
        exact absurd ho Bool.false_ne_true
      · rw [hb.isOpen] at ho
        exact absurd ho Bool.false_ne_true

/-! ## From the start -/

theorem OnItsWay.step (h : OnItsWay cfg fd s0 t head seg request hungUp w) (hask : Asking cfg fd t s0 p)
    (hh : HeadText head (seg.map List.length))
    (hsize : ∀ bytes, seg = some bytes → 0 < bytes.length ∧ bytes.length ≤ 2 ^ 31 - 1)
    {filename : Bytes} {start end_ : Int} (hans : head ++ seg.getD [] = SrcHttp.answer files filename start end_)
    (htext : SrcHttp.RequestText request filename start end_) (hpos : 0 ≤ start)
    (hseg : SrcHttp.segmentOf files filename start end_ = seg) {a : TransferAct} (hfull : a.Full)
    (hung : a = .hangUp → hungUp) :
    OnItsWay cfg fd s0 t head seg request hungUp (transferStep cfg files fd w a) := by
  obtain ⟨rcvd, got, s, hgo⟩ := h
  have hshort : ∀ bytes, SrcHttp.segmentOf files filename start end_ = some bytes → bytes.length < 2 ^ 31 := by
    intro bytes hbytes
    have hmax := (hsize bytes (hseg.symm.trans hbytes)).2
    omega
  cases a with
  | ask n => exact hgo.ask n
  | serve n mem => exact hgo.serve hans htext hpos hshort n hfull
  | answer io => exact hgo.answer io
  | fetch n io => exact hgo.fetch hh hask hsize n hfull.1 hfull.2.1 hfull.2.2
  | hangUp => exact hgo.hangUp hask (hung rfl)

/-- **What a run keeps.** -/
theorem OnItsWay.run (h : OnItsWay cfg fd s0 t head seg request hungUp w) (hask : Asking cfg fd t s0 p)
    (hh : HeadText head (seg.map List.length))
    (hsize : ∀ bytes, seg = some bytes → 0 < bytes.length ∧ bytes.length ≤ 2 ^ 31 - 1)
    {filename : Bytes} {start end_ : Int} (hans : head ++ seg.getD [] = SrcHttp.answer files filename start end_)
    (htext : SrcHttp.RequestText request filename start end_) (hpos : 0 ≤ start)
    (hseg : SrcHttp.segmentOf files filename start end_ = seg) {acts : List TransferAct}
    (hfull : ∀ a ∈ acts, a.Full) (hung : ∀ a ∈ acts, a = .hangUp → hungUp) :
    OnItsWay cfg fd s0 t head seg request hungUp (CLib.run (transferStep cfg files fd) w acts) := by
  induction acts generalizing w with
  | nil => exact h
  | cons a acts ih =>
    have hstep : OnItsWay cfg fd s0 t head seg request hungUp (transferStep cfg files fd w a) :=
      h.step hask hh hsize hans htext hpos hseg (hfull a List.mem_cons_self) (hung a List.mem_cons_self)
    exact ih hstep (fun b hb => hfull b (List.mem_cons_of_mem a hb)) fun b hb => hung b (List.mem_cons_of_mem a hb)

/-- The record that waits is in no queue, and `TASK_FIN` is as it was. -/
theorem free_nextTask {store : TaskStore} (hp : WellPlaced s.store)
    (hnext : nextTask cfg s.store = some (task, store)) :
    (∀ st, ∀ u ∈ store.vfstask st, u.addr ≠ task.addr) ∧ store.vfstask .fin = s.store.vfstask .fin := by
  have hget : ∀ {q : TaskStatus} {store : TaskStore}, q ≠ .fin →
      vfsGetTask cfg.mallocOk s.store q = (.ok task, store) →
      (∀ st, ∀ u ∈ store.vfstask st, u.addr ≠ task.addr) ∧ store.vfstask .fin = s.store.vfstask .fin := by
    intro q store hq hg
    obtain ⟨loc, hloc⟩ := hp
    refine ⟨(hloc.get hg).1.not_queued fun st => ?_, ?_⟩
    · rw [Function.update_self]
      exact Loc.noConfusion
    · have hv : (vfsGetTask cfg.mallocOk s.store q).2.vfstask .fin = s.store.vfstask .fin :=
        vfstask_vfsGetTask_ne hq.symm
      rwa [hg] at hv
  unfold nextTask at hnext
  split at hnext
  · next hg =>
    obtain ⟨rfl, rfl⟩ := Prod.mk.inj (Option.some.inj hnext)
    exact hget (by decide) hg
  · split at hnext
    · next hg =>
      obtain ⟨rfl, rfl⟩ := Prod.mk.inj (Option.some.inj hnext)
      exact hget (by decide) hg
    · cases hnext

/-- What `check_task` leaves when the path of the record fits. -/
def askedFor (cfg : Cfg) (io : ConnectIo) (fd : Nat) (task : Tasklist) (s : Sm) : Sm :=
  let accepted := acceptNew cfg io.mem fd io.ip s
  sendRequest cfg io fd { task with base := (checkLastFile cfg io accepted.fs task.base task.sub).1 }
    { accepted with fs := (checkLastFile cfg io accepted.fs task.base task.sub).2 }

theorem askFor_guarded (cfg : Cfg) (io : ConnectIo) (fd : Nat) (task : Tasklist) (s : Sm) :
    Guarded (task.PathFits cfg) (askFor cfg io fd task s) (askedFor cfg io fd task s) :=
  (afterLocaldir_guarded cfg task.base.hostname task.base.filename
    (checkLastFile cfg io (acceptNew cfg io.mem fd io.ip s).fs task.base task.sub)).map fun last =>
      sendRequest cfg io fd { task with base := last.1 } { acceptNew cfg io.mem fd io.ip s with fs := last.2 }

/-- The name of the file is what it was. -/
theorem pathFits_requested (cfg : Cfg) (io : ConnectIo) (s : Sm) (task : Tasklist) :
    (requested cfg io s task).PathFits cfg ↔ task.PathFits cfg := by
  unfold requested checkLastFile
  dsimp only
  split
  · split
    · rfl
    · split <;> rfl
  · rfl

/-- The connection of the record waits for the answer. -/
theorem askedFor_asking (cfg : Cfg) (io : ConnectIo) (task : Tasklist) (hclosed : (s.acon fd).isOpen = false)
    (hblank : (s.acon fd).recvBuff.Blank) (hm : ∀ i, io.mem i = 0) (hpath : task.PathFits cfg) :
    (∃ p, Asking cfg fd (requested cfg io s task) (askedFor cfg io fd task s) p) ∧
    (askedFor cfg io fd task s).store = s.store ∧
    ((askedFor cfg io fd task s).acon fd).sendBuff.live =
      createHeader (requested cfg io s task).base (requested cfg io s task).sub (requested cfg io s task).firstByte := by
  have haccept : (acceptNew cfg io.mem fd io.ip s).store = s.store ∧ (acceptNew cfg io.mem fd io.ip s).fs = s.fs ∧
      (acceptNew cfg io.mem fd io.ip s).acon fd =
        { isOpen := true
          recvBuff := mybuffReinit cfg.initBuffSize io.mem (s.acon fd).recvBuff
          sendBuff := mybuffReinit cfg.initBuffSize io.mem (s.acon fd).sendBuff
          user := some ⟨.zero, none, io.ip, .connected, none⟩ } := by
    unfold acceptNew
    rw [if_neg (by rw [hclosed]; exact Bool.false_ne_true)]
    exact ⟨rfl, rfl, setConn_acon⟩
  obtain ⟨hstore, hfs, hconn⟩ := haccept
  have hpath1 := (pathFits_requested cfg io s task).mpr hpath
  unfold askedFor sendRequest
  unfold requested at hpath1 ⊢
  dsimp only
  rw [hfs]
  refine ⟨⟨⟨.zero, none, io.ip, .recvHeadIng,
    some { task with base := (checkLastFile cfg io s.fs task.base task.sub).1 }⟩, ?_, ?_, rfl, rfl, ?_, ?_, hpath1⟩,
    hstore, ?_⟩
  · rw [setConn_acon]
    show ((acceptNew cfg io.mem fd io.ip s).acon fd).isOpen = true
    rw [hconn]
  · rw [setConn_acon]
    show ((acceptNew cfg io.mem fd io.ip s).acon fd).user.map _ = _
    rw [hconn]
    rfl
  · rw [setConn_acon]
    show ((acceptNew cfg io.mem fd io.ip s).acon fd).recvBuff.live = []
    rw [hconn]
    exact live_mybuffReinit _
  · rw [setConn_acon]
    show ((acceptNew cfg io.mem fd io.ip s).acon fd).recvBuff.Clear
    rw [hconn]
    exact hblank.reinit hm
  · rw [setConn_acon]
    show (mybuffSetdata _ _ ((acceptNew cfg io.mem fd io.ip s).acon fd).sendBuff _).live = _
    rw [hconn, live_mybuffSetdata, live_mybuffReinit, List.nil_append]
    rfl

/-- The state before the first step. -/
theorem onItsWay_start {io : ConnectIo} {task : Tasklist} (hclosed : (s.acon fd).isOpen = false)
    (hblank : (s.acon fd).recvBuff.Blank) (hm : ∀ i, io.mem i = 0) (hpath : task.PathFits cfg)
    (hf : Fetchable (requested cfg io s task)) {n : Nat} {mem : Nat → UInt8} {recvBuff sendBuff : Mybuff}
    (hmem : ∀ i, mem i = 0) (hrecv : recvBuff.Blank)
    (hreq : createHeader (requested cfg io s task).base (requested cfg io s task).sub
      (requested cfg io s task).firstByte = request) :
    OnItsWay cfg fd (askedFor cfg io fd task s) (requested cfg io s task) head seg request hungUp
      (.start (askedFor cfg io fd task s) (.fresh n mem recvBuff sendBuff)) := by
  obtain ⟨⟨p, hask⟩, -, hsend⟩ := askedFor_asking cfg io task hclosed hblank hm hpath
  have hlong := (requestText_createHeader hf).long
  rw [hreq] at hlong
  have hnil : (SrcHttp.Conn.fresh n mem recvBuff sendBuff).recvBuff.live = [] := live_mybuffReinit _
  have hpending : (SrcHttp.Conn.fresh n mem recvBuff sendBuff).out.buf.pending = [] := by
    show (mybuffReinit n mem sendBuff).live ++ [] = []
    rw [live_mybuffReinit]
    rfl
  have hshort : ([] : Bytes).length < request.length := Nat.lt_of_lt_of_le (by decide) hlong
  have hserver : SrcHttp.Serving request (head ++ seg.getD []) [] (.fresh n mem recvBuff sendBuff) :=
    .waiting hshort hnil (hrecv.reinit hmem) rfl rfl hpending rfl
  refine ⟨[], [], _, rfl, hserver, rfl, List.nil_prefix, fun _ => ?_, Or.inl ?_⟩
  · rw [hsend, hreq]
    rfl
  · exact .header (by decide) ⟨rfl, rfl, hask.isOpen, rfl, hask.live⟩ hask.clear

/-- **A transfer is sound.** Whatever happens to the connection of a record that `check_task` has taken, and in
whatever pieces the bytes travel, the client survives. The record stays with the connection until it goes to
`TASK_FIN` once, as `OVER_OK` with the bytes that were asked for in its file, as `OVER_E_OPEN_SRCFILE` when they
are not to be had, or as `OVER_PEERERR` when the connection has ended too early; and it is done when nothing is
left to be sent or received. -/
theorem transfer_sound {io : ConnectIo} (hb : Begins cfg io fd s task s0) (hf : Fetchable (requested cfg io s task))
    (hshort : ∀ bytes, (requested cfg io s task).segment files = some bytes → bytes.length ≤ 2 ^ 31 - 1)
    (n : Nat) (mem : Nat → UInt8) (hmem : ∀ i, mem i = 0) (recvBuff sendBuff : Mybuff) (hrecv : recvBuff.Blank)
    (acts : List TransferAct) (hfull : ∀ a ∈ acts, a.Full) :
    (run (transferStep cfg files fd) (.start s0 (.fresh n mem recvBuff sendBuff)) acts).Sound fd s0
      (requested cfg io s task) ((requested cfg io s task).segment files) (.hangUp ∈ acts) := by
  obtain ⟨store, hnext⟩ := hb.next
  obtain ⟨hpath, rfl⟩ : task.PathFits cfg ∧ s0 = askedFor cfg io fd task { s with store := store } := by
    have hone := hb.one
    unfold checkTaskOne at hone
    rw [hnext, hb.made] at hone
    obtain ⟨hpath, heq⟩ := ((askFor_guarded cfg io fd task { s with store := store }).map some).eq_of_ok hone
    exact ⟨hpath, Option.some.inj heq⟩
  obtain ⟨hfree, -⟩ := free_nextTask hb.placed hnext
  obtain ⟨⟨p, hask⟩, hstore, -⟩ :=
    askedFor_asking (s := { s with store := store }) cfg io task hb.closed hb.blank hb.mem hpath
  have hsize : ∀ bytes, (requested cfg io s task).segment files = some bytes →
      0 < bytes.length ∧ bytes.length ≤ 2 ^ 31 - 1 := fun bytes hseg =>
    ⟨segmentOf_pos hf.firstByte hseg, hshort bytes hseg⟩
  have hh := headText_answerHead (requested cfg io s task).base.filename (requested cfg io s task).firstByte
    (requested cfg io s task).sub.end_ fun bytes hseg => Nat.lt_of_le_of_lt (hshort bytes hseg) (by decide)
  obtain ⟨rcvd, got, s', hgo⟩ := (onItsWay_start (s := { s with store := store }) hb.closed hb.blank hb.mem hpath hf
    hmem hrecv rfl).run hask hh
    hsize rfl (requestText_createHeader hf) hf.firstByte rfl hfull fun _ ha hung => hung ▸ ha
  refine hgo.sound ?_ hh
  rw [Free, hstore]
  exact hfree

/-- A record that waits: the bytes from 2 to 5 of a file. -/
def wantedTask : Tasklist :=
  { Tasklist.fresh 0 with
    base := { TaskBase.zero with filename := txt "/d/f" }
    sub := { TaskSub.zero with start := 2, end_ := 5, count := 1 } }

/-- A process with this record. -/
def Sm.wanting : Sm := { Sm.init 1 with store := onlyQueue .wait [wantedTask] 1 }

/-- The files of the server. -/
def servedFiles : FileSystem Bytes := FileSystem.empty.save (txt "/d/f") (txt "abcdefgh")

/-- The request travels in two pieces, and the connection ends behind two bytes of the segment. -/
def brokenTransfer : List TransferAct :=
  [.ask 20, .serve 7 fun _ => 0, .ask 500, .serve 500 fun _ => 0, .answer ⟨false, [.took 500], [.took 2], false⟩,
    .fetch 80 .ok, .hangUp]

theorem blank_mybuffInit : mybuffInit.Blank := fun _ hx => absurd hx List.not_mem_nil

theorem begins_wanting : ∃ s0, Begins .sample (.ok 0) 0 Sm.wanting wantedTask s0 := by
  obtain ⟨store, hnext⟩ : ∃ store, nextTask .sample Sm.wanting.store = some (wantedTask, store) := ⟨_, rfl⟩
  have hpath : wantedTask.PathFits .sample := by
    show (getLocaldir .sample [] (txt "/d/f")).length ≤ 255
    decide +kernel
  have hone : checkTaskOne .sample (.ok 0) Sm.wanting =
      .ok (some (askedFor .sample (.ok 0) 0 wantedTask { Sm.wanting with store := store })) := by
    unfold checkTaskOne
    rw [hnext, show (ConnectIo.ok 0).fd = some 0 from rfl]
    dsimp only
    rw [(askFor_guarded ..).ok hpath]
    rfl
  exact ⟨_, onlyQueue_placed (by decide) (by decide), ⟨store, hnext⟩, rfl, hone, rfl, blank_mybuffInit, fun _ => rfl⟩

theorem transfer_sound_broken : ∃ s0, DstClient.checkTaskOne .sample (.ok 0) Sm.wanting = .ok (some s0) ∧
    (run (transferStep .sample servedFiles 0) (.start s0 (.fresh 8 (fun _ => 0) mybuffInit mybuffInit))
      brokenTransfer).Sound 0 s0 (requested .sample (.ok 0) Sm.wanting wantedTask) (some (txt "cdef"))
      (.hangUp ∈ brokenTransfer) := by
  have hseg : (requested .sample (.ok 0) Sm.wanting wantedTask).segment servedFiles = some (txt "cdef") := by
    decide +kernel
  obtain ⟨s0, hb⟩ := begins_wanting
  refine ⟨s0, hb.one, hseg ▸ transfer_sound hb ?_ ?_ 8 _ (fun _ => rfl) _ _ blank_mybuffInit _ ?_⟩
  · refine ⟨?_, ?_, by decide +kernel, by decide, by decide⟩
    · show (txt "/d/f").length ≤ 254 ∧ ∀ b ∈ txt "/d/f", b ≠ 0 ∧ b ≠ 13
      decide +kernel
    · show ([] : Bytes).length ≤ 35 ∧ ∀ b ∈ ([] : Bytes), b ≠ 0 ∧ b ≠ 13
      simp
  · intro bytes h
    obtain rfl := Option.some.inj (hseg.symm.trans h)
    decide
  · simp [brokenTransfer, TransferAct.Full, RecvIo.ok]

end VfsOss
