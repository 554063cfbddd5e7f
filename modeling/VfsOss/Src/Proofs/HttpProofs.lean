import VfsOss.CLib.Proofs.DecimalProofs
import VfsOss.CLib.Proofs.TextProofs
import VfsOss.Net.Proofs.SendProofs
import VfsOss.Proto.Proofs.HeaderProofs
import VfsOss.Src.Http

/-!
# Proofs: a request is answered with its segment

Whatever the pieces in which a request arrives, the connection does nothing before its last byte and then has
the answer in its send buffer; from there the bytes of the answer go out in order.
-/

namespace VfsOss

open CLib

namespace SrcHttp

variable {n : Nat} {mem : Nat → UInt8} {files : FileSystem Bytes} {c : Conn} {text filename r chunk : Bytes}
variable {start end_ : Int} {io : SendIo}

/-! ## The answer -/

theorem say_pending (c : Conn) (h : c.out.buf.pending = []) (t : Bytes) :
    (c.say n mem t).out.buf.pending = t := by
  obtain ⟨hlive, hfile⟩ := List.append_eq_nil_iff.mp h
  show (mybuffSetdata n mem c.out.buf.data t).live ++ (c.out.buf.file.map FileSeg.bytes).getD [] = t
  rw [live_mybuffSetdata, hlive, hfile, List.nil_append, List.append_nil]

theorem attach_pending (c : Conn) (h : c.out.buf.pending = []) (t : Bytes) (f : FileSeg) :
    ((c.say n mem t).attach f).out.buf.pending = t ++ f.bytes := by
  obtain ⟨hlive, -⟩ := List.append_eq_nil_iff.mp h
  show (mybuffSetdata n mem c.out.buf.data t).live ++ f.bytes = t ++ f.bytes
  rw [live_mybuffSetdata, hlive, List.nil_append]

/-- What `do_req` leaves as it was. -/
structure Keeps (c c' : Conn) : Prop where
  recvBuff : c'.recvBuff = c.recvBuff
  sent : c'.out.sent = c.out.sent
  isOpen : c'.out.isOpen = c.out.isOpen
  badSeg : c'.badSeg = c.badSeg

/-- **The answer to a request** for a segment that is not too long. -/
theorem doReq_answers (n : Nat) (mem : Nat → UInt8) (hpend : c.out.buf.pending = [])
    (hname : c.header.filename = filename) (htype : c.header.type < 5) (hstart : c.header.start = start)
    (hend : c.header.end_ = end_) (hpos : 0 ≤ start) (hshort : ∀ bytes, segmentOf files filename start end_ =
      some bytes → bytes.length < 2 ^ 31) :
    (doReq n mem files c).out.buf.pending = answer files filename start end_ ∧ Keeps c (doReq n mem files c) := by
  subst hname hstart hend
  have hnot : ¬ c.header.type ≥ 5 := fun hge => absurd htype (UInt8.not_lt.mpr hge)
  unfold doReq
  rw [if_neg hnot]
  dsimp only
  cases hfile : files.content c.header.filename with
  | none =>
    have hseg : segmentOf files c.header.filename c.header.start c.header.end_ = none := by
      rw [segmentOf, hfile]
      rfl
    rw [answer, answerHead, hseg]
    dsimp only
    rw [if_pos hfile]
    refine ⟨?_, rfl, rfl, rfl, rfl⟩
    rw [say_pending c hpend, Option.getD_none, List.append_nil]
  | some content =>
    dsimp only
    split
    · next hrange =>
      have hseg : segmentOf files c.header.filename c.header.start c.header.end_ = none := by
        rw [segmentOf, hfile, Option.bind_some, if_pos hrange]
      rw [answer, answerHead, hseg]
      dsimp only
      rw [if_neg (by rw [hfile]; exact Option.some_ne_none _)]
      refine ⟨?_, rfl, rfl, rfl, rfl⟩
      rw [say_pending c hpend, Option.getD_none, List.append_nil]
    · next hrange =>
      have hseg : segmentOf files c.header.filename c.header.start c.header.end_ =
          some ((content.drop c.header.start.toNat).take (c.header.end_ - c.header.start + 1).toNat) := by
        rw [segmentOf, hfile, Option.bind_some, if_neg hrange]
      have hlt := hshort _ hseg
      rw [dif_neg (by omega)]
      generalize_proofs hle
      revert hle
      generalize hlast : (if c.header.end_ > (content.length : Int) - 1 then (content.length : Int) - 1
        else c.header.end_) = last
      intro hle
      have hbounds : c.header.start ≤ last ∧ last ≤ c.header.end_ ∧ last ≤ (content.length : Int) - 1 ∧
          (last = c.header.end_ ∨ last = (content.length : Int) - 1) := by
        rw [← hlast]
        split <;> omega
      rw [List.length_take, List.length_drop] at hlt
      have hbytes : (content.drop c.header.start.toNat).take (c.header.end_ - c.header.start + 1).toNat =
          (content.drop c.header.start.toNat).take (last - c.header.start + 1).toNat := by
        refine List.take_eq_take_iff.mpr ?_
        rw [List.length_drop]
        omega
      have hlen : (((content.drop c.header.start.toNat).take (last - c.header.start + 1).toNat).length : Int) =
          last - c.header.start + 1 := by
        rw [List.length_take, List.length_drop]
        omega
      rw [answer, answerHead, hseg, hbytes]
      dsimp only
      rw [hlen, toInt64_of_range (by omega) (by omega)]
      refine ⟨?_, rfl, rfl, rfl, rfl⟩
      exact attach_pending { c with header := { c.header with end_ := last } } hpend _ _

/-! ## The request -/

theorem RequestText.split (ht : RequestText text filename start end_) :
    ∃ p, strstr (text.drop 5) (crlf ++ crlf) = some p ∧ 5 + p + 4 = text.length :=
  Option.map_eq_some_iff.mp ht.ends

theorem checkRequest_short (ht : RequestText text filename start end_) (hr : r <+: text)
    (hlt : r.length < text.length) : checkRequest n mem files c r r.length = (0, c) := by
  unfold checkRequest
  by_cases hlong : r.length < 14
  · rw [if_pos hlong]
  have hget : r.take 5 = txt "GET /" := by
    obtain ⟨rest, rfl⟩ := hr
    rw [← ht.get, List.take_append_of_le_length (by omega)]
  have hnone : strstr (r.drop 5) (crlf ++ crlf) = none := by
    obtain ⟨p, hp, hlen⟩ := ht.split
    have hcut : r.drop 5 = (text.drop 5).take (r.length - 5) := by
      rw [List.prefix_iff_eq_take.mp hr, List.drop_take, List.length_take, Nat.min_eq_left hlt.le]
    rw [hcut]
    exact strstr_take_none hp (by show _ < p + 4; omega)
  rw [if_neg hlong, if_pos hget, hnone]

/-- The connection after the whole request: the answer waits to be sent. -/
theorem checkRequest_whole (n : Nat) (mem : Nat → UInt8) (c : Conn) (ht : RequestText text filename start end_)
    (hpend : c.out.buf.pending = []) (hpos : 0 ≤ start)
    (hshort : ∀ bytes, segmentOf files filename start end_ = some bytes → bytes.length < 2 ^ 31) :
    ∃ c', checkRequest n mem files c text text.length = ((text.length : Int), c') ∧
      c'.out.buf.pending = answer files filename start end_ ∧ c'.recvBuff.len = c.recvBuff.len ∧
      c'.out.sent = c.out.sent ∧ c'.out.isOpen = c.out.isOpen ∧ c'.badSeg = c.badSeg := by
  obtain ⟨p, hp, hlen⟩ := ht.split
  obtain ⟨q, hq, hurl⟩ := ht.url
  obtain ⟨h', rest, hparse, hname, htype, hstart, hend⟩ := ht.parsed c.header
  obtain ⟨hans, hkeeps⟩ := doReq_answers n mem (c := { c with header := h', recvBuff := c.recvBuff.store rest })
    hpend hname htype hstart hend hpos hshort
  refine ⟨_, ?_, hans, ?_, hkeeps.sent, hkeeps.isOpen, hkeeps.badSeg⟩
  · unfold checkRequest
    rw [if_neg (by have := ht.long; omega), if_pos ht.get, hp, hq]
    dsimp only
    rw [if_pos hurl, hparse, ← hlen]
    rfl
  · rw [hkeeps.recvBuff]
    rfl

/-! ## The connection -/

/-- The connection behind the bytes `r` of a request: it waits for the rest of them, or has begun to send its
answer. -/
inductive Serving (text answer : Bytes) : Bytes → Conn → Prop
  | waiting {r : Bytes} {c : Conn} (short : r.length < text.length) (live : c.recvBuff.live = r)
      (clear : c.recvBuff.Clear) (isOpen : c.out.isOpen = true) (sent : c.out.sent = [])
      (pending : c.out.buf.pending = []) (badSeg : c.badSeg = false) : Serving text answer r c
  | answered {c : Conn} (live : c.recvBuff.live = []) (stream : c.out.sent ++ c.out.buf.pending = answer)
      (badSeg : c.badSeg = false) : Serving text answer text c

theorem svcRecv_nil (h : c.recvBuff.live = []) : svcRecv n mem files c = (.addEpollin, c) := by
  unfold svcRecv
  rw [(mybuffGetdata_eq_none _).mpr h]

/-- Before the request is complete nothing is done. -/
theorem svcRecv_short (ht : RequestText text filename start end_) (hlive : c.recvBuff.live = r)
    (hclear : c.recvBuff.Clear) (hr : r <+: text) (hlt : r.length < text.length) :
    svcRecv n mem files c = (.addEpollin, c) := by
  by_cases hnil : r = []
  · exact svcRecv_nil (hlive.trans hnil)
  have hlen : c.recvBuff.len = r.length := by rw [← Mybuff.length_live, hlive]
  have hcstr : cstr r = r := by
    have h := cstr_append_of_not_mem (fun hm => ht.noNul (hr.subset hm)) []
    rwa [List.append_nil, show cstr [] = [] from rfl, List.append_nil] at h
  unfold svcRecv
  rw [mybuffGetdata_of_live _ (by rwa [hlive])]
  dsimp only
  rw [hclear.cstr_data, hlive, hcstr, hlen, checkRequest_short ht hr hlt]
  rfl

theorem svcRecv_whole (n : Nat) (mem : Nat → UInt8) (ht : RequestText text filename start end_)
    (hlive : c.recvBuff.live = text) (hclear : c.recvBuff.Clear) (hpend : c.out.buf.pending = []) (hpos : 0 ≤ start)
    (hshort : ∀ bytes, segmentOf files filename start end_ = some bytes → bytes.length < 2 ^ 31) :
    ∃ c', svcRecv n mem files c = (.send, c') ∧
      c'.out.buf.pending = answer files filename start end_ ∧ c'.recvBuff.live = [] ∧
      c'.out.sent = c.out.sent ∧ c'.badSeg = c.badSeg := by
  have hlen : c.recvBuff.len = text.length := by rw [← Mybuff.length_live, hlive]
  have hne : text ≠ [] := by
    rintro rfl
    exact absurd ht.long (by decide)
  have hcstr : cstr text = text := by
    have h := cstr_append_of_not_mem ht.noNul []
    rwa [List.append_nil, show cstr [] = [] from rfl, List.append_nil] at h
  obtain ⟨c', hcheck, hans, hbuff, hsent, -, hbad⟩ :=
    checkRequest_whole n mem c ht hpend hpos hshort
  have hlong := ht.long
  unfold svcRecv
  rw [mybuffGetdata_of_live _ (by rwa [hlive])]
  dsimp only
  rw [hclear.cstr_data, hlive, hcstr, hlen, hcheck]
  dsimp only
  rw [if_neg (by omega), if_neg (by omega)]
  refine ⟨_, rfl, hans, ?_, hsent, hbad⟩
  show (mybuffSkipdata c'.recvBuff _).live = []
  rw [live_mybuffSkipdata]
  refine List.drop_eq_nil_of_le ?_
  rw [Mybuff.length_live, hbuff, hlen]
  exact le_refl _

/-- **A call of `do_recv`.** -/
theorem Serving.recv (h : Serving text (answer files filename start end_) r c) (n : Nat) (mem : Nat → UInt8)
    (hmem : ∀ i, mem i = 0) (ht : RequestText text filename start end_) (hpos : 0 ≤ start)
    (hshort : ∀ bytes, segmentOf files filename start end_ = some bytes → bytes.length < 2 ^ 31)
    (hr : r ++ chunk <+: text) :
    Serving text (answer files filename start end_) (r ++ chunk) (doRecv n mem files chunk c) := by
  cases h with
  | waiting short live clear isOpen sent pending badSeg =>
    have hclear : (mybuffSetdata n mem c.recvBuff chunk).Clear := clear.setdata hmem chunk
    have hlive : (mybuffSetdata n mem c.recvBuff chunk).live = r ++ chunk := by rw [live_mybuffSetdata, live]
    unfold doRecv
    rw [if_pos isOpen]
    dsimp only
    rcases Nat.lt_or_ge (r ++ chunk).length text.length with hlt | hge
    · rw [svcRecv_short ht hlive hclear hr hlt]
      exact .waiting hlt hlive hclear isOpen sent pending badSeg
    · obtain rfl : r ++ chunk = text := hr.eq_of_length_le hge
      obtain ⟨c', hsvc, hans, hnil, hsent, hbad⟩ := svcRecv_whole n mem
        (c := { c with recvBuff := mybuffSetdata n mem c.recvBuff chunk }) ht hlive hclear pending hpos hshort
      rw [hsvc]
      refine .answered hnil ?_ (hbad.trans badSeg)
      show c'.out.sent ++ c'.out.buf.pending = _
      rw [hsent, sent, hans, List.nil_append]
  | answered live stream badSeg =>
    obtain rfl : chunk = [] := by
      have hle := hr.length_le
      rw [List.length_append] at hle
      exact List.length_eq_zero_iff.mp (by omega)
    rw [List.append_nil]
    unfold doRecv
    split
    · rw [svcRecv_nil (by rw [live_mybuffSetdata, live, List.nil_append])]
      refine .answered ?_ stream badSeg
      show (mybuffSetdata n mem c.recvBuff []).live = []
      rw [live_mybuffSetdata, live, List.nil_append]
    · exact .answered live stream badSeg

/-- A call of `do_send` with nothing to send. -/
theorem doSendBuff_idle (io : SendIo) {s : Sender} (h : s.buf.pending = []) (hopen : s.isOpen = true)
    (hclose : io.svcClose = false) :
    (doSendBuff s io).buf = s.buf ∧ (doSendBuff s io).sent = s.sent ∧ (doSendBuff s io).isOpen = true := by
  obtain ⟨hlive, hfile⟩ := List.append_eq_nil_iff.mp h
  have hdata : sendData io.send s = (.addEpollin, s) := by
    unfold sendData
    rw [(mybuffGetdata_eq_none _).mpr hlive]
  have hseg : sendFile io.sendfile s = (.addEpollin, s) := by
    unfold sendFile
    rw [mybuffGetfile_eq_none.mpr hfile]
  unfold doSendBuff
  split
  · exact ⟨rfl, rfl, hopen⟩
  · rw [hdata]
    dsimp only
    rw [if_pos rfl, hseg]
    refine ⟨rfl, rfl, ?_⟩
    show (!io.svcClose) = true
    rw [hclose]
    rfl

/-- **A call of `do_send`.** -/
theorem Serving.send {ans : Bytes} (h : Serving text ans r c) (io : SendIo) : Serving text ans r (doSend io c) := by
  cases h with
  | waiting short live clear isOpen sent pending badSeg =>
    obtain ⟨hbuf, hsent, hopen⟩ := doSendBuff_idle { io with svcClose := c.badSeg } pending isOpen badSeg
    refine .waiting short live clear hopen (hsent.trans sent) ?_ badSeg
    show (doSendBuff c.out _).buf.pending = []
    rw [hbuf, pending]
  | answered live stream badSeg =>
    obtain ⟨hmoved, -⟩ := doSendBuff_moved c.out { io with svcClose := c.badSeg }
    exact .answered live (hmoved.trans stream) badSeg

/-! ## What has been sent stays sent -/

theorem doReq_sent (n : Nat) (mem : Nat → UInt8) (files : FileSystem Bytes) (c : Conn) :
    (doReq n mem files c).out.sent = c.out.sent := by
  unfold doReq
  dsimp only
  split
  · rfl
  · split
    · rfl
    · split
      · rfl
      · split
        · rfl
        · rfl

theorem checkRequest_sent (n : Nat) (mem : Nat → UInt8) (files : FileSystem Bytes) (c : Conn) (data : Bytes)
    (len : Nat) : (checkRequest n mem files c data len).2.out.sent = c.out.sent := by
  unfold checkRequest
  split
  · rfl
  · split
    · split
      · rfl
      · split
        · rfl
        · split
          · dsimp only
            split
            · exact doReq_sent ..
            · rfl
          · rfl
    · rfl

/-- `do_recv` sends nothing. -/
theorem doRecv_sent (n : Nat) (mem : Nat → UInt8) (files : FileSystem Bytes) (chunk : Bytes) (c : Conn) :
    (doRecv n mem files chunk c).out.sent = c.out.sent := by
  have hsvc : ∀ c : Conn, (svcRecv n mem files c).2.out.sent = c.out.sent := by
    intro c
    unfold svcRecv
    split
    · rfl
    · next data d _ =>
      have hsent := checkRequest_sent n mem files c (cstr data) d
      dsimp only
      split
      · exact hsent
      · split
        · exact hsent
        · exact hsent
  unfold doRecv
  split
  · have hsent := hsvc { c with recvBuff := mybuffSetdata n mem c.recvBuff chunk }
    dsimp only
    split
    · exact hsent
    · exact hsent
  · rfl

end SrcHttp

end VfsOss
