import VfsOss.Sm.RoundTrip
import VfsOss.CLib.Proofs.DecimalProofs
import VfsOss.Sm.Proofs.StaleProofs

/-!
# Proofs: the header of an upload comes back as it was sent

All lines but that of the host name are read as they were written. The line of the host name is cut at 63
bytes, and with it the end of the header.
-/

namespace VfsOss

open CLib

variable {base : TaskBase} {sub : TaskSub} {h : HttpHeader} {v w : Bytes} {n : Int}

/-! ## The lines -/

/-- The header before the line of the host name. -/
def headLines (base : TaskBase) (sub : TaskSub) : Bytes :=
  txt "POST /us_oss HTTP/1.1\r\n" ++
  (txt "filename: " ++ base.filename ++ txt "\r\n") ++
  sbuf (txt "type: " ++ fmtInt base.type.toNat ++ txt "\r\n") ++
  sbuf (txt "datalen: " ++ fmtInt base.fsize ++ txt "\r\n") ++
  sbuf (txt "Content-Length: " ++ fmtInt (toInt64 (sub.end_ - sub.start + 1)) ++ txt "\r\n") ++
  sbuf (txt "start: " ++ fmtInt sub.start ++ txt "\r\n") ++
  sbuf (txt "end: " ++ fmtInt sub.end_ ++ txt "\r\n") ++
  sbuf (txt "filemd5: " ++ base.filemd5 ++ txt "\r\n") ++
  sbuf (txt "filectime: " ++ fmtInt base.fileCtime ++ txt "\r\n") ++
  sbuf (txt "idx: " ++ fmtInt sub.idx ++ txt "\r\n") ++
  sbuf (txt "count: " ++ fmtInt sub.count ++ txt "\r\n")

/-- What the line of the host name holds behind its name. -/
def lastLine (base : TaskBase) : Bytes := (base.hostname ++ (crlf ++ crlf)).take 53

theorem createHeader_eq (base : TaskBase) (sub : TaskSub) :
    UcClient.createHeader base sub = headLines base sub ++ (txt "hostname: " ++ lastLine base) := by
  have hline : sbuf (txt "hostname: " ++ base.hostname ++ txt "\r\n\r\n") =
      txt "hostname: " ++ lastLine base := by
    show List.take 63 _ = _
    rw [List.append_assoc, List.take_append, List.take_of_length_le (by decide)]
    rfl
  exact congrArg (headLines base sub ++ ·) hline

/-- A line that is short enough is not cut. -/
theorem sbuf_line (name v : Bytes) (hlen : name.length + v.length < 62) :
    sbuf (name ++ v ++ txt "\r\n") = name ++ (v ++ crlf) := by
  rw [sbuf, snprintf_of_le, List.append_assoc]
  · rfl
  · rw [List.length_append, List.length_append, show (txt "\r\n").length = 2 from rfl]
    omega

theorem toInt64_bounds (n : Int) : -2 ^ 63 ≤ toInt64 n ∧ toInt64 n < 2 ^ 63 := by
  unfold toInt64
  rw [Int.bmod_def]
  split <;> omega

/-- No line of what can be sent is cut. -/
theorem headLines_lines (hs : Sendable base sub) : headLines base sub =
    txt "POST /us_oss HTTP/1.1\r\n" ++
    (txt "filename: " ++ (base.filename ++ crlf)) ++
    (txt "type: " ++ (fmtInt base.type.toNat ++ crlf)) ++
    (txt "datalen: " ++ (fmtInt base.fsize ++ crlf)) ++
    (txt "Content-Length: " ++ (fmtInt (toInt64 (sub.end_ - sub.start + 1)) ++ crlf)) ++
    (txt "start: " ++ (fmtInt sub.start ++ crlf)) ++
    (txt "end: " ++ (fmtInt sub.end_ ++ crlf)) ++
    (txt "filemd5: " ++ (base.filemd5 ++ crlf)) ++
    (txt "filectime: " ++ (fmtInt base.fileCtime ++ crlf)) ++
    (txt "idx: " ++ (fmtInt sub.idx ++ crlf)) ++
    (txt "count: " ++ (fmtInt sub.count ++ crlf)) := by
  have htype : (fmtInt base.type.toNat).length ≤ 11 :=
    fmtInt_int_length (by omega) (by have := base.type.toNat_lt; omega)
  have hbounds := toInt64_bounds (sub.end_ - sub.start + 1)
  have hlen := fmtInt_long_length hbounds.1 hbounds.2
  have h1 := fmtInt_long_length hs.fsize.1 hs.fsize.2
  have h2 := fmtInt_long_length hs.start.1 hs.start.2
  have h3 := fmtInt_long_length hs.end_.1 hs.end_.2
  have h4 := fmtInt_long_length hs.fileCtime.1 hs.fileCtime.2
  have h5 := fmtInt_int_length hs.idx.1 hs.idx.2
  have h6 := fmtInt_int_length hs.count.1 hs.count.2
  have h7 := hs.filemd5.1
  rw [headLines, sbuf_line (txt "type: ") _ (by show 6 + _ < 62; omega),
    sbuf_line (txt "datalen: ") _ (by show 9 + _ < 62; omega),
    sbuf_line (txt "Content-Length: ") _ (by show 16 + _ < 62; omega),
    sbuf_line (txt "start: ") _ (by show 7 + _ < 62; omega),
    sbuf_line (txt "end: ") _ (by show 5 + _ < 62; omega),
    sbuf_line (txt "filemd5: ") _ (by show 9 + _ < 62; omega),
    sbuf_line (txt "filectime: ") _ (by show 11 + _ < 62; omega),
    sbuf_line (txt "idx: ") _ (by show 5 + _ < 62; omega),
    sbuf_line (txt "count: ") _ (by show 7 + _ < 62; omega), List.append_assoc (txt "filename: ")]
  rfl

/-! ## Reading them -/

theorem Carries.line {items values : List Bytes} {value rest : Bytes} (gap item : Bytes)
    (first : strstr (gap ++ item) item = some gap.length)
    (line : strstr (value ++ crlf) crlf = some value.length) (hc : Carries items values rest) :
    Carries (item :: items) (value :: values) (gap ++ (item ++ (value ++ (crlf ++ rest)))) := by
  have h := Carries.cons gap item value first line hc
  simpa only [List.append_assoc] using h

/-- The next line is the one that is looked for. -/
theorem Carries.next {items values : List Bytes} {value rest : Bytes} (item : Bytes)
    (line : strstr (value ++ crlf) crlf = some value.length) (hc : Carries items values rest) :
    Carries (item :: items) (value :: values) (item ++ (value ++ (crlf ++ rest))) := by
  have h := Carries.line [] item (by simpa using strstr_here []) line hc
  rwa [List.nil_append] at h

theorem line_of_not_mem (hv : (13 : UInt8) ∉ v) : strstr (v ++ crlf) crlf = some v.length :=
  crlf_not_mem_at (r := []) hv

theorem line_fmtInt (n : Int) : strstr (fmtInt n ++ crlf) crlf = some (fmtInt n).length :=
  line_of_not_mem (not_mem_fmtInt (by decide) (by decide))

/-- The last line of a text that holds an end of line. -/
theorem carries_last {k : Nat} (hk : strstr w crlf = some k) :
    Carries [txt "hostname: "] [w.take k] (txt "hostname: " ++ w) := by
  have hsplit := strstr_split hk
  have hle := strstr_le hk
  have hlen : (w.take k).length = k := by
    rw [List.length_take]
    omega
  have hline : strstr (w.take k ++ crlf) crlf = some (w.take k).length := by
    rw [hlen]
    rw [hsplit] at hk
    refine strstr_of_append hk ?_
    rw [List.length_append, hlen]
  have hc := Carries.next (txt "hostname: ") hline (.nil (w.drop (k + crlf.length)))
  rwa [← List.append_assoc (w.take k), ← hsplit] at hc

/-- A name is found behind a text without its first letter. -/
theorem first_of_not_mem {gap : Bytes} (c : UInt8) (name : Bytes) (hg : c ∉ gap) :
    strstr (gap ++ c :: name) (c :: name) = some gap.length := by
  have hf : strstr (gap ++ c :: (name ++ [])) (c :: name) = some gap.length := strstr_at hg
  rwa [List.append_nil] at hf

/-- The line that the parser skips before `start`. -/
theorem first_start (n : Int) : strstr (txt "Content-Length: " ++ (fmtInt n ++ crlf) ++ txt "start: ")
    (txt "start: ") = some (txt "Content-Length: " ++ (fmtInt n ++ crlf)).length := by
  refine first_of_not_mem 115 (txt "tart: ") fun hm => ?_
  rcases List.mem_append.mp hm with hm | hm
  · exact absurd hm (by decide)
  · rcases List.mem_append.mp hm with hm | hm
    · exact not_mem_fmtInt (by decide) (by decide) hm
    · exact absurd hm (by decide)

/-- The line that it skips before `idx`, whose name has the same first letter in it. -/
theorem first_idx (n : Int) : strstr (txt "filectime: " ++ (fmtInt n ++ crlf) ++ txt "idx: ")
    (txt "idx: ") = some (txt "filectime: " ++ (fmtInt n ++ crlf)).length := by
  have hdigits : strstr (fmtInt n ++ crlf ++ txt "idx: ") (txt "idx: ") = some (fmtInt n ++ crlf).length := by
    refine first_of_not_mem 105 (txt "dx: ") fun hm => ?_
    rcases List.mem_append.mp hm with hm | hm
    · exact not_mem_fmtInt (by decide) (by decide) hm
    · exact absurd hm (by decide)
  rw [List.append_assoc, strstr_skip_apart (by decide), hdigits]
  exact congrArg some List.length_append.symm

theorem IsMd5.not_mem (hv : IsMd5 v) {b : UInt8} (hb : b ∉ txt "0123456789abcdefABCDEF") : b ∉ v :=
  fun hm => hb (hv.2 b hm)

/-- What can be sent carries its fields, with the first line behind the name of the last one. -/
theorem carries_headLines (hs : Sendable base sub) {k : Nat} (hk : strstr w crlf = some k) :
    Carries (SmClient.fields.map Field.item)
      [base.filename, fmtInt base.type.toNat, fmtInt base.fsize, fmtInt sub.start, fmtInt sub.end_,
        base.filemd5, fmtInt sub.idx, fmtInt sub.count, w.take k]
      (headLines base sub ++ (txt "hostname: " ++ w)) := by
  have hcount := Carries.next (txt "count: ") (line_fmtInt sub.count) (carries_last hk)
  have hidx := Carries.line _ _ (first_idx base.fileCtime) (line_fmtInt sub.idx) hcount
  have hmd5 := Carries.next (txt "filemd5: ") (line_of_not_mem (hs.filemd5.not_mem (by decide))) hidx
  have hend := Carries.next (txt "end: ") (line_fmtInt sub.end_) hmd5
  have hstart := Carries.line _ _ (first_start (toInt64 (sub.end_ - sub.start + 1)))
    (line_fmtInt sub.start) hend
  have hdatalen := Carries.next (txt "datalen: ") (line_fmtInt base.fsize) hstart
  have htype := Carries.next (txt "type: ") (line_fmtInt base.type.toNat) hdatalen
  have hname := Carries.line (txt "POST /us_oss HTTP/1.1\r\n") (txt "filename: ") (by decide)
    (line_of_not_mem fun hm => (hs.filename.2 _ hm).2.1 rfl) htype
  have hfields : SmClient.fields.map Field.item = [txt "filename: ", txt "type: ", txt "datalen: ",
    txt "start: ", txt "end: ", txt "filemd5: ", txt "idx: ", txt "count: ", txt "hostname: "] := rfl
  rw [headLines_lines hs, hfields]
  simp only [List.append_assoc] at hname ⊢
  exact hname

theorem ofInt_toNat (b : UInt8) : UInt8.ofInt b.toNat = b := by
  have hb : ((b.toNat : Int) % 2 ^ 8).toNat = b.toNat := by
    have := b.toNat_lt
    omega
  show UInt8.ofNat ((b.toNat : Int) % 2 ^ 8).toNat = b
  rw [hb, UInt8.ofNat_toNat]

/-- The fields come back, the file name as far as its buffer holds it and as host name what stands behind
its name on the last line. -/
theorem parse_headLines (hs : Sendable base sub) {k : Nat} (hk : strstr w crlf = some k) (h : HttpHeader) :
    (SmClient.parseHeader h (headLines base sub ++ (txt "hostname: " ++ w))).1 = true ∧
    (SmClient.parseHeader h (headLines base sub ++ (txt "hostname: " ++ w))).2.1 =
      { h.carrying base sub with
        filename := snprintf 255 base.filename
        hostname := snprintf 128 (w.take k) } := by
  obtain ⟨r, hr⟩ := parseFields_carried (carries_headLines hs hk) h
  have htype : atoi (fmtInt base.type.toNat) = base.type.toNat :=
    atoi_fmtInt (by omega) (by have := base.type.toNat_lt; omega)
  have hmd5 : snprintf 36 base.filemd5 = base.filemd5 := snprintf_of_le (by have := hs.filemd5.1; omega)
  rw [SmClient.parseHeader, hr]
  refine ⟨rfl, ?_⟩
  show storeAll SmClient.fields _ h = _
  simp only [SmClient.fields, storeAll, fieldFilename, fieldType, fieldDatalen, fieldStart, fieldEnd,
    fieldFilemd5, fieldIdx, fieldCount, fieldHostname, HttpHeader.carrying, htype, hmd5, ofInt_toNat,
    atol_fmtInt hs.fsize.1 hs.fsize.2, atol_fmtInt hs.start.1 hs.start.2, atol_fmtInt hs.end_.1 hs.end_.2]
  rw [atol_fmtInt (by have := hs.idx; omega) (by have := hs.idx; omega),
    atol_fmtInt (by have := hs.count; omega) (by have := hs.count; omega),
    toInt32_of_range hs.idx.1 hs.idx.2, toInt32_of_range hs.count.1 hs.count.2]

/-! ## The end of the header -/

/-- A text that starts with no end of line. -/
def StartsLine (r : Bytes) : Prop := ∃ c t, r = c :: t ∧ c ≠ 13

/-- Lines before a line: the double end of line is looked for behind them. -/
def SkipsLines (p : Bytes) : Prop := ∀ r, StartsLine r →
  strstr (p ++ r) (crlf ++ crlf) = (strstr r (crlf ++ crlf)).map (p.length + ·)

theorem StartsLine.append {q : Bytes} (hq : StartsLine q) (r : Bytes) : StartsLine (q ++ r) := by
  obtain ⟨c, t, rfl, hc⟩ := hq
  exact ⟨c, t ++ r, rfl, hc⟩

theorem SkipsLines.line (name v : Bytes) (hn : (13 : UInt8) ∉ name) (hv : (13 : UInt8) ∉ v) :
    SkipsLines (name ++ (v ++ crlf)) := by
  rintro r ⟨c, t, rfl, hc⟩
  have hline : (13 : UInt8) ∉ name ++ v := fun hm => (List.mem_append.mp hm).elim hn hv
  have hs := strstr_skip_line (r := t) hline hc
  simpa only [List.append_assoc] using hs

theorem SkipsLines.append {p q : Bytes} (hp : SkipsLines p) (hq : SkipsLines q) (hs : StartsLine q) :
    SkipsLines (p ++ q) := by
  intro r hr
  rw [List.append_assoc, hp _ (hs.append r), hq r hr, Option.map_map]
  congr 1
  funext k
  show p.length + (q.length + k) = (p ++ q).length + k
  rw [List.length_append]
  omega

theorem headLines_skips (hs : Sendable base sub) : SkipsLines (headLines base sub) := by
  have hnum : ∀ n, (13 : UInt8) ∉ fmtInt n := fun n => not_mem_fmtInt (by decide) (by decide)
  have hname : (13 : UInt8) ∉ base.filename := fun hm => (hs.filename.2 _ hm).2.1 rfl
  have hmd5 : (13 : UInt8) ∉ base.filemd5 := hs.filemd5.not_mem (by decide)
  have hpost : SkipsLines (txt "POST /us_oss HTTP/1.1\r\n") :=
    SkipsLines.line (txt "POST /us_oss HTTP/1.1") [] (by decide) List.not_mem_nil
  rw [headLines_lines hs]
  refine ((((((((((hpost.append (.line _ _ (by decide) hname) ?_).append
    (.line _ _ (by decide) (hnum _)) ?_).append (.line _ _ (by decide) (hnum _)) ?_).append
    (.line _ _ (by decide) (hnum _)) ?_).append (.line _ _ (by decide) (hnum _)) ?_).append
    (.line _ _ (by decide) (hnum _)) ?_).append (.line _ _ (by decide) hmd5) ?_).append
    (.line _ _ (by decide) (hnum _)) ?_).append (.line _ _ (by decide) (hnum _)) ?_).append
    (.line _ _ (by decide) (hnum _)) ?_)
  all_goals exact ⟨_, _, rfl, by decide⟩

theorem not_mem_line {b : UInt8} {p name v : Bytes} (hp : b ∉ p) (hn : b ∉ name) (hv : b ∉ v)
    (hb : b ∉ crlf) : b ∉ p ++ (name ++ (v ++ crlf)) := by
  simp only [List.mem_append, not_or]
  exact ⟨hp, hn, hv, hb⟩

theorem zero_not_mem_headLines (hs : Sendable base sub) : (0 : UInt8) ∉ headLines base sub := by
  have hnum : ∀ n, (0 : UInt8) ∉ fmtInt n := fun n => not_mem_fmtInt (by decide) (by decide)
  have hname : (0 : UInt8) ∉ base.filename := fun hm => (hs.filename.2 _ hm).1 rfl
  have hmd5 : (0 : UInt8) ∉ base.filemd5 := hs.filemd5.not_mem (by decide)
  have hb : (0 : UInt8) ∉ crlf := by decide
  rw [headLines_lines hs]
  refine not_mem_line (not_mem_line (not_mem_line (not_mem_line (not_mem_line (not_mem_line
    (not_mem_line (not_mem_line (not_mem_line (not_mem_line ?_ ?_ hname hb) ?_ (hnum _) hb)
    ?_ (hnum _) hb) ?_ (hnum _) hb) ?_ (hnum _) hb) ?_ (hnum _) hb) ?_ hmd5 hb)
    ?_ (hnum _) hb) ?_ (hnum _) hb) ?_ (hnum _) hb
  all_goals decide

/-- The double end of line behind a line. -/
theorem strstr_blank_line (hv : ¬ crlf <:+: v) (r : Bytes) :
    strstr (v ++ (crlf ++ (crlf ++ r))) (crlf ++ crlf) = some v.length := by
  refine strstr_eq_some ?_ (fun j hj hp => ?_) (by simp only [List.length_append]; omega)
  · rw [List.drop_left, ← List.append_assoc crlf crlf]
    exact List.prefix_append _ _
  · exact strstr_first (strstr_line hv (crlf ++ r)) hj ((List.prefix_append crlf crlf).trans hp)

/-- The text that is parsed, whatever follows the header. -/
theorem cstr_header (hs : Sendable base sub) (tail : Bytes) :
    cstr (UcClient.createHeader base sub ++ tail) =
      headLines base sub ++ (txt "hostname: " ++ (lastLine base ++ cstr tail)) := by
  have hlast : (0 : UInt8) ∉ lastLine base := by
    intro hm
    rcases List.mem_append.mp (List.mem_of_mem_take hm) with hm | hm
    · exact hs.hostname.2 hm
    · exact absurd hm (by decide)
  have hzero : (0 : UInt8) ∉ headLines base sub ++ (txt "hostname: " ++ lastLine base) := by
    simp only [List.mem_append, not_or]
    exact ⟨zero_not_mem_headLines hs, by decide, hlast⟩
  rw [createHeader_eq, cstr_append_of_not_mem hzero]
  simp only [List.append_assoc]

theorem lastLine_whole (hlen : base.hostname.length ≤ 49) :
    lastLine base = base.hostname ++ (crlf ++ crlf) := by
  refine List.take_of_length_le ?_
  rw [List.length_append, show (crlf ++ crlf).length = 4 from rfl]
  omega

/-- Where the line of the host name fits the header ends behind it. -/
theorem headerEnd_of_fits (hs : Sendable base sub) (hfit : FitsLines base) (tail : Bytes) :
    SmClient.headerEnd (UcClient.createHeader base sub ++ tail) =
      some (UcClient.createHeader base sub).length := by
  have hlast := lastLine_whole hfit.1
  have hname : strstr (txt "hostname: " ++ (base.hostname ++ (crlf ++ (crlf ++ cstr tail)))) (crlf ++ crlf) =
      (strstr (base.hostname ++ (crlf ++ (crlf ++ cstr tail))) (crlf ++ crlf)).map
        ((txt "hostname: ").length + ·) :=
    strstr_skip (show (13 : UInt8) ∉ txt "hostname: " by decide)
  rw [SmClient.headerEnd, cstr_header hs, createHeader_eq, hlast]
  simp only [List.append_assoc]
  rw [headLines_skips hs (txt "hostname: " ++ (base.hostname ++ (crlf ++ (crlf ++ cstr tail))))
    ⟨_, _, rfl, by decide⟩, hname, strstr_blank_line hfit.2.1]
  simp only [Option.map_some, List.length_append, Nat.add_assoc]
  rfl

/-- A header whose end is found ends with the line of the host name, and that line with the end. -/
theorem lastLine_ends (hs : Sendable base sub) {tail : Bytes} (htail : cstr tail = [])
    (hend : SmClient.headerEnd (UcClient.createHeader base sub ++ tail) =
      some (UcClient.createHeader base sub).length) : crlf ++ crlf <:+ lastLine base := by
  have hlong : (crlf ++ crlf).length ≤ (lastLine base).length := by
    show 4 ≤ (List.take 53 (base.hostname ++ (crlf ++ crlf))).length
    rw [List.length_take, List.length_append, show (crlf ++ crlf).length = 4 from rfl]
    omega
  rw [SmClient.headerEnd, cstr_header hs, htail, List.append_nil, ← createHeader_eq] at hend
  obtain ⟨e, he, hlen⟩ := Option.map_eq_some_iff.mp hend
  have hsuffix : crlf ++ crlf <:+ UcClient.createHeader base sub := by
    have hp := strstr_spec he
    rw [hp.eq_of_length (by rw [List.length_drop, ← hlen, show (crlf ++ crlf).length = 4 from rfl]; omega)]
    exact List.drop_suffix _ _
  rw [createHeader_eq, ← List.append_assoc] at hsuffix
  exact List.suffix_of_suffix_length_le hsuffix (List.suffix_append _ _) hlong

/-! ## The round trip -/

/-- What `check_req` has stored when it has found the end of the header. -/
theorem checkReq_carries (cfg : Cfg) (io : RecvIo) {fd k : Nat} {peer : Peer} {s : Sm}
    (hs : Sendable base sub) (hk : strstr w crlf = some k) (hu : (s.acon fd).user = some peer)
    (htext : cstr (s.acon fd).recvBuff.data = headLines base sub ++ (txt "hostname: " ++ w))
    (hlive : (s.acon fd).recvBuff.live ≠ [])
    (hend : (SmClient.headerEnd (s.acon fd).recvBuff.data).isSome) :
    (SmClient.parseHeader peer.header (cstr (s.acon fd).recvBuff.data)).1 = true ∧
    ∃ p, ((checkReq Mybuff.data cfg io fd peer s).2.acon fd).user = some p ∧
      p.header = { peer.header.carrying base sub with
        filename := snprintf 255 base.filename
        hostname := snprintf 128 (w.take k) } := by
  obtain ⟨hok, hparsed⟩ := parse_headLines hs hk peer.header
  obtain ⟨p, hp, hheader⟩ := checkReq_header cfg io peer hu hlive
  rw [SmClient.headerEnd, Option.isSome_map] at hend
  rw [if_pos hend, htext, hparsed] at hheader
  rw [htext]
  exact ⟨hok, p, hp, hheader⟩

theorem createHeader_ne_nil (base : TaskBase) (sub : TaskSub) : UcClient.createHeader base sub ≠ [] := by
  rw [createHeader_eq]
  exact List.append_ne_nil_of_right_ne_nil _ (List.cons_ne_nil _ _)

/-- A block whose header comes back fits. -/
theorem fits_of_roundTrips (hs : Sendable base sub) (hrt : RoundTrips base sub) : FitsLines base := by
  let peer : Peer := ⟨.zero, none, 0, .connected, none⟩
  let s := Sm.reused peer (UcClient.createHeader base sub) []
  have hlive : (s.acon 0).recvBuff.live = UcClient.createHeader base sub ++ [] := by
    rw [reused_live, List.append_nil]
  obtain ⟨hend, -, p, hu, hheader⟩ := hrt .sample .ok 0 peer s [] [0] rfl hlive rfl
  have hdata : (s.acon 0).recvBuff.data = UcClient.createHeader base sub ++ [0] := by
    show UcClient.createHeader base sub ++ [] ++ [0] = _
    rw [List.append_nil]
  -- the last line still has its end
  rw [hdata] at hend
  obtain ⟨t, ht⟩ := lastLine_ends hs rfl hend
  have hlen : (lastLine base).length = t.length + 4 := by rw [← ht, List.length_append]; rfl
  have hcut : (lastLine base).length = min 53 (base.hostname.length + 4) := by
    rw [lastLine, List.length_take, List.length_append]
    rfl
  have hat : crlf <+: (lastLine base).drop t.length := by
    rw [← ht, List.drop_left]
    exact List.prefix_append _ _
  obtain ⟨k, hk, hkt⟩ : ∃ k, strstr (lastLine base) crlf = some k ∧ k ≤ t.length := by
    cases hk : strstr (lastLine base) crlf with
    | none => exact absurd hat (strstr_none hk)
    | some k => exact ⟨k, rfl, Nat.le_of_not_lt fun hlt => strstr_first hk hlt hat⟩
  have htext : cstr (s.acon 0).recvBuff.data = headLines base sub ++ (txt "hostname: " ++ lastLine base) := by
    rw [hdata, cstr_header hs, show cstr [0] = [] from rfl, List.append_nil]
  obtain ⟨-, p', hu', hheader'⟩ := checkReq_carries .sample .ok hs hk
    (show (s.acon 0).user = some peer from rfl) htext
    (by rw [hlive, List.append_nil]; exact createHeader_ne_nil base sub) (by rw [hdata, hend]; rfl)
  rw [hu] at hu'
  obtain rfl := Option.some.inj hu'
  have hfilename : base.filename = snprintf 255 base.filename :=
    congrArg HttpHeader.filename (hheader.symm.trans hheader')
  have hhostname : base.hostname = snprintf 128 ((lastLine base).take k) :=
    congrArg HttpHeader.hostname (hheader.symm.trans hheader')
  have hfile : base.filename.length ≤ 254 := by
    rw [hfilename, snprintf, List.length_take]
    omega
  have hhost : base.hostname.length ≤ k := by
    rw [hhostname, snprintf, List.length_take, List.length_take]
    omega
  refine ⟨by omega, fun hin => ?_, hfile⟩
  obtain ⟨a, b, hab⟩ := hin
  have ha : a.length < k := by
    rw [← hab, List.length_append, List.length_append, show crlf.length = 2 from rfl] at hhost
    omega
  have hwhole : lastLine base = a ++ (crlf ++ (b ++ (crlf ++ crlf))) := by
    rw [lastLine_whole (by omega), ← hab]
    simp only [List.append_assoc]
  refine strstr_first hk ha ?_
  rw [hwhole, List.drop_left]
  exact List.prefix_append _ _

/-- A block that fits comes back. -/
theorem roundTrips_of_fits (hs : Sendable base sub) (hfit : FitsLines base) : RoundTrips base sub := by
  intro cfg io fd peer s body stale hu hlive hdata
  have hend : SmClient.headerEnd (s.acon fd).recvBuff.data = some (UcClient.createHeader base sub).length := by
    rw [hdata, List.append_assoc, headerEnd_of_fits hs hfit]
  have hlast := lastLine_whole hfit.1
  have htext : cstr (s.acon fd).recvBuff.data = headLines base sub ++ (txt "hostname: " ++
      (base.hostname ++ (crlf ++ (crlf ++ cstr (body ++ stale))))) := by
    rw [hdata, List.append_assoc, cstr_header hs, hlast]
    simp only [List.append_assoc]
  have hne : (s.acon fd).recvBuff.live ≠ [] := by
    rw [hlive]
    exact List.append_ne_nil_of_left_ne_nil (createHeader_ne_nil base sub) _
  obtain ⟨hok, p, hp, hheader⟩ := checkReq_carries cfg io hs (strstr_line hfit.2.1 _) hu htext
    hne (by rw [hend]; rfl)
  refine ⟨hend, hok, p, hp, ?_⟩
  have hfile : snprintf 255 base.filename = base.filename :=
    snprintf_of_le (by have := hfit.2.2; omega)
  have hhost : snprintf 128 base.hostname = base.hostname :=
    snprintf_of_le (by have := hfit.1; omega)
  rw [hheader, List.take_left, hfile, hhost]
  rfl

/-- A file of three bytes. -/
def shortFile : TaskBase :=
  { TaskBase.zero with
    filename := txt "/data/a"
    hostname := txt "web1"
    filemd5 := List.replicate 32 48
    fsize := 3 }

/-- Its only block. -/
def shortBlock : TaskSub := ⟨0, 0, 2, 1, 1⟩

theorem sendable_shortFile : Sendable shortFile shortBlock := by
  refine ⟨⟨by decide, by decide +kernel⟩, ⟨by decide, by decide⟩, by decide +kernel, ?_, ?_, ?_, ?_, ?_, ?_⟩
  all_goals simp [shortFile, shortBlock, TaskBase.zero]

theorem fits_shortFile : FitsLines shortFile :=
  ⟨by decide, fun hin => absurd (hin.subset List.mem_cons_self) (by decide), by decide⟩

/-- **The header of a block comes back** whatever follows it and whatever the state of the connection is,
exactly if the file name has at most 254 bytes and the host name is one line of at most 49. -/
theorem header_round_trip_iff (hs : Sendable base sub) : RoundTrips base sub ↔ FitsLines base :=
  ⟨fits_of_roundTrips hs, roundTrips_of_fits hs⟩

theorem header_round_trip_short : RoundTrips shortFile shortBlock :=
  (header_round_trip_iff sendable_shortFile).mpr fits_shortFile

/-- A host name of 50 bytes: the header has no end. -/
theorem long_hostname_not_recovered :
    let base := { TaskBase.zero with
      filename := txt "/data/a"
      hostname := List.replicate 50 97
      filemd5 := List.replicate 32 48 }
    Sendable base .zero ∧ ¬ RoundTrips base .zero := by
  intro base
  have hs : Sendable base .zero := by
    refine ⟨⟨by decide, by decide +kernel⟩, ⟨by decide, by decide⟩, by decide +kernel, ?_, ?_, ?_, ?_, ?_, ?_⟩
    all_goals simp [base, TaskBase.zero, TaskSub.zero]
  refine ⟨hs, fun hrt => ?_⟩
  have hlen : (50 : Nat) ≤ 49 := (fits_of_roundTrips hs hrt).1
  omega

end VfsOss
