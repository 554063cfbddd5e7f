import VfsOss.Sm.Stale
import VfsOss.Net.Proofs.MybuffProofs
import VfsOss.Sm.Proofs.DescriptorProofs

/-!
# Proofs: when the parser looks at live bytes only

Where the parse ends within the live bytes the stale ones do not matter. Otherwise they can complete it:
a header behind the live bytes has every field that is still looked for.
-/

namespace VfsOss

open CLib

variable {cfg : Cfg} {io : RecvIo} {fd : Nat} {peer : Peer} {s s' : Sm} {clen : Nat} {h : HttpHeader}
variable {live text : Bytes} {task : Tasklist} {fsize : Int}

/-! ## States that differ in stale bytes -/

namespace SameButStale

theorem setConn {c c' : Conn} (hs : SameButStale fd s s') (hopen : c'.isOpen = c.isOpen)
    (hsend : c'.sendBuff = c.sendBuff) (huser : c'.user = c.user)
    (hlive : c'.recvBuff.live = c.recvBuff.live) : SameButStale fd (s.setConn fd c) (s'.setConn fd c') := by
  have hc : (s.setConn fd c).acon fd = c := Function.update_self ..
  have hc' : (s'.setConn fd c').acon fd = c' := Function.update_self ..
  refine ⟨hs.store, hs.fs, hs.once, hs.log, fun fd' hne => ?_, ?_, ?_, ?_, ?_⟩
  · show Function.update s'.acon fd c' fd' = Function.update s.acon fd c fd'
    rw [Function.update_of_ne hne, Function.update_of_ne hne, hs.others fd' hne]
  all_goals rw [hc, hc']
  · exact hopen
  · exact hsend
  · exact huser
  · exact hlive

theorem setPeer (hs : SameButStale fd s s') (p : Peer) :
    SameButStale fd (s.setPeer fd p) (s'.setPeer fd p) :=
  hs.setConn hs.isOpen hs.sendBuff rfl hs.live

/-- Texts stored over the buffers. -/
theorem storeText {d d' : Bytes} (hs : SameButStale fd s s')
    (hlive : ((s'.acon fd).recvBuff.store d').live = ((s.acon fd).recvBuff.store d).live) :
    SameButStale fd (s.setConn fd { s.acon fd with recvBuff := (s.acon fd).recvBuff.store d })
      (s'.setConn fd { s'.acon fd with recvBuff := (s'.acon fd).recvBuff.store d' }) :=
  hs.setConn hs.isOpen hs.sendBuff hs.user hlive

theorem withStore (hs : SameButStale fd s s') (st : TaskStore) :
    SameButStale fd { s with store := st } { s' with store := st } :=
  { hs with store := rfl }

theorem withFs (hs : SameButStale fd s s') (fs : FileSystem Bytes) :
    SameButStale fd { s with fs := fs } { s' with fs := fs } :=
  { hs with fs := rfl }

theorem note (hs : SameButStale fd s s') (e : Event) : SameButStale fd (s.note e) (s'.note e) :=
  { hs with log := by rw [Sm.note, Sm.note, hs.log] }

end SameButStale

/-- The same result, and states that differ in stale bytes. -/
def SameResult (fd : Nat) (r r' : RecvRet × Sm) : Prop := r'.1 = r.1 ∧ SameButStale fd r.2 r'.2

theorem doPrepareRecvfile_same (cfg : Cfg) (io : RecvIo) (peer : Peer) (task : Tasklist) (fsize : Int)
    (hs : SameButStale fd s s') :
    SameResult fd (doPrepareRecvfile cfg io fd peer task fsize s)
      (doPrepareRecvfile cfg io fd peer task fsize s') := by
  unfold doPrepareRecvfile
  rw [hs.fs, hs.store]
  dsimp only
  split
  · exact ⟨rfl, hs.setPeer _⟩
  · generalize openTmpLocalfile4Write .. = r
    split
    · exact ⟨rfl, ((hs.withStore _).withFs _).setPeer _⟩
    · exact ⟨rfl, ((hs.withStore s.store).withFs _).setPeer _⟩

theorem startTask_same (hs : SameButStale fd s s') :
    SameResult fd (startTask cfg io fd peer clen s) (startTask cfg io fd peer clen s') := by
  unfold startTask
  rw [hs.store]
  dsimp only
  split
  · have hp := (hs.withStore (getTaskUnok cfg s.store peer.header.hostname).2.2).setPeer peer
    exact ⟨rfl, hp.setConn hp.isOpen (by rw [hp.sendBuff]) hp.user hp.live⟩
  · split
    · next task st _ =>
      generalize convertHttpheader2Task .. = conv
      obtain ⟨hret, hr⟩ := doPrepareRecvfile_same cfg io peer
        { task with base := conv.1, sub := conv.2, got := [] }
        (toInt64 (peer.header.end_ - peer.header.start + 1)) ((hs.withStore st).note (.post { task with base := conv.1, sub := conv.2, got := [] }))
      refine ⟨hret, hr.setConn hr.isOpen hr.sendBuff hr.user ?_⟩
      rw [live_mybuffSkipdata, live_mybuffSkipdata, hr.live]
    · exact ⟨rfl, (hs.withStore _).setPeer _⟩

/-! ## The text that is parsed -/

/-- A text stored over a block takes the place of the live bytes as far as these go. -/
theorem live_store_append (b : Mybuff) {r : Bytes} (hr : r.length = b.len) (e : Bytes) :
    (b.store (r ++ e)).live = r := by
  show ((r ++ e) ++ b.data.drop (r ++ e).length).take b.len = r
  rw [List.append_assoc, ← hr, List.take_left]

/-- What the parser does with two texts is the same, and so are the live bytes afterwards. -/
structure ParsedAlike (b b' : Mybuff) (text text' : Bytes) : Prop where
  found : strstr text' (crlf ++ crlf) = strstr text (crlf ++ crlf)
  ok : ∀ h, (SmClient.parseHeader h text').1 = (SmClient.parseHeader h text).1
  header : ∀ h, (SmClient.parseHeader h text').2.1 = (SmClient.parseHeader h text).2.1
  stored : ∀ h, (b'.store (SmClient.parseHeader h text').2.2).live =
    (b.store (SmClient.parseHeader h text).2.2).live

/-- A NUL among the live bytes ends the text before the stale ones. -/
theorem parsedAlike_of_zero {b b' : Mybuff} (hl : b'.live = b.live) (h0 : (0 : UInt8) ∈ b.live) :
    ParsedAlike b b' (cstr b.data) (cstr b'.data) := by
  have htext : cstr b'.data = cstr b.data := by
    rw [b.data_eq, b'.data_eq, hl, cstr_append_of_mem h0, cstr_append_of_mem h0]
  have hlen : (cstr b.data).length ≤ b.len := by
    rw [b.data_eq, cstr_append_of_mem h0, ← b.length_live]
    exact (List.takeWhile_prefix _).length_le
  have hlen' : b'.len = b.len := by rw [← b.length_live, ← b'.length_live, hl]
  refine ⟨by rw [htext], fun h => by rw [htext], fun h => by rw [htext], fun h => ?_⟩
  have hle : (SmClient.parseHeader h (cstr b.data)).2.2.length ≤ b.len := by
    rwa [SmClient.parseHeader, parseFields_length]
  rw [htext, b.live_store _ hle, b'.live_store _ (by rw [hlen']; exact hle), hl]

/-- A header that is complete among the live bytes is the same whatever follows. -/
theorem parsedAlike_of_complete {b b' : Mybuff} (hl : b'.live = b.live) (h0 : (0 : UInt8) ∉ b.live)
    (hend : (strstr b.live (crlf ++ crlf)).isSome)
    (hok : ∀ h, (SmClient.parseHeader h b.live).1 = true) :
    ParsedAlike b b' (cstr b.data) (cstr b'.data) := by
  obtain ⟨e, he⟩ := Option.isSome_iff_exists.mp hend
  have htext : ∀ {c : Mybuff}, c.live = b.live → cstr c.data = b.live ++ cstr (c.data.drop c.len) := by
    intro c hc
    conv_lhs => rw [c.data_eq, hc]
    exact cstr_append_of_not_mem h0 _
  have hparse : ∀ {c : Mybuff}, c.live = b.live → ∀ h, SmClient.parseHeader h (cstr c.data) =
      (true, (SmClient.parseHeader h b.live).2.1,
        (SmClient.parseHeader h b.live).2.2 ++ cstr (c.data.drop c.len)) := by
    intro c hc h
    rw [htext hc]
    exact parseFields_append _ (Prod.ext (hok h) rfl)
  have hlen : ∀ {c : Mybuff}, c.live = b.live → ∀ h,
      (SmClient.parseHeader h b.live).2.2.length = c.len := by
    intro c hc h
    rw [SmClient.parseHeader, parseFields_length, ← hc, c.length_live]
  refine ⟨?_, fun h => by rw [hparse rfl, hparse hl], fun h => by rw [hparse rfl, hparse hl], fun h => ?_⟩
  · rw [htext rfl, htext hl, strstr_append he, strstr_append he]
  · rw [hparse rfl, hparse hl, live_store_append _ (hlen rfl h), live_store_append _ (hlen hl h)]

theorem checkReq_nil (cfg : Cfg) (io : RecvIo) (peer : Peer) (hnil : (s.acon fd).recvBuff.live = []) :
    checkReq Mybuff.data cfg io fd peer s = (.again, s) := by
  unfold checkReq
  rw [(mybuffGetdata_eq_none _).mpr hnil]

/-- Where the texts are parsed alike, `check_req` does the same. -/
theorem checkReq_same (hs : SameButStale fd s s') (hne : (s.acon fd).recvBuff.live ≠ [])
    (hp : ParsedAlike (s.acon fd).recvBuff (s'.acon fd).recvBuff (cstr (s.acon fd).recvBuff.data)
      (cstr (s'.acon fd).recvBuff.data)) :
    SameResult fd (checkReq Mybuff.data cfg io fd peer s) (checkReq Mybuff.data cfg io fd peer s') := by
  unfold checkReq
  rw [mybuffGetdata_of_live _ hne, mybuffGetdata_of_live _ (by rw [hs.live]; exact hne)]
  dsimp only
  rw [hp.found]
  split
  · exact ⟨rfl, hs⟩
  · rw [hp.ok, hp.header]
    have hst := hs.storeText (hp.stored peer.header)
    split
    · exact ⟨rfl, hst.setPeer _⟩
    · exact startTask_same hst

/-! ## Stale bytes that complete a header -/

/-- An item with an end of line behind it is found there at the latest. -/
theorem parseItem_reaches (x item tail : Bytes) : ∃ value passed y,
    parseItem (x ++ (item ++ crlf) ++ tail) item = some (value, passed, y ++ tail) := by
  have hsrc : x ++ (item ++ crlf) ++ tail = (x ++ item) ++ (crlf ++ tail) := by
    simp only [List.append_assoc]
  have hat : item <+: (x ++ (item ++ crlf) ++ tail).drop x.length := by
    rw [List.append_assoc, List.drop_left, List.append_assoc]
    exact List.prefix_append _ _
  obtain ⟨p, hp, hpx⟩ : ∃ p, strstr (x ++ (item ++ crlf) ++ tail) item = some p ∧ p ≤ x.length := by
    rcases hs : strstr (x ++ (item ++ crlf) ++ tail) item with _ | p
    · exact absurd hat (strstr_none hs)
    · exact ⟨p, rfl, Nat.le_of_not_lt fun hlt => strstr_first hs hlt hat⟩
  have hline : crlf <+: ((x ++ (item ++ crlf) ++ tail).drop (p + item.length)).drop (x.length - p) := by
    rw [List.drop_drop, show p + item.length + (x.length - p) = (x ++ item).length by
      rw [List.length_append]; omega, hsrc, List.drop_left]
    exact List.prefix_append _ _
  obtain ⟨e, he, hex⟩ : ∃ e, strstr ((x ++ (item ++ crlf) ++ tail).drop (p + item.length)) crlf = some e ∧
      e ≤ x.length - p := by
    rcases hs : strstr ((x ++ (item ++ crlf) ++ tail).drop (p + item.length)) crlf with _ | e
    · exact absurd hline (strstr_none hs)
    · exact ⟨e, rfl, Nat.le_of_not_lt fun hlt => strstr_first hs hlt hline⟩
  have hrest : (x ++ (item ++ crlf) ++ tail).drop (p + item.length + e + 2) =
      (x ++ (item ++ crlf)).drop (p + item.length + e + 2) ++ tail := by
    refine List.drop_append_of_le_length ?_
    simp only [List.length_append, show crlf.length = 2 from rfl]
    omega
  have hi := parseItem_eq hp he
  rw [hrest] at hi
  exact ⟨_, _, _, hi⟩

/-- A line for each field is enough for the parser, whatever stands before. -/
theorem parseFields_reaches (fields : List Field) : ∀ (h : HttpHeader) (x : Bytes),
    (parseFields fields h (x ++ fields.flatMap fun field => field.item ++ crlf)).1 = true := by
  induction fields with
  | nil => exact fun _ _ => rfl
  | cons field fields ih =>
    intro h x
    obtain ⟨value, passed, y, hi⟩ :=
      parseItem_reaches x field.item (fields.flatMap fun field => field.item ++ crlf)
    rw [List.flatMap_cons, ← List.append_assoc, parseFields, hi]
    exact ih _ y

/-- A parse that fails has not stored the last field. -/
theorem parseFields_keeps {α : Type} (g : HttpHeader → α) (last : Field) : ∀ (fields : List Field)
    (h : HttpHeader) (src : Bytes), (∀ field ∈ fields, ∀ h v, g (field.store h v) = g h) →
    (parseFields (fields ++ [last]) h src).1 = false →
    g (parseFields (fields ++ [last]) h src).2.1 = g h := by
  intro fields
  induction fields with
  | nil =>
    intro h src _ hfail
    rw [List.nil_append, parseFields] at hfail ⊢
    split at hfail
    · rfl
    · exact absurd hfail (by simp [parseFields])
  | cons field fields ih =>
    intro h src hg hfail
    rw [List.cons_append, parseFields] at hfail ⊢
    split at hfail
    · rfl
    · next v passed rest _ =>
      show g (parseFields (fields ++ [last]) (field.store h v) rest).2.1 = g h
      rw [ih _ _ (fun f hf => hg f (List.mem_cons_of_mem _ hf)) hfail]
      exact hg field (List.mem_cons_self ..) h v

/-- A parse that fails leaves the host name. -/
theorem hostname_of_failed (hfail : (SmClient.parseHeader h text).1 = false) :
    (SmClient.parseHeader h text).2.1.hostname = h.hostname := by
  refine parseFields_keeps HttpHeader.hostname fieldHostname [fieldFilename, fieldType, fieldDatalen,
    fieldStart, fieldEnd, fieldFilemd5, fieldIdx, fieldCount] h text (fun field hf => ?_) hfail
  simp only [List.mem_cons, List.not_mem_nil, or_false] at hf
  rcases hf with rfl | rfl | rfl | rfl | rfl | rfl | rfl | rfl <;> exact fun _ _ => rfl

/-- A parse that succeeds stores a host name that does not depend on the header it starts from. -/
theorem hostname_of_parsed (hok : (SmClient.parseHeader .zero text).1 = true) :
    ∃ hostname, ∀ h, (SmClient.parseHeader h text).1 = true ∧
      (SmClient.parseHeader h text).2.1.hostname = hostname := by
  obtain ⟨values, hc, -⟩ := carries_of_parseFields hok
  obtain ⟨l, rfl⟩ := values_of_carries hc
  refine ⟨snprintf 128 l.hostname, fun h => ?_⟩
  obtain ⟨r, hr⟩ := parseFields_carried hc h
  rw [SmClient.parseHeader, hr]
  exact ⟨rfl, rfl⟩

/-! ## The two runs -/

theorem setPeer_user (s : Sm) (fd : Nat) (p : Peer) : ((s.setPeer fd p).acon fd).user = some p := by
  rw [setPeer_acon]

theorem doPrepareRecvfile_header (cfg : Cfg) (io : RecvIo) (fd : Nat) (peer : Peer) (task : Tasklist)
    (fsize : Int) (s : Sm) : ∃ p, ((doPrepareRecvfile cfg io fd peer task fsize s).2.acon fd).user = some p ∧
      p.header = peer.header := by
  unfold doPrepareRecvfile
  dsimp only
  split
  · exact ⟨_, setPeer_user .., rfl⟩
  · split
    · exact ⟨_, setPeer_user .., rfl⟩
    · exact ⟨_, setPeer_user .., rfl⟩

/-- The connection keeps the header that has been parsed. -/
theorem startTask_header (cfg : Cfg) (io : RecvIo) (fd : Nat) (peer : Peer) (clen : Nat) (s : Sm) :
    ∃ p, ((startTask cfg io fd peer clen s).2.acon fd).user = some p ∧ p.header = peer.header := by
  unfold startTask
  dsimp only
  split
  · exact ⟨peer, by rw [setConn_acon, setPeer_acon], rfl⟩
  · split
    · next task st _ =>
      obtain ⟨p, hu, hp⟩ := doPrepareRecvfile_header cfg io fd peer _ _ _
      exact ⟨p, by rw [setConn_acon]; exact hu, hp⟩
    · exact ⟨peer, setPeer_user .., rfl⟩

/-- The header a connection has after `check_req`: the one that was parsed, if the end of a header was
found. -/
theorem checkReq_header (cfg : Cfg) (io : RecvIo) (peer : Peer) (hu : (s.acon fd).user = some peer)
    (hlive : (s.acon fd).recvBuff.live ≠ []) :
    ∃ p, ((checkReq Mybuff.data cfg io fd peer s).2.acon fd).user = some p ∧
      p.header = if (strstr (cstr (s.acon fd).recvBuff.data) (crlf ++ crlf)).isSome then
        (SmClient.parseHeader peer.header (cstr (s.acon fd).recvBuff.data)).2.1 else peer.header := by
  unfold checkReq
  rw [mybuffGetdata_of_live _ hlive]
  dsimp only
  rcases strstr (cstr (s.acon fd).recvBuff.data) (crlf ++ crlf) with _ | e
  · exact ⟨peer, hu, rfl⟩
  · dsimp only
    split
    · exact ⟨_, setPeer_user .., rfl⟩
    · exact startTask_header ..

theorem reused_same (peer : Peer) (live stale stale' : Bytes) :
    SameButStale 0 (Sm.reused peer live stale) (Sm.reused peer live stale') := by
  have hs : SameButStale 0 (Sm.init 1) (Sm.init 1) := ⟨rfl, rfl, rfl, rfl, fun _ _ => rfl, rfl, rfl, rfl, rfl⟩
  refine hs.setConn rfl rfl rfl ?_
  show (live ++ stale' ++ [0]).take live.length = (live ++ stale ++ [0]).take live.length
  rw [List.append_assoc, List.append_assoc, List.take_left, List.take_left]

theorem reused_live (peer : Peer) (live stale : Bytes) :
    ((Sm.reused peer live stale).acon 0).recvBuff.live = live := by
  show (live ++ stale ++ [0]).take live.length = live
  rw [List.append_assoc, List.take_left]

theorem parseHeader_ok (h : HttpHeader) (hok : (SmClient.parseHeader h text).1 = true) :
    (SmClient.parseHeader .zero text).1 = true := by
  obtain ⟨values, hc, -⟩ := carries_of_parseFields hok
  obtain ⟨r, hr⟩ := parseFields_carried hc .zero
  rw [SmClient.parseHeader, hr]

/-- The stale bytes of another header complete any text. -/
theorem anotherHeader_completes (live : Bytes) :
    (strstr (live ++ anotherHeader) (crlf ++ crlf)).isSome ∧
      (SmClient.parseHeader .zero (live ++ anotherHeader)).1 = true := by
  have hsplit : live ++ anotherHeader =
      (live ++ (crlf ++ crlf)) ++ SmClient.fields.flatMap fun field => field.item ++ crlf := by
    simp only [anotherHeader, List.append_assoc]
  refine ⟨?_, ?_⟩
  · rcases hs : strstr (live ++ anotherHeader) (crlf ++ crlf) with _ | e
    · refine absurd ?_ (strstr_none (i := live.length) hs)
      rw [List.drop_left]
      exact List.prefix_append _ _
    · rfl
  · rw [hsplit]
    exact parseFields_reaches SmClient.fields .zero _

/-- **Only received bytes are parsed**, whatever the state of the connection and the process, exactly if
there are none, they hold a NUL, or they hold the end of a header and all its fields. -/
theorem only_live_parsed_iff (live : Bytes) : ParsesOnlyLive live ↔ HeaderWithin live := by
  constructor
  · intro h
    by_contra hnot
    unfold HeaderWithin at hnot
    push Not at hnot
    obtain ⟨hne, h0, hno⟩ := hnot
    obtain ⟨hfound, hok⟩ := anotherHeader_completes live
    obtain ⟨hostname, hhost⟩ := hostname_of_parsed hok
    -- a connection whose last header had another host name
    obtain ⟨old, hold⟩ : ∃ old, old ≠ hostname := by
      by_cases hn : hostname = []
      · exact ⟨[1], by simp [hn]⟩
      · exact ⟨[], Ne.symm hn⟩
    set peer : Peer := ⟨{ HttpHeader.zero with hostname := old }, none, 0, .connected, none⟩ with hpeer
    have hres := (h .sample .ok 0 peer (.reused peer live []) (.reused peer live anotherHeader) rfl
      (reused_live ..) (reused_same ..)).2.user
    have htext : cstr ((Sm.reused peer live []).acon 0).recvBuff.data = live := by
      show cstr (live ++ [] ++ [0]) = live
      rw [List.append_nil]
      exact cstr_append_zero h0 []
    have htext' : cstr ((Sm.reused peer live anotherHeader).acon 0).recvBuff.data = live ++ anotherHeader := by
      show cstr (live ++ anotherHeader ++ [0]) = live ++ anotherHeader
      refine cstr_append_zero (fun hm => ?_) []
      rcases List.mem_append.mp hm with hm | hm
      · exact h0 hm
      · exact absurd hm (by decide)
    obtain ⟨p, hp, hheader⟩ := checkReq_header .sample .ok peer
      (show ((Sm.reused peer live []).acon 0).user = some peer from rfl) (by rwa [reused_live])
    obtain ⟨p', hp', hheader'⟩ := checkReq_header .sample .ok peer
      (show ((Sm.reused peer live anotherHeader).acon 0).user = some peer from rfl) (by rwa [reused_live])
    rw [hp, hp'] at hres
    obtain rfl := Option.some.inj hres
    rw [htext', if_pos hfound] at hheader'
    rw [htext] at hheader
    have hnew : p'.header.hostname = hostname := by rw [hheader', (hhost _).2]
    refine hold ?_
    rw [← hnew, hheader]
    split
    · next hf =>
      have hfail : (SmClient.parseHeader peer.header live).1 = false :=
        Bool.eq_false_iff.mpr fun hp => hno hf (parseHeader_ok _ hp)
      exact (hostname_of_failed hfail).symm
    · rfl
  · intro h cfg io fd peer s s' hu hlive hs
    by_cases hnil : live = []
    · rw [checkReq_nil cfg io peer (hlive.trans hnil), checkReq_nil cfg io peer (hs.live.trans (hlive.trans hnil))]
      exact ⟨rfl, hs⟩
    · refine checkReq_same hs (by rwa [hlive]) ?_
      by_cases h0 : (0 : UInt8) ∈ live
      · exact parsedAlike_of_zero hs.live (by rwa [hlive])
      · obtain ⟨hend, hok⟩ := (h.resolve_left hnil).resolve_left h0
        obtain ⟨hostname, hall⟩ := hostname_of_parsed hok
        rw [← hlive] at h0 hend hall
        exact parsedAlike_of_complete hs.live h0 hend fun h => (hall h).1

/-- The first bytes of a request, on a connection whose buffer still holds a header: the record of another
file is started, although no header has been received. -/
theorem stale_header_parsed : ¬ ParsesOnlyLive (txt "POST /us_oss HTTP/1.1\r\nfilename: a") := by
  intro h
  let peer : Peer := ⟨.zero, none, 0, .connected, none⟩
  let live := txt "POST /us_oss HTTP/1.1\r\nfilename: a"
  have hret := (h .sample .ok 0 peer (.reused peer live []) (.reused peer live anotherHeader) rfl
    (reused_live ..) (reused_same ..)).1
  exact absurd hret (by decide +kernel)

end VfsOss
