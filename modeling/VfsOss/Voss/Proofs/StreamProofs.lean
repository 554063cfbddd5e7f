import VfsOss.CLib.Proofs.DecimalProofs
import VfsOss.Net.Proofs.MybuffProofs
import VfsOss.Voss.Stream

/-!
# Proofs: the stream of a peer

However a stream is cut, every message in it is decoded, as long as an `int` holds the number of bytes
in the buffer.
-/

namespace VfsOss

open CLib

variable {cfg : VossCfg} {ip written : Bytes} {s s' : Voss} {done todo ms : List VossMsg}
  {got left rest : Bytes}

/-! ## Messages -/

/-- What the program makes of a message's head. -/
def VossMsg.head (m : VossMsg) : HeadInfo := ⟨headsize + m.body.length, m.cmdid, m.seq % 2 ^ 32⟩

theorem VossMsg.length_bytes (m : VossMsg) : m.bytes.length = headsize + m.body.length := by
  rw [VossMsg.bytes, List.length_append, length_createVossHead]

theorem VossMsg.drop_bytes (m : VossMsg) (t : Bytes) : (m.bytes ++ t).drop headsize = m.body ++ t := rfl

theorem VossMsg.length_body (m : VossMsg) : headsize + m.body.length < 2 ^ 32 := by
  cases m with
  | submit seq body le => exact Nat.lt_of_le_of_lt (Nat.add_le_add_left le 12) (by decide)
  | heartbeat seq stat => show 12 + 1 < 2 ^ 32; decide
  | rsp seq body le => exact Nat.lt_of_le_of_lt (Nat.add_le_add_left le 12) (by decide)

theorem VossMsg.parseMsg_bytes (m : VossMsg) (t : Bytes) {inlen : Int} (hin : headsize ≤ inlen) :
    parseMsg (m.bytes ++ t) inlen = some m.head := by
  have hcmd : m.cmdid < 2 ^ 32 := by
    cases m with
    | submit seq body le => show 2 < 2 ^ 32; decide
    | heartbeat seq stat => show 5 < 2 ^ 32; decide
    | rsp seq body le => show 0x80000008 < 2 ^ 32; decide
  rw [VossMsg.bytes, List.append_assoc]
  exact parseMsg_createVossHead m.length_body hcmd hin _

/-- Parsing looks at the head only. -/
theorem parseMsg_congr {d d' : Bytes} (h : d.take headsize = d'.take headsize) (inlen : Int) :
    parseMsg d inlen = parseMsg d' inlen := by
  have hread : ∀ k, k + 4 ≤ headsize → ofBe32 (d.drop k) = ofBe32 (d'.drop k) := by
    intro k hk
    have hsplit : ∀ e : Bytes, (e.drop k).take 4 = ((e.take headsize).drop k).take 4 := by
      intro e
      rw [List.drop_take, List.take_take, min_eq_left (by omega)]
    rw [ofBe32, ofBe32, hsplit d, hsplit d', h]
  unfold parseMsg
  rw [hread 4 (by decide), hread 8 (by decide)]
  have h0 := hread 0 (by decide)
  rw [List.drop_zero, List.drop_zero] at h0
  rw [h0]

@[simp] theorem stream_nil : stream [] = [] := rfl

theorem stream_cons (m : VossMsg) (ms : List VossMsg) : stream (m :: ms) = m.bytes ++ stream ms := rfl

theorem stream_append (ms ms' : List VossMsg) : stream (ms ++ ms') = stream ms ++ stream ms' := by
  rw [stream, List.map_append, List.flatten_append]
  rfl

/-! ## What has been written -/

/-- The messages `done` are done, and of the next body `got` has been written. -/
structure Recorded (cfg : VossCfg) (ip written : Bytes) (done : List VossMsg) (got : Bytes) (s : Voss) :
    Prop where
  addr : s.peer.ip = ip
  stat : ∃ records, s.cStat = some (written ++ records.flatten) ∧
    StatRecords cfg ip (done.filterMap VossMsg.statText) records
  files : s.submitted = (done.map VossMsg.submitted).flatten ++ got

theorem Recorded.congr (h : Recorded cfg ip written done got s) (hip : s'.peer.ip = s.peer.ip)
    (hstat : s'.cStat = s.cStat) (hfiles : s'.submitted = s.submitted) :
    Recorded cfg ip written done got s' :=
  ⟨hip.trans h.addr, by rw [hstat]; exact h.stat, hfiles.trans h.files⟩

/-- A body that is written is that of a message that is done. -/
theorem Recorded.submit {seq : Nat} {body : Bytes} {le : body.length ≤ 2 ^ 31 - 13}
    (h : Recorded cfg ip written done body s) :
    Recorded cfg ip written (done ++ [.submit seq body le]) [] s where
  addr := h.addr
  stat := by
    rw [List.filterMap_append, List.filterMap_cons_none rfl, List.filterMap_nil, List.append_nil]
    exact h.stat
  files := by
    rw [h.files, List.map_append, List.flatten_append, List.append_nil]
    simp [VossMsg.submitted]

/-- A body is being received: `left` has not been written yet. -/
structure InBody (cfg : VossCfg) (ip written : Bytes) (done : List VossMsg) (got left : Bytes) (s : Voss) :
    Prop where
  recorded : Recorded cfg ip written done got s
  stat : s.peer.sockStat = .syncfileing
  isOpen : s.peer.localInFd.isSome
  recvlen : s.peer.recvlen = got.length
  datalen : s.peer.datalen = (got ++ left).length
  le : (got ++ left).length ≤ 2 ^ 31 - 13

/-- No body is being received. -/
structure Idle (cfg : VossCfg) (ip written : Bytes) (done : List VossMsg) (s : Voss) : Prop where
  recorded : Recorded cfg ip written done [] s
  prepare : s.peer.sockStat ≠ .prepareSyncfile
  syncing : s.peer.sockStat ≠ .syncfileing

/-! ## The functions -/

/-- Closing a work file changes nothing but where it is. -/
theorem checkCloseLocal_spec (cfg : VossCfg) (s : Voss) :
    let s' := checkCloseLocal cfg s
    s'.peer.ip = s.peer.ip ∧ s'.cStat = s.cStat ∧ s'.submitted = s.submitted ∧
      s'.peer.recv = s.peer.recv ∧ s'.peer.sockStat = s.peer.sockStat := by
  unfold checkCloseLocal Voss.time
  dsimp only
  cases hfd : s.peer.localInFd with
  | none => exact ⟨rfl, rfl, rfl, rfl, rfl⟩
  | some p =>
    obtain ⟨fd, file⟩ := p
    dsimp only
    split
    · refine ⟨rfl, rfl, ?_, rfl, rfl⟩
      unfold Voss.submitted
      rw [hfd]
      dsimp only
      rw [List.map_append, List.flatten_append, List.append_nil]
      simp
    · exact ⟨rfl, rfl, rfl, rfl, rfl⟩

/-- A work file that is opened is empty. -/
theorem openLocal_spec (cfg : VossCfg) (s : Voss) :
    let s' := openLocal cfg s
    s'.peer.ip = s.peer.ip ∧ s'.cStat = s.cStat ∧ s'.submitted = s.submitted ∧
      s'.peer.recv = s.peer.recv ∧ s'.peer.localInFd.isSome := by
  unfold openLocal Voss.time
  dsimp only
  cases hfd : s.peer.localInFd with
  | some p =>
    dsimp only
    rw [hfd]
    exact ⟨rfl, rfl, rfl, rfl, rfl⟩
  | none =>
    refine ⟨rfl, rfl, ?_, rfl, rfl⟩
    unfold Voss.submitted
    rw [hfd]

theorem live_consume (n : Nat) (s : Voss) : (s.consume n).peer.recv.live = s.peer.recv.live.drop n :=
  live_mybuffSkipdata ..

/-- What happens behind a `write` of `n` bytes. -/
theorem subWritten_spec (cfg : VossCfg) (n : Nat) (s : Voss) :
    ∃ s', s'.peer.recv.live = s.peer.recv.live.drop n ∧ s'.peer.ip = s.peer.ip ∧ s'.cStat = s.cStat ∧
      s'.submitted = s.submitted ∧
      (s.peer.recvlen + n ≥ s.peer.datalen ∧ subWritten cfg n s = (.addEpollout, s') ∧
          s'.peer.sockStat = .idle ∨
        s.peer.recvlen + n < s.peer.datalen ∧ subWritten cfg n s = (.addEpollin, s') ∧
          s'.peer.sockStat = s.peer.sockStat ∧ s'.peer.localInFd = s.peer.localInFd ∧
          s'.peer.recvlen = s.peer.recvlen + n ∧ s'.peer.datalen = s.peer.datalen) := by
  generalize hs1 : ({ s with peer := { s.peer with
    recv := mybuffSkipdata s.peer.recv n, recvlen := s.peer.recvlen + n } } : Voss) = s1
  have heq : subWritten cfg n s = if s.peer.recvlen + n ≥ s.peer.datalen then
      (.addEpollout, checkCloseLocal cfg { s1 with peer := { s1.peer with sockStat := .idle } })
      else (.addEpollin, s1) := by
    unfold subWritten
    rw [if_neg (by omega), ← hs1]
    rfl
  have hrecv : s1.peer.recv.live = s.peer.recv.live.drop n := by
    rw [← hs1]
    exact live_mybuffSkipdata ..
  by_cases hall : s.peer.recvlen + n ≥ s.peer.datalen
  · rw [heq, if_pos hall]
    obtain ⟨hip, hstat, hfiles, hrecv', hsock⟩ :=
      checkCloseLocal_spec cfg { s1 with peer := { s1.peer with sockStat := .idle } }
    refine ⟨_, by rw [hrecv']; exact hrecv, ?_, ?_, ?_, Or.inl ⟨hall, rfl, hsock⟩⟩
    · rw [hip, ← hs1]
    · rw [hstat, ← hs1]
    · rw [hfiles, ← hs1]
      rfl
  · rw [heq, if_neg hall]
    refine ⟨s1, hrecv, ?_, ?_, ?_, Or.inr ⟨by omega, rfl, ?_, ?_, ?_, ?_⟩⟩
    all_goals
      rw [← hs1]
      first | done | rfl

/-- What `sub_recv` does while a body is being received, when `n` of the bytes there are belong to it. -/
theorem subRecv_spec (h : InBody cfg ip written done got left s) :
    let live := s.peer.recv.live
    let n := min live.length left.length
    ∃ s', s'.peer.recv.live = live.drop n ∧
      Recorded cfg ip written done (got ++ live.take n) s' ∧
      (live ≠ [] ∧ left.length ≤ live.length ∧ subRecv cfg s = (.addEpollout, s') ∧
          s'.peer.sockStat = .idle ∨
        (live = [] ∨ live.length < left.length) ∧ subRecv cfg s = (.addEpollin, s') ∧
          s'.peer.sockStat = .syncfileing ∧ s'.peer.localInFd.isSome ∧
          s'.peer.recvlen = got.length + n ∧ s'.peer.datalen = s.peer.datalen) := by
  intro live n
  have hlen : live.length = s.peer.recv.len := s.peer.recv.length_live
  unfold subRecv Voss.time
  dsimp only
  rw [if_pos (Or.inr h.stat)]
  by_cases hlive : live = []
  · -- nothing has arrived
    have hn : n = 0 := by
      show min live.length left.length = 0
      rw [hlive, List.length_nil, Nat.zero_min]
    rw [(mybuffGetdata_eq_none _).mpr hlive, hn]
    dsimp only
    refine ⟨{ s with ticks := s.ticks + 1, peer := { s.peer with hbtime := cfg.clock s.ticks } }, rfl, ?_,
      Or.inr ⟨Or.inl hlive, rfl, h.stat, h.isOpen, ?_, rfl⟩⟩
    · rw [List.take_zero, List.append_nil]
      exact h.recorded.congr rfl rfl rfl
    · exact h.recvlen.trans (by simp)
  obtain ⟨⟨fd, file⟩, hfd⟩ := Option.isSome_iff_exists.mp h.isOpen
  have hle := h.le
  have hdata := h.datalen
  rw [List.length_append] at hle hdata
  have hremain : (toInt32 (s.peer.datalen - s.peer.recvlen) % 2 ^ 64).toNat = left.length := by
    rw [hdata, h.recvlen, toInt32_of_range (by omega) (by omega)]
    omega
  rw [mybuffGetdata_of_live _ hlive, hfd]
  dsimp only
  rw [hremain]
  have hif : (if s.peer.recv.len ≤ left.length then s.peer.recv.len else left.length) = n := by
    show _ = min live.length left.length
    rw [hlen]
    split <;> omega
  have hn : n ≤ live.length ∧ n ≤ left.length := ⟨Nat.min_le_left .., Nat.min_le_right ..⟩
  have hint : toInt32 (n : Int) = n := toInt32_of_range (by omega) (by omega)
  have htake : s.peer.recv.data.take n = live.take n := by
    rw [s.peer.recv.data_eq, List.take_append_of_le_length hn.1]
  rw [hif, hint, htake]
  generalize hs1 : ({ s with ticks := s.ticks + 1, peer := { s.peer with
    hbtime := cfg.clock s.ticks
    localInFd := some (fd, { file with data := file.data ++ live.take n }) } } : Voss) = s1
  obtain ⟨s', hrecv, hip, hstat, hfiles, hcase⟩ := subWritten_spec cfg n s1
  have hfiles1 : s1.submitted = s.submitted ++ live.take n := by
    rw [← hs1, Voss.submitted, Voss.submitted, hfd]
    simp
  have hrec : Recorded cfg ip written done (got ++ live.take n) s' := by
    refine ⟨?_, ?_, ?_⟩
    · rw [hip, ← hs1]
      exact h.recorded.addr
    · rw [hstat, ← hs1]
      exact h.recorded.stat
    · rw [hfiles, hfiles1, h.recorded.files, List.append_assoc]
  have hrecvlen : (s1.peer.recvlen + (n : Int) ≥ s1.peer.datalen) ↔ left.length ≤ live.length := by
    rw [← hs1]
    show s.peer.recvlen + (n : Int) ≥ s.peer.datalen ↔ _
    rw [h.recvlen, hdata]
    show (got.length : Int) + (min live.length left.length : Nat) ≥ _ ↔ _
    omega
  refine ⟨s', by rw [hrecv, ← hs1], hrec, ?_⟩
  rcases hcase with ⟨hall, heq, hidle⟩ | ⟨hpart, heq, hsock, hopen, hlen', hdata'⟩
  · exact Or.inl ⟨hlive, hrecvlen.mp hall, heq, hidle⟩
  · refine Or.inr ⟨Or.inr ?_, heq, ?_, ?_, ?_, ?_⟩
    · by_contra hge
      exact absurd (hrecvlen.mpr (by omega)) (by omega)
    · rw [hsock, ← hs1]
      exact h.stat
    · rw [hopen, ← hs1]
      rfl
    · rw [hlen', ← hs1]
      exact congrArg (· + (n : Int)) h.recvlen
    · rw [hdata', ← hs1]

/-- More bytes of the body are still to come. -/
theorem subRecv_partial (h : InBody cfg ip written done got left s) {t : Bytes}
    (hleft : left = s.peer.recv.live ++ t) (ht : t ≠ [] ∨ s.peer.recv.live = []) :
    ∃ s', subRecv cfg s = (.addEpollin, s') ∧ InBody cfg ip written done (got ++ s.peer.recv.live) t s' ∧
      s'.peer.recv.live = [] := by
  obtain ⟨s', hlive, hrec, hcase⟩ := subRecv_spec h
  have hlen : left.length = s.peer.recv.live.length + t.length := by rw [hleft, List.length_append]
  rw [min_eq_left (by omega)] at hlive hrec hcase
  rw [List.take_length] at hrec
  rw [List.drop_length] at hlive
  rcases hcase with ⟨hne, hle, -⟩ | ⟨-, heq, hstat, hopen, hrecvlen, hdatalen⟩
  · rcases ht with ht | ht
    · have := List.length_pos_iff.mpr ht
      omega
    · exact absurd ht hne
  · have hall : got ++ left = got ++ s.peer.recv.live ++ t := by rw [hleft, List.append_assoc]
    refine ⟨s', heq, ⟨hrec, hstat, hopen, ?_, ?_, ?_⟩, hlive⟩
    · rw [hrecvlen, List.length_append, Nat.cast_add]
    · rw [hdatalen, h.datalen, hall]
    · rw [← hall]
      exact h.le

/-- The rest of the body is there. -/
theorem subRecv_whole (h : InBody cfg ip written done got left s) {t : Bytes}
    (hlive : s.peer.recv.live = left ++ t) (hne : s.peer.recv.live ≠ []) :
    ∃ s', subRecv cfg s = (.addEpollout, s') ∧ Recorded cfg ip written done (got ++ left) s' ∧
      s'.peer.sockStat = .idle ∧ s'.peer.recv.live = t := by
  obtain ⟨s', hlive', hrec, hcase⟩ := subRecv_spec h
  have hlen : s.peer.recv.live.length = left.length + t.length := by rw [hlive, List.length_append]
  rw [min_eq_right (by omega)] at hlive' hrec hcase
  rw [hlive, List.drop_left] at hlive'
  rw [hlive, List.take_left] at hrec
  rcases hcase with ⟨-, -, heq, hidle⟩ | ⟨hshort, -⟩
  · exact ⟨s', heq, hrec, hidle, hlive'⟩
  · rcases hshort with hnil | hshort
    · exact absurd hnil hne
    · omega

/-- The head of a `REQ_SUBMIT` has been seen: its body is received. -/
theorem processDataReq_spec (h : Idle cfg ip written done s) (seq : Nat) {body : Bytes}
    (le : body.length ≤ 2 ^ 31 - 13) :
    ∃ s1, processDataReq cfg (VossMsg.submit seq body le).head s = subRecv cfg s1 ∧
      InBody cfg ip written done [] body s1 ∧
      s1.peer.recv.live = s.peer.recv.live.drop headsize := by
  obtain ⟨hip, hstat, hfiles, hrecv, hopen⟩ := openLocal_spec cfg s
  have hlen : toInt32 (((VossMsg.submit seq body le).head.totallen : Int) - headsize) = body.length := by
    have htotal : (((VossMsg.submit seq body le).head.totallen : Int) - headsize) = body.length := by
      show ((headsize + body.length : Nat) : Int) - headsize = _
      omega
    rw [htotal, toInt32_of_range (by omega) (by omega)]
  unfold processDataReq
  dsimp only
  rw [hlen]
  refine ⟨_, rfl, ⟨h.recorded.congr hip hstat hfiles, rfl, hopen, rfl, rfl, le⟩, ?_⟩
  exact (live_consume ..).trans (by rw [hrecv])

/-- The head of a message is parsed as soon as it is there, when an `int` holds the number of bytes. -/
theorem parseMsg_recv {m : VossMsg} {t : Bytes} (hlive : s.peer.recv.live ++ rest = m.bytes ++ t)
    (hhead : headsize ≤ s.peer.recv.live.length) (hfits : s.peer.recv.live.length < 2 ^ 31) :
    parseMsg s.peer.recv.data (toInt32 s.peer.recv.len) = some m.head := by
  have hlen := s.peer.recv.length_live
  have htake : s.peer.recv.data.take headsize = (m.bytes ++ t).take headsize := by
    rw [s.peer.recv.data_eq, List.take_append_of_le_length hhead, ← hlive,
      List.take_append_of_le_length hhead]
  rw [toInt32_of_range (by omega) (by omega), parseMsg_congr htake]
  exact m.parseMsg_bytes t (by omega)

/-- A message is not a `REQ_AUTH`, and it is a `REQ_SUBMIT` or has something for the status file. -/
theorem VossMsg.cmdid_cases (m : VossMsg) :
    m.head.cmdid ≠ reqAuth ∧
    ((∃ seq body le, m = .submit seq body le) ∧ m.head.cmdid = reqSubmit ∨
      (m.head.cmdid = reqHeartbeat ∨ rspVfsCmd = m.head.cmdid ∨ reqAuth = m.head.cmdid) ∧
        ∃ text, m.statText = some text ∧ m.submitted = []) := by
  have hsubmit : reqSubmit ≠ reqAuth := by decide
  have hheartbeat : reqHeartbeat ≠ reqAuth := by decide
  have hrsp : rspVfsCmd ≠ reqAuth := by decide
  cases m with
  | submit seq body le => exact ⟨hsubmit, Or.inl ⟨⟨seq, body, le, rfl⟩, rfl⟩⟩
  | heartbeat seq stat => exact ⟨hheartbeat, Or.inr ⟨Or.inl rfl, _, rfl, rfl⟩⟩
  | rsp seq body le => exact ⟨hrsp, Or.inr ⟨Or.inr (Or.inl rfl), _, rfl, rfl⟩⟩

/-- `check_req` with bytes in the buffer. -/
theorem vossCheckReq_eq (hnil : s.peer.recv.live ≠ []) {h : Option HeadInfo}
    (hparse : parseMsg s.peer.recv.data (toInt32 s.peer.recv.len) = h) :
    vossCheckReq cfg s = checkHead cfg s.peer.recv.data s.peer.recv.len s h := by
  unfold vossCheckReq
  rw [mybuffGetdata_of_live _ hnil]
  dsimp only
  rw [hparse]

/-- What `check_req` waits for: a head, and all of a message that is not a `REQ_SUBMIT`. -/
def Incomplete (live : Bytes) : List VossMsg → Prop
  | [] => True
  | .submit .. :: _ => live.length < headsize
  | m :: _ => live.length < m.bytes.length

/-- With its head there, an incomplete message is one that `check_req` waits for. -/
theorem Incomplete.lt {live : Bytes} {m : VossMsg} (h : Incomplete live (m :: todo))
    (hhead : ¬ live.length < headsize) : live.length < m.bytes.length := by
  cases m with
  | submit seq body le => exact absurd h hhead
  | heartbeat seq stat => exact h
  | rsp seq body le => exact h

theorem vossCheckReq_incomplete (hlive : s.peer.recv.live ++ rest = stream todo)
    (hfits : s.peer.recv.live.length < 2 ^ 31) (hin : Incomplete s.peer.recv.live todo) :
    vossCheckReq cfg s = some (.noData, s) := by
  have hlen := s.peer.recv.length_live
  by_cases hnil : s.peer.recv.live = []
  · rw [vossCheckReq, (mybuffGetdata_eq_none _).mpr hnil]
  by_cases hhead : s.peer.recv.live.length < headsize
  · have hparse : parseMsg s.peer.recv.data (toInt32 s.peer.recv.len) = none := by
      rw [parseMsg, if_pos (by rw [toInt32_of_range (by omega) (by omega)]; omega)]
    rw [vossCheckReq_eq hnil hparse, checkHead]
  cases todo with
  | nil =>
    rw [stream_nil, List.append_eq_nil_iff] at hlive
    exact absurd hlive.1 hnil
  | cons m todo =>
    rw [vossCheckReq_eq hnil (parseMsg_recv hlive (by omega) hfits), checkHead]
    rcases m.cmdid_cases.2 with ⟨⟨seq, body, le, rfl⟩, -⟩ | ⟨hcmd, -⟩
    · exact absurd hin hhead
    have hshort : s.peer.recv.len < m.head.totallen := by
      show _ < headsize + m.body.length
      rw [← hlen, ← m.length_bytes]
      exact hin.lt hhead
    rw [if_pos hcmd, if_pos hshort]

/-- A record that is written is that of a message that is done. -/
theorem Recorded.writeStat (h : Recorded cfg ip written done [] s) {m : VossMsg} {text : Bytes}
    (htext : m.statText = some text) (hsub : m.submitted = []) :
    Recorded cfg ip written (done ++ [m]) [] (writeStat cfg text s) := by
  obtain ⟨records, hstat, hrec⟩ := h.stat
  unfold VfsOss.writeStat Voss.time
  rw [hstat]
  dsimp only
  refine ⟨h.addr, ⟨records ++ [statRecord (getStrtime (cfg.localtime (cfg.clock s.ticks))) ip text], ?_, ?_⟩, ?_⟩
  · rw [h.addr, List.flatten_append, List.append_assoc]
    simp
  · rw [List.filterMap_append, List.filterMap_cons_some htext, List.filterMap_nil]
    exact List.rel_append hrec (List.Forall₂.cons ⟨_, rfl⟩ .nil)
  · rw [List.map_append, List.flatten_append, List.map_singleton, hsub]
    exact h.files.trans (by simp)

theorem writeStat_frame (cfg : VossCfg) (text : Bytes) (s : Voss) :
    (writeStat cfg text s).peer = s.peer := by
  unfold writeStat
  cases s.cStat with
  | none => rfl
  | some w => rfl

/-- What `check_req` does with a heartbeat or a response that is there. -/
theorem checkMsg_spec (h : Idle cfg ip written done s) {m : VossMsg} {data text t : Bytes}
    (hdata : data = m.bytes ++ t) (htext : m.statText = some text) (hsub : m.submitted = []) :
    ∃ s1, checkMsg cfg data m.head s = some s1 ∧ Idle cfg ip written (done ++ [m]) s1 ∧
      s1.peer.recv = s.peer.recv := by
  obtain ⟨records, hstat, -⟩ := h.recorded.stat
  have hdrop : data.drop headsize = m.body ++ t := by rw [hdata, m.drop_bytes]
  have hauth := m.cmdid_cases.1
  have hopen : s.cStat ≠ none := by
    rw [hstat]
    simp
  unfold checkMsg
  rw [if_neg hauth, if_neg hopen, hdrop]
  cases m with
  | submit seq body le => contradiction
  | heartbeat seq stat =>
    rw [if_pos (show (VossMsg.heartbeat seq stat).head.cmdid = reqHeartbeat from rfl)]
    obtain rfl := Option.some.inj htext
    generalize hs1 : ({ s with peer := { s.peer with serverStat := stat } } : Voss) = s1
    have hrec : Recorded cfg ip written done [] s1 := by
      rw [← hs1]
      exact h.recorded.congr rfl rfl rfl
    have hframe := writeStat_frame cfg (sServerStat.getD (stat.toNat % 5) []) s1
    refine ⟨_, congrArg some (congrArg (writeStat cfg _) hs1), ⟨hrec.writeStat rfl rfl, ?_, ?_⟩, ?_⟩
    · rw [hframe, ← hs1]
      exact h.prepare
    · rw [hframe, ← hs1]
      exact h.syncing
    · rw [hframe, ← hs1]
  | rsp seq body le =>
    have hcmd : (VossMsg.rsp seq body le).head.cmdid ≠ reqHeartbeat :=
      show rspVfsCmd ≠ reqHeartbeat by decide
    have hlong : ¬ (VossMsg.rsp seq body le).head.totallen < headsize :=
      show ¬ headsize + body.length < headsize by omega
    have hlen : (VossMsg.rsp seq body le).head.totallen - headsize = body.length :=
      Nat.add_sub_cancel_left ..
    rw [if_neg hcmd, if_neg hlong, hlen]
    obtain rfl := Option.some.inj htext
    have hbody : ((VossMsg.rsp seq body le).body ++ t).take body.length = body := List.take_left
    rw [hbody]
    have hframe := writeStat_frame cfg body s
    refine ⟨_, rfl, ⟨h.recorded.writeStat rfl rfl, ?_, ?_⟩, ?_⟩
    · rw [hframe]
      exact h.prepare
    · rw [hframe]
      exact h.syncing
    · rw [hframe]

theorem vossCheckReq_message (h : Idle cfg ip written done s) {m : VossMsg} {t text : Bytes}
    (hlive : s.peer.recv.live = m.bytes ++ t) (hfits : s.peer.recv.live.length < 2 ^ 31)
    (htext : m.statText = some text) (hsub : m.submitted = []) :
    ∃ s', vossCheckReq cfg s = some (.again, s') ∧ Idle cfg ip written (done ++ [m]) s' ∧
      s'.peer.recv.live = t := by
  have hlen := s.peer.recv.length_live
  have hbytes : s.peer.recv.live.length = m.bytes.length + t.length := by rw [hlive, List.length_append]
  have hnil : s.peer.recv.live ≠ [] := by
    intro hnil
    rw [hnil, List.length_nil, m.length_bytes, headsize] at hbytes
    omega
  have hdata : s.peer.recv.data = m.bytes ++ (t ++ s.peer.recv.data.drop s.peer.recv.len) := by
    rw [← List.append_assoc, ← hlive]
    exact s.peer.recv.data_eq
  obtain ⟨⟨seq, body, le, rfl⟩, -⟩ | ⟨hcmd, -⟩ := m.cmdid_cases.2
  · contradiction
  obtain ⟨s1, hs1, hidle, hrecv⟩ := checkMsg_spec h hdata htext hsub
  have hparse := parseMsg_recv (by rw [hlive, List.append_nil] : s.peer.recv.live ++ [] = m.bytes ++ t)
    (by rw [hbytes, m.length_bytes]; omega) hfits
  rw [vossCheckReq_eq hnil hparse, checkHead]
  have hlong : ¬ s.peer.recv.len < m.head.totallen := by
    show ¬ _ < headsize + m.body.length
    rw [← hlen, hbytes, m.length_bytes]
    omega
  rw [if_pos hcmd, if_neg hlong, hs1]
  refine ⟨_, rfl, ⟨hidle.recorded.congr rfl rfl rfl, hidle.prepare, hidle.syncing⟩, ?_⟩
  rw [live_consume, hrecv, hlive]
  have htotal : m.head.totallen = m.bytes.length := m.length_bytes.symm
  rw [htotal, List.drop_left]

/-- The head of a `REQ_SUBMIT` is there. -/
theorem vossCheckReq_submit {seq : Nat} {body t : Bytes} {le : body.length ≤ 2 ^ 31 - 13}
    (hlive : s.peer.recv.live ++ rest = (VossMsg.submit seq body le).bytes ++ t)
    (hhead : headsize ≤ s.peer.recv.live.length) (hfits : s.peer.recv.live.length < 2 ^ 31) :
    vossCheckReq cfg s = some (processDataReq cfg (VossMsg.submit seq body le).head s) := by
  have hnil : s.peer.recv.live ≠ [] := by
    intro hnil
    rw [hnil] at hhead
    exact absurd hhead (by decide)
  have h1 : ¬ (reqSubmit = reqHeartbeat ∨ rspVfsCmd = reqSubmit ∨ reqAuth = reqSubmit) := by decide
  have hcmd : (VossMsg.submit seq body le).head.cmdid = reqSubmit := rfl
  rw [vossCheckReq_eq hnil (parseMsg_recv hlive hhead hfits), checkHead, hcmd, if_neg h1, if_pos rfl]

/-! ## A call of `svc_recv` -/

/-- Where a call of `svc_recv` leaves off, when `rest` is still to come of the stream of `ms`. -/
inductive LeftOff (cfg : VossCfg) (ip written : Bytes) (ms : List VossMsg) (rest : Bytes) (s : Voss) :
    Prop where
  | idle (done todo : List VossMsg) (eq : ms = done ++ todo) (state : Idle cfg ip written done s)
      (live : s.peer.recv.live ++ rest = stream todo) (short : Incomplete s.peer.recv.live todo)
  | inBody (done todo : List VossMsg) (seq : Nat) (got left : Bytes)
      (le : (got ++ left).length ≤ 2 ^ 31 - 13) (eq : ms = done ++ .submit seq (got ++ left) le :: todo)
      (state : InBody cfg ip written done got left s) (live : s.peer.recv.live = [])
      (stream : rest = left ++ stream todo)

/-- What has arrived of the rest of a body is part of it, or all of it with more behind. -/
theorem split_body {live rest left after : Bytes} (h : live ++ rest = left ++ after) :
    (∃ t, left = live ++ t ∧ rest = t ++ after ∧ (t ≠ [] ∨ live = [])) ∨
      ∃ t, live = left ++ t ∧ t ++ rest = after ∧ live ≠ [] := by
  rcases List.append_eq_append_iff.mp h with ⟨t, hleft, hrest⟩ | ⟨t, hlive, hafter⟩
  · by_cases hnil : t = [] ∧ live ≠ []
    · obtain ⟨rfl, hne⟩ := hnil
      rw [List.append_nil] at hleft
      exact Or.inr ⟨[], by rw [hleft, List.append_nil], by rw [hrest]; rfl, hne⟩
    · exact Or.inl ⟨t, hleft, hrest, by tauto⟩
  · by_cases hnil : live = []
    · rw [hnil] at hlive
      obtain ⟨rfl, rfl⟩ := List.append_eq_nil_iff.mp hlive.symm
      exact Or.inl ⟨[], by rw [hnil]; rfl, by rw [hafter]; rfl, Or.inr hnil⟩
    · exact Or.inr ⟨t, hlive, hafter.symm, hnil⟩

theorem Incomplete.submit_iff {live : Bytes} {seq : Nat} {body : Bytes} {le : body.length ≤ 2 ^ 31 - 13} :
    Incomplete live (.submit seq body le :: todo) ↔ live.length < headsize := Iff.rfl

/-- A message that is not a `REQ_SUBMIT` is waited for until all of it is there. -/
theorem Incomplete.of_lt {live : Bytes} {m : VossMsg} {text : Bytes} (htext : m.statText = some text)
    (h : live.length < m.bytes.length) : Incomplete live (m :: todo) := by
  cases m with
  | submit seq body le => contradiction
  | heartbeat seq stat => exact h
  | rsp seq body le => exact h

/-- A body that is being received leaves the loop, or the loop goes on behind it. -/
theorem LeftOff.of_part {seq : Nat} {body t : Bytes} {le : body.length ≤ 2 ^ 31 - 13}
    (hbody : body = got ++ t) (h : InBody cfg ip written done got t s) (hlive : s.peer.recv.live = [])
    (hrest : rest = t ++ stream todo) :
    LeftOff cfg ip written (done ++ .submit seq body le :: todo) rest s := by
  subst hbody
  exact .inBody done todo seq got t le rfl h hlive hrest

/-- A body that is complete is that of a message that is done. -/
theorem Recorded.idle {seq : Nat} {body : Bytes} {le : body.length ≤ 2 ^ 31 - 13}
    (h : Recorded cfg ip written done body s) (hidle : s.peer.sockStat = .idle) :
    Idle cfg ip written (done ++ [.submit seq body le]) s :=
  ⟨h.submit, by rw [hidle]; simp, by rw [hidle]; simp⟩

theorem recvLoop_leftOff : ∀ (fuel : Nat) (s : Voss) (done todo : List VossMsg),
    Idle cfg ip written done s → s.peer.recv.live ++ rest = stream todo →
    s.peer.recv.live.length < fuel → s.peer.recv.live.length < 2 ^ 31 →
    ∃ s', recvLoop cfg fuel s = some (.addEpollin, s') ∧
      LeftOff cfg ip written (done ++ todo) rest s' := by
  intro fuel
  induction fuel with
  | zero => exact fun s done todo _ _ h => absurd h (Nat.not_lt_zero _)
  | succ fuel ih =>
    intro s done todo hidle hlive hfuel hfits
    rw [recvLoop]
    by_cases hin : Incomplete s.peer.recv.live todo
    · rw [vossCheckReq_incomplete hlive hfits hin]
      exact ⟨s, rfl, .idle done todo rfl hidle hlive hin⟩
    cases todo with
    | nil => exact absurd trivial hin
    | cons m todo =>
      rw [stream_cons] at hlive
      rcases m.cmdid_cases.2 with ⟨⟨seq, body, le, rfl⟩, -⟩ | ⟨-, text, htext, hsub⟩
      · -- the head of a body is there
        rw [Incomplete.submit_iff, Nat.not_lt] at hin
        rw [vossCheckReq_submit hlive hin hfits]
        obtain ⟨s1, hs1, hbody, hlive1⟩ := processDataReq_spec hidle seq le
        have hdrop : s1.peer.recv.live ++ rest = body ++ stream todo := by
          have h := congrArg (List.drop headsize) hlive
          rw [List.drop_append_of_le_length hin, VossMsg.drop_bytes] at h
          rw [hlive1]
          exact h
        have hlen1 : s1.peer.recv.live.length = s.peer.recv.live.length - headsize := by
          rw [hlive1, List.length_drop]
        rw [hs1]
        rcases split_body hdrop with ⟨t, hleft, hrest, ht⟩ | ⟨t, hall, hrest, hne⟩
        · obtain ⟨s', heq, hbody', hnil⟩ := subRecv_partial hbody hleft ht
          rw [heq]
          exact ⟨s', rfl, .of_part hleft hbody' hnil hrest⟩
        · obtain ⟨s', heq, hrec, hstat, hlive'⟩ := subRecv_whole hbody hall hne
          have hlen : t.length ≤ s1.peer.recv.live.length := by
            rw [hall, List.length_append]
            omega
          rw [heq, List.append_cons]
          rw [headsize] at hlen1 hin
          exact ih s' _ todo (hrec.idle hstat) (by rw [hlive', hrest]) (by rw [hlive']; omega)
            (by rw [hlive']; omega)
      · -- all of a heartbeat or a response is there
        have hlong : m.bytes.length ≤ s.peer.recv.live.length := by
          by_contra hlt
          exact hin (.of_lt htext (by omega))
        obtain ⟨t, hall, hrest⟩ : ∃ t, s.peer.recv.live = m.bytes ++ t ∧ t ++ rest = stream todo := by
          rcases split_body hlive with ⟨t, hm, hrest, ht⟩ | ⟨t, hall, hrest, -⟩
          · have hlen := congrArg List.length hm
            rw [List.length_append] at hlen
            have ht0 : t = [] := List.length_eq_zero_iff.mp (by omega)
            subst ht0
            exact ⟨[], by rw [hm, List.append_nil, List.append_nil], by rw [hrest]; rfl⟩
          · exact ⟨t, hall, hrest⟩
        obtain ⟨s', heq, hidle', hlive'⟩ := vossCheckReq_message hidle hall hfits htext hsub
        have hlen := congrArg List.length hall
        rw [List.length_append, m.length_bytes, headsize] at hlen
        rw [heq, List.append_cons]
        exact ih s' _ todo hidle' (by rw [hlive', hrest]) (by rw [hlive']; omega) (by rw [hlive']; omega)

/-- The state in which `svc_recv` begins its work. -/
theorem vossDeliver_eq (cfg : VossCfg) (s : Voss) (chunk : Bytes) :
    ∃ s1, s1.peer.recv.live = s.peer.recv.live ++ chunk ∧ s1.peer.sockStat = s.peer.sockStat ∧
      s1.peer.localInFd = s.peer.localInFd ∧ s1.peer.recvlen = s.peer.recvlen ∧
      s1.peer.datalen = s.peer.datalen ∧
      (∀ {ip written done got}, Recorded cfg ip written done got s → Recorded cfg ip written done got s1) ∧
      vossDeliver cfg s chunk =
        if s1.peer.sockStat = .prepareSyncfile ∨ s1.peer.sockStat = .syncfileing then
          match subRecv cfg s1 with
          | (.addEpollin, s) => some (.addEpollin, s)
          | (.close, s) => some (.close, s)
          | (_, s) => recvLoop cfg (s.peer.recv.len + 1) s
        else recvLoop cfg (s1.peer.recv.len + 1) s1 :=
  ⟨{ s with
      ticks := s.ticks + 1
      peer := { s.peer with
        recv := mybuffSetdata cfg.initBuffSize cfg.mem s.peer.recv chunk
        hbtime := cfg.clock s.ticks } },
    live_mybuffSetdata .., rfl, rfl, rfl, rfl, fun h => h.congr rfl rfl rfl, rfl⟩

/-- A call of `svc_recv`, for bytes that have arrived, returns with all of them decoded. -/
theorem vossDeliver_leftOff {chunk : Bytes} (h : LeftOff cfg ip written ms (chunk ++ rest) s)
    (hfits : BufferFits s chunk) :
    ∃ s', vossDeliver cfg s chunk = some (.addEpollin, s') ∧ LeftOff cfg ip written ms rest s' := by
  obtain ⟨s1, hlive1, hsock, hopen, hrecvlen, hdatalen, hcongr, hdeliver⟩ := vossDeliver_eq cfg s chunk
  rw [hdeliver]
  unfold BufferFits Voss.remaining at hfits
  rw [← hlive1] at hfits
  have hloop : ∀ (s2 : Voss) (done todo : List VossMsg), Idle cfg ip written done s2 →
      s2.peer.recv.live ++ rest = stream todo → s2.peer.recv.live.length < 2 ^ 31 →
      ∃ s', recvLoop cfg (s2.peer.recv.len + 1) s2 = some (.addEpollin, s') ∧
        LeftOff cfg ip written (done ++ todo) rest s' := by
    intro s2 done todo hidle hlive hlt
    exact recvLoop_leftOff _ s2 done todo hidle hlive (by rw [s2.peer.recv.length_live]; omega) hlt
  cases h with
  | idle done todo eq state live short =>
    have hidle : Idle cfg ip written done s1 :=
      ⟨hcongr state.recorded, by rw [hsock]; exact state.prepare, by rw [hsock]; exact state.syncing⟩
    have hout : ¬ (s1.peer.sockStat = .prepareSyncfile ∨ s1.peer.sockStat = .syncfileing) :=
      not_or.mpr ⟨hidle.prepare, hidle.syncing⟩
    rw [if_neg hout, eq]
    refine hloop s1 done todo hidle ?_ ?_
    · rw [hlive1, List.append_assoc]
      exact live
    · rw [if_neg state.syncing] at hfits
      omega
  | inBody done todo seq got left le eq state live stream =>
    have hbody : InBody cfg ip written done got left s1 := by
      refine ⟨hcongr state.recorded, hsock.trans state.stat, ?_, ?_, ?_, state.le⟩
      · rw [hopen]
        exact state.isOpen
      · rw [hrecvlen]
        exact state.recvlen
      · rw [hdatalen]
        exact state.datalen
    rw [live, List.nil_append] at hlive1
    rw [if_pos (Or.inr hbody.stat), eq]
    rw [← hlive1] at stream
    rcases split_body stream with ⟨t, hleft, hrest, ht⟩ | ⟨t, hall, hrest, hne⟩
    · obtain ⟨s', heq, hbody', hnil⟩ := subRecv_partial hbody hleft ht
      rw [heq]
      refine ⟨s', rfl, .of_part ?_ hbody' hnil hrest⟩
      rw [hleft, List.append_assoc]
    · obtain ⟨s', heq, hrec, hstat, hlive'⟩ := subRecv_whole hbody hall hne
      have hlen := congrArg List.length hall
      rw [List.length_append] at hlen
      rw [if_pos state.stat, state.datalen, state.recvlen, List.length_append] at hfits
      rw [heq, List.append_cons]
      exact hloop s' _ todo (hrec.idle hstat) (by rw [hlive', hrest]) (by rw [hlive']; omega)

/-! ## Every run -/

theorem vossRun_leftOff : ∀ (cs : List Bytes) (s : Voss), LeftOff cfg ip written ms (cs.flatten ++ rest) s →
    RunOk (vossStep cfg) BufferFits s cs →
    RunOk (vossStep cfg) (Returns cfg) s cs ∧ LeftOff cfg ip written ms rest (run (vossStep cfg) s cs) := by
  intro cs
  induction cs with
  | nil => exact fun s h _ => ⟨trivial, h⟩
  | cons c cs ih =>
    intro s h hok
    rw [List.flatten_cons, List.append_assoc] at h
    obtain ⟨s', heq, hset⟩ := vossDeliver_leftOff h hok.1
    have hstep : vossStep cfg s c = s' := by rw [vossStep, heq]
    have hok' := hok.2
    rw [hstep] at hok'
    obtain ⟨hret, hrun⟩ := ih s' hset hok'
    refine ⟨⟨⟨s', heq⟩, ?_⟩, ?_⟩
    · rw [hstep]
      exact hret
    · rw [run, hstep]
      exact hrun

theorem Incomplete.nil (todo : List VossMsg) : Incomplete [] todo := by
  cases todo with
  | nil => trivial
  | cons m todo =>
    have hpos : 0 < m.bytes.length := by
      rw [m.length_bytes, headsize]
      omega
    cases m with
    | submit seq body le => exact (by decide : 0 < headsize)
    | heartbeat seq stat => exact hpos
    | rsp seq body le => exact hpos

/-- A part of a message that is shorter than the message. -/
theorem prefix_of_short {live after : Bytes} {m : VossMsg} (h : live ++ rest = m.bytes ++ after)
    (hlt : live.length < m.bytes.length) : live <+: m.bytes ∧ live ≠ m.bytes := by
  refine ⟨?_, fun heq => absurd hlt (by rw [heq]; omega)⟩
  exact List.prefix_of_prefix_length_le ⟨rest, rfl⟩ ⟨after, h.symm⟩ (by omega)

/-- Between two messages, or where one waits for more. -/
theorem Recorded.decoded {arrived : Bytes} (h : Recorded cfg ip written done [] s)
    (hlive : s.peer.recv.live ++ rest = stream todo) (hin : Incomplete s.peer.recv.live todo)
    (harrived : arrived ++ rest = stream (done ++ todo)) :
    Decoded cfg ip written (done ++ todo) arrived s := by
  have hfiles := h.files
  rw [List.append_nil] at hfiles
  refine ⟨done, todo, s.peer.recv.live, rfl, ?_, h.stat, ?_⟩
  · rw [stream_append, ← hlive, ← List.append_assoc] at harrived
    exact List.append_cancel_right harrived
  cases todo with
  | nil =>
    have hnil := (List.append_eq_nil_iff.mp hlive).1
    exact ⟨hnil, hnil, hfiles⟩
  | cons m todo =>
    rw [stream_cons] at hlive
    cases m with
    | submit seq body le =>
      rw [Incomplete.submit_iff] at hin
      obtain ⟨hpre, hne⟩ := prefix_of_short hlive (by rw [VossMsg.length_bytes]; omega)
      refine ⟨hpre, hne, ?_, ?_⟩
      · rw [List.drop_eq_nil_of_le (Nat.le_of_lt hin), List.append_nil]
        exact hfiles
      · rw [if_pos hin]
    | heartbeat seq stat =>
      obtain ⟨hpre, hne⟩ := prefix_of_short hlive hin
      exact ⟨hpre, hne, hfiles, rfl⟩
    | rsp seq body le =>
      obtain ⟨hpre, hne⟩ := prefix_of_short hlive hin
      exact ⟨hpre, hne, hfiles, rfl⟩

theorem LeftOff.decoded {arrived : Bytes} (h : LeftOff cfg ip written ms rest s)
    (harrived : arrived ++ rest = stream ms) : Decoded cfg ip written ms arrived s := by
  cases h with
  | idle done todo eq state live short =>
    subst eq
    exact state.recorded.decoded live short harrived
  | inBody done todo seq got left le eq state live hrest =>
    subst eq
    by_cases hleft : left = []
    · -- nothing of the body is missing
      subst hleft
      rw [List.append_cons] at harrived ⊢
      have hrec : Recorded cfg ip written done (got ++ []) s := by
        rw [List.append_nil]
        exact state.recorded
      refine hrec.submit.decoded ?_ ?_ harrived
      · rw [live, hrest]
        rfl
      · rw [live]
        exact Incomplete.nil todo
    · have hlen := List.length_pos_iff.mpr hleft
      have hsplit : (VossMsg.submit seq (got ++ left) le).bytes =
          (createVossHead seq reqSubmit (got ++ left).length ++ got) ++ left :=
        (List.append_assoc ..).symm
      refine ⟨done, .submit seq (got ++ left) le :: todo,
        createVossHead seq reqSubmit (got ++ left).length ++ got, rfl, ?_, state.recorded.stat,
        ⟨left, hsplit.symm⟩, ?_, ?_, ?_⟩
      · rw [stream_append, stream_cons, hrest, hsplit, List.append_assoc _ left,
          ← List.append_assoc (stream done)] at harrived
        exact List.append_cancel_right harrived
      · intro heq
        rw [hsplit] at heq
        exact hleft (List.append_right_eq_self.mp heq.symm)
      · exact state.recorded.files
      · rw [live, if_neg]
        rw [List.length_append, length_createVossHead]
        omega

theorem leftOff_initconn (cfg : VossCfg) (ip : Bytes) {recv : Mybuff} (hrecv : recv.live = [])
    (hstat : s.cStat = some written) (ms : List VossMsg) :
    LeftOff cfg ip written ms (stream ms) (vossSvcInitconn cfg ip recv s) := by
  refine .idle [] ms rfl ⟨⟨rfl, ⟨[], ?_, .nil⟩, rfl⟩, ?_, ?_⟩ ?_ ?_
  · rw [List.flatten_nil, List.append_nil]
    exact hstat
  · show VossSockStat.connected ≠ _
    simp
  · show VossSockStat.connected ≠ _
    simp
  · show recv.live ++ _ = _
    rw [hrecv, List.nil_append]
  · show Incomplete recv.live _
    rw [hrecv]
    exact Incomplete.nil ms

/-- **Decoding.** When bytes of a stream of messages have arrived, however they were cut, and an `int`
has always held the number of bytes in the buffer, every call has returned for more, and what has arrived
is decoded. -/
theorem stream_decoded (cfg : VossCfg) (ip : Bytes) {recv : Mybuff} (hrecv : recv.live = []) {s : Voss}
    (hstat : s.cStat = some written) {ms : List VossMsg} {cs : List Bytes} (hcs : cs.flatten <+: stream ms)
    (hfits : RunOk (vossStep cfg) BufferFits (vossSvcInitconn cfg ip recv s) cs) :
    RunOk (vossStep cfg) (Returns cfg) (vossSvcInitconn cfg ip recv s) cs ∧
      Decoded cfg ip written ms cs.flatten (run (vossStep cfg) (vossSvcInitconn cfg ip recv s) cs) := by
  obtain ⟨rest, hrest⟩ := hcs
  have hstart := leftOff_initconn cfg ip hrecv hstat ms
  rw [← hrest] at hstart
  obtain ⟨hret, hset⟩ := vossRun_leftOff cs _ hstart hfits
  exact ⟨hret, hset.decoded hrest⟩

/-- A VOSS before its first peer, with an empty status file. -/
def Voss.sample : Voss := ⟨⟨[], 0, mybuffInit, .logout, 0, 0, none, 0, 0, 0⟩, some [], [], 0, 0⟩

/-- A heartbeat and two bytes that are submitted, cut in the second head. -/
theorem stream_decoded_two :
    let ms := [.heartbeat 1 3, .submit 2 [7, 8] (by decide)]
    let cs := [(stream ms).take 20, (stream ms).drop 20]
    let s := vossSvcInitconn .sample (txt "10.0.0.1") mybuffInit .sample
    RunOk (vossStep .sample) (Returns .sample) s cs ∧
      Decoded .sample (txt "10.0.0.1") [] ms cs.flatten (run (vossStep .sample) s cs) :=
  stream_decoded .sample _ rfl rfl ⟨[], by decide⟩ (by decide +kernel)

/-- When everything has arrived, nothing is left. -/
theorem Decoded.live_nil (h : Decoded cfg ip written ms (stream ms) s) : s.peer.recv.live = [] := by
  obtain ⟨done, todo, part, rfl, harrived, -, htodo⟩ := h
  rw [stream_append] at harrived
  have hpart : stream todo = part := List.append_cancel_left harrived
  cases todo with
  | nil => exact htodo.2.1
  | cons m todo =>
    have hcontra : ¬ (part <+: m.bytes ∧ part ≠ m.bytes) := by
      rintro ⟨hpre, hne⟩
      refine hne (hpre.eq_of_length_le ?_)
      rw [← hpart, stream_cons, List.length_append]
      omega
    cases m with
    | submit seq body le => exact absurd ⟨htodo.1, htodo.2.1⟩ hcontra
    | heartbeat seq stat => exact absurd ⟨htodo.1, htodo.2.1⟩ hcontra
    | rsp seq body le => exact absurd ⟨htodo.1, htodo.2.1⟩ hcontra

/-- A buffer whose length an `int` does not hold is left alone. -/
theorem vossDeliver_stalls (cfg : VossCfg) {s : Voss} {chunk : Bytes} (hlive : s.peer.recv.live = [])
    (hsock : s.peer.sockStat = .connected) (hlo : 2 ^ 31 ≤ chunk.length) (hhi : chunk.length < 2 ^ 32) :
    ∃ s', vossDeliver cfg s chunk = some (.addEpollin, s') ∧ s'.peer.recv.live = chunk := by
  obtain ⟨s1, hlive1, hsock1, -, -, -, -, hdeliver⟩ := vossDeliver_eq cfg s chunk
  rw [hlive, List.nil_append] at hlive1
  have hlen := s1.peer.recv.length_live
  rw [hlive1] at hlen
  have hshort : toInt32 s1.peer.recv.len < headsize := by
    rw [← hlen, toInt32, Int.bmod_def, headsize]
    split <;> omega
  have hparse : parseMsg s1.peer.recv.data (toInt32 s1.peer.recv.len) = none := by
    rw [parseMsg, if_pos hshort]
  have hnil : s1.peer.recv.live ≠ [] := by
    rw [hlive1]
    exact List.length_pos_iff.mp (by omega)
  refine ⟨s1, ?_, hlive1⟩
  rw [hdeliver, if_neg (by rw [hsock1, hsock]; simp), recvLoop, vossCheckReq_eq hnil hparse, checkHead]

/-- A body of the greatest length. -/
def longBody : Bytes := List.replicate (2 ^ 31 - 13) 0

theorem length_longBody : longBody.length = 2 ^ 31 - 13 := List.length_replicate

/-- A heartbeat and a body that has the greatest length arrive together: nothing is decoded. -/
theorem stream_not_decoded :
    let ms := [.heartbeat 1 3, .submit 2 longBody (Nat.le_of_eq length_longBody)]
    ¬ Decoded .sample (txt "10.0.0.1") [] ms (stream ms)
      (run (vossStep .sample) (vossSvcInitconn .sample (txt "10.0.0.1") mybuffInit .sample) [stream ms]) := by
  intro ms hdec
  have hbeat : (VossMsg.heartbeat 1 3).body.length = 1 := rfl
  have hbody : (VossMsg.submit 2 longBody (Nat.le_of_eq length_longBody)).body.length = 2 ^ 31 - 13 :=
    length_longBody
  have hlen : (stream ms).length = 2 ^ 31 + 12 := by
    rw [stream_cons, stream_cons, stream_nil, List.append_nil, List.length_append, VossMsg.length_bytes,
      VossMsg.length_bytes, hbeat, hbody, headsize]
    decide
  have hlive0 : (vossSvcInitconn .sample (txt "10.0.0.1") mybuffInit .sample).peer.recv.live = [] := rfl
  obtain ⟨s', heq, hlive⟩ := vossDeliver_stalls .sample hlive0 rfl
    (show 2 ^ 31 ≤ (stream ms).length by omega) (by omega)
  rw [run, run, vossStep, heq] at hdec
  have hnil := hdec.live_nil
  rw [hlive] at hnil
  rw [hnil, List.length_nil] at hlen
  omega

end VfsOss
