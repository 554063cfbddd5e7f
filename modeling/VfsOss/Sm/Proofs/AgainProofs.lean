import VfsOss.Sm.Again
import VfsOss.Net.Proofs.MybuffProofs
import VfsOss.Proto.Proofs.HeaderProofs

/-!
# Proofs: waiting for more data

Without the end of a header the parser is not called. A header that has been parsed has a NUL where a line ended, and
the C string it was parsed from had none.
-/

namespace VfsOss

open CLib

variable {cfg : Cfg} {locked : Bool} {io : RecvIo} {fd : Nat} {peer : Peer} {s s' : Sm} {src r : Bytes}
variable {fields : List Field} {h h' : HttpHeader}

/-- A field that has been parsed has left its NUL in the text. -/
theorem zero_mem_parseFields {field : Field} (hp : parseFields (field :: fields) h src = (true, h', r)) : (0 : UInt8) ∈ r := by
  rw [parseFields] at hp
  split at hp
  · exact absurd (congrArg Prod.fst hp) (by simp)
  · next v passed rest hi =>
    obtain ⟨p, e, -, -, -, rfl, -⟩ := parseItem_some hi
    have hr := congrArg (fun x => x.2.2) hp
    dsimp only at hr
    rw [← hr]
    simp

/-- A text with a NUL stored over the C string of a block changes the block. -/
theorem Mybuff.store_ne (b : Mybuff) (hr : (0 : UInt8) ∈ r) (hlen : r.length = (cstr b.data).length) : b.store r ≠ b := by
  intro he
  have hdata : r ++ b.data.drop r.length = cstr b.data ++ b.data.drop (cstr b.data).length :=
    (congrArg Mybuff.data he).trans (cstr_split b.data)
  have hsame := (List.append_inj hdata hlen).1
  exact zero_not_mem_cstr b.data (hsame ▸ hr)

/-- `do_prepare_recvfile` never asks for more data. -/
theorem doPrepareRecvfileInto_ne_again {task : Tasklist} {fsize : Int} {r : RecvRet × Sm}
    (h : doPrepareRecvfileInto cfg io fd peer task fsize s = .ok r) : r.1 ≠ .again := by
  unfold doPrepareRecvfileInto at h
  split at h
  · rw [← Except.ok.inj h]
    simp
  · obtain ⟨t, -, ht⟩ := bind_ok_iff.mp h
    dsimp only at ht
    split at ht <;> rw [← Except.ok.inj ht] <;> simp

/-- When there is no record: the mutex is not to be had, or the queue is empty and `malloc` fails. -/
theorem vfsGetTaskLocked_home_none (locked : Bool) (m : Nat → Bool) (st : TaskStore) :
    (∀ t, (vfsGetTaskLocked locked m st .home).1 ≠ .ok t) ↔
      locked = false ∨ st.vfstask .home = [] ∧ m st.next = false := by
  unfold vfsGetTaskLocked vfsGetTask
  cases locked with
  | false => simp
  | true =>
    rw [if_pos rfl, if_neg (by simp)]
    cases hq : st.vfstask .home with
    | nil => cases hm : m st.next <;> simp
    | cons t rest => simp

/-- The part of `check_req` behind the parser returns -1 only without a record, and leaves the buffer alone then. -/
theorem startTaskInto_again {clen : Nat} (ha : startTaskInto cfg locked io fd peer clen s = .ok (.again, s')) :
    (peer.header.type ≠ 250 ∧
      (locked = false ∨ s.store.vfstask .home = [] ∧ cfg.mallocOk s.store.next = false)) ∧
    (s'.acon fd).recvBuff = (s.acon fd).recvBuff := by
  unfold startTaskInto at ha
  dsimp only at ha
  split at ha
  · obtain ⟨_, -, hr⟩ := bind_ok_iff.mp ha
    exact absurd (congrArg Prod.fst (Except.ok.inj hr)) (by simp)
  · next htype =>
    rcases hg : vfsGetTaskLocked locked cfg.mallocOk s.store .home with ⟨r, st⟩
    rw [hg] at ha
    have hnone (hr : ∀ t, r ≠ .ok t) :=
      (vfsGetTaskLocked_home_none locked cfg.mallocOk s.store).mp (by rw [hg]; exact hr)
    cases r with
    | ok t =>
      obtain ⟨x, hx, hs'⟩ := bind_ok_iff.mp ha
      have hne := doPrepareRecvfileInto_ne_again hx
      exact absurd (congrArg Prod.fst (Except.ok.inj hs')) hne
    | err =>
      obtain ⟨-, rfl⟩ := Prod.mk.inj (Except.ok.inj ha)
      exact ⟨⟨htype, hnone (by simp)⟩, by simp [Sm.setPeer, Sm.setConn]⟩
    | nothing =>
      obtain ⟨-, rfl⟩ := Prod.mk.inj (Except.ok.inj ha)
      exact ⟨⟨htype, hnone (by simp)⟩, by simp [Sm.setPeer, Sm.setConn]⟩

/-- Without a record it does return -1. -/
theorem startTaskInto_none {clen : Nat} (htype : peer.header.type ≠ 250)
    (hnone : locked = false ∨ s.store.vfstask .home = [] ∧ cfg.mallocOk s.store.next = false) :
    ∃ s', startTaskInto cfg locked io fd peer clen s = .ok (.again, s') := by
  have hnone := (vfsGetTaskLocked_home_none locked cfg.mallocOk s.store).mpr hnone
  unfold startTaskInto
  dsimp only
  rw [if_neg htype]
  rcases hg : vfsGetTaskLocked locked cfg.mallocOk s.store .home with ⟨r, st⟩
  cases r with
  | ok t => exact absurd (by rw [hg]) (hnone t)
  | err => exact ⟨_, rfl⟩
  | nothing => exact ⟨_, rfl⟩

/-- A call that returns -1 has done nothing, or it had a request and no record, and has changed the buffer. -/
theorem checkReqInto_again (ha : checkReqInto Mybuff.data cfg locked io fd peer s = .ok (.again, s')) :
    (¬ NoRecordFor cfg locked fd peer s ∧ s' = s) ∨
    (NoRecordFor cfg locked fd peer s ∧ (s'.acon fd).recvBuff ≠ (s.acon fd).recvBuff) := by
  have hstay : .ok (.again, s) = (.ok (.again, s') : Except MemFault (RecvRet × Sm)) → s' = s :=
    fun h => (Prod.mk.inj (Except.ok.inj h)).2.symm
  unfold checkReqInto at ha
  cases hget : mybuffGetdata (s.acon fd).recvBuff with
  | none =>
    rw [hget] at ha
    exact Or.inl ⟨fun hn => hn.bytes ((mybuffGetdata_eq_none _).mp hget), hstay ha⟩
  | some p =>
    rw [hget] at ha
    have hlive : (s.acon fd).recvBuff.live ≠ [] := fun h => by
      rw [(mybuffGetdata_eq_none _).mpr h] at hget
      exact absurd hget (by simp)
    dsimp only at ha
    cases hend : strstr (cstr (s.acon fd).recvBuff.data) (crlf ++ crlf) with
    | none =>
      rw [hend] at ha
      exact Or.inl ⟨fun hn => by simpa [hend] using hn.complete, hstay ha⟩
    | some e =>
      rw [hend] at ha
      dsimp only at ha
      split at ha
      · exact absurd (congrArg Prod.fst (Except.ok.inj ha)) (by simp)
      · next hgo =>
        obtain ⟨⟨htype, hnone⟩, hbuff⟩ := startTaskInto_again ha
        have hok : (SmClient.parseHeader peer.header (cstr (s.acon fd).recvBuff.data)).1 = true := by
          by_contra hno
          exact hgo ⟨hno, htype⟩
        refine Or.inr ⟨⟨hlive, by rw [hend]; rfl, hok, htype, hnone⟩, ?_⟩
        rw [hbuff]
        show (Function.update s.acon fd _ fd).recvBuff ≠ _
        rw [Function.update_self]
        exact Mybuff.store_ne _ (zero_mem_parseFields (Prod.ext hok rfl)) parseFields_length

/-- With a request and no record the call returns -1. -/
theorem checkReqInto_noRecord (io : RecvIo) (hn : NoRecordFor cfg locked fd peer s) :
    ∃ s', checkReqInto Mybuff.data cfg locked io fd peer s = .ok (.again, s') := by
  obtain ⟨e, he⟩ := Option.isSome_iff_exists.mp hn.complete
  unfold checkReqInto
  rw [mybuffGetdata_of_live _ hn.bytes]
  dsimp only
  rw [he]
  dsimp only
  rw [if_neg fun h => h.1 hn.parsed]
  exact startTaskInto_none hn.upload hn.record

/-- A call that finds no record for a request does not keep it. -/
theorem not_noRecord_of_keeps (h : KeepsRequest cfg locked io fd peer s) : ¬ NoRecordFor cfg locked fd peer s := by
  intro hn
  obtain ⟨s', ha⟩ := checkReqInto_noRecord io hn
  rcases checkReqInto_again ha with ⟨hno, -⟩ | ⟨-, hne⟩
  · exact hno hn
  · exact hne (h.buffer s' ha)

/-- **A call that asks for more data keeps the request**, for every buffer, every state and every outcome of
`vfs_get_task`, exactly if it does not have a whole request and no record for it. -/
theorem keeps_request_iff (cfg : Cfg) (locked : Bool) (io : RecvIo) (fd : Nat) (peer : Peer) (s : Sm) :
    KeepsRequest cfg locked io fd peer s ↔ ¬ NoRecordFor cfg locked fd peer s := by
  constructor
  · exact not_noRecord_of_keeps
  · intro hn
    have hsame : ∀ s', checkReqInto Mybuff.data cfg locked io fd peer s = .ok (.again, s') → s' = s := by
      intro s' ha
      rcases checkReqInto_again ha with ⟨-, hs⟩ | ⟨hyes, -⟩
      · exact hs
      · exact absurd hyes hn
    exact ⟨fun s' ha => by rw [hsame s' ha], fun s' ha locked' io' more => by rw [hsame s' ha]⟩

/-- A process without records whose connection 0 has received an upload's header. -/
def Sm.withoutRecords : Sm :=
  let header := UcClient.createHeader TaskBase.zero ⟨0, 0, 9, 1, 1⟩
  (Sm.init 0).setConn 0
    { isOpen := true
      recvBuff := mybuffSetdata 2048 (fun _ => 0) mybuffInit header
      sendBuff := mybuffInit
      user := some ⟨.zero, none, 0, .connected, none⟩ }

/-- `malloc` fails when the record is needed: the call returns -1, and the lines of the header end in NULs. -/
theorem request_not_kept :
    ¬ KeepsRequest { Cfg.sample with mallocOk := fun _ => false } true .ok 0 ⟨.zero, none, 0, .connected, none⟩
      Sm.withoutRecords := by
  intro h
  refine not_noRecord_of_keeps h ⟨?_, ?_, ?_, ?_, Or.inr ⟨rfl, rfl⟩⟩
  · decide +kernel
  · decide +kernel
  · decide +kernel
  · decide +kernel

end VfsOss
