import VfsOss.Voss.Robust
import VfsOss.Voss.Proofs.StreamProofs

/-!
# Proofs: the receiver is robust while the heads are sound

In every round of the loop the buffer holds the received bytes from one of the positions on at which a
head is looked for. There the round takes a head's length and copies in bounds exactly when the head is
sound.
-/

namespace VfsOss

open CLib

variable {cfg : VossCfg} {io : VossIo} {s t : Voss} {d : Bytes} {p q : Nat} {h : HeadInfo}

/-! ## Heads -/

theorem toInt32_le {n : Nat} {k : Nat} (hk : k < 2 ^ 31) (h : (k : Int) ≤ toInt32 n) : k ≤ n := by
  by_contra hlt
  rw [toInt32_of_range (by omega) (by omega)] at h
  omega

theorem le_of_parseMsg {n : Nat} (hp : parseMsg d (toInt32 n) = some h) : headsize ≤ n := by
  unfold parseMsg at hp
  split at hp
  · exact absurd hp (by simp)
  · next hle => exact toInt32_le (by decide) (by omega)

/-- The buffer holds the bytes from `p` on. -/
structure HoldsFrom (s t : Voss) (p : Nat) : Prop where
  live : t.peer.recv.live = s.peer.recv.live.drop p
  le : p ≤ s.peer.recv.live.length
  stat : t.cStat.isSome = s.cStat.isSome

theorem HoldsFrom.len (h : HoldsFrom s t p) : t.peer.recv.len = s.peer.recv.live.length - p := by
  rw [← Mybuff.length_live, h.live, List.length_drop]

/-- `check_req` parses the head at the position. -/
theorem HoldsFrom.parse (h : HoldsFrom s t p) :
    parseMsg t.peer.recv.data (toInt32 t.peer.recv.len) = headAt s.peer.recv.live p := by
  rw [headAt, ← h.len, ← h.live]
  by_cases hle : headsize ≤ t.peer.recv.len
  · refine parseMsg_congr ?_ _
    rw [← Mybuff.length_live] at hle
    conv_lhs => rw [t.peer.recv.data_eq]
    exact List.take_append_of_le_length hle
  · have hlt : toInt32 t.peer.recv.len < headsize := by
      rw [show headsize = 12 from rfl] at hle ⊢
      rw [toInt32_of_range (by omega) (by omega)]
      omega
    unfold parseMsg
    rw [if_pos hlt, if_pos hlt]

/-- `check_req` goes by the head at the position. -/
theorem checkReqIo_eq (h : HoldsFrom s t p) (cfg : VossCfg) (io : VossIo) : checkReqIo cfg io t =
    checkHeadIo cfg io t.peer.recv.data t.peer.recv.len t (headAt s.peer.recv.live p) := by
  rw [← h.parse]
  unfold checkReqIo
  by_cases hne : t.peer.recv.live = []
  · rw [(mybuffGetdata_eq_none _).mpr hne]
    have hlen : t.peer.recv.len = 0 := by rw [← Mybuff.length_live, hne, List.length_nil]
    have hnone : parseMsg t.peer.recv.data (toInt32 t.peer.recv.len) = none := by
      rw [hlen]
      rfl
    rw [hnone]
    rfl
  · rw [mybuffGetdata_of_live _ hne]

/-- What `check_req` does with a message leaves the buffer alone. -/
theorem checkMsg_frame {data : Bytes} (hc : checkMsg cfg data h s = some t) :
    t.peer.recv = s.peer.recv ∧ t.cStat.isSome = s.cStat.isSome := by
  have hwrite : ∀ text (s : Voss), (writeStat cfg text s).peer.recv = s.peer.recv ∧
      (writeStat cfg text s).cStat.isSome = s.cStat.isSome := by
    intro text s
    refine ⟨by rw [writeStat_frame], ?_⟩
    unfold writeStat
    cases hs : s.cStat with
    | none => rw [hs]
    | some w => rfl
  unfold checkMsg at hc
  split at hc
  · split at hc
    · exact absurd hc (by simp)
    · obtain rfl := Option.some.inj hc
      exact ⟨rfl, rfl⟩
  · split at hc
    · obtain rfl := Option.some.inj hc
      exact ⟨rfl, rfl⟩
    · split at hc
      · split at hc
        · exact absurd hc (by simp)
        · obtain rfl := Option.some.inj hc
          exact hwrite _ _
      · split at hc
        · exact absurd hc (by simp)
        · obtain rfl := Option.some.inj hc
          exact hwrite _ _

theorem checkMsg_getD_frame (cfg : VossCfg) (data : Bytes) (h : HeadInfo) (s : Voss) :
    ((checkMsg cfg data h s).getD s).peer.recv = s.peer.recv ∧
    ((checkMsg cfg data h s).getD s).cStat.isSome = s.cStat.isSome := by
  cases hc : checkMsg cfg data h s with
  | none => exact ⟨rfl, rfl⟩
  | some t => exact checkMsg_frame hc

/-! ## Calls that succeed -/

theorem subWriteIo_full (cfg : VossCfg) (data : Bytes) (len : Nat) (s : Voss) :
    subWriteIo cfg ⟨true, some⟩ data len s =
      match s.peer.localInFd with
      | none => (.close, s)
      | some (fd, file) =>
        subWritten cfg (toInt32 len) { s with peer := { s.peer with
          localInFd := some (fd, { file with data := file.data ++ data.take len }) } } := by
  unfold subWriteIo
  rcases s.peer.localInFd with _ | ⟨fd, file⟩
  · rfl
  · dsimp only
    rw [Nat.min_self]

theorem subRecvIo_full (cfg : VossCfg) (s : Voss) :
    (subRecvIo cfg ⟨true, some⟩ s).1 = subRecv cfg s := by
  unfold subRecvIo subRecv
  dsimp only
  split
  · rcases mybuffGetdata (s.time cfg).2.peer.recv with _ | ⟨data, datalen⟩
    · rfl
    · exact subWriteIo_full ..
  · rfl

/-- With calls that succeed `check_req` does what it does in the other model, where that says what it
does. -/
theorem checkReqIo_full {r : VossRet} (hr : vossCheckReq cfg s = some (r, t)) :
    (checkReqIo cfg ⟨true, some⟩ s).ret = r ∧ (checkReqIo cfg ⟨true, some⟩ s).state = t := by
  unfold vossCheckReq at hr
  unfold checkReqIo
  rcases hg : mybuffGetdata s.peer.recv with _ | ⟨data, datalen⟩
  · rw [hg] at hr
    exact Prod.mk.inj (Option.some.inj hr)
  · rw [hg] at hr
    dsimp only at hr ⊢
    generalize parseMsg data (toInt32 datalen) = head at hr ⊢
    rcases head with _ | h
    · exact Prod.mk.inj (Option.some.inj hr)
    · unfold checkHead at hr
      unfold checkHeadIo
      dsimp only at hr ⊢
      by_cases hmsg : h.IsMsg
      · rw [if_pos (show h.cmdid = reqHeartbeat ∨ rspVfsCmd = h.cmdid ∨ reqAuth = h.cmdid from hmsg)] at hr
        rw [if_pos hmsg]
        split at hr
        · next hwhole =>
          rw [if_pos hwhole]
          exact Prod.mk.inj (Option.some.inj hr)
        · next hwhole =>
          rw [if_neg hwhole]
          obtain ⟨s1, hs1, he⟩ := Option.map_eq_some_iff.mp hr
          rw [hs1]
          exact Prod.mk.inj he
      · rw [if_neg (show ¬ (h.cmdid = reqHeartbeat ∨ rspVfsCmd = h.cmdid ∨ reqAuth = h.cmdid) from hmsg)] at hr
        rw [if_neg hmsg]
        split at hr
        · next hcmd =>
          rw [if_pos hcmd]
          unfold processDataReqIo
          rw [if_neg (by simp)]
          dsimp only
          rw [subRecvIo_full]
          exact Prod.mk.inj (Option.some.inj hr)
        · next hcmd =>
          rw [if_neg hcmd]
          exact Prod.mk.inj (Option.some.inj hr)

/-- The loop of the other model stops behind a round of this one. -/
theorem recvLoop_inLoop {fuel : Nat} {r : VossRet} {u : Voss} (hin : InLoop cfg s t)
    (hr : recvLoop cfg fuel t = some (r, u)) :
    ∃ t', InLoop cfg s t' ∧ (checkReqIo cfg ⟨true, some⟩ t').state = u := by
  induction fuel generalizing t with
  | zero => exact absurd hr (by simp [recvLoop])
  | succ fuel ih =>
    rw [recvLoop] at hr
    rcases hround : vossCheckReq cfg t with _ | ⟨ret, t1⟩
    · rw [hround] at hr
      exact absurd hr (by simp)
    obtain ⟨hret, rfl⟩ := checkReqIo_full hround
    rw [hround] at hr
    -- the loop stops, or goes on as a turn
    have hnext (hgoes : ret = .again ∨ ret = .addEpollout) :
        InLoop cfg s (checkReqIo cfg ⟨true, some⟩ t).state := by
      obtain ⟨t0, hstart, hturns⟩ := hin
      exact ⟨t0, hstart, hturns.tail ⟨_, rfl, hret ▸ hgoes⟩⟩
    cases ret with
    | noData => exact ⟨t, hin, (Prod.mk.inj (Option.some.inj hr)).2⟩
    | close => exact ⟨t, hin, (Prod.mk.inj (Option.some.inj hr)).2⟩
    | addEpollin => exact ⟨t, hin, (Prod.mk.inj (Option.some.inj hr)).2⟩
    | again => exact ih (hnext (Or.inl rfl)) hr
    | addEpollout => exact ih (hnext (Or.inr rfl)) hr

/-- **Two models of `svc_recv`.** Where the other model says what `svc_recv` does, it is what some rounds do whose
calls succeed, or what receiving the rest of a body does. -/
theorem svcRecv_inLoop {r : VossRet} (hr : vossSvcRecv cfg s = some (r, t)) :
    (s.InSync ∧ subRecv cfg (vossEnter cfg s) = (r, t)) ∨
      ∃ t', InLoop cfg s t' ∧ (checkReqIo cfg ⟨true, some⟩ t').state = t := by
  unfold vossSvcRecv Voss.time at hr
  dsimp only at hr
  split at hr
  · next hsync =>
    have hbody : (subRecvIo cfg ⟨true, some⟩ (vossEnter cfg s)).1.1 ≠ .addEpollin → _ → Starts cfg s _ :=
      Starts.body ⟨true, some⟩ hsync
    rw [subRecvIo_full] at hbody
    split at hr
    · next hsub => exact Or.inl ⟨hsync, hsub.trans (Option.some.inj hr)⟩
    · next hsub => exact Or.inl ⟨hsync, hsub.trans (Option.some.inj hr)⟩
    · next ret t0 hin hclose hsub =>
      have hsub : subRecv cfg (vossEnter cfg s) = (ret, t0) := hsub
      rw [hsub] at hbody
      exact Or.inr (recvLoop_inLoop ⟨t0, hbody hin hclose, .refl⟩ hr)
  · next hsync => exact Or.inr (recvLoop_inLoop ⟨_, .idle hsync, .refl⟩ hr)

/-! ## Bodies -/

theorem subRecvIo_inBounds (cfg : VossCfg) (io : VossIo) (s : Voss) :
    ∀ c ∈ (subRecvIo cfg io s).2, c.InBounds := by
  unfold subRecvIo Voss.time
  dsimp only
  split
  · split
    · exact fun c hc => absurd hc (by simp)
    · intro c hc
      obtain rfl := List.mem_singleton.mp hc
      refine ⟨?_, fun n hn => absurd hn (by simp)⟩
      dsimp only
      split <;> omega
  · exact fun c hc => absurd hc (by simp)

/-- What a `write` that completes the body leaves. -/
structure Completed (s t : Voss) (k : Nat) : Prop where
  pos : 0 ≤ toInt32 k
  done : s.peer.datalen ≤ s.peer.recvlen + toInt32 k
  live : t.peer.recv.live = s.peer.recv.live.drop (toInt32 k).toNat
  stat : t.cStat = s.cStat

theorem Completed.congr {s1 : Voss} {k : Nat} (h : Completed s1 t k)
    (hdatalen : s1.peer.datalen = s.peer.datalen) (hrecvlen : s1.peer.recvlen = s.peer.recvlen)
    (hrecv : s1.peer.recv = s.peer.recv) (hstat : s1.cStat = s.cStat) : Completed s t k :=
  ⟨h.pos, hdatalen ▸ hrecvlen ▸ h.done, hrecv ▸ h.live, hstat ▸ h.stat⟩

theorem subWritten_addEpollout (cfg : VossCfg) {k : Nat}
    (hr : (subWritten cfg (toInt32 k) s).1 = .addEpollout) : Completed s (subWritten cfg (toInt32 k) s).2 k := by
  by_cases hneg : toInt32 k < 0
  · unfold subWritten at hr
    rw [if_pos hneg] at hr
    exact absurd hr (by simp)
  · have hnat : toInt32 k = (toInt32 k).toNat := by omega
    rw [hnat] at hr ⊢
    obtain ⟨s', hlive, -, hstat, -, ⟨hge, he, -⟩ | ⟨hlt, he, -⟩⟩ := subWritten_spec cfg (toInt32 k).toNat s
    · rw [he]
      exact ⟨by omega, by omega, hlive, hstat⟩
    · rw [he] at hr
      exact absurd hr (by simp)

theorem subWritten_completes (cfg : VossCfg) {k : Nat} (hpos : 0 ≤ toInt32 k)
    (hdone : s.peer.datalen ≤ s.peer.recvlen + toInt32 k) :
    (subWritten cfg (toInt32 k) s).1 = .addEpollout := by
  have hnat : toInt32 k = (toInt32 k).toNat := by omega
  obtain ⟨s', -, -, -, -, ⟨-, he, -⟩ | ⟨hlt, -⟩⟩ := subWritten_spec cfg (toInt32 k).toNat s
  · rw [hnat, he]
  · omega

theorem subWritten_ret (cfg : VossCfg) (n : Int) (s : Voss) :
    (subWritten cfg n s).1 = .close ∨ (subWritten cfg n s).1 = .addEpollin ∨
      (subWritten cfg n s).1 = .addEpollout := by
  unfold subWritten
  split
  · exact Or.inl rfl
  · dsimp only
    split
    · exact Or.inr (Or.inr rfl)
    · exact Or.inr (Or.inl rfl)

theorem subWriteIo_ret (cfg : VossCfg) (io : VossIo) (data : Bytes) (len : Nat) (s : Voss) :
    (subWriteIo cfg io data len s).1 = .close ∨ (subWriteIo cfg io data len s).1 = .addEpollin ∨
      (subWriteIo cfg io data len s).1 = .addEpollout := by
  unfold subWriteIo
  split
  · exact Or.inl rfl
  · split
    · exact Or.inl rfl
    · exact subWritten_ret ..

theorem subWriteIo_addEpollout {data : Bytes} {len : Nat}
    (hr : (subWriteIo cfg io data len s).1 = .addEpollout) :
    s.peer.localInFd.isSome ∧ ∃ k ≤ len, Completed s (subWriteIo cfg io data len s).2 k := by
  unfold subWriteIo at hr ⊢
  rcases hf : s.peer.localInFd with _ | ⟨fd, file⟩
  · rw [hf] at hr
    exact absurd hr (by simp)
  · rw [hf] at hr
    dsimp only at hr ⊢
    rcases hw : io.write len with _ | k
    · rw [hw] at hr
      exact absurd hr (by simp)
    · rw [hw] at hr
      have hc := subWritten_addEpollout cfg hr
      exact ⟨rfl, min k len, Nat.min_le_right .., hc.congr rfl rfl rfl rfl⟩

theorem subWriteIo_completes (cfg : VossCfg) (data : Bytes) (len : Nat) {k : Nat}
    (hf : s.peer.localInFd.isSome) (hk : k ≤ len) (hpos : 0 ≤ toInt32 k) (hdone : s.peer.datalen ≤ s.peer.recvlen + toInt32 k) :
    (subWriteIo cfg ⟨true, fun _ => some k⟩ data len s).1 = .addEpollout ∧
      Completed s (subWriteIo cfg ⟨true, fun _ => some k⟩ data len s).2 k := by
  obtain ⟨⟨fd, file⟩, hfile⟩ := Option.isSome_iff_exists.mp hf
  unfold subWriteIo
  rw [hfile]
  dsimp only
  rw [Nat.min_eq_left hk]
  have hr := subWritten_completes (s := { s with peer := { s.peer with
    localInFd := some (fd, { file with data := file.data ++ data.take k }) } }) cfg hpos hdone
  exact ⟨hr, (subWritten_addEpollout cfg hr).congr rfl rfl rfl rfl⟩

theorem Completes.le {datalen recvlen : Int} (h : Completes d p datalen recvlen q) : p ≤ q := by
  obtain ⟨-, k, -, -, -, -, hq⟩ := h
  rw [hq]
  exact Nat.le_add_right ..

/-- A body that starts further back. -/
theorem completes_drop {datalen recvlen : Int} :
    Completes (d.drop p) 0 datalen recvlen q ↔ Completes d p datalen recvlen (p + q) := by
  unfold Completes
  rw [List.length_drop]
  constructor
  · rintro ⟨hlt, k, hle, hrem, hpos, hdone, hq⟩
    exact ⟨by omega, k, by omega, hrem, hpos, hdone, by omega⟩
  · rintro ⟨hlt, k, hle, hrem, hpos, hdone, hq⟩
    exact ⟨by omega, k, by omega, hrem, hpos, hdone, by omega⟩

theorem Completed.holdsFrom {k : Nat} (h : Completed s t k) (hk : k ≤ s.peer.recv.live.length) :
    HoldsFrom s t (toInt32 k).toNat :=
  ⟨h.live, Nat.le_trans (toInt32_toNat_le k) hk, by rw [h.stat]⟩

theorem HoldsFrom.congr {s1 : Voss} (h : HoldsFrom s1 t p) (hrecv : s1.peer.recv = s.peer.recv)
    (hstat : s1.cStat = s.cStat) : HoldsFrom s t p :=
  ⟨hrecv ▸ h.live, hrecv ▸ h.le, hstat ▸ h.stat⟩

/-- `sub_recv` goes on to the next message when a `write` has completed the body. -/
theorem subRecvIo_done (cfg : VossCfg) (io : VossIo) (s : Voss) (hin : (subRecvIo cfg io s).1.1 ≠ .addEpollin)
    (hclose : (subRecvIo cfg io s).1.1 ≠ .close) :
    (subRecvIo cfg io s).1.1 = .addEpollout ∧ s.peer.localInFd.isSome ∧
    ∃ q, Completes s.peer.recv.live 0 s.peer.datalen s.peer.recvlen q ∧
      HoldsFrom s (subRecvIo cfg io s).1.2 q := by
  unfold subRecvIo Voss.time at hin hclose ⊢
  dsimp only at hin hclose ⊢
  split at hin
  · next hs =>
    rw [if_pos hs] at hclose ⊢
    rcases hg : mybuffGetdata s.peer.recv with _ | ⟨data, datalen⟩
    · rw [hg] at hin
      exact absurd rfl hin
    · have hne : s.peer.recv.live ≠ [] := fun hn => by
        rw [(mybuffGetdata_eq_none _).mpr hn] at hg
        exact absurd hg (by simp)
      have hlen := s.peer.recv.length_live
      rw [hg] at hin hclose
      rw [mybuffGetdata_of_live _ hne] at hg
      obtain ⟨rfl, rfl⟩ := Prod.mk.inj (Option.some.inj hg)
      dsimp only at hin hclose ⊢
      have hout := ((subWriteIo_ret ..).resolve_left hclose).resolve_left hin
      obtain ⟨hf, k, hk, hc⟩ := subWriteIo_addEpollout hout
      have hc : Completed s _ k := hc.congr rfl rfl rfl rfl
      have hk : k ≤ s.peer.recv.live.length ∧
          k ≤ (toInt32 (s.peer.datalen - s.peer.recvlen) % 2 ^ 64).toNat := by
        rw [hlen]
        split at hk <;> omega
      refine ⟨hout, hf, (toInt32 k).toNat, ⟨?_, k, ?_, hk.2, hc.pos, hc.done, ?_⟩, hc.holdsFrom hk.1⟩
      · exact List.length_pos_of_ne_nil hne
      · omega
      · omega
  · exact absurd rfl hin

theorem subRecvIo_completes (cfg : VossCfg) (hs : s.InSync) (hf : s.peer.localInFd.isSome)
    (hc : Completes s.peer.recv.live 0 s.peer.datalen s.peer.recvlen q) :
    ∃ io, io.opens = true ∧ (subRecvIo cfg io s).1.1 = .addEpollout ∧
      HoldsFrom s (subRecvIo cfg io s).1.2 q := by
  obtain ⟨hlt, k, hle, hrem, hpos, hdone, hq⟩ := hc
  have hne : s.peer.recv.live ≠ [] := List.ne_nil_of_length_pos hlt
  have hlen := s.peer.recv.length_live
  refine ⟨⟨true, fun _ => some k⟩, rfl, ?_⟩
  unfold subRecvIo Voss.time
  dsimp only
  rw [if_pos (show s.peer.sockStat = .prepareSyncfile ∨ s.peer.sockStat = .syncfileing from hs),
    mybuffGetdata_of_live _ hne]
  dsimp only
  obtain ⟨hout, hc⟩ := subWriteIo_completes (s := { s with
    peer := { s.peer with hbtime := cfg.clock s.ticks }, ticks := s.ticks + 1 }) cfg s.peer.recv.data
    (if s.peer.recv.len ≤ (toInt32 (s.peer.datalen - s.peer.recvlen) % 2 ^ 64).toNat then
      s.peer.recv.len else (toInt32 (s.peer.datalen - s.peer.recvlen) % 2 ^ 64).toNat)
    hf (by split <;> omega) hpos hdone
  rw [hq, Nat.zero_add]
  have hc : Completed s _ k := hc.congr rfl rfl rfl rfl
  exact ⟨hout, hc.holdsFrom (by omega)⟩

theorem subWritten_len_le (cfg : VossCfg) (n : Int) {s1 : Voss} (hs : s1.peer.recv = s.peer.recv) :
    (subWritten cfg n s1).2.peer.recv.len ≤ s.peer.recv.len := by
  rw [← hs]
  by_cases hneg : n < 0
  · unfold subWritten
    rw [if_pos hneg]
  · rw [show n = n.toNat by omega]
    obtain ⟨s', hlive, -, -, -, ⟨-, he, -⟩ | ⟨-, he, -⟩⟩ := subWritten_spec cfg n.toNat s1
    all_goals
      rw [he, ← Mybuff.length_live, ← Mybuff.length_live]
      show s'.peer.recv.live.length ≤ _
      rw [hlive, List.length_drop]
      omega

theorem subWriteIo_len_le (cfg : VossCfg) (io : VossIo) (data : Bytes) (len : Nat) {s1 : Voss}
    (hs : s1.peer.recv = s.peer.recv) :
    (subWriteIo cfg io data len s1).2.peer.recv.len ≤ s.peer.recv.len := by
  unfold subWriteIo
  rcases s1.peer.localInFd with _ | ⟨fd, file⟩
  · show s1.peer.recv.len ≤ s.peer.recv.len
    rw [hs]
  · dsimp only
    rcases io.write len with _ | k
    · show s1.peer.recv.len ≤ s.peer.recv.len
      rw [hs]
    · dsimp only
      generalize toInt32 (min k len : Nat) = n
      exact subWritten_len_le cfg n hs

/-- `sub_recv` only takes bytes from the buffer. -/
theorem subRecvIo_len_le (cfg : VossCfg) (io : VossIo) (s : Voss) :
    (subRecvIo cfg io s).1.2.peer.recv.len ≤ s.peer.recv.len := by
  unfold subRecvIo Voss.time
  dsimp only
  split
  · split
    · exact Nat.le_refl _
    · dsimp only
      exact subWriteIo_len_le cfg io _ _ rfl
  · exact Nat.le_refl _

/-- `process_data_req` with a work file is `sub_recv` for a new body behind the head. -/
theorem processDataReqIo_eq (cfg : VossCfg) (h : HeadInfo) (s : Voss) :
    ∃ s1, s1.peer.recv.live = s.peer.recv.live.drop headsize ∧ s1.cStat = s.cStat ∧
      s1.peer.datalen = toInt32 ((h.totallen : Int) - headsize) ∧ s1.peer.recvlen = 0 ∧ s1.InSync ∧
      s1.peer.localInFd.isSome ∧
      ∀ io, (processDataReqIo cfg io h s).handled = false ∧
          processDataReqIo cfg io h s = ⟨.close, (s.time cfg).2, false, []⟩ ∧ io.opens = false ∨
        processDataReqIo cfg io h s =
          ⟨(subRecvIo cfg io s1).1.1, (subRecvIo cfg io s1).1.2, true, (subRecvIo cfg io s1).2⟩ := by
  obtain ⟨-, hstat, -, hrecv, hfd⟩ := openLocal_spec cfg s
  refine ⟨({ openLocal cfg s with peer := { (openLocal cfg s).peer with
    sockStat := .syncfileing, datalen := toInt32 ((h.totallen : Int) - headsize), recvlen := 0 } } : Voss).consume
      headsize, ?_, hstat, rfl, rfl, Or.inr rfl, hfd, fun io => ?_⟩
  · rw [live_consume]
    exact congrArg (fun b : Mybuff => b.live.drop headsize) hrecv
  · by_cases hopen : s.peer.localInFd.isNone ∧ ¬ io.opens
    · have he : processDataReqIo cfg io h s = ⟨.close, (s.time cfg).2, false, []⟩ := by
        unfold processDataReqIo
        rw [if_pos hopen]
      exact Or.inl ⟨by rw [he], he, by simpa using hopen.2⟩
    · refine Or.inr ?_
      unfold processDataReqIo
      rw [if_neg hopen]

/-! ## Rounds -/

theorem len_consume (n : Nat) (s : Voss) : (s.consume n).peer.recv.len = s.peer.recv.len - n := by
  rw [← Mybuff.length_live, live_consume, List.length_drop, Mybuff.length_live]

/-- A round behind which the loop goes on leads from one position to another. -/
theorem Turns.next (hh : HoldsFrom s t p) (hpos : HeadPos s p) {t' : Voss} (ht : Turns cfg t t') :
    ∃ q, HeadPos s q ∧ HoldsFrom s t' q := by
  obtain ⟨io, rfl, hret⟩ := ht
  have hlen := hh.len
  rw [checkReqIo_eq hh] at hret ⊢
  rcases hd : headAt s.peer.recv.live p with _ | h
  · rw [hd] at hret
    exact absurd hret (by simp [checkHeadIo])
  rw [hd] at hret
  unfold checkHeadIo at hret ⊢
  dsimp only at hret ⊢
  by_cases hmsg : h.IsMsg
  · rw [if_pos hmsg] at hret ⊢
    by_cases hwhole : t.peer.recv.len < h.totallen
    · rw [if_pos hwhole] at hret
      exact absurd hret (by simp)
    · rw [if_neg hwhole]
      obtain ⟨hrecv, hstat⟩ := checkMsg_getD_frame cfg t.peer.recv.data h t
      refine ⟨p + h.totallen, .message hpos hd hmsg (by omega), ?_, ?_, ?_⟩
      · rw [live_consume, hrecv, hh.live, List.drop_drop]
      · have hle := hh.le
        omega
      · exact hstat.trans hh.stat
  · rw [if_neg hmsg] at hret ⊢
    by_cases hcmd : h.cmdid = reqSubmit
    · rw [if_pos hcmd] at hret ⊢
      obtain ⟨s1, hlive, hstat, hdatalen, hrecvlen, -, -, hio⟩ := processDataReqIo_eq cfg h t
      rcases hio io with ⟨-, he, -⟩ | he
      · rw [he] at hret
        exact absurd hret (by simp)
      · rw [he] at hret ⊢
        obtain ⟨hout, -, q, hc, hq⟩ := subRecvIo_done cfg io s1
          (fun hn => by rw [hn] at hret; exact absurd hret (by simp))
          (fun hn => by rw [hn] at hret; exact absurd hret (by simp))
        have hle := le_of_parseMsg (hh.parse.trans hd)
        rw [hlive, hh.live, List.drop_drop, hdatalen, hrecvlen] at hc
        refine ⟨p + headsize + q, .submit hpos hd hcmd (completes_drop.mp hc), ?_, ?_, ?_⟩
        · rw [hq.live, hlive, hh.live, List.drop_drop, List.drop_drop, Nat.add_assoc]
        · have hqle := hq.le
          rw [hlive, hh.live, List.drop_drop, List.length_drop] at hqle
          have hple := hh.le
          omega
        · rw [hq.stat, hstat, hh.stat]
    · rw [if_neg hcmd] at hret
      exact absurd hret (by simp)

/-- A message that is there as a whole is handled, and the loop goes on behind it. -/
theorem HoldsFrom.message (cfg : VossCfg) (hh : HoldsFrom s t p) (hd : headAt s.peer.recv.live p = some h)
    (hmsg : h.IsMsg) (hwhole : h.totallen ≤ s.peer.recv.live.length - p) :
    ∃ t', Turns cfg t t' ∧ HoldsFrom s t' (p + h.totallen) := by
  have hlen := hh.len
  have he : checkReqIo cfg ⟨true, some⟩ t = ⟨.again,
      ((checkMsg cfg t.peer.recv.data h t).getD t).consume h.totallen, true,
      ⟨0, headsize, t.peer.recv.len, some headsize⟩ :: bodyCopies t t.peer.recv.len h⟩ := by
    rw [checkReqIo_eq hh, hd]
    unfold checkHeadIo
    dsimp only
    rw [if_pos hmsg, if_neg (by omega)]
  refine ⟨_, ⟨⟨true, some⟩, rfl, Or.inl (by rw [he])⟩, ?_⟩
  rw [he]
  obtain ⟨hrecv, hstat⟩ := checkMsg_getD_frame cfg t.peer.recv.data h t
  have hle := hh.le
  refine ⟨?_, by omega, hstat.trans hh.stat⟩
  rw [live_consume, hrecv, hh.live, List.drop_drop]

/-- Some `write` completes a body that can be completed. -/
theorem HoldsFrom.submit (cfg : VossCfg) (hh : HoldsFrom s t p) (hd : headAt s.peer.recv.live p = some h)
    (hcmd : h.cmdid = reqSubmit) (hc : Completes s.peer.recv.live (p + headsize)
      (toInt32 ((h.totallen : Int) - headsize)) 0 q) :
    ∃ t', Turns cfg t t' ∧ HoldsFrom s t' q := by
  obtain ⟨s1, hlive, hstat, hdatalen, hrecvlen, hsync, hf, hio⟩ := processDataReqIo_eq cfg h t
  obtain ⟨k, rfl⟩ : ∃ k, q = p + headsize + k := Nat.exists_eq_add_of_le hc.le
  have hc1 := completes_drop.mpr hc
  rw [← List.drop_drop, ← hh.live, ← hlive, ← hdatalen, ← hrecvlen] at hc1
  obtain ⟨io, hopens, hout, hq⟩ := subRecvIo_completes cfg hsync hf hc1
  have hmsg : ¬ h.IsMsg := by
    rintro (he | he | he) <;> rw [hcmd] at he <;> exact absurd he (by decide)
  have he : checkReqIo cfg io t = ⟨(subRecvIo cfg io s1).1.1, (subRecvIo cfg io s1).1.2, true,
      ⟨0, headsize, t.peer.recv.len, some headsize⟩ :: (subRecvIo cfg io s1).2⟩ := by
    rw [checkReqIo_eq hh, hd]
    unfold checkHeadIo
    dsimp only
    rw [if_neg hmsg, if_pos hcmd]
    rcases hio io with ⟨-, -, hno⟩ | he
    · rw [hopens] at hno
      exact absurd hno (by simp)
    · rw [he]
  refine ⟨_, ⟨io, rfl, Or.inr (by rw [he]; exact hout)⟩, ?_⟩
  rw [he]
  refine ⟨?_, ?_, ?_⟩
  · rw [hq.live, hlive, hh.live, List.drop_drop, List.drop_drop, Nat.add_assoc]
  · have hqle := hq.le
    rw [hlive, hh.live, List.drop_drop, List.length_drop] at hqle
    have hlt := hc.1
    omega
  · rw [hq.stat, hstat, hh.stat]

/-! ## Sound heads -/

theorem ofBe32_lt (mem : Bytes) : ofBe32 mem < 2 ^ 32 := by
  have hfold : ∀ (l : Bytes) (n : Nat),
      l.foldl (fun n b => n * 256 + b.toNat) n < (n + 1) * 256 ^ l.length := by
    intro l
    induction l with
    | nil => intro n; simp
    | cons b l ih =>
      intro n
      have hb : b.toNat < 256 := b.toNat_lt
      calc List.foldl (fun n b => n * 256 + b.toNat) (n * 256 + b.toNat) l
          < (n * 256 + b.toNat + 1) * 256 ^ l.length := ih _
        _ ≤ ((n + 1) * 256) * 256 ^ l.length := Nat.mul_le_mul_right _ (by omega)
        _ = (n + 1) * 256 ^ (b :: l).length := by rw [List.length_cons, Nat.pow_succ]; ring
  have h := hfold (mem.take 4) 0
  have hlen : (mem.take 4).length ≤ 4 := List.length_take_le ..
  calc ofBe32 mem < (0 + 1) * 256 ^ (mem.take 4).length := h
    _ ≤ (0 + 1) * 256 ^ 4 := Nat.mul_le_mul_left _ (Nat.pow_le_pow_right (by decide) hlen)
    _ = 2 ^ 32 := by decide

theorem totallen_lt {n : Int} (hp : parseMsg d n = some h) : h.totallen < 2 ^ 32 := by
  unfold parseMsg at hp
  split at hp
  · exact absurd hp (by simp)
  · rw [← Option.some.inj hp]
    exact ofBe32_lt d

theorem bodylen_of_le (hle : headsize ≤ h.totallen) (hlt : h.totallen < 2 ^ 32) :
    h.bodylen = h.totallen - headsize := by
  rw [HeadInfo.bodylen, show headsize = 12 from rfl] at *
  omega

/-- The copies of a message that is there are in bounds if and only if its head is sound. -/
theorem bodyCopies_inBounds_iff {n : Nat} (hwhole : h.totallen ≤ n)
    (hle : headsize ≤ h.totallen) (hlt : h.totallen < 2 ^ 32) :
    (∀ c ∈ bodyCopies s n h, c.InBounds) ↔ (h.cmdid = reqAuth → h.totallen ≤ headsize + 128) ∧
      (h.cmdid = reqHeartbeat → s.cStat.isSome → headsize < n) := by
  have hbody := bodylen_of_le hle hlt
  have hauth : reqAuth ≠ reqHeartbeat := by decide
  have hsrc : headsize + h.bodylen ≤ n := by omega
  unfold bodyCopies
  by_cases ha : h.cmdid = reqAuth
  · rw [if_pos ha]
    constructor
    · intro hc
      have hdst := (hc _ (List.mem_singleton_self _)).dst 128 rfl
      have hdst : h.bodylen ≤ 128 := hdst
      exact ⟨fun _ => by omega, fun hb => absurd (ha.symm.trans hb) hauth⟩
    · rintro ⟨hfits, -⟩ c hc
      obtain rfl := List.mem_singleton.mp hc
      have hfits := hfits ha
      refine ⟨hsrc, fun m hm => ?_⟩
      obtain rfl : 128 = m := Option.some.inj hm
      show h.bodylen ≤ 128
      omega
  · rw [if_neg ha]
    cases hs : s.cStat with
    | none => exact ⟨fun _ => ⟨fun he => absurd he ha, fun _ hn => absurd hn (by simp)⟩,
        fun _ c hc => absurd hc (by simp)⟩
    | some written =>
      rw [if_neg (by simp)]
      by_cases hb : h.cmdid = reqHeartbeat
      · rw [if_pos hb]
        constructor
        · exact fun hc => ⟨fun he => absurd he ha, fun _ _ => (hc _ (List.mem_singleton_self _)).src⟩
        · rintro ⟨-, hbyte⟩ c hc
          obtain rfl := List.mem_singleton.mp hc
          refine ⟨hbyte hb rfl, fun m hm => ?_⟩
          obtain rfl : 1 = m := Option.some.inj hm
          exact Nat.le_refl 1
      · rw [if_neg hb]
        refine ⟨fun _ => ⟨fun he => absurd he ha, fun he => absurd he hb⟩, fun _ c hc => ?_⟩
        obtain rfl := List.mem_singleton.mp hc
        exact ⟨hsrc, fun m hm => absurd hm (by simp)⟩

theorem headCopy_inBounds {n : Nat} (hle : headsize ≤ n) :
    VossCopy.InBounds ⟨0, headsize, n, some headsize⟩ := by
  refine ⟨by show 0 + headsize ≤ n; omega, fun m hm => ?_⟩
  obtain rfl : headsize = m := Option.some.inj hm
  exact Nat.le_refl _

/-- A round takes at least a head and copies in bounds if and only if the head it finds is sound. -/
theorem round_sound_iff (hh : HoldsFrom s t p) (hd : headAt s.peer.recv.live p = some h) (io : VossIo) :
    ((checkReqIo cfg io t).handled = true →
        (checkReqIo cfg io t).state.peer.recv.len + headsize ≤ t.peer.recv.len) ∧
      (∀ c ∈ (checkReqIo cfg io t).copies, c.InBounds) ↔
    SoundHead s (s.peer.recv.live.length - p) h := by
  have hlen := hh.len
  have hparse := hh.parse.trans hd
  have hhead := headCopy_inBounds (le_of_parseMsg hparse)
  have hone : ∀ c ∈ ([⟨0, headsize, t.peer.recv.len, some headsize⟩] : List VossCopy), c.InBounds := by
    intro c hc
    rwa [List.mem_singleton.mp hc]
  rw [checkReqIo_eq hh, hd]
  unfold checkHeadIo
  dsimp only
  by_cases hmsg : h.IsMsg
  · rw [if_pos hmsg]
    by_cases hwhole : t.peer.recv.len < h.totallen
    · rw [if_pos hwhole]
      exact ⟨fun _ _ hle => absurd hle (by omega), fun _ => ⟨fun hf => absurd hf (by simp), hone⟩⟩
    · rw [if_neg hwhole]
      obtain ⟨hrecv, -⟩ := checkMsg_getD_frame cfg t.peer.recv.data h t
      have hlt := totallen_lt hparse
      have htake : (((checkMsg cfg t.peer.recv.data h t).getD t).consume h.totallen).peer.recv.len =
          t.peer.recv.len - h.totallen := by
        rw [len_consume, hrecv]
      dsimp only
      rw [htake, List.forall_mem_cons, ← hlen]
      constructor
      · rintro ⟨hshrinks, -, hbody⟩ - -
        have hle : headsize ≤ h.totallen := by
          have := hshrinks rfl
          omega
        rw [bodyCopies_inBounds_iff (by omega) hle hlt, hh.stat] at hbody
        exact ⟨hle, hbody⟩
      · intro hsound
        obtain ⟨hle, hbody⟩ := hsound hmsg (by omega)
        refine ⟨fun _ => by omega, hhead, ?_⟩
        rw [bodyCopies_inBounds_iff (by omega) hle hlt, hh.stat]
        exact hbody
  · rw [if_neg hmsg]
    refine ⟨fun _ hm => absurd hm hmsg, fun _ => ?_⟩
    by_cases hcmd : h.cmdid = reqSubmit
    · rw [if_pos hcmd]
      obtain ⟨s1, hlive, -, -, -, -, -, hio⟩ := processDataReqIo_eq cfg h t
      rcases hio io with ⟨-, he, -⟩ | he <;> rw [he]
      · exact ⟨fun hf => absurd hf (by simp), hone⟩
      · refine ⟨fun _ => ?_, List.forall_mem_cons.mpr ⟨hhead, subRecvIo_inBounds cfg io s1⟩⟩
        have hle := subRecvIo_len_le cfg io s1
        have hs1 : s1.peer.recv.len = t.peer.recv.len - headsize := by
          rw [← Mybuff.length_live, hlive, List.length_drop, Mybuff.length_live]
        have hle12 := le_of_parseMsg hparse
        show (subRecvIo cfg io s1).1.2.peer.recv.len + headsize ≤ t.peer.recv.len
        omega
    · rw [if_neg hcmd]
      exact ⟨fun hf => absurd hf (by simp), hone⟩

/-! ## The loop -/

theorem Starts.holdsFrom (h : Starts cfg s t) : ∃ p, HeadPos s p ∧ HoldsFrom s t p := by
  cases h with
  | idle h => exact ⟨0, .start h, rfl, Nat.zero_le _, rfl⟩
  | body io h hin hclose =>
    obtain ⟨-, hf, q, hc, hq⟩ := subRecvIo_done _ _ _ hin hclose
    exact ⟨q, .body h hf hc, hq.live, hq.le, hq.stat⟩

/-- Every round begins at a position at which a head is looked for. -/
theorem InLoop.holdsFrom (h : InLoop cfg s t) : ∃ p, HeadPos s p ∧ HoldsFrom s t p := by
  obtain ⟨t0, hstart, hturns⟩ := h
  induction hturns with
  | refl => exact hstart.holdsFrom
  | tail _ hturn ih =>
    obtain ⟨p, hpos, hh⟩ := ih
    exact hturn.next hh hpos

/-- At every such position some round begins. -/
theorem HeadPos.inLoop (cfg : VossCfg) (h : HeadPos s p) : ∃ t, InLoop cfg s t ∧ HoldsFrom s t p := by
  have hnext : ∀ {t t' q}, InLoop cfg s t → Turns cfg t t' → HoldsFrom s t' q →
      ∃ t, InLoop cfg s t ∧ HoldsFrom s t q := fun ⟨t0, hs, ht⟩ hturn hh =>
    ⟨_, ⟨t0, hs, ht.tail hturn⟩, hh⟩
  induction h with
  | start h => exact ⟨_, ⟨_, .idle h, .refl⟩, rfl, Nat.zero_le _, rfl⟩
  | body h hf hc =>
    obtain ⟨io, -, hout, hq⟩ := subRecvIo_completes (s := vossEnter cfg s) cfg h hf hc
    exact ⟨_, ⟨_, .body io h (by rw [hout]; simp) (by rw [hout]; simp), .refl⟩, hq.live, hq.le, hq.stat⟩
  | message _ hd hmsg hwhole ih =>
    obtain ⟨t, hin, hh⟩ := ih
    obtain ⟨t', hturn, hh'⟩ := hh.message cfg hd hmsg hwhole
    exact hnext hin hturn hh'
  | submit _ hd hcmd hc ih =>
    obtain ⟨t, hin, hh⟩ := ih
    obtain ⟨t', hturn, hh'⟩ := hh.submit cfg hd hcmd hc
    exact hnext hin hturn hh'

/-- A round that goes on has handled a message. -/
theorem Turns.handled {t' : Voss} (hh : HoldsFrom s t p) (ht : Turns cfg t t') :
    ∃ io, (checkReqIo cfg io t).state = t' ∧ (checkReqIo cfg io t).handled = true := by
  obtain ⟨io, hstate, hret⟩ := ht
  refine ⟨io, hstate, ?_⟩
  rw [checkReqIo_eq hh] at hret ⊢
  rcases hd : headAt s.peer.recv.live p with _ | h
  · rw [hd] at hret
    exact absurd hret (by simp [checkHeadIo])
  rw [hd] at hret
  unfold checkHeadIo at hret ⊢
  dsimp only at hret ⊢
  split at hret
  · next hmsg =>
    rw [if_pos hmsg]
    split at hret
    · exact absurd hret (by simp)
    · next hwhole => rw [if_neg hwhole]
  · next hmsg =>
    rw [if_neg hmsg]
    split at hret
    · next hcmd =>
      rw [if_pos hcmd]
      obtain ⟨s1, -, -, -, -, -, -, hio⟩ := processDataReqIo_eq cfg h t
      rcases hio io with ⟨-, he, -⟩ | he
      · rw [he] at hret
        exact absurd hret (by simp)
      · rw [he]
    · exact absurd hret (by simp)

/-- While the heads are sound, every round takes a head's length and copies in bounds. -/
theorem SoundHeads.round (h : SoundHeads s) (hin : InLoop cfg s t) (io : VossIo) :
    ((checkReqIo cfg io t).handled = true →
        (checkReqIo cfg io t).state.peer.recv.len + headsize ≤ t.peer.recv.len) ∧
      ∀ c ∈ (checkReqIo cfg io t).copies, c.InBounds := by
  obtain ⟨p, hpos, hh⟩ := hin.holdsFrom
  rcases hd : headAt s.peer.recv.live p with _ | head
  · rw [checkReqIo_eq hh, hd]
    exact ⟨fun hf => absurd hf (by simp [checkHeadIo]), fun c hc => absurd hc (by simp [checkHeadIo])⟩
  · exact (round_sound_iff hh hd io).mpr (h p head hpos hd)

/-- The loop ends: the bytes in the buffer become fewer with every round. -/
theorem SoundHeads.returns (h : SoundHeads s) (n : Nat) : ∀ t, InLoop cfg s t → t.peer.recv.len ≤ n →
    Acc (fun b a => Turns cfg a b) t := by
  induction n with
  | zero =>
    intro t hin hlen
    refine Acc.intro t fun t' hturn => ?_
    obtain ⟨p, -, hh⟩ := hin.holdsFrom
    obtain ⟨io, rfl, hhandled⟩ := hturn.handled hh
    have hle := (h.round hin io).1 hhandled
    rw [show headsize = 12 from rfl] at hle
    omega
  | succ n ih =>
    intro t hin hlen
    refine Acc.intro t fun t' hturn => ?_
    obtain ⟨p, -, hh⟩ := hin.holdsFrom
    obtain ⟨io, he, hhandled⟩ := hturn.handled hh
    have hle := (h.round hin io).1 hhandled
    rw [he, show headsize = 12 from rfl] at hle
    obtain ⟨t0, hs, ht⟩ := hin
    exact ih t' ⟨t0, hs, ht.tail hturn⟩ (by omega)

/-- **Robustness.** `svc_recv` comes to an end, takes at least a head's length for every message and
copies in bounds if and only if the heads that it comes to are sound. -/
theorem svcRecv_robust_iff (cfg : VossCfg) (s : Voss) : Robust cfg s ↔ SoundHeads s := by
  constructor
  · intro h p head hpos hd
    obtain ⟨t, hin, hh⟩ := hpos.inLoop cfg
    exact (round_sound_iff hh hd ⟨true, some⟩).mp
      ⟨h.consumes t ⟨true, some⟩ hin, h.bounds t ⟨true, some⟩ hin⟩
  · intro h
    exact ⟨fun t hs => h.returns t.peer.recv.len t ⟨t, hs, .refl⟩ (Nat.le_refl _),
      fun t io hin => (h.round hin io).1, fun t io hin => (h.round hin io).2,
      fun io _ => subRecvIo_inBounds cfg io _⟩

/-- A peer that has sent a head of length 0 and a byte. -/
def zeroLength : Voss :=
  { Voss.sample with
    peer := { Voss.sample.peer with
      recv := mybuffSetdata 64 (fun _ => 0) mybuffInit (be32 0 ++ be32 reqHeartbeat ++ be32 1 ++ [3])
      sockStat := .connected }
    cStat := none }

/-- The heartbeat is handled again and again: it takes nothing from the buffer. -/
theorem zero_length_loops : ¬ Robust .sample zeroLength := by
  intro h
  have hstart : Starts .sample zeroLength (vossEnter .sample zeroLength) :=
    .idle (by rintro (he | he) <;> exact absurd he (by decide))
  have hturn : Turns .sample (vossEnter .sample zeroLength) (vossEnter .sample zeroLength) :=
    ⟨⟨true, some⟩, rfl, Or.inl rfl⟩
  have hno : ∀ t, Acc (fun b a => Turns .sample a b) t → ¬ Turns .sample t t := by
    intro t hacc
    induction hacc with
    | intro t _ ih => exact fun hself => ih t hself hself
  exact hno _ (h.returns _ hstart) hturn

end VfsOss
