import VfsOss.Net.Proofs.MybuffProofs
import VfsOss.Net.Proofs.SendProofs
import VfsOss.Sm.Proofs.HandoverProofs
import VfsOss.Sm.Proofs.SegmentsProofs
import VfsOss.Uc.Delivery
import VfsOss.Uc.Proofs.SplitProofs

/-!
# Proofs: every block arrives, whatever the other connections do

What a step does is known from the run of one connection alone, started in the state before the step. The other
connections keep what they have: their slots, their records and their files.
-/

namespace VfsOss

open CLib

variable {cfg : Cfg} {io : RecvIo} {fd fd' : Nat} {s s' : Sm} {b : Parcel} {t : Tasklist} {c d r : Bytes} {w : Delivery}
variable {parcels : Nat → Option Parcel} {fin : List Tasklist} {hungUp : Nat → Prop} {ends : List (Nat × Tasklist)}

/-! ## The whole block is searched, the live bytes are found -/

theorem checkReq_scan (io : RecvIo) (hscan : cstr (s.acon fd).recvBuff.data = cstr (s.acon fd).recvBuff.live)
    (p : Peer) : checkReq Mybuff.data cfg io fd p s = checkReq Mybuff.live cfg io fd p s := by
  unfold checkReq
  rw [hscan]

theorem svcRecv_scan (cfg : Cfg) (io : RecvIo) (h : cstr (s.acon fd).recvBuff.data = cstr (s.acon fd).recvBuff.live ∨
    ∃ p, (s.acon fd).user = some p ∧ p.sockStat = .recvBodyIng) :
    svcRecv Mybuff.data cfg io fd s = svcRecv Mybuff.live cfg io fd s := by
  unfold svcRecv
  cases hu : (s.acon fd).user with
  | none => rfl
  | some p =>
    dsimp only
    split
    · rfl
    · next hidle =>
      rcases h with hscan | ⟨p', hp', hbody⟩
      · rw [checkReq_scan io hscan]
      · obtain rfl : p = p' := Option.some.inj (hu.symm.trans hp')
        exact absurd hbody hidle

theorem doRecv_scan (cfg : Cfg) (h : (s.acon fd).recvBuff.Clear ∨ ∃ p, (s.acon fd).user = some p ∧
    p.sockStat = .recvBodyIng) (hm : ∀ i, io.mem i = 0) (c : Bytes) :
    (doRecv Mybuff.data cfg io fd c s).2 = (doRecv Mybuff.live cfg io fd c s).2 := by
  unfold doRecv
  split
  · generalize hs1 : s.setConn fd { s.acon fd with
      recvBuff := mybuffSetdata cfg.initBuffSize io.mem (s.acon fd).recvBuff c } = s1
    have hsvc : svcRecv Mybuff.data cfg io fd s1 = svcRecv Mybuff.live cfg io fd s1 := by
      refine svcRecv_scan cfg io ?_
      rw [← hs1, setConn_acon]
      exact h.imp_left fun hclear => (hclear.setdata hm c).cstr_data
    dsimp only
    rw [hsvc]
  · rfl

/-- A call that does not end the header only takes the bytes. -/
theorem doRecv_waits (cfg : Cfg) (io : RecvIo) (ho : (s.acon fd).isOpen = true) {p : Peer}
    (hp : (s.acon fd).user = some p) (hidle : p.sockStat ≠ .recvBodyIng) (hlive : (s.acon fd).recvBuff.live = r)
    (hr : strstr (r ++ c) (crlf ++ crlf) = none) :
    (doRecv Mybuff.live cfg io fd c s).2 = s.setConn fd { s.acon fd with
      recvBuff := mybuffSetdata cfg.initBuffSize io.mem (s.acon fd).recvBuff c } := by
  unfold doRecv
  rw [if_pos ho]
  dsimp only
  generalize hs1 : s.setConn fd { s.acon fd with
    recvBuff := mybuffSetdata cfg.initBuffSize io.mem (s.acon fd).recvBuff c } = s1
  have hu : (s1.acon fd).user = some p := by
    rw [← hs1, setConn_acon]
    exact hp
  have hwait : Waiting fd s (r ++ c) s1 := by
    rw [← hs1]
    refine ⟨rfl, rfl, ?_, ?_, ?_⟩
    · rw [setConn_acon]
      exact ho
    · rw [setConn_acon]
    · rw [setConn_acon, ← hlive]
      exact live_mybuffSetdata ..
  have hsvc : svcRecv Mybuff.live cfg io fd s1 = (.addEpollin, s1) := by
    unfold svcRecv
    rw [hu]
    dsimp only
    rw [if_neg hidle, checkReq_waiting hwait hr]
  rw [hsvc]
  rfl

/-! ## One connection -/

/-- What is made of the header: the record of the block. -/
structure Parcel.Record (cfg : Cfg) (b : Parcel) (t : Tasklist) : Prop where
  sub : t.sub = { b.sub with starttime := 0 }
  fsize : t.base.fsize = b.bytes.length
  tmpfile : t.base.tmpfile = b.tmpfile cfg

/-- The connection behind the bytes `r` of the header and the block. -/
inductive Parcel.At (cfg : Cfg) (b : Parcel) (fd : Nat) : Bytes → Sm → Prop
  | header {r : Bytes} {s : Sm} (p : Peer) (hr : strstr r (crlf ++ crlf) = none) (isOpen : (s.acon fd).isOpen = true)
      (user : (s.acon fd).user = some p) (idle : p.sockStat ≠ .recvBodyIng) (live : (s.acon fd).recvBuff.live = r)
      (clear : (s.acon fd).recvBuff.Clear) : At cfg b fd r s
  | body {d : Bytes} {s : Sm} (p : Peer) (t : Tasklist) (node : Nat) (part : d <+: b.bytes)
      (short : d.length < b.bytes.length) (isOpen : (s.acon fd).isOpen = true)
      (user : (s.acon fd).user = some p) (stat : p.sockStat = .recvBodyIng)
      (task : p.recvtask = some (t.holding d)) (file : p.localInFd = some (node, d.length))
      (live : (s.acon fd).recvBuff.live = []) (record : b.Record cfg t)
      (names : s.fs.names (b.tmpfile cfg) = some node) (content : s.fs.node node = d) : At cfg b fd (b.header ++ d) s

theorem Parcel.Valid.length (hv : b.Valid) : (b.bytes.length : Int) = b.sub.end_ - b.sub.start + 1 := by
  rw [Parcel.bytes, FileSeg.length_bytes]
  exact hv.len

theorem Parcel.Valid.text (hv : b.Valid) : HeaderText b.header (headerLines b.base b.sub) :=
  headerText_createHeader hv.sendable hv.fits hv.block

theorem Parcel.At.isOpen_eq (h : b.At cfg fd r s) : (s.acon fd).isOpen = true := by
  cases h with
  | header _ _ isOpen => exact isOpen
  | body _ _ _ _ _ isOpen => exact isOpen

/-- The connection is not behind all bytes. -/
theorem Parcel.At.not_whole (hv : b.Valid) (h : b.At cfg fd r s) : r ≠ b.header ++ b.bytes := by
  rintro rfl
  generalize hr : b.header ++ b.bytes = r at h
  cases h with
  | header p hnone =>
    obtain ⟨k, hk, -⟩ := hv.text.split
    rw [← hr, strstr_append hk] at hnone
    exact absurd hnone (Option.some_ne_none k)
  | body p t node part short =>
    obtain rfl := List.append_cancel_left hr
    exact absurd short (Nat.lt_irrefl _)

/-! ## What a call leaves alone -/

/-- The other connections, and the other files. -/
structure Frame (fd : Nat) (file : Bytes) (s s' : Sm) : Prop where
  acon : ∀ {fd'}, fd' ≠ fd → s'.acon fd' = s.acon fd'
  files : ∀ {q}, q ≠ file → s.fs.Keeps s'.fs q

theorem Parcel.At.frame {file : Bytes} (h : b.At cfg fd' r s) (hf : Frame fd file s s') (hfd : fd' ≠ fd)
    (hfile : b.tmpfile cfg ≠ file) : b.At cfg fd' r s' := by
  have hacon := hf.acon hfd
  cases h with
  | header p hr isOpen user idle live clear =>
    rw [← hacon] at isOpen user live clear
    exact .header p hr isOpen user idle live clear
  | body p t node part short isOpen user stat task file live record names content =>
    rw [← hacon] at isOpen user live
    obtain ⟨hnames, hnode⟩ := hf.files hfile node names
    exact .body p t node part short isOpen user stat task file live record hnames (hnode.trans content)

theorem Parcel.Ended.frame {file : Bytes} {hung : Prop} (h : b.Ended cfg hung t s) (hf : Frame fd file s s')
    (hfile : b.tmpfile cfg ≠ file) : b.Ended cfg hung t s' := by
  have hkeep := hf.files hfile
  rw [← h.tmpfile] at hkeep
  refine ⟨h.sub, h.tmpfile, ?_⟩
  rcases h.bytes with ⟨hok, hall⟩ | ⟨hpeer, hhung, part, hpart, hlt, hcontent⟩
  · exact Or.inl ⟨hok, hkeep.content hall⟩
  · exact Or.inr ⟨hpeer, hhung, part, hpart, hlt, hkeep.content hcontent⟩

/-! ## The bytes of a call -/

/-- What a call makes of the connection behind `r`: it goes on, or its record is the last in `TASK_FIN`. -/
def Parcel.Taken (cfg : Cfg) (b : Parcel) (fd : Nat) (r : Bytes) (s s' : Sm) : Prop :=
  (b.At cfg fd r s' ∧ s'.store.vfstask .fin = s.store.vfstask .fin) ∨
  ((s'.acon fd).isOpen = false ∧ ∃ t, b.Ended cfg False t s' ∧ s'.store.vfstask .fin = s.store.vfstask .fin ++ [t])

/-- What a block has been started with. -/
structure Parcel.Started (cfg : Cfg) (b : Parcel) (s : Sm) (u : Start) : Prop where
  record : b.Record cfg u.task
  names : u.fs.names (b.tmpfile cfg) = some u.node
  files : ∀ {q}, q ≠ b.tmpfile cfg → s.fs.Keeps u.fs q
  fin : u.store.vfstask .fin = s.store.vfstask .fin
  free : ∀ q, ∀ v ∈ u.store.vfstask q, v.addr ≠ u.task.addr

variable {u : Start}

theorem Parcel.Started.after_files (hu : b.Started cfg s u) (h : u.After fd d s') {q : Bytes}
    (hq : q ≠ b.tmpfile cfg) : s.fs.Keeps s'.fs q := by
  have hnode : u.fs.names q ≠ some u.node := fun hn => hq (u.fs.inj hn hu.names)
  have hset : ∀ c, u.fs.Keeps (u.fs.setNode u.node c) q := by
    intro c j hj
    have hne : j ≠ u.node := fun he => hnode (he ▸ hj)
    exact ⟨hj, Function.update_of_ne hne ..⟩
  refine (hu.files hq).trans ?_
  rcases Int.lt_or_le d.length u.task.base.fsize with hlt | hle
  · rw [(h.more hlt).fs]
    exact hset d
  · rw [(h.last hle).fs]
    exact hset _

theorem Parcel.Started.taken (hu : b.Started cfg s u) (h : u.After fd d s') (hpre : d <+: b.bytes) :
    b.Taken cfg fd (b.header ++ d) s s' := by
  have hsize := hu.record.fsize
  rcases Nat.lt_or_ge d.length b.bytes.length with hlt | hge
  · have hrec := h.more (by omega)
    obtain ⟨p, hp, hstat, htask, hfile⟩ := hrec.user
    refine Or.inl ⟨.body p u.task u.node hpre hlt hrec.isOpen hp hstat htask hfile hrec.live hu.record ?_ ?_, ?_⟩
    · rw [hrec.fs]
      exact hu.names
    · rw [hrec.fs, FileSystem.node_setNode_self]
    · rw [hrec.store, hu.fin]
  · obtain rfl := hpre.eq_of_length_le hge
    have hfin := h.last (by omega)
    have htake : b.bytes.take u.task.base.fsize.toNat = b.bytes := List.take_of_length_le (by omega)
    rw [htake] at hfin
    refine Or.inr ⟨hfin.isOpen, { (u.task.holding b.bytes).over .ok with status := .fin }, ⟨hu.record.sub,
      hu.record.tmpfile, Or.inl ⟨rfl, ?_⟩⟩, ?_⟩
    · rw [hfin.fs]
      show (u.fs.setNode u.node b.bytes).content u.task.base.tmpfile = _
      rw [hu.record.tmpfile]
      exact FileSystem.content_setNode _ hu.names _
    · have hfree : ∀ q, ∀ v ∈ u.store.vfstask q, v.addr ≠ ((u.task.holding b.bytes).over .ok).addr := hu.free
      rw [hfin.store, vfstask_vfsSetTask (by simp) hfree, Function.update_self, hu.fin]

/-- The record that is made of the header. -/
theorem Parcel.Valid.record (cfg : Cfg) (hv : b.Valid) (h : HttpHeader) (ip : Nat) (task0 : Tasklist) :
    b.Record cfg (prepared cfg ((SmClient.parseHeader h b.header).2.1.post ip task0)) := by
  have hs := hv.sendable
  have hlast := lastLine_whole hv.fits.1
  obtain ⟨-, hparse⟩ := parse_headLines hs (strstr_line hv.fits.2.1 crlf) h
  rw [List.take_left, ← hlast, ← createHeader_eq] at hparse
  have hfile : ∀ n, 255 ≤ n → snprintf n b.base.filename = b.base.filename :=
    fun n hn => snprintf_of_le (by have := hv.fits.2.2; omega)
  have hhost : ∀ n, 50 ≤ n → snprintf n b.base.hostname = b.base.hostname :=
    fun n hn => snprintf_of_le (by have := hv.fits.1; omega)
  rw [Parcel.header, hparse]
  refine ⟨rfl, ?_, ?_⟩
  · show toInt64 (b.sub.end_ - b.sub.start + 1) = _
    have hlen := hv.length
    have hshort := hv.short
    rw [Parcel.bytes, FileSeg.length_bytes] at hlen ⊢
    rw [← hlen]
    exact toInt64_of_range (by omega) (by omega)
  · show subfile (getLocaldir cfg (snprintf 256 (snprintf 128 b.base.hostname))
      (snprintf 256 (snprintf 255 b.base.filename))) b.sub.idx b.sub.count = _
    rw [hfile 255 (by omega), hfile 256 (by omega), hhost 128 (by omega), hhost 256 (by omega)]
    rfl

/-- The block is started in the call that ends the header. -/
theorem Parcel.Valid.started (hv : b.Valid) (hsited : WellSited s) {task0 : Tasklist} {st : TaskStore}
    (hg : vfsGetTask cfg.mallocOk s.store .home = (.ok task0, st)) (h : HttpHeader) (ip : Nat) :
    b.Started cfg s (Start.of cfg s.fs ((SmClient.parseHeader h b.header).2.1.post ip task0) st) := by
  have hrecord := hv.record cfg h ip task0
  generalize (SmClient.parseHeader h b.header).2.1 = header at hrecord ⊢
  obtain ⟨loc, hloc⟩ := hsited.placed
  have hfin : st.vfstask .fin = s.store.vfstask .fin := fin_of_get (by simp) hg
  refine ⟨hrecord, ?_, fun {q} hq => ?_, hfin, fun q v hmem heq => ?_⟩
  · rw [← hrecord.tmpfile]
    exact FileSystem.names_creat_self _
  · rw [← hrecord.tmpfile] at hq
    exact FileSystem.keeps_creat _ hq
  · have haddr : v.addr = task0.addr := heq
    have hq := (hloc.get hg).1.queue hmem
    rw [haddr, Function.update_self] at hq
    exact absurd hq (by simp)

/-- **A call of `do_recv`.** -/
theorem Parcel.At.recv (h : b.At cfg fd r s) (hv : b.Valid) (hsited : WellSited s) (hm : ∀ n, cfg.mallocOk n = true)
    (hopens : io.opens = true) (hw : io.write = some) (hmem : ∀ i, io.mem i = 0) (hr : r ++ c <+: b.header ++ b.bytes) :
    b.Taken cfg fd (r ++ c) s (smStep cfg s (.recv fd c io)) ∧
      Frame fd (b.tmpfile cfg) s (smStep cfg s (.recv fd c io)) := by
  have honly : OnlyConn fd s (smStep cfg s (.recv fd c io)) := (doRecv_moves cfg io Mybuff.data fd c hsited.1).2.1
  have hstep : smStep cfg s (.recv fd c io) = (doRecv Mybuff.data cfg io fd c s).2 := rfl
  have hmax : b.bytes.length ≤ 2 ^ 31 - 1 := by
    rw [Parcel.bytes, FileSeg.length_bytes]
    exact hv.short
  have hmin : 0 < b.bytes.length := by
    rw [Parcel.bytes, FileSeg.length_bytes]
    exact hv.some
  cases h with
  | header p hr0 isOpen user idle live clear =>
    rw [hstep, doRecv_scan cfg (Or.inl clear) hmem] at honly ⊢
    rcases hv.text.prefix_cases hr with hnone | ⟨d, hd, hc⟩
    · rw [doRecv_waits cfg io isOpen user idle live hnone] at honly ⊢
      refine ⟨Or.inl ⟨.header p hnone ?_ ?_ idle ?_ ?_, rfl⟩, honly.others, fun _ => .refl⟩
      · rw [setConn_acon]
        exact isOpen
      · rw [setConn_acon]
        exact user
      · rw [setConn_acon, ← live]
        exact live_mybuffSetdata ..
      · rw [setConn_acon]
        exact clear.setdata hmem c
    · obtain ⟨task0, st, hg⟩ := vfsGetTask_home hm s.store
      have hstarted := hv.started hsited hg p.header p.ip
      have hsize := hstarted.record.fsize
      have hwait : Waiting fd s r s := ⟨rfl, rfl, isOpen, rfl, live⟩
      have hafter : Start.After _ fd d (doRecv Mybuff.live cfg io fd c s).2 :=
        hwait.starts hv.text user idle hg hopens hw rfl (by omega) (by omega) hc
      rw [hc]
      exact ⟨hstarted.taken hafter hd, honly.others, hstarted.after_files hafter⟩
  | @body d _ p t node part short isOpen user stat task file live record names content =>
    rw [hstep, doRecv_scan cfg (Or.inr ⟨p, user, stat⟩) hmem] at honly ⊢
    have hsize := record.fsize
    have hstarted : b.Started cfg s ⟨t, s.store, s.fs, node⟩ := by
      refine ⟨record, names, fun _ => .refl, rfl, fun q v hmem => ?_⟩
      have htask : s.recvtask fd = some (t.holding d) := by
        rw [Sm.recvtask, user]
        exact task
      exact hsited.apart.queue (t := t.holding d) htask hmem
    have hfs : s.fs = s.fs.setNode node d := by
      show _ = FileSystem.mk ..
      rw [← content, Function.update_eq_self]
    have hrec : Start.Receiving ⟨t, s.store, s.fs, node⟩ fd d [] s :=
      ⟨rfl, hfs, isOpen, ⟨p, user, stat, task, file⟩, live⟩
    have hafter : Start.After ⟨t, s.store, s.fs, node⟩ fd d s :=
      ⟨fun _ => hrec, fun hle => absurd (show t.base.fsize ≤ d.length from hle) (by omega)⟩
    have hgoes : Start.After ⟨t, s.store, s.fs, node⟩ fd (d ++ c) (doRecv Mybuff.live cfg io fd c s).2 :=
      hafter.goesOn hw (show t.base.fsize ≤ 2 ^ 31 - 1 by omega) c
    rw [List.append_assoc] at hr ⊢
    exact ⟨hstarted.taken hgoes ((List.prefix_append_right_inj _).mp hr), honly.others, hstarted.after_files hgoes⟩

/-- **The end of a connection.** -/
theorem Parcel.At.hangUp (h : b.At cfg fd r s) (hsited : WellSited s) :
    Frame fd (b.tmpfile cfg) s (doClose fd s) ∧ ((doClose fd s).acon fd).isOpen = false ∧
    ((doClose fd s).store.vfstask .fin = s.store.vfstask .fin ∨
      ∃ t, b.Ended cfg True t (doClose fd s) ∧
        (doClose fd s).store.vfstask .fin = s.store.vfstask .fin ++ [t]) := by
  have honly : OnlyConn fd s (doClose fd s) := (doClose_move fd hsited.1).2.2.1
  have hclose : doClose fd s = (svcFiniconn fd s).setConn fd { (svcFiniconn fd s).acon fd with isOpen := false } := by
    rw [doClose, if_pos h.isOpen_eq]
  have hclosed : ((doClose fd s).acon fd).isOpen = false := by
    rw [hclose, setConn_acon]
  have hfs : (doClose fd s).fs = s.fs := by
    rw [hclose, setConn_fs]
    unfold svcFiniconn
    split
    · rfl
    · rfl
  refine ⟨⟨honly.others, fun _ => by rw [hfs]; exact .refl⟩, hclosed, ?_⟩
  cases h with
  | header p hr isOpen user idle =>
    have hnone : p.recvtask = none := (hsited.1 fd).idle user idle
    refine Or.inl ?_
    rw [hclose, setConn_store]
    unfold svcFiniconn
    rw [user]
    dsimp only
    rw [hnone]
    rfl
  | @body d _ p t node part short isOpen user stat task file live record names content =>
    have htask : s.recvtask fd = some (t.holding d) := by
      rw [Sm.recvtask, user]
      exact task
    have hstore : (doClose fd s).store = vfsSetTask s.store ((t.holding d).over .peererr) .fin := by
      rw [hclose, setConn_store]
      unfold svcFiniconn
      rw [user]
      dsimp only
      rw [task]
      rfl
    refine Or.inr ⟨{ (t.holding d).over .peererr with status := .fin }, ⟨record.sub, record.tmpfile,
      Or.inr ⟨rfl, trivial, d, part, short, ?_⟩⟩, ?_⟩
    · rw [hfs]
      show s.fs.content t.base.tmpfile = _
      rw [record.tmpfile, FileSystem.content_of_names _ names, content]
    · have hfree : ∀ q, ∀ v ∈ s.store.vfstask q, v.addr ≠ ((t.holding d).over .peererr).addr :=
        fun q v hmem => hsited.apart.queue (t := t.holding d) htask hmem
      rw [hstore, vfstask_vfsSetTask (by simp) hfree, Function.update_self]

/-! ## All connections -/

theorem Parcel.Ended.mono {p q : Prop} (h : b.Ended cfg p t s) (hpq : p → q) : b.Ended cfg q t s := by
  refine ⟨h.sub, h.tmpfile, ?_⟩
  rcases h.bytes with hok | ⟨hpeer, hhung, hpart⟩
  · exact Or.inl hok
  · exact Or.inr ⟨hpeer, hpq hhung, hpart⟩

/-- A connection without a finished record: nothing of the bytes is lost, or it has been ended. -/
inductive Parcel.Going (cfg : Cfg) (b : Parcel) (hungUp : Prop) (fd : Nat) (w : Delivery) : Prop
  | upload (r : Bytes) (behind : b.At cfg fd r w.sm)
      (stream : r ++ (w.wires fd ++ (w.senders fd).buf.pending) = b.header ++ b.bytes) : Going cfg b hungUp fd w
  | dropped (isOpen : (w.sm.acon fd).isOpen = false) (hung : hungUp) : Going cfg b hungUp fd w

/-- The invariant of the deliveries. -/
structure Delivery.Inv (cfg : Cfg) (parcels : Nat → Option Parcel) (fin : List Tasklist) (hungUp : Nat → Prop)
    (w : Delivery) (ends : List (Nat × Tasklist)) : Prop where
  sited : WellSited w.sm
  fin : w.sm.store.vfstask .fin = fin ++ ends.map Prod.snd
  once : (ends.map Prod.fst).Nodup
  ended : ∀ e ∈ ends, ∃ b, parcels e.1 = some b ∧ b.Ended cfg (hungUp e.1) e.2 w.sm ∧ (w.sm.acon e.1).isOpen = false
  going : ∀ fd b, parcels fd = some b → fd ∉ ends.map Prod.fst → b.Going cfg (hungUp fd) fd w

variable {w' : Delivery}

/-- The step of one connection, as far as the others see it. -/
structure Delivery.Frame (fd : Nat) (file : Bytes) (w w' : Delivery) : Prop where
  sm : VfsOss.Frame fd file w.sm w'.sm
  wires : ∀ {fd'}, fd' ≠ fd → w'.wires fd' = w.wires fd'
  senders : ∀ {fd'}, fd' ≠ fd → w'.senders fd' = w.senders fd'

theorem Parcel.Going.frame {file : Bytes} {hung : Prop} (h : b.Going cfg hung fd' w) (hf : Delivery.Frame fd file w w')
    (hfd : fd' ≠ fd) (hfile : b.tmpfile cfg ≠ file) : b.Going cfg hung fd' w' := by
  cases h with
  | upload r behind stream =>
    rw [← hf.wires hfd, ← hf.senders hfd] at stream
    exact .upload r (behind.frame hf.sm hfd hfile) stream
  | dropped isOpen hhung =>
    rw [← hf.sm.acon hfd] at isOpen
    exact .dropped isOpen hhung

namespace Delivery.Inv

variable (hapart : FilesApart cfg parcels)
include hapart

theorem others (h : Delivery.Inv cfg parcels fin hungUp w ends) (hb : parcels fd = some b)
    (hf : Delivery.Frame fd (b.tmpfile cfg) w w') {e : Nat × Tasklist} (he : e ∈ ends) (hne : e.1 ≠ fd) :
    ∃ b, parcels e.1 = some b ∧ b.Ended cfg (hungUp e.1) e.2 w'.sm ∧ (w'.sm.acon e.1).isOpen = false := by
  obtain ⟨b', hb', hended, hclosed⟩ := h.ended e he
  have hfile : b'.tmpfile cfg ≠ b.tmpfile cfg := fun heq => hne (hapart _ _ _ _ hb' hb heq)
  refine ⟨b', hb', hended.frame hf.sm hfile, ?_⟩
  rw [hf.sm.acon hne]
  exact hclosed

theorem goesOn (h : Delivery.Inv cfg parcels fin hungUp w ends) (hb : parcels fd = some b)
    (hf : Delivery.Frame fd (b.tmpfile cfg) w w') (hsited : WellSited w'.sm)
    (hfin : w'.sm.store.vfstask .fin = w.sm.store.vfstask .fin) (hdone : fd ∈ ends.map Prod.fst → w'.sm = w.sm)
    (hgoing : fd ∉ ends.map Prod.fst → b.Going cfg (hungUp fd) fd w') :
    Delivery.Inv cfg parcels fin hungUp w' ends := by
  refine ⟨hsited, hfin.trans h.fin, h.once, fun e he => ?_, fun fd' b' hb' hnot => ?_⟩
  · by_cases hne : e.1 = fd
    · rw [hdone (hne ▸ List.mem_map_of_mem he)]
      exact h.ended e he
    · exact h.others hapart hb hf he hne
  · by_cases hne : fd' = fd
    · subst hne
      obtain rfl := Option.some.inj (hb.symm.trans hb')
      exact hgoing hnot
    · exact (h.going fd' b' hb' hnot).frame hf hne fun heq => hne (hapart _ _ _ _ hb' hb heq)

theorem finishes (h : Delivery.Inv cfg parcels fin hungUp w ends) (hb : parcels fd = some b)
    (hf : Delivery.Frame fd (b.tmpfile cfg) w w') (hsited : WellSited w'.sm) (hnew : fd ∉ ends.map Prod.fst)
    (hended : b.Ended cfg (hungUp fd) t w'.sm) (hclosed : (w'.sm.acon fd).isOpen = false)
    (hfin : w'.sm.store.vfstask .fin = w.sm.store.vfstask .fin ++ [t]) :
    Delivery.Inv cfg parcels fin hungUp w' (ends ++ [(fd, t)]) := by
  refine ⟨hsited, ?_, ?_, fun e he => ?_, fun fd' b' hb' hnot => ?_⟩
  · rw [hfin, h.fin, List.map_append, List.append_assoc]
    rfl
  · rw [List.map_append]
    refine List.nodup_append.mpr ⟨h.once, List.nodup_singleton _, fun a ha a' ha' heq => ?_⟩
    have hfd : a' = fd := List.mem_singleton.mp ha'
    exact hnew (hfd ▸ heq ▸ ha)
  · rcases List.mem_append.mp he with he | he
    · have hne : e.1 ≠ fd := fun heq => hnew (heq ▸ List.mem_map_of_mem he)
      exact h.others hapart hb hf he hne
    · obtain rfl := List.mem_singleton.mp he
      exact ⟨b, hb, hended, hclosed⟩
  · rw [List.map_append, List.mem_append, not_or] at hnot
    have hne : fd' ≠ fd := fun heq => hnot.2 (List.mem_singleton.mpr heq)
    exact (h.going fd' b' hb' hnot.1).frame hf hne fun heq => hne (hapart _ _ _ _ hb' hb heq)

end Delivery.Inv

/-- An open connection has no finished record, and nothing of its bytes is lost. -/
theorem Delivery.Inv.uploading (h : Delivery.Inv cfg parcels fin hungUp w ends) (hb : parcels fd = some b)
    (ho : (w.sm.acon fd).isOpen = true) :
    fd ∉ ends.map Prod.fst ∧ ∃ r, b.At cfg fd r w.sm ∧
      r ++ (w.wires fd ++ (w.senders fd).buf.pending) = b.header ++ b.bytes := by
  have hnew : fd ∉ ends.map Prod.fst := by
    intro hin
    obtain ⟨e, he, rfl⟩ := List.mem_map.mp hin
    obtain ⟨-, -, -, hclosed⟩ := h.ended e he
    exact absurd (ho.symm.trans hclosed) (by simp)
  cases h.going fd b hb hnew with
  | upload r behind stream => exact ⟨hnew, r, behind, stream⟩
  | dropped isOpen => exact absurd (ho.symm.trans isOpen) (by simp)

/-! ## The steps -/

/-- What the socket takes of a connection is what `do_send` takes from its buffer. -/
theorem doSendBuff_taken (x : Sender) (io : SendIo) :
    (doSendBuff x io).sent.drop x.sent.length ++ (doSendBuff x io).buf.pending = x.buf.pending := by
  obtain ⟨more, hmore⟩ := doSendBuff_sent x io
  obtain ⟨hstream, -⟩ := doSendBuff_moved x io
  rw [← hmore, List.append_assoc] at hstream
  rw [← hmore, List.drop_left]
  exact List.append_cancel_left hstream

theorem Delivery.Inv.send (h : Delivery.Inv cfg parcels fin hungUp w ends) (hapart : FilesApart cfg parcels)
    (hb : parcels fd = some b) (io : SendIo) :
    Delivery.Inv cfg parcels fin hungUp (deliveryStep cfg w (.send fd io)) ends := by
  have hframe : Delivery.Frame fd (b.tmpfile cfg) w (deliveryStep cfg w (.send fd io)) := by
    refine ⟨⟨fun _ => rfl, fun _ => .refl⟩, fun hne => ?_, fun hne => ?_⟩
    · exact Function.update_of_ne hne ..
    · exact Function.update_of_ne hne ..
  refine h.goesOn hapart hb hframe h.sited rfl (fun _ => rfl) fun hnot => ?_
  cases h.going fd b hb hnot with
  | upload r behind stream =>
    refine .upload r behind ?_
    unfold deliveryStep
    dsimp only
    rw [Function.update_self, Function.update_self, List.append_assoc (w.wires fd), doSendBuff_taken]
    exact stream
  | dropped isOpen hhung => exact .dropped isOpen hhung

theorem Delivery.Inv.recv (h : Delivery.Inv cfg parcels fin hungUp w ends) (hapart : FilesApart cfg parcels)
    (hm : ∀ n, cfg.mallocOk n = true) (hb : parcels fd = some b) (hv : b.Valid) (n : Nat)
    (hio : (DeliveryAct.recv fd n io).Full) :
    ∃ ends', Delivery.Inv cfg parcels fin hungUp (deliveryStep cfg w (.recv fd n io)) ends' := by
  obtain ⟨hopens, hw, hmem⟩ := hio
  have hsited : WellSited (smStep cfg w.sm (.recv fd ((w.wires fd).take n) io)) := smStep_sited h.sited _
  have hwires : ∀ {fd'}, fd' ≠ fd → (deliveryStep cfg w (.recv fd n io)).wires fd' = w.wires fd' :=
    fun hne => Function.update_of_ne hne ..
  by_cases ho : (w.sm.acon fd).isOpen = true
  · obtain ⟨hnew, r, behind, stream⟩ := h.uploading hb ho
    have hsplit : r ++ (w.wires fd).take n ++ ((w.wires fd).drop n ++ (w.senders fd).buf.pending) =
        b.header ++ b.bytes := by
      rw [List.append_assoc, ← List.append_assoc ((w.wires fd).take n), List.take_append_drop]
      exact stream
    have hpre : r ++ (w.wires fd).take n <+: b.header ++ b.bytes := by
      rw [← hsplit]
      exact List.prefix_append _ _
    obtain ⟨htaken, hframe⟩ := behind.recv (c := (w.wires fd).take n) hv h.sited hm hopens hw hmem hpre
    have hf : Delivery.Frame fd (b.tmpfile cfg) w (deliveryStep cfg w (.recv fd n io)) :=
      ⟨hframe, hwires, fun _ => rfl⟩
    rcases htaken with ⟨hat, hfin⟩ | ⟨hclosed, t, hended, hfin⟩
    · refine ⟨ends, h.goesOn hapart hb hf hsited hfin (fun hin => absurd hin hnew) fun _ => ?_⟩
      refine .upload _ hat ?_
      unfold deliveryStep
      dsimp only
      rw [Function.update_self]
      exact hsplit
    · exact ⟨_, h.finishes hapart hb hf hsited hnew (hended.mono False.elim) hclosed hfin⟩
  · have hsame : (deliveryStep cfg w (.recv fd n io)).sm = w.sm := doRecv_closed cfg io Mybuff.data _ ho
    have hf : Delivery.Frame fd (b.tmpfile cfg) w (deliveryStep cfg w (.recv fd n io)) := by
      refine ⟨?_, hwires, fun _ => rfl⟩
      rw [hsame]
      exact ⟨fun _ => rfl, fun _ => .refl⟩
    refine ⟨ends, h.goesOn hapart hb hf hsited (by rw [hsame]) (fun _ => hsame) fun hnot => ?_⟩
    cases h.going fd b hb hnot with
    | upload r behind => exact absurd behind.isOpen_eq ho
    | dropped isOpen hhung =>
      refine .dropped ?_ hhung
      rw [hsame]
      exact isOpen

theorem Delivery.Inv.hangUp (h : Delivery.Inv cfg parcels fin hungUp w ends) (hapart : FilesApart cfg parcels)
    (hb : parcels fd = some b) (hhung : hungUp fd) :
    ∃ ends', Delivery.Inv cfg parcels fin hungUp (deliveryStep cfg w (.hangUp fd)) ends' := by
  have hsited : WellSited (smStep cfg w.sm (.close fd)) := smStep_sited h.sited _
  by_cases ho : (w.sm.acon fd).isOpen = true
  · obtain ⟨hnew, r, behind, stream⟩ := h.uploading hb ho
    obtain ⟨hframe, hclosed, hcase⟩ := behind.hangUp h.sited
    have hf : Delivery.Frame fd (b.tmpfile cfg) w (deliveryStep cfg w (.hangUp fd)) :=
      ⟨hframe, fun _ => rfl, fun _ => rfl⟩
    rcases hcase with hfin | ⟨t, hended, hfin⟩
    · exact ⟨ends, h.goesOn hapart hb hf hsited hfin (fun hin => absurd hin hnew) fun _ => .dropped hclosed hhung⟩
    · exact ⟨_, h.finishes hapart hb hf hsited hnew (hended.mono fun _ => hhung) hclosed hfin⟩
  · have hsame : deliveryStep cfg w (.hangUp fd) = w := by
      show { w with sm := doClose fd w.sm } = w
      rw [doClose_closed (by simpa using ho)]
    rw [hsame]
    exact ⟨ends, h⟩

/-- What is asked of a step. -/
structure DeliveryAct.Fair (parcels : Nat → Option Parcel) (hungUp : Nat → Prop) (a : DeliveryAct) : Prop where
  full : a.Full
  parcel : (parcels a.fd).isSome
  hung : ∀ fd, a = .hangUp fd → hungUp fd

/-- **The step.** -/
theorem deliveryStep_inv (h : Delivery.Inv cfg parcels fin hungUp w ends) (hapart : FilesApart cfg parcels)
    (hvalid : ∀ {fd b}, parcels fd = some b → b.Valid) (hm : ∀ n, cfg.mallocOk n = true) {a : DeliveryAct}
    (ha : a.Fair parcels hungUp) : ∃ ends', Delivery.Inv cfg parcels fin hungUp (deliveryStep cfg w a) ends' := by
  obtain ⟨b, hb⟩ := Option.isSome_iff_exists.mp ha.parcel
  cases a with
  | send fd io => exact ⟨ends, h.send hapart hb io⟩
  | recv fd n io => exact h.recv hapart hm hb (hvalid hb) n ha.full
  | hangUp fd => exact h.hangUp hapart hb (ha.hung fd rfl)

/-! ## The arrays -/

/-- The path in the header of a block is that of its file. -/
theorem Parcel.Valid.localdir (hv : b.Valid) (cfg : Cfg) : (headerLines b.base b.sub).localdir cfg = b.localdir cfg := by
  have hhost := hv.fits.1
  have hfile := hv.fits.2.2
  show getLocaldir cfg (snprintf 128 b.base.hostname) (snprintf 255 b.base.filename) = _
  rw [snprintf_of_le (by omega), snprintf_of_le (by omega)]
  rfl

/-- **The arrays hold** in a call for bytes of a block whose path fits. -/
theorem Parcel.At.holds (h : b.At cfg fd r s) (hv : b.Valid) (hpath : (b.localdir cfg).length ≤ 255)
    (hmem : ∀ i, io.mem i = 0) (hr : r ++ c <+: b.header ++ b.bytes) : ArraysHold cfg s (.recv fd c io) := by
  rw [arraysHold_recv_iff]
  intro _ q hq hidle
  rw [setConn_acon] at hq
  generalize hs1 : s.setConn fd { s.acon fd with
    recvBuff := mybuffSetdata cfg.initBuffSize io.mem (s.acon fd).recvBuff c } = s1
  cases h with
  | header p hr0 isOpen user idle live clear =>
    have hlive : (s1.acon fd).recvBuff.live = r ++ c := by
      rw [← hs1, setConn_acon, ← live]
      exact live_mybuffSetdata ..
    have hscan : cstr (s1.acon fd).recvBuff.data = cstr (s1.acon fd).recvBuff.live := by
      rw [← hs1, setConn_acon]
      exact (clear.setdata hmem c).cstr_data
    have hreq : ReqHolds Mybuff.live cfg fd q s1 := by
      rcases hv.text.prefix_cases hr with hnone | ⟨d, -, hd⟩
      · exact reqHolds_waiting hlive hnone q
      · exact (reqHolds_iff hv.text (hlive.trans hd) q).mpr fun _ => (hv.localdir cfg).symm ▸ hpath
    unfold ReqHolds at hreq ⊢
    rwa [hscan]
  | @body d _ p t node part short isOpen user stat task file live record names content =>
    exact absurd (Option.some.inj (user.symm.trans hq) ▸ stat) hidle

/-- What the arrays must hold in a step. -/
def DeliveryHolds (cfg : Cfg) (w : Delivery) : DeliveryAct → Prop
  | .recv fd n io => ArraysHold cfg w.sm (.recv fd ((w.wires fd).take n) io)
  | _ => True

theorem deliveryStepInto_guarded (cfg : Cfg) (w : Delivery) (a : DeliveryAct) :
    Guarded (DeliveryHolds cfg w a) (deliveryStepInto cfg w a) (deliveryStep cfg w a) := by
  cases a with
  | recv fd n io =>
    refine ((smStepInto_guarded cfg w.sm (.recv fd ((w.wires fd).take n) io)).map _).congr ?_
    exact ⟨fun h => ⟨h, fun t ht => absurd ht (by simp [processed])⟩, fun h => h.1⟩
  | send fd io => exact .pure _
  | hangUp fd => exact .pure _

theorem Delivery.Inv.holds (h : Delivery.Inv cfg parcels fin hungUp w ends)
    (hvalid : ∀ {fd b}, parcels fd = some b → b.Valid)
    (hpath : ∀ {fd b}, parcels fd = some b → (b.localdir cfg).length ≤ 255) {a : DeliveryAct}
    (ha : a.Fair parcels hungUp) : DeliveryHolds cfg w a := by
  cases a with
  | recv fd n io =>
    obtain ⟨b, hb⟩ := Option.isSome_iff_exists.mp ha.parcel
    by_cases ho : (w.sm.acon fd).isOpen = true
    · obtain ⟨-, r, behind, stream⟩ := h.uploading hb ho
      refine behind.holds (hvalid hb) (hpath hb) ha.full.2.2 ?_
      refine ⟨(w.wires fd).drop n ++ (w.senders fd).buf.pending, ?_⟩
      rw [List.append_assoc, ← List.append_assoc ((w.wires fd).take n), List.take_append_drop]
      exact stream
    · exact ⟨fun _ hl => absurd hl.isOpen ho, fun _ hq => absurd hq.isOpen ho⟩
  | send fd io => trivial
  | hangUp fd => trivial

/-! ## The run -/

/-- Before the first step. -/
theorem Delivery.Starts.inv (h : w.Starts cfg parcels) (hungUp : Nat → Prop) :
    Delivery.Inv cfg parcels (w.sm.store.vfstask .fin) hungUp w [] := by
  obtain ⟨n, as, hrun⟩ := h.reached
  refine ⟨?_, (List.append_nil _).symm, List.nodup_nil, fun e he => absurd he List.not_mem_nil, fun fd b hb _ => ?_⟩
  · rw [hrun]
    exact run_sited cfg n as
  · obtain ⟨hfresh, hclear⟩ := h.fresh hb
    obtain ⟨p, hp, hidle⟩ := hfresh.idle
    obtain ⟨k, mem, buf, hsender⟩ := h.sender hb
    refine .upload [] (.header p rfl hfresh.isOpen hp hidle hfresh.empty hclear) ?_
    rw [h.wire hb, hsender]
    show (mybuffSetdata k mem (mybuffReinit k mem buf) b.header).live ++ b.bytes = _
    rw [live_mybuffSetdata, live_mybuffReinit, List.nil_append]

theorem Delivery.Inv.sound (h : Delivery.Inv cfg parcels fin hungUp w ends)
    (hvalid : ∀ {fd b}, parcels fd = some b → b.Valid) : w.Sound cfg parcels fin hungUp ends := by
  refine ⟨h.fin, h.once, h.ended, fun fd b hb hnot => ?_⟩
  cases h.going fd b hb hnot with
  | upload r behind stream =>
    refine Or.inl ⟨behind.isOpen_eq, fun hquiet => behind.not_whole (hvalid hb) ?_⟩
    rw [hquiet.1, hquiet.2, List.append_nil, List.append_nil] at stream
    exact stream
  | dropped isOpen hhung => exact Or.inr ⟨isOpen, hhung⟩

/-- **Every block arrives, whatever the other connections do.** `uc_client` sends blocks over any number of new
connections to a reachable `sm_client`, and receives them into different files; the calls of the connections
interleave in any order. No array is overrun, and in every state the records that are finished since are those of the
connections that are done, one for each, in the order they got done; each has its block complete in its file, or the
connection was ended first and the file has the part that had come. -/
theorem deliveries_sound (hm : ∀ n, cfg.mallocOk n = true) (h : w.Starts cfg parcels) (acts : List DeliveryAct)
    (hacts : ∀ a ∈ acts, a.Full ∧ (parcels a.fd).isSome) :
    ∃ w' ends, acts.foldlM (deliveryStepInto cfg) w = .ok w' ∧
      w'.Sound cfg parcels (w.sm.store.vfstask .fin) (fun fd => .hangUp fd ∈ acts) ends := by
  have hfair : ∀ a ∈ acts, a.Fair parcels fun fd => DeliveryAct.hangUp fd ∈ acts := by
    intro a ha
    obtain ⟨hfull, hsome⟩ := hacts a ha
    exact ⟨hfull, hsome, fun fd heq => heq ▸ ha⟩
  have hstep : ∀ w' a, (∃ ends, Delivery.Inv cfg parcels (w.sm.store.vfstask .fin)
      (fun fd => .hangUp fd ∈ acts) w' ends) → a.Fair parcels (fun fd => DeliveryAct.hangUp fd ∈ acts) →
      ∃ ends, Delivery.Inv cfg parcels (w.sm.store.vfstask .fin) (fun fd => .hangUp fd ∈ acts)
        (deliveryStep cfg w' a) ends := fun w' a ⟨ends, hinv⟩ ha => deliveryStep_inv hinv h.apart h.valid hm ha
  have hok : RunOk (deliveryStep cfg) (fun _ a => a.Fair parcels fun fd => .hangUp fd ∈ acts) w acts :=
    RunOk.of_actions hfair w
  obtain ⟨ends, hinv⟩ := run_invariant _ hstep ⟨[], h.inv _⟩ hok
  refine ⟨_, ends, (guarded_run (deliveryStepInto_guarded cfg) w acts).ok ?_, hinv.sound h.valid⟩
  exact hok.of_invariant _ hstep (fun w' a ⟨ends, hinv⟩ ha => hinv.holds h.valid h.path ha) ⟨[], h.inv _⟩

/-- A file of six bytes, sent in two blocks. -/
def sixBytes : TaskBase := { shortFile with fsize := 6 }

theorem half_le : 0 + 3 ≤ (txt "abcdef").length := by decide +kernel

theorem rest_le : 3 + 3 ≤ (txt "abcdef").length := by decide +kernel

/-- Its blocks, given to two connections. -/
def twoParcels : Nat → Option Parcel
  | 0 => some ⟨sixBytes, ⟨0, 0, 2, 1, 2⟩, ⟨txt "abcdef", 0, 3, half_le⟩⟩
  | 1 => some ⟨sixBytes, ⟨0, 3, 5, 2, 2⟩, ⟨txt "abcdef", 3, 3, rest_le⟩⟩
  | _ => none

/-- Their senders. -/
def twoSenders (fd : Nat) : Sender :=
  ((twoParcels fd).map (Parcel.sender 2048 (fun _ => 0) mybuffInit)).getD (.start ⟨mybuffInit, none⟩)

/-- `sm_client` has accepted both connections. -/
def twoDeliveries : Delivery where
  senders := twoSenders
  wires _ := []
  sm := run (smStep .sample) (Sm.init 1) [.accept 0 1 fun _ => 0, .accept 1 1 fun _ => 0]

/-- The second block arrives while the first one is on its way, and the first connection ends within its block. -/
def crossing : List DeliveryAct :=
  [.send 0 ⟨false, [.took 300], [], false⟩, .send 1 ⟨false, [.took 500], [.took 3], false⟩, .recv 0 120 .ok,
    .recv 1 500 .ok, .send 0 ⟨false, [.took 500], [.took 2], false⟩, .recv 0 400 .ok, .hangUp 0]

theorem sendable_sixBytes {start end_ idx : Int} (hs : 0 ≤ start ∧ start < 6) (he : 0 ≤ end_ ∧ end_ < 6)
    (hi : 0 ≤ idx ∧ idx ≤ 2) : Sendable sixBytes ⟨0, start, end_, idx, 2⟩ := by
  refine ⟨⟨by decide, by decide +kernel⟩, ⟨by decide, by decide⟩, by decide +kernel, ?_, ?_, ?_, ?_, ?_, ?_⟩
  · simp [sixBytes]
  · simp [sixBytes, shortFile, TaskBase.zero]
  · dsimp only
    omega
  · dsimp only
    omega
  · dsimp only
    omega
  · simp

theorem twoParcels_cases {fd : Nat} {b : Parcel} (h : twoParcels fd = some b) :
    fd = 0 ∧ b = ⟨sixBytes, ⟨0, 0, 2, 1, 2⟩, ⟨txt "abcdef", 0, 3, half_le⟩⟩ ∨
    fd = 1 ∧ b = ⟨sixBytes, ⟨0, 3, 5, 2, 2⟩, ⟨txt "abcdef", 3, 3, rest_le⟩⟩ := by
  unfold twoParcels at h
  split at h
  · exact Or.inl ⟨rfl, (Option.some.inj h).symm⟩
  · exact Or.inr ⟨rfl, (Option.some.inj h).symm⟩
  · exact absurd h (by simp)

theorem twoParcels_apart : FilesApart .sample twoParcels := by
  intro fd fd' b b' hb hb' heq
  rcases twoParcels_cases hb with ⟨rfl, rfl⟩ | ⟨rfl, rfl⟩
  · rcases twoParcels_cases hb' with ⟨rfl, rfl⟩ | ⟨rfl, rfl⟩
    · rfl
    · exact absurd heq (by decide +kernel)
  · rcases twoParcels_cases hb' with ⟨rfl, rfl⟩ | ⟨rfl, rfl⟩
    · exact absurd heq (by decide +kernel)
    · rfl

theorem twoDeliveries_starts : twoDeliveries.Starts .sample twoParcels := by
  refine ⟨⟨1, _, rfl⟩, fun {fd b} hb => ?_, fun {fd b} hb => ?_, fun {fd b} hb => ?_, fun {fd b} hb => ?_,
    fun _ => rfl, twoParcels_apart⟩
  · have hfits : FitsLines sixBytes := fits_shortFile
    rcases twoParcels_cases hb with ⟨rfl, rfl⟩ | ⟨rfl, rfl⟩
    · exact ⟨sendable_sixBytes (by omega) (by omega) (by omega), hfits, by decide, rfl, by decide, by decide⟩
    · exact ⟨sendable_sixBytes (by omega) (by omega) (by omega), hfits, by decide, rfl, by decide, by decide⟩
  · rcases twoParcels_cases hb with ⟨rfl, rfl⟩ | ⟨rfl, rfl⟩
    · decide +kernel
    · decide +kernel
  · have hclear : (mybuffReinit 2048 (fun _ => 0) mybuffInit).Clear :=
      Mybuff.Blank.reinit (fun _ hx => absurd hx List.not_mem_nil) fun _ => rfl
    rcases twoParcels_cases hb with ⟨rfl, rfl⟩ | ⟨rfl, rfl⟩
    · exact ⟨⟨rfl, ⟨_, rfl, by decide⟩, rfl⟩, hclear⟩
    · exact ⟨⟨rfl, ⟨_, rfl, by decide⟩, rfl⟩, hclear⟩
  · refine ⟨2048, fun _ => 0, mybuffInit, ?_⟩
    show ((twoParcels fd).map _).getD _ = _
    rw [hb]
    rfl

theorem deliveries_sound_crossing : ∃ w' ends,
    crossing.foldlM (deliveryStepInto .sample) twoDeliveries = .ok w' ∧
    w'.Sound .sample twoParcels (twoDeliveries.sm.store.vfstask .fin) (fun fd => .hangUp fd ∈ crossing) ends := by
  refine deliveries_sound (fun _ => rfl) twoDeliveries_starts crossing fun a ha => ?_
  simp only [crossing, List.mem_cons, List.not_mem_nil, or_false] at ha
  rcases ha with rfl | rfl | rfl | rfl | rfl | rfl | rfl
  all_goals simp [DeliveryAct.Full, DeliveryAct.fd, twoParcels, RecvIo.ok]

end VfsOss
