import VfsOss.Sm.Stability
import VfsOss.Sm.Proofs.ConservationProofs
import VfsOss.CLib.Proofs.FileSystemProofs
import VfsOss.CLib.Proofs.DecimalProofs

/-!
# Proofs: the files of live blocks are left alone

Live blocks have files of different names, and each file holds what its block has received. Starting an
upload, writing to it and merging other blocks leave these files alone.
-/

namespace VfsOss

open CLib

variable {cfg : Cfg} {opens : Bool} {io : MergeIo} {s s' : Sm} {t u v : Tasklist} {st : TaskStore}
variable {loc : Nat → Loc} {fd : Nat} {p : Bytes}

/-! ## What a round of the pass does to a file -/

theorem checkLackTask_keeps (cfg : Cfg) (t : Tasklist) (s : Sm) :
    s.fs.Keeps (checkLackTask cfg t s).fs p := by
  unfold checkLackTask
  generalize getLocaldir cfg t.base.hostname t.base.filename = localfile
  dsimp only
  split
  · exact .refl
  · have htouch : ∀ (l : List Bytes) (fs : FileSystem Bytes),
        fs.Keeps (l.foldl FileSystem.touch fs) p := by
      intro l
      induction l with
      | nil => exact fun _ => .refl
      | cons q l ih => exact fun fs => (fs.keeps_touch).trans (ih _)
    refine foldl_induct (P := fun b : Sm => s.fs.Keeps b.fs p) (fun b i _ hb => ?_) (htouch _ s.fs)
    rcases lackOne_cases cfg b t localfile i with he | ⟨-, ⟨-, he⟩ | ⟨task0, st, -, he⟩⟩ <;>
      rw [he] <;> exact hb

/-- A round of the merge loop leaves a file alone that is not the output and not that of the block it
takes. -/
theorem mergeOne_keeps (io : MergeIo) {h f : Bytes} {c i : Int} {ofd : Nat} (hp : Placed s.store loc)
    (hout : s.fs.names p ≠ some ofd)
    (hkeep : ∀ v, InAlltask s.store v → v.base.expire = 0 → v.base.tmpfile = p →
      InAlltask (mergeOne io h f c ofd i s).1.store v) :
    s.fs.Keeps (mergeOne io h f c ofd i s).1.fs p := by
  rcases mergeOne_cases io h f c ofd i s with ⟨-, he⟩ | ⟨v, st, hg, hc⟩
  · rw [he]
    exact .refl
  · have hv : InAlltask s.store v := ⟨_, (findTask_some (getTaskFromAlltask_some hg).1).1⟩
    have hgone : ¬ InAlltask (vfsSetTask st v .home) v := by
      rw [inAlltask_of_alltask_eq (s := st) alltask_vfsSetTask]
      exact (hp.take hg).2.2
    rcases hc with ⟨-, he⟩ | ⟨-, he, -⟩ | ⟨hexp, d, -, e, err, -, fs, hfs, s', rfl, ⟨-, he⟩ | ⟨-, he⟩⟩ <;>
      rw [he] at hkeep ⊢
    · exact .refl
    · exact .refl
    all_goals
      have hne : p ≠ v.base.tmpfile := fun hpv => hgone (hkeep v hv hexp hpv.symm)
      have hk : s.fs.Keeps fs p := by
        rw [hfs]
        split
        · exact (s.fs.keeps_pwrite hout _ _).trans ((s.fs.pwrite ofd _ e).keeps_unlink hne)
        · exact s.fs.keeps_pwrite hout _ _
      exact hk

theorem mergeLoop_keeps (io : MergeIo) {h f : Bytes} {c : Int} {ofd : Nat} : ∀ (l : List Int) (s : Sm)
    (loc : Nat → Loc), Placed s.store loc → s.fs.names p ≠ some ofd →
    (∀ v, InAlltask s.store v → v.base.expire = 0 → v.base.tmpfile = p →
      InAlltask (mergeLoop io h f c ofd l s).store v) →
    s.fs.Keeps (mergeLoop io h f c ofd l s).fs p := by
  intro l
  induction l with
  | nil => exact fun s _ _ _ _ => .refl
  | cons i l ih =>
    intro s loc hp hout hkeep j hj
    have hsub : ∀ s1 : Sm, ∀ v, InAlltask (mergeLoop io h f c ofd l s1).store v → InAlltask s1.store v :=
      fun s1 => (mergeLoop_table (P := InAlltask s1.store) io h f c ofd l fun _ hv => hv).1
    obtain ⟨hsub1, -⟩ := mergeOne_table (P := InAlltask s.store) (s := s) io h f c ofd i fun _ hv => hv
    rw [mergeLoop] at hkeep ⊢
    split at hkeep
    · next hcont =>
      rw [if_pos hcont]
      have hk1 := mergeOne_keeps io hp hout fun v hv he hvp => hsub _ v (hkeep v hv he hvp)
      obtain ⟨hj1, -⟩ := hk1 j hj
      obtain ⟨-, loc', hp', -⟩ := (mergeOne_internal (s := s) io h f c ofd i).store loc hp
      have hk2 := ih _ loc' hp' (by rw [hj1, ← hj]; exact hout) fun v hv => hkeep v (hsub1 v hv)
      exact (hk1.trans hk2) j hj
    · next hcont =>
      rw [if_neg hcont]
      exact mergeOne_keeps io hp hout hkeep j hj

theorem doMergeFile_keeps (cfg : Cfg) (io : MergeIo) {h f srcip filemd5 : Bytes} {c : Int}
    (hp : Placed s.store loc) (hout : io.openOut = true → p ≠ getLocaldir cfg h f)
    (hkeep : ∀ v, InAlltask s.store v → v.base.expire = 0 → v.base.tmpfile = p →
      InAlltask (doMergeFile cfg io h srcip f c filemd5 s).store v) :
    s.fs.Keeps (doMergeFile cfg io h srcip f c filemd5 s).fs p := by
  by_cases ho : io.openOut = true
  · obtain ⟨text, he⟩ := doMergeFile_open cfg ho s h srcip f c filemd5
    rw [he] at hkeep ⊢
    have hcreat : s.fs.Keeps (s.fs.creat (getLocaldir cfg h f)).2 p := s.fs.keeps_creat (hout ho)
    have hloop := mergeLoop_keeps io (idxs c) ({ s with fs := (s.fs.creat (getLocaldir cfg h f)).2 }.note
      (.merge h f c)) loc hp (s.fs.names_creat_other (hout ho)) hkeep
    exact hcreat.trans hloop
  · unfold doMergeFile
    rw [if_neg ho]
    exact .refl

/-- What is unexpired in the table before the merge was there, or it is the block processed. -/
theorem beforeMerge_unexpired (cfg : Cfg) (hv : InAlltask (beforeMerge cfg t s).store v)
    (he : v.base.expire = 0) : InAlltask s.store v ∨ v = t := by
  rcases inAlltask_add.mp hv with ⟨hv, -⟩ | rfl
  · exact Or.inl (checkLackTask_unexpired cfg hv he)
  · exact Or.inr rfl

/-- A merge only takes records from the table. -/
theorem finTask_beforeMerge (cfg : Cfg) (io : MergeIo) (hover : t.base.overstatus = .ok)
    (hv : InAlltask (finTask cfg io t s).store v) : InAlltask (beforeMerge cfg t s).store v := by
  rw [finTask_ok cfg io hover] at hv
  split at hv
  · obtain ⟨h, -⟩ := doMergeFile_table (P := InAlltask (beforeMerge cfg t s).store) cfg io
      t.base.hostname t.base.srcip t.base.filename t.sub.count t.base.filemd5
      (fun _ hu => hu : Table _ (beforeMerge cfg t s).store)
    exact h v hv
  · exact hv

theorem finTask_unexpired (cfg : Cfg) (io : MergeIo) (hv : InAlltask (finTask cfg io t s).store v)
    (he : v.base.expire = 0) : InAlltask s.store v ∨ t.base.overstatus = .ok ∧ v = t := by
  obtain ⟨h, -⟩ := finTask_table (t := t) (s := s)
    (P := fun v => v.base.expire = 0 → InAlltask s.store v ∨ t.base.overstatus = .ok ∧ v = t) cfg io
    (fun _ _ he => absurd he (by simp)) (fun _ hu _ => Or.inl hu) fun ho _ => Or.inr ⟨ho, rfl⟩
  exact h v hv he

theorem beforeMerge_fin (cfg : Cfg) (hp : Placed s.store loc) :
    (beforeMerge cfg t s).store.vfstask .fin = s.store.vfstask .fin :=
  ((checkLackTask_internal cfg t).store loc hp).1

/-- Processing a block leaves a file alone that is not the output of the merge, when there is one, and
not that of an unexpired block that leaves the table. -/
theorem finTask_keeps (cfg : Cfg) (io : MergeIo) (hp : Placed s.store loc) (ht : loc t.addr = .held)
    (hout : t.base.overstatus = .ok → io.openOut = true →
      checkTaskAllsubIsok (beforeMerge cfg t s).store t.base.filename t.sub.count = true →
      p ≠ getLocaldir cfg t.base.hostname t.base.filename)
    (hkeep : t.base.overstatus = .ok → ∀ v, InAlltask (beforeMerge cfg t s).store v →
      v.base.expire = 0 → v.base.tmpfile = p → InAlltask (finTask cfg io t s).store v) :
    s.fs.Keeps (finTask cfg io t s).fs p := by
  by_cases hover : t.base.overstatus = .ok
  · obtain ⟨⟨loc', hp'⟩, -⟩ := beforeMerge_placed (s := s) cfg hp ht
    have hlack : s.fs.Keeps (beforeMerge cfg t s).fs p := checkLackTask_keeps cfg t s
    have hkeep := hkeep hover
    rw [finTask_ok cfg io hover] at hkeep ⊢
    split at hkeep
    · next hall =>
      rw [if_pos hall]
      exact hlack.trans (doMergeFile_keeps cfg io hp' (fun ho => hout hover ho hall) hkeep)
    · next hall =>
      rw [if_neg hall]
      exact hlack
  · unfold finTask
    rw [if_pos hover]
    split
    · exact .refl
    · have hfs : (clearAlltaskTimeout t.base.hostname t.base.filename t.sub.count s).fs = s.fs := by
        refine foldl_induct (P := fun b : Sm => b.fs = s.fs) (fun b i _ hb => ?_) rfl
        rcases clearOne_cases t.base.hostname t.base.filename t.sub.count b i with
          ⟨-, he⟩ | ⟨v, st, -, he⟩ <;> rw [he] <;> exact hb
      rw [note_fs, hfs]
      exact .refl

/-! ## Live blocks -/

/-- What is known about a block that is being received. -/
structure Receiving (fs : FileSystem Bytes) (t : Tasklist) (node off : Nat) : Prop where
  names : fs.names t.base.tmpfile = some node
  off : off = t.got.length
  getlen : t.base.getlen = t.got.length
  fsize : t.base.fsize = t.len
  le : (t.got.length : Int) ≤ t.len
  lt : t.len < 2 ^ 31

/-- The invariant: the file of a live block holds what it has received, a complete block is as long as
it was announced, and the files have different names. -/
structure Intact (s : Sm) : Prop where
  holds : ∀ {t}, Live s t → s.fs.content t.base.tmpfile = some t.got
  recv : ∀ {fd t node off}, s.recv fd = some (t, node, off) → Receiving s.fs t node off
  whole : ∀ {t}, Whole s t → (t.got.length : Int) = t.len
  distinct : ∀ {t u}, Live s t → Live s u → t.base.tmpfile = u.base.tmpfile → t.addr = u.addr

/-- Two versions of the record of a block. -/
structure SameBlock (u v : Tasklist) : Prop where
  addr : u.addr = v.addr
  sub : u.sub = v.sub
  tmpfile : u.base.tmpfile = v.base.tmpfile
  got : u.got = v.got

theorem Live.of_recv {f : Nat × Nat} (h : s.recv fd = some (t, f)) : Live s t := Or.inl ⟨fd, f, h⟩

theorem Receiving.keeps {fs fs' : FileSystem Bytes} {node off : Nat} (h : Receiving fs t node off)
    (hk : fs.Keeps fs' t.base.tmpfile) : Receiving fs' t node off :=
  ⟨(hk node h.names).1, h.off, h.getlen, h.fsize, h.le, h.lt⟩

/-- A step that completes no block and leaves the files of the live blocks alone. -/
theorem Intact.keep (h : Intact s) (hr : s'.recv = s.recv)
    (hw : ∀ v, Whole s' v → ∃ u, Whole s u ∧ SameBlock u v)
    (hk : ∀ v, Live s' v → s.fs.Keeps s'.fs v.base.tmpfile) : Intact s' := by
  have hlive : ∀ v, Live s' v → ∃ u, Live s u ∧ SameBlock u v := by
    rintro v (⟨fd, f, hv⟩ | hv)
    · rw [hr] at hv
      exact ⟨v, .of_recv hv, rfl, rfl, rfl, rfl⟩
    · obtain ⟨u, hu, hs⟩ := hw v hv
      exact ⟨u, Or.inr hu, hs⟩
  refine ⟨fun {v} hv => ?_, fun {fd v node off} hv => ?_, fun {v} hv => ?_, fun {v w} hv hw he => ?_⟩
  · obtain ⟨u, hu, hs⟩ := hlive v hv
    refine (hk v hv).content ?_
    rw [← hs.tmpfile, ← hs.got]
    exact h.holds hu
  · have hkv := hk v (.of_recv hv)
    rw [hr] at hv
    exact (h.recv hv).keeps hkv
  · obtain ⟨u, hu, hs⟩ := hw v hv
    have hlen := h.whole hu
    rwa [Tasklist.len, hs.got, hs.sub] at hlen
  · obtain ⟨u, hu, hs⟩ := hlive v hv
    obtain ⟨u', hu', hs'⟩ := hlive w hw
    rw [← hs.addr, ← hs'.addr]
    exact h.distinct hu hu' (by rw [hs.tmpfile, hs'.tmpfile, he])

theorem SameRecords.live (hs : SameRecords s s') : Live s' v ↔ Live s v := by
  rw [Live, Live, Whole, Whole, hs.recv, hs.store]

theorem Intact.same (h : Intact s) (hs : SameRecords s s') : Intact s' := by
  refine h.keep hs.recv (fun v hv => ⟨v, ?_, rfl, rfl, rfl, rfl⟩) fun v _ => ?_
  · rwa [Whole, hs.store] at hv
  · rw [hs.fs]
    exact .refl

theorem whole_of_store (hf : s'.store.vfstask .fin = s.store.vfstask .fin)
    (ha : s'.store.alltask = s.store.alltask) : Whole s' v ↔ Whole s v := by
  rw [Whole, Whole, hf, inAlltask_of_alltask_eq ha]

/-- A record that goes to `TASK_FIN` completes a block only if it is `OVER_OK`. -/
theorem whole_of_finish (hs : s'.store = vfsSetTask st u .fin)
    (hf : st.vfstask .fin = s.store.vfstask .fin) (ha : st.alltask = s.store.alltask)
    (hv : Whole s' v) : Whole s v ∨ u.base.overstatus = .ok ∧ v = { u with status := .fin } := by
  rcases hv with ⟨hv, he⟩ | ⟨hv, he⟩
  · rw [hs] at hv
    rcases mem_vfsSetTask hv with ⟨hv, -⟩ | ⟨-, -, rfl⟩
    · rw [hf] at hv
      exact Or.inl (Or.inl ⟨hv, he⟩)
    · exact Or.inr ⟨he, rfl⟩
  · rw [hs, inAlltask_of_alltask_eq (alltask_vfsSetTask.trans ha)] at hv
    exact Or.inl (Or.inr ⟨hv, he⟩)

theorem SameBlock.refl : SameBlock v v := ⟨rfl, rfl, rfl, rfl⟩

/-! ## The receiving plugin -/

/-- The file of a new block is that of no live block, and the block has a length that fits an `int`. -/
structure Fresh (cfg : Cfg) (s : Sm) (t : Tasklist) : Prop where
  pos : 0 ≤ t.len
  lt : t.len < 2 ^ 31
  file : ∀ u, Live s u → u.base.tmpfile ≠ (prepared cfg t).base.tmpfile

theorem Receiving.start (fs : FileSystem Bytes) {task0 : Tasklist} (hp : Posted task0 t) (hf : Fresh cfg s t) :
    Receiving (fs.creat (prepared cfg t).base.tmpfile).2 (prepared cfg t)
      (fs.creat (prepared cfg t).base.tmpfile).1 0 := by
  have hgot : (prepared cfg t).got = [] := hp.got
  have hlen : (prepared cfg t).len = t.len := rfl
  have hpos := hf.pos
  have hlt := hf.lt
  refine ⟨fs.names_creat_self, by rw [hgot]; rfl, by rw [hgot]; rfl, ?_, ?_, ?_⟩
  · change toInt64 t.len = t.len
    exact toInt64_of_range (by omega) (by omega)
  · rw [hgot, hlen]
    exact hpos
  · rw [hlen]
    exact hlt

theorem Intact.headMove (h : Intact s) (hl : Sited s loc) (hm : HeadMove cfg opens fd s s')
    (hok : opens = true → ∀ t, s'.log = s.log ++ [.post t] → Fresh cfg s t) : Intact s' := by
  have hsame : ∀ v, Whole s v → ∃ u, Whole s u ∧ SameBlock u v := fun v hv => ⟨v, hv, .refl⟩
  cases hm with
  | stay hs => exact h.same hs
  | ask host store fs log recv =>
    obtain ⟨hf, ha, -⟩ := getTaskUnok_aside cfg host hl.placed
    rw [← store] at hf ha
    exact h.keep recv (fun v hv => hsame v ((whole_of_store hf ha).mp hv)) fun v _ => by
      rw [fs]
      exact .refl
  | noRecord none store fs log recv =>
    have hf : s'.store.vfstask .fin = s.store.vfstask .fin := by rw [store, fin_vfsGetTask (by simp)]
    have ha : s'.store.alltask = s.store.alltask := by rw [store, alltask_vfsGetTask]
    exact h.keep recv (fun v hv => hsame v ((whole_of_store hf ha).mp hv)) fun v _ => by
      rw [fs]
      exact .refl
  | refuse task0 t st home posted store fs log recv =>
    have hf : (vfsGetTask cfg.mallocOk s.store .home).2.vfstask .fin = s.store.vfstask .fin :=
      fin_vfsGetTask (by simp)
    rw [home] at hf
    refine h.keep recv (fun v hv => ?_) fun v _ => by
      rw [fs]
      exact .refl
    rcases whole_of_finish store hf (alltask_of_get home) hv with hv | ⟨he, -⟩
    · exact hsame v hv
    · exact absurd he (by simp [Tasklist.over])
  | start task0 t st home posted opened free store fs log recv =>
    have hf : (vfsGetTask cfg.mallocOk s.store .home).2.vfstask .fin = s.store.vfstask .fin :=
      fin_vfsGetTask (by simp)
    rw [home] at hf
    rw [← store] at hf
    have ha : s'.store.alltask = s.store.alltask := by rw [store, alltask_of_get home]
    have hfresh := hok opened t log
    have hgot : (prepared cfg t).got = [] := posted.got
    have hrecv : ∀ {fd' v f}, s'.recv fd' = some (v, f) →
        (v = prepared cfg t ∧ f = ((s.fs.creat (prepared cfg t).base.tmpfile).1, 0)) ∨
        s.recv fd' = some (v, f) := by
      intro fd' v f hv
      rw [recv] at hv
      by_cases hfd : fd' = fd
      · subst hfd
        rw [Function.update_self] at hv
        obtain ⟨rfl, rfl⟩ := Prod.mk.inj (Option.some.inj hv)
        exact Or.inl ⟨rfl, rfl⟩
      · rw [Function.update_of_ne hfd] at hv
        exact Or.inr hv
    have hlive : ∀ {v}, Live s' v → v = prepared cfg t ∨ Live s v := by
      rintro v (⟨fd', f, hv⟩ | hv)
      · rcases hrecv hv with ⟨rfl, -⟩ | hv
        · exact Or.inl rfl
        · exact Or.inr (.of_recv hv)
      · exact Or.inr (Or.inr ((whole_of_store hf ha).mp hv))
    have hkeep : ∀ {v}, Live s v → s.fs.Keeps s'.fs v.base.tmpfile := fun hv => by
      rw [fs]
      exact s.fs.keeps_creat (hfresh.file _ hv)
    refine ⟨fun {v} hv => ?_, fun {fd' v node off} hv => ?_, fun {v} hv => ?_, fun {v w} hv hw he => ?_⟩
    · rcases hlive hv with rfl | hv
      · rw [fs, hgot]
        exact s.fs.content_creat_self
      · exact (hkeep hv).content (h.holds hv)
    · rcases hrecv hv with ⟨rfl, hf⟩ | hv
      · obtain ⟨rfl, rfl⟩ := Prod.mk.inj hf
        rw [fs]
        exact .start s.fs posted hfresh
      · exact (h.recv hv).keeps (hkeep (.of_recv hv))
    · exact h.whole ((whole_of_store hf ha).mp hv)
    · rcases hlive hv with rfl | hv <;> rcases hlive hw with rfl | hw
      · rfl
      · exact absurd he.symm (hfresh.file w hw)
      · exact absurd he (hfresh.file v hv)
      · exact h.distinct hv hw he

/-- A live block that is not the one a connection receives has another file. -/
theorem Intact.other {f : Nat × Nat} (h : Intact s) (hl : Sited s loc) (h0 : s.recv fd = some (t, f))
    (hv : Live s v) (hne : s.recv fd ≠ some (v, f)) : v.base.tmpfile ≠ t.base.tmpfile := by
  intro he
  have ha := h.distinct hv (.of_recv h0) he
  have hloc := hl.recv h0
  rw [← ha] at hloc
  rcases hv with ⟨fd', f', hv⟩ | ⟨hv, -⟩ | ⟨⟨b, hv⟩, -⟩
  · have hfd := hl.recv hv
    rw [hloc] at hfd
    obtain rfl := Loc.conn.inj hfd
    rw [h0] at hv hne
    obtain ⟨rfl, rfl⟩ := Prod.mk.inj (Option.some.inj hv)
    exact hne rfl
  · have := hl.placed.queue hv
    rw [hloc] at this
    exact absurd this (by simp)
  · have := hl.placed.chain hv
    rw [hloc] at this
    exact absurd this (by simp)

/-- Bytes that fit into what is missing go to the end of the block's file. -/
theorem Receiving.pwrite {fs : FileSystem Bytes} {node off : Nat} {bytes : Bytes}
    (hr : Receiving fs t node off) (hc : fs.content t.base.tmpfile = some t.got)
    (fits : bytes.length ≤ (toInt32 (t.base.fsize - t.base.getlen) % 2 ^ 64).toNat) :
    toInt32 bytes.length = bytes.length ∧
    Receiving (fs.pwrite node off bytes) (t.receive bytes bytes.length) node (off + bytes.length) ∧
    (fs.pwrite node off bytes).content t.base.tmpfile = some (t.got ++ bytes) := by
  have hle := hr.le
  have hlt := hr.lt
  have hlen : bytes.length + (t.got.length : Int) ≤ t.len := by
    rw [hr.fsize, hr.getlen, toInt32_of_range (by omega) (by omega),
      Int.emod_eq_of_lt (by omega) (by omega)] at fits
    omega
  have hgot : (t.receive bytes bytes.length).got = t.got ++ bytes := rfl
  have hnode : fs.node node = t.got := by
    rw [fs.content_of_names hr.names] at hc
    exact Option.some.inj hc
  refine ⟨toInt32_of_range (by omega) (by omega), ⟨hr.names, ?_, ?_, hr.fsize, ?_, hlt⟩, ?_⟩
  · rw [hgot, List.length_append, hr.off]
  · change t.base.getlen + bytes.length = _
    rw [hgot, List.length_append, hr.getlen]
    omega
  · change _ ≤ t.len
    rw [hgot, List.length_append]
    omega
  · rw [fs.content_pwrite hr.names, hnode, hr.off, splice_end]

/-- The connection's block gets more bytes and stays, or goes to `TASK_FIN` complete. -/
theorem Intact.receive {node off : Nat} {bytes : Bytes} {w : Tasklist} (h : Intact s) (hl : Sited s loc)
    (h0 : s.recv fd = some (t, node, off))
    (fits : bytes.length ≤ (toInt32 (t.base.fsize - t.base.getlen) % 2 ^ 64).toNat)
    (hfs : s'.fs = s.fs.pwrite node off bytes) (hw : SameBlock (t.receive bytes bytes.length) w)
    (hlive : ∀ v, Live s' v → v = w ∨ Live s v ∧ s.recv fd ≠ some (v, node, off))
    (hrecv : ∀ {fd' v f}, s'.recv fd' = some (v, f) →
      v = t.receive bytes bytes.length ∧ f = (node, off + bytes.length) ∨
      s.recv fd' = some (v, f) ∧ s.recv fd ≠ some (v, node, off))
    (hwhole : ∀ v, Whole s' v → (v.got.length : Int) = v.len ∨ Whole s v) : Intact s' := by
  have hr := h.recv h0
  obtain ⟨-, hr', hc⟩ := hr.pwrite (h.holds (.of_recv h0)) fits
  have hfile : w.base.tmpfile = t.base.tmpfile := hw.tmpfile.symm
  have hgot : w.got = t.got ++ bytes := hw.got.symm
  have haddr : w.addr = t.addr := hw.addr.symm
  have hkeep : ∀ {v}, Live s v → s.recv fd ≠ some (v, node, off) → s.fs.Keeps s'.fs v.base.tmpfile := by
    intro v hv hne
    rw [hfs]
    exact s.fs.keeps_pwrite (fun hn => h.other hl h0 hv hne (s.fs.inj hn hr.names)) _ _
  refine ⟨fun {v} hv => ?_, fun {fd' v node' off'} hv => ?_, fun {v} hv => ?_, fun {v u} hv hu he => ?_⟩
  · rcases hlive v hv with rfl | ⟨hv, hne⟩
    · rw [hfs, hfile, hgot]
      exact hc
    · exact (hkeep hv hne).content (h.holds hv)
  · rcases hrecv hv with ⟨rfl, hf⟩ | ⟨hv, hne⟩
    · obtain ⟨rfl, rfl⟩ := Prod.mk.inj hf
      rw [hfs]
      exact hr'
    · exact (h.recv hv).keeps (hkeep (.of_recv hv) hne)
  · exact (hwhole v hv).elim id h.whole
  · rcases hlive v hv with rfl | ⟨hv, hvne⟩ <;> rcases hlive u hu with rfl | ⟨hu, hune⟩
    · rfl
    · rw [hfile] at he
      exact absurd he.symm (h.other hl h0 hu hune)
    · rw [hfile] at he
      exact absurd he (h.other hl h0 hv hvne)
    · exact h.distinct hv hu he

theorem Intact.bodyMove (h : Intact s) (hl : Sited s loc) (hm : BodyMove fd s s') : Intact s' := by
  have hne : ∀ {fd' t v node off f}, s.recv fd = some (t, node, off) → s.recv fd' = some (v, f) → fd' ≠ fd →
      s.recv fd ≠ some (v, node, off) := by
    intro fd' t v node off f h0 hv hfd he
    have h1 := hl.recv hv
    rw [hl.recv he] at h1
    exact hfd (Loc.conn.inj h1).symm
  have hwne : ∀ {t v node off}, s.recv fd = some (t, node, off) → Whole s v →
      s.recv fd ≠ some (v, node, off) := by
    intro t v node off h0 hv he
    have h1 := hl.recv he
    rcases hv with ⟨hv, -⟩ | ⟨⟨b, hv⟩, -⟩
    · rw [hl.placed.queue hv] at h1
      exact absurd h1 (by simp)
    · rw [hl.placed.chain hv] at h1
      exact absurd h1 (by simp)
  cases hm with
  | stay hs => exact h.same hs
  | write t node off bytes recv0 fits pos more store fs log recv =>
    have hr := h.recv recv0
    obtain ⟨hn, -⟩ := hr.pwrite (h.holds (.of_recv recv0)) fits
    rw [hn] at recv
    have hwhole : ∀ v, Whole s' v → Whole s v := fun v hv =>
      (whole_of_store (by rw [store]) (by rw [store])).mp hv
    have hrecv : ∀ {fd' v f}, s'.recv fd' = some (v, f) →
        v = t.receive bytes bytes.length ∧ f = (node, off + bytes.length) ∨
        s.recv fd' = some (v, f) ∧ s.recv fd ≠ some (v, node, off) := by
      intro fd' v f hv
      rw [recv] at hv
      by_cases hfd : fd' = fd
      · subst hfd
        rw [Function.update_self] at hv
        obtain ⟨rfl, rfl⟩ := Prod.mk.inj (Option.some.inj hv)
        exact Or.inl ⟨rfl, rfl⟩
      · rw [Function.update_of_ne hfd] at hv
        exact Or.inr ⟨hv, hne recv0 hv hfd⟩
    refine h.receive hl recv0 fits fs .refl (fun v hv => ?_) hrecv fun v hv => Or.inr (hwhole v hv)
    rcases hv with ⟨fd', f, hv⟩ | hv
    · exact (hrecv hv).imp And.left fun hv => ⟨.of_recv hv.1, hv.2⟩
    · exact Or.inr ⟨Or.inr (hwhole v hv), hwne recv0 (hwhole v hv)⟩
  | finish t node off bytes recv0 fits pos done store fs log recv =>
    have hr := h.recv recv0
    obtain ⟨hn, hr', -⟩ := hr.pwrite (h.holds (.of_recv recv0)) fits
    rw [hn] at store done
    generalize hw : { (t.receive bytes bytes.length).over .ok with status := .fin } = w
    have hsame : SameBlock (t.receive bytes bytes.length) w := by
      rw [← hw]
      exact ⟨rfl, rfl, rfl, rfl⟩
    have hwhole : ∀ v, Whole s' v → Whole s v ∨ v = w := fun v hv =>
      (whole_of_finish store rfl rfl hv).imp id fun hv => hv.2.trans hw
    have hrecv : ∀ {fd' v f}, s'.recv fd' = some (v, f) →
        s.recv fd' = some (v, f) ∧ s.recv fd ≠ some (v, node, off) := by
      intro fd' v f hv
      rw [recv] at hv
      by_cases hfd : fd' = fd
      · subst hfd
        rw [Function.update_self] at hv
        exact absurd hv (by simp)
      · rw [Function.update_of_ne hfd] at hv
        exact ⟨hv, hne recv0 hv hfd⟩
    have hfull : ((t.receive bytes bytes.length).got.length : Int) = t.len := by
      have hle : ((t.receive bytes bytes.length).got.length : Int) ≤ t.len := hr'.le
      have hget : t.base.getlen + bytes.length = (t.receive bytes bytes.length).got.length := hr'.getlen
      have hsize := hr.fsize
      omega
    refine h.receive hl recv0 fits fs hsame (fun v hv => ?_) (fun hv => Or.inr (hrecv hv)) fun v hv => ?_
    · rcases hv with ⟨fd', f, hv⟩ | hv
      · exact Or.inr ⟨.of_recv (hrecv hv).1, (hrecv hv).2⟩
      · rcases hwhole v hv with hv | rfl
        · exact Or.inr ⟨Or.inr hv, hwne recv0 hv⟩
        · exact Or.inl rfl
    · rcases hwhole v hv with hv | rfl
      · exact Or.inr hv
      · have hlen : v.len = t.len := by rw [← hw]; rfl
        rw [hsame.got] at hfull
        exact Or.inl (hfull.trans hlen.symm)
  | overflow t node off bytes recv0 fits neg store fs log recv =>
    obtain ⟨hn, -⟩ := (h.recv recv0).pwrite (h.holds (.of_recv recv0)) fits
    omega

theorem Intact.closeMove (h : Intact s) (hm : CloseMove fd s s') : Intact s' := by
  cases hm with
  | stay hs => exact h.same hs
  | abort t f recv0 store fs log recv =>
    have hwhole : ∀ v, Whole s' v → Whole s v := fun v hv =>
      (whole_of_finish store rfl rfl hv).resolve_right fun hv => absurd hv.1 (by simp [Tasklist.over])
    have hrecv : ∀ {fd' v f}, s'.recv fd' = some (v, f) → s.recv fd' = some (v, f) := by
      intro fd' v f hv
      rw [recv] at hv
      by_cases hfd : fd' = fd
      · subst hfd
        rw [Function.update_self] at hv
        exact absurd hv (by simp)
      · rwa [Function.update_of_ne hfd] at hv
    have hlive : ∀ {v}, Live s' v → Live s v := by
      rintro v (⟨fd', f, hv⟩ | hv)
      · exact .of_recv (hrecv hv)
      · exact Or.inr (hwhole v hv)
    refine ⟨fun {v} hv => ?_, fun {fd' v node off} hv => ?_, fun hv => h.whole (hwhole _ hv), fun hv hu =>
      h.distinct (hlive hv) (hlive hu)⟩
    · rw [fs]
      exact h.holds (hlive hv)
    · rw [fs]
      exact h.recv (hrecv hv)

/-! ## The pass -/

/-- One record of the pass. -/
theorem Intact.finTask {rest : List Tasklist} (h : Intact s) (hl : Sited s loc)
    (hq : s.store.vfstask .fin = t :: rest) {s1 : Sm} (hst : s1.store = s.popFin.store)
    (hfs : s1.fs = s.fs) (hac : s1.acon = s.acon)
    (hout : t.base.overstatus = .ok → io.openOut = true →
      (∀ i ∈ idxs t.sub.count, i ≠ t.sub.idx →
        checkTaskFromAlltask s.store t.base.filename i t.sub.count 0 = true) →
      ∀ u, Live s u → u.base.tmpfile ≠ getLocaldir cfg t.base.hostname t.base.filename) :
    Intact (finTask cfg io t.taken s1) := by
  have hp1 : Placed s1.store (Function.update loc t.addr .held) := by
    rw [hst]
    exact popFin_placed hl.placed hq
  have hheld : Function.update loc t.addr Loc.held t.taken.addr = .held := Function.update_self ..
  have htable1 : ∀ {w}, InAlltask s1.store w ↔ InAlltask s.store w := fun {w} => by
    rw [hst]
    exact inAlltask_of_alltask_eq alltask_popFin
  have hfin1 : s1.store.vfstask .fin = rest := by rw [hst, fin_popFin hq]
  obtain ⟨hfin, -⟩ := finTask_placed cfg io (t := t.taken) hp1 hheld
  rw [hfin1] at hfin
  have hrecv : (VfsOss.finTask cfg io t.taken s1).recv = s.recv :=
    recv_of_acon ((finTask_frame cfg io t.taken).1.trans hac)
  -- a block in the table before the merge has been complete before the step
  have hbefore : ∀ w, t.taken.base.overstatus = .ok → w.base.expire = 0 →
      InAlltask (beforeMerge cfg t.taken s1).store w → ∃ u, Whole s u ∧ SameBlock u w := by
    intro w hover he hw
    rcases beforeMerge_unexpired cfg hw he with hw | rfl
    · exact ⟨w, Or.inr ⟨htable1.mp hw, he⟩, .refl⟩
    · exact ⟨t, Or.inl ⟨by rw [hq]; simp, hover⟩, rfl, rfl, rfl, rfl⟩
  have hwhole : ∀ v, Whole (VfsOss.finTask cfg io t.taken s1) v → ∃ u, Whole s u ∧ SameBlock u v := by
    rintro v (⟨hv, ho⟩ | ⟨hv, he⟩)
    · rw [hfin] at hv
      exact ⟨v, Or.inl ⟨by rw [hq]; simp [hv], ho⟩, .refl⟩
    · rcases finTask_unexpired cfg io hv he with hv | ⟨ho, rfl⟩
      · exact ⟨v, Or.inr ⟨htable1.mp hv, he⟩, .refl⟩
      · exact ⟨t, Or.inl ⟨by rw [hq]; simp, ho⟩, rfl, rfl, rfl, rfl⟩
  refine h.keep hrecv hwhole fun v hv => ?_
  have hlive : ∃ u, Live s u ∧ SameBlock u v := by
    rcases hv with ⟨fd, f, hv⟩ | hv
    · rw [hrecv] at hv
      exact ⟨v, .of_recv hv, .refl⟩
    · obtain ⟨u, hu, hs⟩ := hwhole v hv
      exact ⟨u, Or.inr hu, hs⟩
  obtain ⟨u, hu, hs⟩ := hlive
  rw [← hfs]
  refine finTask_keeps cfg io hp1 hheld (fun hover ho hall => ?_) fun hover w hw he hwp => ?_
  · rw [← hs.tmpfile]
    refine hout hover ho (fun i hi hne => ?_) u hu
    obtain ⟨w, hw, hk, he⟩ := hp1.checkTask_iff.mp (others_of_allsub cfg hp1 hall i hi hne)
    exact hl.placed.checkTask_iff.mpr ⟨w, htable1.mp hw, hk, he⟩
  · -- the block `w` with this file is `v`, and `v` is still in the table
    obtain ⟨u', hu', hs'⟩ := hbefore w hover he hw
    have haddr : w.addr = v.addr := by
      rw [← hs'.addr, ← hs.addr]
      exact h.distinct (Or.inr hu') hu (by rw [hs'.tmpfile, hs.tmpfile, hwp])
    obtain ⟨⟨loc2, hp2⟩, -⟩ := beforeMerge_placed (t := t.taken) (s := s1) cfg hp1 hheld
    rcases hv with ⟨fd, f, hv⟩ | ⟨hv, -⟩ | ⟨hv, -⟩
    · rw [hrecv] at hv
      have hc := hl.recv hv
      rw [← haddr, ← hs'.addr] at hc
      rcases hu' with ⟨hu', -⟩ | ⟨⟨b, hu'⟩, -⟩
      · rw [hl.placed.queue hu'] at hc
        exact absurd hc (by simp)
      · rw [hl.placed.chain hu'] at hc
        exact absurd hc (by simp)
    · rw [hfin, ← hfin1, ← beforeMerge_fin (t := t.taken) cfg hp1] at hv
      obtain ⟨b, hw⟩ := hw
      have hc := hp2.queue hv
      rw [← haddr, hp2.chain hw] at hc
      exact absurd hc (by simp)
    · rw [hp2.eq_of_addr hw (finTask_beforeMerge cfg io hover hv) haddr]
      exact hv

theorem Intact.finIter (h : Intact s) (hl : Sited s loc) (hok : StepKeepsOff cfg s (.finIter io)) :
    Intact (finIter cfg io s) := by
  rcases ho : s.once with _ | k
  · unfold VfsOss.finIter
    rw [ho]
    exact h
  rcases hq : s.store.vfstask .fin with _ | ⟨t, rest⟩
  · rw [finIter_nil ho hq]
    exact h.same ⟨rfl, rfl, rfl, rfl⟩
  by_cases hk : k < 128
  · rw [finIter_cons ho hq hk]
    have hmem : t.taken ∈ processed s (.finIter io) := mem_processed.mpr ⟨io, k, t, rest, rfl, ho, hk, hq, rfl⟩
    exact h.finTask (t := t) hl hq rfl rfl rfl fun hover hopen => hok hopen t.taken hmem hover
  · rw [finIter_full ho hq (by omega)]
    have hfin : s.popFin.store.vfstask .fin = rest := fin_popFin hq
    refine h.keep rfl (fun v hv => ⟨v, ?_, .refl⟩) fun v _ => .refl
    rcases hv with ⟨hv, he⟩ | ⟨hv, he⟩
    · rw [note_store, hfin] at hv
      exact Or.inl ⟨by rw [hq]; simp [hv], he⟩
    · exact Or.inr ⟨(inAlltask_of_alltask_eq alltask_popFin).mp hv, he⟩

/-! ## Runs -/

end VfsOss
