import VfsOss.Sm.Proofs.ReassemblyProofs

/-!
# Proofs: one round, one pass, all passes

A round with a block of another file keeps `Holding`; a round with a block of the upload extends it
until the last block, whose round merges the file.
-/

namespace VfsOss

open CLib

variable {cfg : Cfg} {io : MergeIo} {u : Upload} {A : List Tasklist} {K : List (Bytes × Bytes)}
variable {s s' : Sm} {t : Tasklist} {loc : Nat → Loc}

/-- The record being processed is in no list while `check_lack_task` runs, so it can be added. -/
theorem add_placed (cfg : Cfg) (h : Placed s.store loc) (ht : loc t.addr = .held) :
    WellPlaced (addTaskToAlltask (checkLackTask cfg t s).store t) ∧
    ∀ v, InAlltask (checkLackTask cfg t s).store v → v.addr ≠ t.addr := by
  obtain ⟨-, loc', h1, -, hh⟩ := (checkLackTask_internal (s := s) cfg t).store loc h
  have ht' : loc' t.addr = .held := hh _ ht
  refine ⟨⟨_, h1.add (by rw [ht']; simp) (by rw [ht']; simp)⟩, ?_⟩
  rintro v ⟨b, hb⟩
  exact h1.not_chained (by rw [ht']; simp) b v hb

theorem Holding.finTask_foreign (h : Holding cfg u A K s) (io : MergeIo) (hK : Owned cfg u K) (ht : Foreign cfg u t)
    (hl : Placed s.store loc) (hh : loc t.addr = .held) :
    Holding cfg u A K (finTask cfg io t s) := by
  have hp : WellPlaced (finTask cfg io t s).store := by
    obtain ⟨-, loc', h1, -⟩ := finTask_placed cfg io hl hh
    exact ⟨loc', h1⟩
  obtain ⟨hpa, hn⟩ := add_placed cfg hl hh
  have h1 := (h.checkLackTask_foreign ht).add_foreign ht hpa hn
  unfold finTask at hp ⊢
  split
  · next hov =>
    rw [if_pos hov] at hp
    split
    · next hr =>
      rw [if_pos hr] at hp
      exact h.congr hp alltask_vfsSetTask h.file
    · have hc := h.clear_foreign ht
      exact hc.congr hc.placed rfl hc.file
  · dsimp only
    split
    · exact h1.doMergeFile_foreign hK ht
    · exact h1

/-- The completeness check of `check_fin_task`, for the upload. -/
theorem Holding.allsub (h : Holding cfg u A K s) (hA : ∀ v ∈ A, BlockOf cfg u v) :
    checkTaskAllsubIsok s.store u.filename u.count = true ↔
      ∀ i ∈ idxs u.count, ∃ v ∈ A, v.sub.idx = i := by
  obtain ⟨loc, hl⟩ := h.placed
  unfold checkTaskAllsubIsok
  rw [List.all_eq_true]
  refine forall₂_congr fun i _ => ?_
  rw [hl.checkTask_iff]
  constructor
  · rintro ⟨v, hv, hk, -⟩
    obtain ⟨hf, hi, -⟩ := sameKey_iff.mp hk
    exact ⟨v, (h.mem v).mp ⟨hv, hf.symm⟩, hi.symm⟩
  · rintro ⟨v, hv, hi⟩
    have hb := hA v hv
    refine ⟨v, ((h.mem v).mpr hv).1, sameKey_iff.mpr ⟨hb.filename.symm, hi.symm, hb.count.symm⟩, hb.expire⟩

/-- A block of the upload that leaves another one missing. -/
theorem Holding.finTask_wait (h : Holding cfg u A K s) (io : MergeIo) (ht : BlockOf cfg u t)
    (hA : ∀ v ∈ A, BlockOf cfg u v) (hKA : ∀ q ∈ u.files A, q ∈ K) {i : Int} (hi : i ∈ idxs u.count)
    (hmiss : ∀ v ∈ t :: A, v.sub.idx ≠ i) (hl : Placed s.store loc) (hh : loc t.addr = .held) :
    Holding cfg u (t :: A) K (finTask cfg io t s) ∧
    u.merges (finTask cfg io t s).log = u.merges s.log := by
  obtain ⟨hpa, hn⟩ := add_placed cfg hl hh
  have h1 := (h.checkLackTask_own ht hA hKA).add_own ht hpa hn
  have hA' : ∀ v ∈ t :: A, BlockOf cfg u v := by
    intro v hv
    rcases List.mem_cons.mp hv with rfl | hv
    · exact ht
    · exact hA v hv
  have hno : checkTaskAllsubIsok (addTaskToAlltask (checkLackTask cfg t s).store t) u.filename
      u.count = false := by
    by_contra hc
    obtain ⟨v, hv, hvi⟩ := (h1.allsub hA').mp (by simpa using hc) i hi
    exact hmiss v hv hvi
  have hgrew := checkLackTask_grew (s := s) cfg t
  unfold finTask
  rw [if_neg (by simp [ht.done])]
  dsimp only
  rw [ht.filename, ht.count, hno, if_neg (by simp)]
  refine ⟨h1, hgrew.filter_eq fun e he => ?_⟩
  rcases he with ⟨v, rfl⟩ | ⟨v, rfl⟩ <;> rfl

/-! ## The merge of the upload -/

/-- With every call succeeding the whole file is copied. -/
theorem MergeIo.Succeeds.copyLoop (hio : io.Succeeds) (i : Int) : ∀ (n k : Nat) (c : Bytes),
    c.length ≤ n → copyLoop (io.read i) (io.write i) n k c = (c, false) := by
  intro n
  induction n with
  | zero =>
    intro k c hc
    obtain rfl : c = [] := List.length_eq_zero_iff.mp (by omega)
    rfl
  | succ n ih =>
    intro k c hc
    obtain ⟨m, hm⟩ := Option.isSome_iff_exists.mp (hio.read i k)
    obtain ⟨w, hw, hle⟩ := hio.write i k
    rw [VfsOss.copyLoop]
    split
    · next h => rw [h]
    · next h =>
      have hpos : 0 < c.length := List.length_pos_iff.mpr h
      set buf := c.take (max 1 (min m 1024000)) with hbuf
      have hlen : buf.length ≤ 1024000 ∧ 1 ≤ buf.length := by
        rw [hbuf, List.length_take]
        omega
      have hdrop : c.drop buf.length = c.drop (max 1 (min m 1024000)) := by
        rw [hbuf, List.length_take]
        rcases Nat.le_total (max 1 (min m 1024000)) c.length with hle | hle
        · rw [Nat.min_eq_left hle]
        · rw [Nat.min_eq_right hle, List.drop_length, List.drop_eq_nil_of_le hle]
      rw [hm, hw]
      dsimp only
      rw [← hbuf, if_neg (by omega), ih (k + 1) (c.drop buf.length) (by rw [List.length_drop]; omega)]
      dsimp only
      rw [hdrop, hbuf, List.take_append_drop]

/-- What one round of the upload's merge leaves: block `i` is at the end of the output, its file is
gone and its record is in `TASK_HOME`. -/
structure Copied (cfg : Cfg) (u : Upload) (ofd : Nat) (i : Int) (v : Tasklist) (s s' : Sm) : Prop where
  node : s'.fs.node ofd = s.fs.node ofd ++ u.block i
  out : s'.fs.names (u.outfile cfg) = some ofd
  unlinked : s'.fs.names (u.tmpfile cfg i) = none
  absent : ∀ p, s.fs.names p = none → s'.fs.names p = none
  home : ∃ r ∈ s'.store.vfstask .home, r.addr = v.addr
  kept : ∀ r ∈ s.store.vfstask .home, ∃ r' ∈ s'.store.vfstask .home, r'.addr = r.addr

/-- The first record found for a block of the upload is one of the blocks in the table. -/
theorem Holding.find (h : Holding cfg u A K s) (hA : ∀ v ∈ A, BlockOf cfg u v) {w : Tasklist}
    (hw : w ∈ A) : ∃ v st, v ∈ A ∧ v.sub.idx = w.sub.idx ∧
      getTaskFromAlltask s.store u.filename w.sub.idx u.count = some (v, st) := by
  obtain ⟨loc, hl⟩ := h.placed
  rcases hg : getTaskFromAlltask s.store u.filename w.sub.idx u.count with _ | ⟨v, st⟩
  · rw [getTaskFromAlltask_none, hl.findTask_eq_none] at hg
    have hb := hA w hw
    have := hg w ((h.mem w).mpr hw).1
    rw [sameKey_iff.mpr ⟨hb.filename.symm, rfl, hb.count.symm⟩] at this
    exact absurd this (by simp)
  · obtain ⟨hm, hk⟩ := findTask_some (getTaskFromAlltask_some hg).1
    obtain ⟨hf, hi, -⟩ := sameKey_iff.mp hk
    exact ⟨v, st, (h.mem v).mp ⟨⟨_, hm⟩, hf.symm⟩, hi.symm, rfl⟩

theorem Holding.take_own (h : Holding cfg u A K s) {K' : List (Bytes × Bytes)} {st : TaskStore}
    {f : Bytes} {i c : Int} (hnd : A.Nodup) (hg : getTaskFromAlltask s.store f i c = some (t, st))
    (ha : s'.store.alltask = st.alltask) (hp : WellPlaced s'.store)
    (hfile : ∀ q ∈ K', s'.fs.content q.1 = some q.2) : Holding cfg u (A.erase t) K' s' := by
  refine ⟨hp, fun v => ?_, fun v hv hne => ?_, hfile⟩
  · rw [inAlltask_of_alltask_eq ha, inAlltask_take h.placed hg, hnd.mem_erase_iff, ← h.mem v]
    tauto
  · rw [inAlltask_of_alltask_eq ha, inAlltask_take h.placed hg] at hv
    exact h.other v hv.1 hne

theorem Holding.mergeOne_own (hio : io.Succeeds) (h : Holding cfg u A (u.files A) s) (hA : ∀ v ∈ A, BlockOf cfg u v)
    (hnd : (A.map fun v => v.sub.idx).Nodup) (hd : u.NamesDiffer cfg) {ofd : Nat}
    (ho : s.fs.names (u.outfile cfg) = some ofd) {w : Tasklist} (hw : w ∈ A) :
    ∃ v s', v ∈ A ∧ v.sub.idx = w.sub.idx ∧
      mergeOne io u.hostname u.filename u.count ofd w.sub.idx s = (s', true) ∧
      Holding cfg u (A.erase v) (u.files (A.erase v)) s' ∧ Copied cfg u ofd w.sub.idx v s s' := by
  obtain ⟨v, st, hv, hvi, hg⟩ := h.find hA hw
  have hb := hA v hv
  have hfile : s.fs.content v.base.tmpfile = some (u.block v.sub.idx) :=
    h.file _ (List.mem_map_of_mem hv)
  have hp := (mergeOne_internal (s := s) io u.hostname u.filename u.count ofd w.sub.idx).wellPlaced
    h.placed
  have hne : v.base.tmpfile ≠ u.outfile cfg := by
    rw [hb.tmpfile]
    exact hd.1 _ hb.idx
  have hnode : s.fs.names v.base.tmpfile ≠ some ofd := fun he => hne (s.fs.inj he ho)
  rcases mergeOne_cases io u.hostname u.filename u.count ofd w.sub.idx s with ⟨hn, -⟩ | ⟨t, st', hg', hc⟩
  · rw [hg] at hn
    exact absurd hn (by simp)
  · rw [hg] at hg'
    obtain ⟨rfl, rfl⟩ := Prod.mk.inj (Option.some.inj hg')
    rcases hc with ⟨hx, -⟩ | ⟨-, -, hx⟩ | ⟨-, c, hcc, d, err, hcp, fs, hfs, s', rfl, hs'⟩
    · exact absurd hb.expire hx
    · rw [hx (hio.openIn _)] at hfile
      exact absurd hfile (by simp)
    · rw [hfile] at hcc
      obtain rfl := Option.some.inj hcc
      have hcopy := hio.copyLoop w.sub.idx _ 0 _ (le_refl (u.block v.sub.idx).length)
      obtain ⟨rfl, rfl⟩ := Prod.mk.inj (hcopy.symm.trans hcp)
      rcases hs' with ⟨hx, -⟩ | ⟨-, he⟩
      · exact absurd hx (by simp [hio.unlink])
      rw [hio.unlink, if_pos rfl] at hfs
      refine ⟨v, _, hv, hvi, he, ?_, ?_⟩
      · rw [he] at hp
        refine h.take_own (List.Nodup.of_map _ hnd) hg (by simp) hp ?_
        intro q hq
        obtain ⟨x, hx, rfl⟩ := List.mem_map.mp hq
        rw [(List.Nodup.of_map _ hnd).mem_erase_iff] at hx
        have hbx := hA x hx.2
        have hxv : x.sub.idx ≠ v.sub.idx := fun e =>
          hx.1 (List.inj_on_of_nodup_map hnd hx.2 hv e)
        have hpath : x.base.tmpfile ≠ v.base.tmpfile := by
          rw [hbx.tmpfile, hb.tmpfile]
          exact fun e => hxv (hd.2 _ hbx.idx _ hb.idx e)
        have hout : s.fs.names x.base.tmpfile ≠ some ofd := fun e => by
          have := s.fs.inj e ho
          rw [hbx.tmpfile] at this
          exact hd.1 _ hbx.idx this
        change fs.content x.base.tmpfile = _
        rw [hfs, FileSystem.content_unlink_ne _ hpath, s.fs.content_pwrite_ne hout]
        exact h.file _ (List.mem_map_of_mem hx.2)
      · have hfree : ∀ q, ∀ r ∈ st.vfstask q, r.addr ≠ v.addr := by
          obtain ⟨loc, hl⟩ := h.placed
          exact (hl.take hg).1.not_queued (by simp)
        have hhome : (vfsSetTask st v .home).vfstask .home =
            s.store.vfstask .home ++ [{ v with status := .home }] := by
          rw [vfstask_vfsSetTask (by simp) hfree, Function.update_self,
            (getTaskFromAlltask_some hg).2.1]
        refine ⟨?_, ?_, ?_, ?_, ?_, ?_⟩
        · change fs.node ofd = _
          rw [hfs, ← hvi]
          change (s.fs.pwrite ofd (s.fs.node ofd).length (u.block v.sub.idx)).node ofd = _
          rw [FileSystem.node_pwrite_self, splice_end]
        · change fs.names _ = _
          rw [hfs, FileSystem.names_unlink_ne _ (Ne.symm hne)]
          exact ho
        · change fs.names _ = _
          rw [hfs, ← hvi, ← hb.tmpfile]
          exact (FileSystem.content_eq_none _).mp (FileSystem.content_unlink_self _)
        · intro p hpn
          change fs.names p = _
          rw [hfs]
          by_cases hpv : p = v.base.tmpfile
          · rw [hpv]
            exact (FileSystem.content_eq_none _).mp (FileSystem.content_unlink_self _)
          · rw [FileSystem.names_unlink_ne _ hpv]
            exact hpn
        · exact ⟨{ v with status := .home }, by rw [note_store, hhome]; simp, rfl⟩
        · exact fun r hr => ⟨r, by rw [note_store, hhome]; simp [hr], rfl⟩

/-- The loop over the blocks of the upload. -/
theorem Holding.mergeLoop_own {ofd : Nat} (hio : io.Succeeds) (hd : u.NamesDiffer cfg) :
    ∀ (l : List Int) (A : List Tasklist) (s : Sm), Holding cfg u A (u.files A) s →
      (∀ v ∈ A, BlockOf cfg u v) → (A.map fun v => v.sub.idx).Perm l → l.Nodup →
      s.fs.names (u.outfile cfg) = some ofd →
      ∃ s', mergeLoop io u.hostname u.filename u.count ofd l s = s' ∧ Holding cfg u [] [] s' ∧
        s'.fs.content (u.outfile cfg) = some (s.fs.node ofd ++ l.flatMap u.block) ∧
        (∀ i ∈ l, s'.fs.names (u.tmpfile cfg i) = none) ∧
        (∀ p, s.fs.names p = none → s'.fs.names p = none) ∧
        (∀ v ∈ A, ∃ r ∈ s'.store.vfstask .home, r.addr = v.addr) ∧
        ∀ r ∈ s.store.vfstask .home, ∃ r' ∈ s'.store.vfstask .home, r'.addr = r.addr := by
  intro l
  induction l with
  | nil =>
    intro A s h _ hperm _ ho
    obtain rfl : A = [] := by simpa using hperm.eq_nil
    refine ⟨s, rfl, ⟨h.placed, h.mem, h.other, by simp⟩, ?_, by simp, fun p hp => hp, by simp,
      fun r hr => ⟨r, hr, rfl⟩⟩
    rw [FileSystem.content_of_names _ ho]
    simp
  | cons i l ih =>
    intro A s h hA hperm hnd ho
    obtain ⟨w, hw, rfl⟩ := List.mem_map.mp (hperm.mem_iff.mpr (List.mem_cons_self))
    have hndA : (A.map fun v => v.sub.idx).Nodup := hperm.nodup_iff.mpr hnd
    obtain ⟨v, s₁, hv, hvi, he, h1, hc⟩ := h.mergeOne_own hio hA hndA hd ho hw
    have hperm' : ((A.erase v).map fun v => v.sub.idx).Perm l := by
      have hp1 := (List.perm_cons_erase hv).map fun v : Tasklist => v.sub.idx
      rw [List.map_cons, hvi] at hp1
      exact (hp1.symm.trans hperm).cons_inv
    obtain ⟨s', hs', h2, hout, hun, habs, hhome, hkept⟩ := ih (A.erase v) s₁ h1
      (fun x hx => hA x (List.mem_of_mem_erase hx)) hperm' (List.nodup_cons.mp hnd).2 hc.out
    refine ⟨s', ?_, h2, ?_, ?_, ?_, ?_, ?_⟩
    · rw [mergeLoop, he]
      exact hs'
    · rw [hout, hc.node, List.flatMap_cons, List.append_assoc]
    · intro j hj
      rcases List.mem_cons.mp hj with rfl | hj
      · exact habs _ hc.unlinked
      · exact hun j hj
    · exact fun p hp => habs p (hc.absent p hp)
    · intro x hx
      by_cases hxv : x = v
      · subst hxv
        obtain ⟨r, hr, hra⟩ := hc.home
        obtain ⟨r', hr', hra'⟩ := hkept r hr
        exact ⟨r', hr', hra'.trans hra⟩
      · exact hhome x ((List.mem_erase_of_ne hxv).mpr hx)
    · intro r hr
      obtain ⟨r₁, hr₁, ha₁⟩ := hc.kept r hr
      obtain ⟨r₂, hr₂, ha₂⟩ := hkept r₁ hr₁
      exact ⟨r₂, hr₂, ha₂.trans ha₁⟩

theorem BlockOf.taken (h : BlockOf cfg u t) : BlockOf cfg u t.taken :=
  ⟨h.filename, h.hostname, h.count, h.idx, h.done, h.expire, h.tmpfile⟩

theorem Foreign.taken (h : Foreign cfg u t) : Foreign cfg u t.taken :=
  ⟨h.filename, h.tmpfile, h.outfile⟩

/-- **The last block.** Its round merges the upload. -/
theorem Holding.finTask_last (hio : io.Succeeds) (h : Holding cfg u A K s) (ht : BlockOf cfg u t)
    (hA : ∀ v ∈ A, BlockOf cfg u v) (hKA : ∀ q ∈ u.files (t :: A), q ∈ K) (hd : u.NamesDiffer cfg)
    (hperm : ((t :: A).map fun v => v.sub.idx).Perm (idxs u.count)) (hl : Placed s.store loc)
    (hh : loc t.addr = .held) :
    Merged cfg u (t :: A) (finTask cfg io t s) ∧
    Holding cfg u [] [(u.outfile cfg, u.bytes)] (finTask cfg io t s) ∧
    u.merges (finTask cfg io t s).log =
      u.merges s.log ++ [.merge u.hostname u.filename u.count] := by
  obtain ⟨hpa, hn⟩ := add_placed cfg hl hh
  have h1 := (h.checkLackTask_own ht hA fun q hq => hKA q (List.mem_cons_of_mem _ hq)).add_own ht hpa hn
  have hA' : ∀ v ∈ t :: A, BlockOf cfg u v := by
    intro v hv
    rcases List.mem_cons.mp hv with rfl | hv
    · exact ht
    · exact hA v hv
  have hyes : checkTaskAllsubIsok (addTaskToAlltask (checkLackTask cfg t s).store t) u.filename
      u.count = true := by
    refine (h1.allsub hA').mpr fun i hi => ?_
    obtain ⟨v, hv, hvi⟩ := List.mem_map.mp (hperm.mem_iff.mpr hi)
    exact ⟨v, hv, hvi⟩
  -- the output is opened; it is none of the temporary files
  set s₁ := { checkLackTask cfg t s with store := addTaskToAlltask (checkLackTask cfg t s).store t }
    with hs₁
  have h2 : Holding cfg u (t :: A) (u.files (t :: A)) ({ s₁ with
      fs := (s₁.fs.creat (u.outfile cfg)).2 }.note (.merge u.hostname u.filename u.count)) := by
    refine h1.congr' hpa rfl fun q hq => ?_
    obtain ⟨v, hv, rfl⟩ := List.mem_map.mp hq
    have hne : v.base.tmpfile ≠ u.outfile cfg := by
      rw [(hA' v hv).tmpfile]
      exact hd.1 _ (hA' v hv).idx
    rw [note_fs, s₁.fs.content_creat_ne hne]
    exact h1.file _ (hKA _ hq)
  obtain ⟨s', hs', h3, hout, hun, -, hhome, -⟩ := Holding.mergeLoop_own hio hd (idxs u.count) (t :: A) _ h2
    hA' hperm (nodup_idxs _) s₁.fs.names_creat_self
  have hgrew := mergeLoop_grew (s := { s₁ with fs := (s₁.fs.creat (u.outfile cfg)).2 }.note
    (.merge u.hostname u.filename u.count)) io u.hostname u.filename u.count
    (s₁.fs.creat (u.outfile cfg)).1 (idxs u.count)
  have hlack := checkLackTask_grew (s := s) cfg t
  obtain ⟨text, hopen⟩ := doMergeFile_open cfg hio.openOut s₁ u.hostname
    t.base.srcip u.filename u.count t.base.filemd5
  have hfin : finTask cfg io t s = s'.note (.report t.base.srcip text io.connect) := by
    unfold finTask
    rw [if_neg (by simp [ht.done])]
    dsimp only
    rw [ht.filename, ht.count, hyes, if_pos rfl, ht.hostname, ← hs']
    exact hopen
  have hnode : (s₁.fs.creat (u.outfile cfg)).2.node (s₁.fs.creat (u.outfile cfg)).1 = [] :=
    s₁.fs.node_creat
  have hcont : s'.fs.content (u.outfile cfg) = some u.bytes := by
    rw [hout, note_fs, hnode]
    rfl
  rw [hfin]
  refine ⟨⟨hcont, ?_, hhome, ?_⟩, h3.congr' h3.placed rfl ?_, ?_⟩
  · exact fun i hi => (FileSystem.content_eq_none _).mpr (hun i hi)
  · intro v hv hvf
    have := (h3.mem v).mp ⟨hv, hvf⟩
    simp at this
  · intro q hq
    obtain rfl := List.mem_singleton.mp hq
    exact hcont
  · rw [hs'] at hgrew
    have h4 : u.merges s'.log = u.merges (s₁.log ++ [.merge u.hostname u.filename u.count]) := by
      refine hgrew.filter_eq fun e he => ?_
      rcases he with ⟨v, rfl | rfl | rfl⟩ | ⟨q, rfl⟩ | ⟨a, b, c, rfl⟩ <;> rfl
    have h5 : u.merges (checkLackTask cfg t s).log = u.merges s.log := by
      refine hlack.filter_eq fun e he => ?_
      rcases he with ⟨v, rfl⟩ | ⟨v, rfl⟩ <;> rfl
    have h6 : u.merges (s'.log ++ [.report t.base.srcip text io.connect]) = u.merges s'.log := by
      simp [Upload.merges, Event.mergesFile]
    rw [note_log, h6, h4, Upload.merges, List.filter_append]
    change u.merges (checkLackTask cfg t s).log ++ _ = _
    rw [h5]
    simp [Event.mergesFile]

/-! ## The rounds of one pass -/

/-- A record of `TASK_FIN` taken at the start of a round. -/
theorem Holding.started (h : Holding cfg u A K s) {rest : List Tasklist}
    (hq : s.store.vfstask .fin = t :: rest) (k : Nat) :
    Holding cfg u A K ({ s.popFin with once := some k }.note (.fin t.taken)) ∧
    (∃ loc, Placed ({ s.popFin with once := some k }.note (.fin t.taken)).store loc ∧
      loc t.taken.addr = .held) ∧
    u.merges ({ s.popFin with once := some k }.note (.fin t.taken)).log = u.merges s.log := by
  obtain ⟨loc, hl⟩ := h.placed
  have hp := popFin_placed hl hq
  refine ⟨h.congr ⟨_, hp⟩ alltask_popFin h.file, ⟨_, hp, Function.update_self ..⟩, ?_⟩
  change u.merges (s.log ++ [_]) = _
  simp [Upload.merges, Event.mergesFile]

/-- What is known of the records of a pass: the upload's have their files among the protected ones and
the others have nothing to do with it. -/
structure Sorted (cfg : Cfg) (u : Upload) (K : List (Bytes × Bytes)) (q : List Tasklist) : Prop where
  mine : ∀ t ∈ q, t.base.filename = u.filename →
    BlockOf cfg u t ∧ (t.base.tmpfile, u.block t.sub.idx) ∈ K
  other : ∀ t ∈ q, t.base.filename ≠ u.filename → Foreign cfg u t

theorem Holding.rounds {p : Pass} (hp : WellPlaced p.start.store) (hlen : p.queue.length ≤ 128)
    (hK : Owned cfg u K) {i : Int} (hi : i ∈ idxs u.count) :
    ∀ (l l₀ l₂ A : List Tasklist), p.queue = l₀ ++ (l ++ l₂) →
      Holding cfg u A K (p.after cfg l₀.length) → (∀ v ∈ A, BlockOf cfg u v) →
      (∀ q ∈ u.files A, q ∈ K) → Sorted cfg u K l → (∀ v ∈ A, v.sub.idx ≠ i) →
      (∀ v ∈ u.among l, v.sub.idx ≠ i) →
      Holding cfg u (((u.among l).map Tasklist.taken).reverse ++ A) K
        (p.after cfg (l₀ ++ l).length) ∧
      u.merges (p.after cfg (l₀ ++ l).length).log =
        u.merges (p.after cfg l₀.length).log := by
  intro l
  induction l with
  | nil =>
    intro l₀ l₂ A _ h _ _ _ _ _
    rw [List.append_nil]
    exact ⟨h, rfl⟩
  | cons t l ih =>
    intro l₀ l₂ A hq h hA hKA hs hiA hil
    have hj : l₀.length < (p.queue).length := by
      rw [hq]
      simp
    have hget : (p.queue)[l₀.length] = t := by
      simp [hq]
    have hfin : (p.after cfg l₀.length).store.vfstask .fin = p.queue.drop l₀.length :=
      (rounds_spec cfg p.io hp (Nat.le_of_lt hj) (by omega)).2.2
    rw [List.drop_eq_getElem_cons hj, hget] at hfin
    obtain ⟨h1, ⟨loc, hl, hh⟩, hm⟩ := h.started hfin (l₀.length + 1)
    have hsucc : p.after cfg (l₀.length + 1) = finTask cfg (p.io l₀.length) p.queue[l₀.length].taken
        ({ (p.after cfg l₀.length).popFin with once := some (l₀.length + 1) }.note
          (.fin p.queue[l₀.length].taken)) := rounds_succ cfg p.io hp hj (by omega)
    rw [hget] at hsucc
    have hq' : p.queue = (l₀ ++ [t]) ++ (l ++ l₂) := by rw [hq]; simp
    have hs' : Sorted cfg u K l := ⟨fun v hv => hs.mine v (by simp [hv]), fun v hv => hs.other v (by simp [hv])⟩
    have hlen' : (l₀ ++ [t]).length = l₀.length + 1 := by simp
    have happ : l₀ ++ t :: l = (l₀ ++ [t]) ++ l := by simp
    by_cases htf : t.base.filename = u.filename
    · have hb := (hs.mine t (by simp) htf).1
      have hti : t.sub.idx ≠ i := hil t (by simp [Upload.among, htf])
      obtain ⟨h2, hm2⟩ := h1.finTask_wait (p.io l₀.length) hb.taken hA hKA hi
        (fun v hv => by
          rcases List.mem_cons.mp hv with rfl | hv
          · exact hti
          · exact hiA v hv) hl hh
      rw [← hsucc, ← hlen'] at h2
      obtain ⟨h3, hm3⟩ := ih (l₀ ++ [t]) l₂ (t.taken :: A) hq' h2
        (fun v hv => by
          rcases List.mem_cons.mp hv with rfl | hv
          · exact hb.taken
          · exact hA v hv)
        (fun q hq => by
          rcases List.mem_cons.mp hq with rfl | hq
          · exact (hs.mine t (by simp) htf).2
          · exact hKA q hq) hs'
        (fun v hv => by
          rcases List.mem_cons.mp hv with rfl | hv
          · exact hti
          · exact hiA v hv)
        (fun v hv => hil v (by simp [Upload.among, htf] at hv ⊢; exact Or.inr hv))
      rw [happ]
      refine ⟨?_, ?_⟩
      · have hamong : u.among (t :: l) = t :: u.among l := by simp [Upload.among, htf]
        rw [hamong]
        simpa using h3
      · rw [hm3, hlen', hsucc]
        exact hm2.trans hm
    · have hf := hs.other t (by simp) htf
      have h2 := h1.finTask_foreign (p.io l₀.length) hK hf.taken hl hh
      have hm2 : u.merges (finTask cfg (p.io l₀.length) t.taken ({ (p.after cfg l₀.length).popFin with
          once := some (l₀.length + 1) }.note (.fin t.taken))).log =
          u.merges ({ (p.after cfg l₀.length).popFin with
            once := some (l₀.length + 1) }.note (.fin t.taken)).log := by
        refine (finTask_grew cfg (p.io l₀.length) t.taken).filter_eq fun e he => ?_
        rcases he with ⟨v, rfl | rfl | rfl | rfl⟩ | rfl | ⟨v, rfl | rfl | rfl⟩ | ⟨q, rfl⟩ | ⟨a, b, c, rfl⟩
          <;> first | rfl | exact decide_eq_false hf.filename
      rw [← hsucc, ← hlen'] at h2
      obtain ⟨h3, hm3⟩ := ih (l₀ ++ [t]) l₂ A hq' h2 hA hKA hs' hiA
        (fun v hv => hil v (by simpa [Upload.among, htf] using hv))
      rw [happ]
      refine ⟨?_, ?_⟩
      · have hamong : u.among (t :: l) = u.among l := by simp [Upload.among, htf]
        rw [hamong]
        exact h3
      · rw [hm3, hlen', hsucc]
        exact hm2.trans hm

end VfsOss
