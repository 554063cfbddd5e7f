import VfsOss.Sm.Reassembly
import VfsOss.Sm.Proofs.LogProofs
import VfsOss.Sm.Proofs.PassProofs
import VfsOss.CLib.Proofs.FileSystemProofs

/-!
# Proofs: a file is put together from its blocks in any order

The invariant of the passes is `Holding`: the hash table has exactly the upload's blocks processed so
far, their files have their bytes, and every other record has nothing to do with the upload. Blocks of
other files preserve it, a block that leaves another one missing extends it, and the last block turns
it into the merged file.
-/

namespace VfsOss

open CLib

variable {cfg : Cfg} {u : Upload} {A : List Tasklist} {K : List (Bytes × Bytes)} {s s' : Sm}
variable {t : Tasklist}

/-- The table holds exactly the blocks `A` of the upload, and the files `K` have their contents. -/
structure Holding (cfg : Cfg) (u : Upload) (A : List Tasklist) (K : List (Bytes × Bytes)) (s : Sm) :
    Prop where
  placed : WellPlaced s.store
  mem : ∀ t, InAlltask s.store t ∧ t.base.filename = u.filename ↔ t ∈ A
  other : ∀ t, InAlltask s.store t → t.base.filename ≠ u.filename → Foreign cfg u t
  file : ∀ q ∈ K, s.fs.content q.1 = some q.2

/-- The protected files are files of the upload. -/
def Owned (cfg : Cfg) (u : Upload) (K : List (Bytes × Bytes)) : Prop := ∀ q ∈ K, u.Owns cfg q.1

/-- The files of blocks, with their bytes. -/
def Upload.files (u : Upload) (A : List Tasklist) : List (Bytes × Bytes) :=
  A.map fun t => (t.base.tmpfile, u.block t.sub.idx)

theorem Internal.wellPlaced (h : Internal s s') (hp : WellPlaced s.store) : WellPlaced s'.store := by
  obtain ⟨loc, hl⟩ := hp
  obtain ⟨-, loc', hl', -⟩ := h.store loc hl
  exact ⟨loc', hl'⟩

/-- The same table with other protected files. -/
theorem Holding.congr' {K' : List (Bytes × Bytes)} (h : Holding cfg u A K s)
    (hp : WellPlaced s'.store) (ha : s'.store.alltask = s.store.alltask)
    (hf : ∀ q ∈ K', s'.fs.content q.1 = some q.2) : Holding cfg u A K' s' where
  placed := hp
  mem t := by rw [inAlltask_of_alltask_eq ha]; exact h.mem t
  other t ht := h.other t ((inAlltask_of_alltask_eq ha).mp ht)
  file := hf

theorem Holding.congr (h : Holding cfg u A K s) (hp : WellPlaced s'.store)
    (ha : s'.store.alltask = s.store.alltask) (hf : ∀ q ∈ K, s'.fs.content q.1 = some q.2) :
    Holding cfg u A K s' :=
  h.congr' hp ha hf

theorem Foreign.setExpire (h : Foreign cfg u t) (e : Nat) : Foreign cfg u (t.setExpire e) :=
  ⟨h.filename, h.tmpfile, h.outfile⟩

/-! ## Looking for missing blocks -/

/-- A round of `check_lack_task` that would only mark records of other files. -/
theorem Holding.lack_round (h : Holding cfg u A K s) {localfile : Bytes} {i : Int}
    (hq : s.fs.content (subfile localfile i t.sub.count) = none → ∀ w, InAlltask s.store w →
      sameKey t.base.filename i t.sub.count w = true → w.base.filename ≠ u.filename) :
    Holding cfg u A K (lackOne cfg t localfile s i) := by
  have hp := (lackOne_internal (s := s) cfg t localfile i).wellPlaced h.placed
  rcases lackOne_cases cfg s t localfile i with he | ⟨hc, ⟨-, he⟩ | ⟨task0, st, hg, he⟩⟩
  · rw [he]
    exact h
  · rw [he] at hp ⊢
    exact h.congr hp alltask_vfsGetTask h.file
  · rw [he] at hp ⊢
    have hst : st.alltask = s.store.alltask := by
      have hframe : (vfsGetTask cfg.mallocOk s.store .home).2.alltask = s.store.alltask :=
        alltask_vfsGetTask
      rwa [hg] at hframe
    have hin : ∀ v, InAlltask (lackAsk t i task0 st s).store v ↔
        InAlltask (setTaskFromAlltask st t.base.filename i t.sub.count 1) v := fun v =>
      inAlltask_of_alltask_eq alltask_vfsSetTask
    have hfind : ∀ w, findTask st t.base.filename i t.sub.count = some w →
        InAlltask s.store w ∧ w.base.filename ≠ u.filename := by
      intro w hw
      obtain ⟨hm, hk⟩ := findTask_some hw
      rw [hst] at hm
      exact ⟨⟨_, hm⟩, hq hc w ⟨_, hm⟩ hk⟩
    refine ⟨hp, fun v => ?_, fun v hv hne => ?_, h.file⟩
    · rw [hin, ← h.mem v]
      constructor
      · rintro ⟨⟨b, hb⟩, hf⟩
        rcases mem_setTaskFromAlltask hb with hb | ⟨w, hw, -, rfl⟩
        · rw [hst] at hb
          exact ⟨⟨b, hb⟩, hf⟩
        · exact absurd hf (hfind w hw).2
      · rintro ⟨⟨b, hb⟩, hf⟩
        have hk : sameKey t.base.filename i t.sub.count v = false := by
          by_contra hk
          exact hq hc v ⟨b, hb⟩ (by simpa using hk) hf
        rw [← hst] at hb
        exact ⟨⟨b, mem_setTaskFromAlltask_of_not hb hk⟩, hf⟩
    · rw [hin] at hv
      obtain ⟨b, hb⟩ := hv
      rcases mem_setTaskFromAlltask hb with hb | ⟨w, hw, -, rfl⟩
      · rw [hst] at hb
        exact h.other v ⟨b, hb⟩ hne
      · exact (h.other w (hfind w hw).1 (hfind w hw).2).setExpire 1

theorem content_foldl_touch {P : Type} [DecidableEq P] {fs : FileSystem P} {q : P} {c : Bytes}
    (h : fs.content q = some c) (l : List P) : (l.foldl FileSystem.touch fs).content q = some c :=
  foldl_induct (P := fun fs : FileSystem P => fs.content q = some c)
    (fun fs _ _ hfs => fs.content_touch_of_some hfs) h

theorem Holding.lack_rounds (h : Holding cfg u A K s)
    (hq : ∀ s, Holding cfg u A K s → ∀ i, s.fs.content (subfile (getLocaldir cfg t.base.hostname
      t.base.filename) i t.sub.count) = none → ∀ w, InAlltask s.store w →
      sameKey t.base.filename i t.sub.count w = true → w.base.filename ≠ u.filename) :
    Holding cfg u A K (checkLackTask cfg t s) := by
  unfold checkLackTask
  dsimp only
  split
  · exact h
  · refine foldl_induct (P := Holding cfg u A K) (fun b i _ hb => hb.lack_round (hq b hb i)) ?_
    exact h.congr h.placed rfl fun q hk => content_foldl_touch (h.file q hk) _

/-- A block of another file marks only records of its own name. -/
theorem Holding.checkLackTask_foreign (h : Holding cfg u A K s) (ht : Foreign cfg u t) :
    Holding cfg u A K (checkLackTask cfg t s) := by
  refine h.lack_rounds fun s _ i _ w _ hk hw => ht.filename ?_
  rw [(sameKey_iff.mp hk).1, hw]

/-- A block of the upload marks nothing: a block whose file is missing has not been processed. -/
theorem Holding.checkLackTask_own (h : Holding cfg u A K s) (ht : BlockOf cfg u t)
    (hA : ∀ v ∈ A, BlockOf cfg u v) (hK : ∀ q ∈ u.files A, q ∈ K) :
    Holding cfg u A K (checkLackTask cfg t s) := by
  refine h.lack_rounds fun s hs i hc w hw hk hwf => ?_
  obtain ⟨hf, hi, hcount⟩ := sameKey_iff.mp hk
  have hwA : w ∈ A := (hs.mem w).mp ⟨hw, hwf⟩
  have hfile := hs.file _ (hK _ (List.mem_map_of_mem hwA))
  have htmp : w.base.tmpfile = subfile (getLocaldir cfg t.base.hostname t.base.filename) i
      t.sub.count := by
    rw [(hA w hwA).tmpfile, ← hi, ht.count, ht.hostname, ht.filename]
    rfl
  rw [htmp, hc] at hfile
  exact absurd hfile (by simp)

/-! ## The table -/

theorem Holding.add_foreign (h : Holding cfg u A K s) (ht : Foreign cfg u t)
    (hp : WellPlaced (addTaskToAlltask s.store t)) (hn : ∀ v, InAlltask s.store v → v.addr ≠ t.addr) :
    Holding cfg u A K { s with store := addTaskToAlltask s.store t } := by
  refine ⟨hp, fun v => ?_, fun v hv hne => ?_, h.file⟩
  · rw [← h.mem v, inAlltask_add]
    constructor
    · rintro ⟨⟨hv, -⟩ | rfl, hf⟩
      · exact ⟨hv, hf⟩
      · exact absurd hf ht.filename
    · rintro ⟨hv, hf⟩
      exact ⟨Or.inl ⟨hv, hn v hv⟩, hf⟩
  · rcases inAlltask_add.mp hv with ⟨hv, -⟩ | rfl
    · exact h.other v hv hne
    · exact ht

theorem Holding.add_own (h : Holding cfg u A K s) (ht : BlockOf cfg u t)
    (hp : WellPlaced (addTaskToAlltask s.store t)) (hn : ∀ v, InAlltask s.store v → v.addr ≠ t.addr) :
    Holding cfg u (t :: A) K { s with store := addTaskToAlltask s.store t } := by
  refine ⟨hp, fun v => ?_, fun v hv hne => ?_, h.file⟩
  · rw [List.mem_cons, ← h.mem v, inAlltask_add]
    constructor
    · rintro ⟨⟨hv, -⟩ | rfl, hf⟩
      · exact Or.inr ⟨hv, hf⟩
      · exact Or.inl rfl
    · rintro (rfl | ⟨hv, hf⟩)
      · exact ⟨Or.inr rfl, ht.filename⟩
      · exact ⟨Or.inl ⟨hv, hn v hv⟩, hf⟩
  · rcases inAlltask_add.mp hv with ⟨hv, -⟩ | rfl
    · exact h.other v hv hne
    · exact absurd ht.filename hne

/-- What is left in the table after a removal. -/
theorem inAlltask_take {st st' : TaskStore} {f : Bytes} {i c : Int} (hp : WellPlaced st)
    (hg : getTaskFromAlltask st f i c = some (t, st')) (v : Tasklist) :
    InAlltask st' v ↔ InAlltask st v ∧ v ≠ t := by
  obtain ⟨loc, hl⟩ := hp
  constructor
  · rintro ⟨b, hb⟩
    refine ⟨⟨b, mem_of_getTaskFromAlltask hg hb⟩, ?_⟩
    rintro rfl
    exact (hl.take hg).2.2 ⟨b, hb⟩
  · rintro ⟨⟨b, hb⟩, hne⟩
    rcases mem_getTaskFromAlltask_or hg hb with he | hb
    · exact absurd he hne
    · exact ⟨b, hb⟩

theorem Holding.take_foreign (h : Holding cfg u A K s) {st : TaskStore} {f : Bytes} {i c : Int}
    (hg : getTaskFromAlltask s.store f i c = some (t, st)) (hf : f ≠ u.filename)
    (ha : s'.store.alltask = st.alltask) (hp : WellPlaced s'.store)
    (hfile : ∀ q ∈ K, s'.fs.content q.1 = some q.2) : Holding cfg u A K s' := by
  have htf : t.base.filename = f := (sameKey_iff.mp (findTask_some (getTaskFromAlltask_some hg).1).2).1.symm
  refine ⟨hp, fun v => ?_, fun v hv hne => ?_, hfile⟩
  · rw [inAlltask_of_alltask_eq ha, inAlltask_take h.placed hg, ← h.mem v]
    constructor
    · rintro ⟨⟨hv, -⟩, hvf⟩
      exact ⟨hv, hvf⟩
    · rintro ⟨hv, hvf⟩
      refine ⟨⟨hv, ?_⟩, hvf⟩
      rintro rfl
      exact hf (htf.symm.trans hvf)
  · rw [inAlltask_of_alltask_eq ha, inAlltask_take h.placed hg] at hv
    exact h.other v hv.1 hne

/-! ## Merging other files -/

theorem Holding.mergeOne_foreign {io : MergeIo} {hostname filename : Bytes} {count idx : Int} {ofd : Nat}
    (h : Holding cfg u A K s) (hK : Owned cfg u K) (hf : filename ≠ u.filename)
    (ho : ∀ q ∈ K, s.fs.names q.1 ≠ some ofd) :
    Holding cfg u A K (mergeOne io hostname filename count ofd idx s).1 ∧
    ∀ q ∈ K, (mergeOne io hostname filename count ofd idx s).1.fs.names q.1 ≠ some ofd := by
  have hp := (mergeOne_internal (s := s) io hostname filename count ofd idx).wellPlaced h.placed
  rcases mergeOne_cases io hostname filename count ofd idx s with ⟨-, he⟩ | ⟨task, st, hg, hc⟩
  · rw [he]
    exact ⟨h, ho⟩
  · have htask : Foreign cfg u task := by
      obtain ⟨hm, hk⟩ := findTask_some (getTaskFromAlltask_some hg).1
      refine h.other task ⟨_, hm⟩ ?_
      rwa [← (sameKey_iff.mp hk).1]
    have hwr : ∀ d : Bytes, ∀ q ∈ K,
        (s.fs.pwrite ofd (s.fs.node ofd).length d).content q.1 = some q.2 := by
      intro d q hq
      rw [s.fs.content_pwrite_ne (ho q hq)]
      exact h.file q hq
    have hne : ∀ q ∈ K, q.1 ≠ task.base.tmpfile := fun q hq he => htask.tmpfile (he ▸ hK q hq)
    rcases hc with ⟨-, he⟩ | ⟨-, he, -⟩ | ⟨-, c, -, d, err, -, fs, hfs, s', rfl, hs'⟩
    · rw [he] at hp ⊢
      exact ⟨h.take_foreign hg hf (by simp) hp h.file, ho⟩
    · rw [he] at hp ⊢
      exact ⟨h.take_foreign hg hf (by simp) hp h.file, ho⟩
    · have hcont : ∀ q ∈ K, fs.content q.1 = some q.2 ∧ fs.names q.1 ≠ some ofd := by
        intro q hq
        rw [hfs]
        split
        · rw [FileSystem.content_unlink_ne _ (hne q hq), FileSystem.names_unlink_ne _ (hne q hq)]
          exact ⟨hwr d q hq, ho q hq⟩
        · exact ⟨hwr d q hq, ho q hq⟩
      rcases hs' with ⟨-, he⟩ | ⟨-, he⟩
      · rw [he] at hp ⊢
        exact ⟨h.take_foreign hg hf (by simp) hp fun q hq => (hcont q hq).1,
          fun q hq => (hcont q hq).2⟩
      · rw [he] at hp ⊢
        exact ⟨h.take_foreign hg hf (by simp) hp fun q hq => (hcont q hq).1,
          fun q hq => (hcont q hq).2⟩

theorem Holding.mergeLoop_foreign {filename : Bytes} {ofd : Nat} (h : Holding cfg u A K s)
    (hK : Owned cfg u K) (hf : filename ≠ u.filename) (ho : ∀ q ∈ K, s.fs.names q.1 ≠ some ofd)
    (io : MergeIo) (hostname : Bytes) (count : Int) (l : List Int) :
    Holding cfg u A K (mergeLoop io hostname filename count ofd l s) :=
  (mergeLoop_induct (P := fun s => Holding cfg u A K s ∧ ∀ q ∈ K, s.fs.names q.1 ≠ some ofd)
    (fun _ _ _ hs => hs.1.mergeOne_foreign hK hf hs.2) ⟨h, ho⟩).1

theorem Holding.doMergeFile_foreign {io : MergeIo} (h : Holding cfg u A K s) (hK : Owned cfg u K)
    (ht : Foreign cfg u t) : Holding cfg u A K (doMergeFile cfg io t.base.hostname t.base.srcip
      t.base.filename t.sub.count t.base.filemd5 s) := by
  unfold doMergeFile
  dsimp only
  split
  · have hne : ∀ q ∈ K, q.1 ≠ getLocaldir cfg t.base.hostname t.base.filename :=
      fun q hq he => ht.outfile (he ▸ hK q hq)
    have h0 : Holding cfg u A K ({ s with fs :=
        (s.fs.creat (getLocaldir cfg t.base.hostname t.base.filename)).2 }.note
        (.merge t.base.hostname t.base.filename t.sub.count)) :=
      h.congr h.placed rfl fun q hq => by
        rw [note_fs, s.fs.content_creat_ne (hne q hq)]
        exact h.file q hq
    have h1 := h0.mergeLoop_foreign hK ht.filename (fun q hq => s.fs.names_creat_other (hne q hq))
      io t.base.hostname t.sub.count (idxs t.sub.count)
    exact h1.congr h1.placed rfl h1.file
  · exact h.congr h.placed rfl h.file

theorem Holding.clear_foreign (h : Holding cfg u A K s) (ht : Foreign cfg u t) :
    Holding cfg u A K (clearAlltaskTimeout t.base.hostname t.base.filename t.sub.count s) := by
  refine foldl_induct (P := Holding cfg u A K) (fun b i _ hb => ?_) h
  have hp := (clearOne_internal (s := b) t.base.hostname t.base.filename t.sub.count i).wellPlaced
    hb.placed
  unfold clearOne at hp ⊢
  split
  · exact hb
  · next task st hg =>
    rw [hg] at hp
    exact hb.take_foreign hg ht.filename (by simp) hp hb.file

/-- The records of blocks that have just been received have their places. -/
theorem received_placed (u : Upload) (cfg : Cfg) (l : List Int) : WellPlaced (u.received cfg l).store := by
  have hmem : ∀ {st t}, t ∈ (u.received cfg l).store.vfstask st → st = .fin ∧ t.addr < l.length := by
    intro st t ht
    change t ∈ (if st = .fin then l.zipIdx.map (u.record cfg) else []) at ht
    split at ht
    · next hst =>
      obtain ⟨p, hp, rfl⟩ := List.mem_map.mp ht
      have := List.snd_lt_of_mem_zipIdx hp
      refine ⟨hst, ?_⟩
      change p.2 < l.length
      omega
    · exact absurd ht (by simp)
  refine ⟨fun a => if a < l.length then .queue .fin else .unborn, ?_, ?_, ?_, ?_, ?_, ?_⟩
  · intro st t ht
    obtain ⟨rfl, hlt⟩ := hmem ht
    exact if_pos hlt
  · intro b t ht
    exact absurd ht (by simp [Upload.received])
  · intro st
    change ((if st = .fin then l.zipIdx.map (u.record cfg) else []).map Tasklist.addr).Nodup
    split
    · have haddr : (l.zipIdx.map (u.record cfg)).map Tasklist.addr = l.zipIdx.map Prod.snd := by
        rw [List.map_map]
        rfl
      rw [haddr, List.zipIdx_map_snd]
      exact List.nodup_range'
    · exact List.nodup_nil
  · intro b
    exact List.nodup_nil
  · intro a ha
    have ha : l.length ≤ a := ha
    exact if_neg (by omega)
  · intro b t ht
    exact absurd ht (by simp [Upload.received])

end VfsOss
