import VfsOss.Sm.Proofs.MergeRecordsProofs
import VfsOss.CLib.Proofs.FileSystemProofs

/-!
# Proofs: what a merge leaves of the files

Opening the output empties it, and every block that is copied loses its file. So a merge that ends badly
has done no harm only if it has hardly begun.
-/

namespace VfsOss

open CLib

variable {cfg : Cfg} {io : MergeIo} {s : Sm} {t v : Tasklist} {st st' : TaskStore} {i c : Int}
variable {h f p : Bytes} {d : Bytes} {ofd : Nat} {fs : FileSystem Bytes}

/-! ## One round -/

theorem mergeOne_expired (io : MergeIo) (h : Bytes) (ofd : Nat) (hf : findTask s.store f i c = some v) (he : v.base.expire ≠ 0) :
    (mergeOne io h f c ofd i s).2 = true ∧ (mergeOne io h f c ofd i s).1.fs = s.fs ∧
      ∀ j, i ≠ j → findTask (mergeOne io h f c ofd i s).1.store f j c = findTask s.store f j c := by
  rcases mergeOne_cases io h f c ofd i s with ⟨hn, -⟩ | ⟨w, st, hg, ⟨-, hr⟩ | ⟨he', -⟩ | ⟨he', -⟩⟩
  · rw [getTaskFromAlltask_none.mp hn] at hf
    exact absurd hf (by simp)
  · rw [hr]
    refine ⟨rfl, rfl, fun j hj => ?_⟩
    rw [← findTask_getTaskFromAlltask hg hj]
    exact findTask_of_alltask_eq alltask_vfsSetTask
  · obtain rfl : w = v := Option.some.inj ((getTaskFromAlltask_some hg).1.symm.trans hf)
    exact absurd he' he
  · obtain rfl : w = v := Option.some.inj ((getTaskFromAlltask_some hg).1.symm.trans hf)
    exact absurd he' he

/-- A round whose block can be opened: its bytes go to the output, as far as nothing fails, and its file
is removed, if that does not fail. -/
theorem mergeOne_opened (h : Bytes) (ofd : Nat) (hf : findTask s.store f i c = some v) (he : v.base.expire = 0)
    (hin : io.openIn i = true) (hd : s.fs.content v.base.tmpfile = some d) :
    (mergeOne io h f c ofd i s).1.fs =
      (if io.unlink i then (s.fs.pwrite ofd (s.fs.node ofd).length
          (copyLoop (io.read i) (io.write i) d.length 0 d).1).unlink v.base.tmpfile
        else s.fs.pwrite ofd (s.fs.node ofd).length
          (copyLoop (io.read i) (io.write i) d.length 0 d).1) ∧
    (io.unlink i = false → (mergeOne io h f c ofd i s).2 = false) := by
  obtain ⟨st, hg⟩ := getTaskFromAlltask_of_findTask hf
  unfold mergeOne
  rw [hg]
  dsimp only
  rw [if_neg (by simp [he]), if_pos hin, hd]
  dsimp only
  constructor
  · split <;> rfl
  · intro hun
    rw [if_pos (Or.inr (by simp [hun]))]

/-- A merge makes no files. -/
theorem mergeLoop_absent (l : List Int) (hn : s.fs.content p = none) :
    (mergeLoop io h f c ofd l s).fs.content p = none := by
  refine mergeLoop_induct (P := fun s : Sm => s.fs.content p = none) (fun s i _ hn => ?_) hn
  have hwrite : ∀ (off : Nat) (b : Bytes), (s.fs.pwrite ofd off b).content p = none := by
    intro off b
    rw [FileSystem.content_eq_none] at hn ⊢
    exact hn
  rcases mergeOne_cases io h f c ofd i s with ⟨-, hr⟩ | ⟨w, st, -, ⟨-, hr⟩ | ⟨-, hr, -⟩ |
    ⟨-, e, -, b, err, -, fs, hfs, s', rfl, hr⟩⟩
  · rw [hr]
    exact hn
  · rw [hr]
    exact hn
  · rw [hr]
    exact hn
  · have hfs' : fs.content p = none := by
      rw [hfs]
      split
      · by_cases hp : p = w.base.tmpfile
        · rw [hp, FileSystem.content_unlink_self]
        · rw [FileSystem.content_unlink_ne _ hp]
          exact hwrite ..
      · exact hwrite ..
    rcases hr with ⟨-, hr⟩ | ⟨-, hr⟩ <;> rw [hr] <;> exact hfs'

/-! ## The loop -/

theorem firstCopied_congr (fs : FileSystem Bytes) : ∀ (l : List Int),
    (∀ j ∈ l, findTask st' f j c = findTask st f j c) →
    firstCopied io f c st' fs l = firstCopied io f c st fs l := by
  intro l
  induction l with
  | nil => exact fun _ => rfl
  | cons i l ih =>
    intro hsame
    rw [firstCopied, firstCopied, hsame i (by simp), ih fun j hj => hsame j (by simp [hj])]

/-- The files after the loop, from the first block it copies. -/
theorem mergeLoop_files (io : MergeIo) (h f : Bytes) (c : Int) (ofd : Nat) : ∀ (l : List Int) (s : Sm), l.Nodup →
    match firstCopied io f c s.store s.fs l with
    | none => (mergeLoop io h f c ofd l s).fs = s.fs
    | some (i, d) => ∃ v, i ∈ l ∧ findTask s.store f i c = some v ∧ s.fs.content v.base.tmpfile = some d ∧
        (io.unlink i = false → (mergeLoop io h f c ofd l s).fs = s.fs.pwrite ofd (s.fs.node ofd).length
          (copyLoop (io.read i) (io.write i) d.length 0 d).1) ∧
        (io.unlink i = true → (mergeLoop io h f c ofd l s).fs.content v.base.tmpfile = none) := by
  intro l
  induction l with
  | nil => exact fun s _ => rfl
  | cons i l ih =>
    intro s hnd
    obtain ⟨hi, hnd⟩ := List.nodup_cons.mp hnd
    rw [firstCopied, mergeLoop]
    rcases hf : findTask s.store f i c with _ | v
    · -- no record
      have hone : mergeOne io h f c ofd i s = (s, false) := by
        unfold mergeOne
        rw [getTaskFromAlltask_none.mpr hf]
      rw [hone]
      rfl
    dsimp only
    by_cases he : v.base.expire = 0
    · rw [if_neg (by simp [he])]
      by_cases hopen : io.openIn i = true ∧ s.fs.content v.base.tmpfile ≠ none
      · -- the block is copied
        obtain ⟨hin, hd⟩ := hopen
        obtain ⟨d, hd⟩ := Option.ne_none_iff_exists'.mp hd
        obtain ⟨hfs, hend⟩ := mergeOne_opened h ofd hf he hin hd
        rw [if_pos hin, hd]
        refine ⟨v, by simp, hf, hd, fun hun => ?_, fun hun => ?_⟩
        · rw [if_neg (by simp [hend hun]), hfs, if_neg (by simp [hun])]
        · have hgone : (mergeOne io h f c ofd i s).1.fs.content v.base.tmpfile = none := by
            rw [hfs, if_pos hun, FileSystem.content_unlink_self]
          split
          · exact mergeLoop_absent l hgone
          · exact hgone
      · -- it can not be opened
        have hshut : (if io.openIn i then s.fs.content v.base.tmpfile else none) = none := by
          split
          · next hin => exact not_not.mp fun hd => hopen ⟨hin, hd⟩
          · rfl
        obtain ⟨st, -, hone⟩ := mergeOne_shut h ofd hf he hshut
        rw [hone]
        split at hshut
        · next hin =>
          rw [if_pos hin, hshut]
          rfl
        · next hin =>
          rw [if_neg hin]
          rfl
    · -- it is expired
      obtain ⟨hcont, hfs, hother⟩ := mergeOne_expired io h ofd hf he
      have hne : ∀ j ∈ l, findTask (mergeOne io h f c ofd i s).1.store f j c = findTask s.store f j c :=
        fun j hj => hother j fun hij => hi (hij ▸ hj)
      have hloop := ih (mergeOne io h f c ofd i s).1 hnd
      rw [firstCopied_congr _ l hne, hfs] at hloop
      rw [if_pos he, if_pos hcont]
      revert hloop
      rcases firstCopied io f c s.store s.fs l with _ | ⟨j, d⟩
      · exact fun hloop => hloop
      · rintro ⟨w, hj, hw, hd, hrest⟩
        rw [hne j hj] at hw
        exact ⟨w, List.mem_cons_of_mem _ hj, hw, hd, hrest⟩

/-! ## The merge -/

theorem content_pwrite_ne_none {off : Nat} : (fs.pwrite ofd off d).content p ≠ none ↔ fs.content p ≠ none := by
  rw [ne_eq, ne_eq, FileSystem.content_eq_none, FileSystem.content_eq_none, FileSystem.names_pwrite]

/-- A merge keeps the output file and the files of the blocks exactly if it has hardly begun. -/
theorem keepsFiles_iff (cfg : Cfg) (io : MergeIo) (h srcip f : Bytes) (c : Int) (filemd5 : Bytes) (s : Sm) :
    KeepsFiles cfg io h f c s (doMergeFile cfg io h srcip f c filemd5 s) ↔
      HarmlessFailure cfg io h f c s := by
  unfold HarmlessFailure
  by_cases ho : io.openOut = true
  · obtain ⟨ofd, m, text, hofd, hstore, hfs, he, -⟩ := doMergeFile_since cfg h srcip f c filemd5 ho s
    have hopened : openedFiles cfg io h f s = m.fs := by
      rw [openedFiles, if_pos ho, hfs]
    have hname : m.fs.names (getLocaldir cfg h f) = some ofd := by
      rw [hfs, hofd, FileSystem.names_creat_self]
    have hempty : m.fs.node ofd = [] := by
      rw [hfs, hofd, FileSystem.node_creat]
    have hmerge : (doMergeFile cfg io h srcip f c filemd5 s).fs = (mergeLoop io h f c ofd (idxs c) m).fs := by
      rw [he, note_fs]
    have hloop := mergeLoop_files io h f c ofd (idxs c) m
      (nodup_idxs c)
    rw [hopened]
    rw [hstore] at hloop
    rw [or_iff_right (by simp [ho])]
    revert hloop
    rcases firstCopied io f c s.store m.fs (idxs c) with _ | ⟨i, d⟩
    · -- no block has been copied
      intro hloop
      have hloop : (mergeLoop io h f c ofd (idxs c) m).fs = m.fs := hloop
      have hcontent : m.fs.content (getLocaldir cfg h f) = some [] := by
        rw [m.fs.content_of_names hname, hempty]
      constructor
      · intro hk e hout
        have hkept := hk.output e hout
        rw [hmerge, hloop, hcontent] at hkept
        exact (Option.some.inj hkept).symm
      · intro hnil
        refine ⟨fun e hout => ?_, fun _ _ t _ _ hthere => ?_⟩
        · rw [hmerge, hloop, hcontent, hnil e hout]
        · rwa [hmerge, hloop, ← hopened]
    · rintro ⟨v, hi, hv, hd, hkept, hgone⟩
      rcases hun : io.unlink i with _ | _
      · -- the file of the first block copied is still there
        have hwritten : (mergeLoop io h f c ofd (idxs c) m).fs.content (getLocaldir cfg h f) =
            some (copyLoop (io.read i) (io.write i) d.length 0 d).1 := by
          rw [hkept hun, FileSystem.content_pwrite _ hname, splice_end, hempty, List.nil_append]
        constructor
        · intro hk
          refine ⟨hun, fun e hout => ?_⟩
          have houtput := hk.output e hout
          rw [hmerge, hwritten] at houtput
          exact (Option.some.inj houtput).symm
        · rintro ⟨-, hsame⟩
          refine ⟨fun e hout => ?_, fun _ _ t _ _ hthere => ?_⟩
          · rw [hmerge, hwritten, ← hsame e hout]
          · rw [hmerge, hkept hun, content_pwrite_ne_none, ← hopened]
            exact hthere
      · -- it has been removed
        refine ⟨fun hk => ?_, fun ⟨hne, _⟩ => absurd hne (by simp [hun])⟩
        obtain ⟨hmem, hkey⟩ := findTask_some hv
        have hthere := hk.blocks i hi v ⟨_, hmem⟩ hkey (by rw [hopened, hd]; simp)
        rw [hmerge, hgone hun] at hthere
        exact absurd rfl hthere
  · have he : doMergeFile cfg io h srcip f c filemd5 s = s.note (.ioErr (getLocaldir cfg h f)) := by
      unfold doMergeFile
      rw [if_neg ho]
    rw [he]
    refine ⟨fun _ => Or.inl (by simpa using ho), fun _ => ⟨fun e hout => hout, fun _ _ t _ _ hthere => ?_⟩⟩
    rwa [openedFiles, if_neg ho] at hthere

/-- **A merge that ends badly** keeps what the output file held and the files of the blocks exactly if it
could not open the output, or has not gone beyond a first block whose file could not be removed and has
left in the output what it held before. -/
theorem failed_merge_keeps_iff (cfg : Cfg) (io : MergeIo) (h srcip f : Bytes) (c : Int) (filemd5 : Bytes)
    (s : Sm) :
    (¬ MergedWell cfg h f filemd5 (doMergeFile cfg io h srcip f c filemd5 s) →
        KeepsFiles cfg io h f c s (doMergeFile cfg io h srcip f c filemd5 s)) ↔
      (¬ MergedWell cfg h f filemd5 (doMergeFile cfg io h srcip f c filemd5 s) →
        HarmlessFailure cfg io h f c s) :=
  imp_congr_right fun _ => keepsFiles_iff cfg io h srcip f c filemd5 s

/-- A file with one block is stored already; the new upload of it does not have the digest of its
header. -/
theorem failed_merge_destroys :
    let out := getLocaldir .sample (txt "h") (txt "f")
    let s := { oneBlock with fs := oneBlock.fs.save out [9] }
    let s' := doMergeFile .sample .ok (txt "h") [] (txt "f") 1 (txt "x") s
    s.fs.content out = some [9] ∧ ¬ MergedWell .sample (txt "h") (txt "f") (txt "x") s' ∧
      s'.fs.content out = some [1] ∧
      ¬ KeepsFiles .sample .ok (txt "h") (txt "f") 1 s s' := by
  intro out s s'
  have hbefore : s.fs.content out = some [9] := FileSystem.content_save_self ..
  have hafter : s'.fs.content out = some [1] := by decide +kernel
  refine ⟨hbefore, fun hw => ?_, hafter, fun hk => ?_⟩
  · rw [MergedWell, hafter] at hw
    exact absurd hw (by decide)
  · have hkept := hk.output [9] hbefore
    rw [hafter] at hkept
    exact absurd hkept (by simp)

end VfsOss
