import VfsOss.Sm.Arrays
import VfsOss.Sm.Proofs.StabilityProofs

/-!
# Proofs: the files a step changes

A set of names that holds the temporary file of every block, the merged file of every block and what the shell
touches for it holds every file that a step makes, empties, writes or removes.
-/

namespace VfsOss

open CLib

variable {cfg : Cfg} {opens : Bool} {io : MergeIo} {S T : Bytes → Prop} {s s' : Sm} {t : Tasklist} {fd : Nat}

/-- The files of a block: its temporary file, the merged file, and what the shell touches. -/
structure Tasklist.FilesIn (cfg : Cfg) (S : Bytes → Prop) (t : Tasklist) : Prop where
  tmpfile : S t.base.tmpfile
  outfile : S (getLocaldir cfg t.base.hostname t.base.filename)
  marker : ∀ path ∈ cfg.shTouch (snprintf 256 (txt "touch " ++
    checkfile (getLocaldir cfg t.base.hostname t.base.filename))), S path

theorem Tasklist.FilesIn.mono (h : t.FilesIn cfg S) (hST : ∀ path, S path → T path) : t.FilesIn cfg T :=
  ⟨hST _ h.tmpfile, hST _ h.outfile, fun path hp => hST _ (h.marker path hp)⟩

theorem filesIn_ofBlock (cfg : Cfg) (S : Bytes → Prop) : OfBlock (Tasklist.FilesIn cfg S) := by
  intro t v ht hhost hfile htmp _
  refine ⟨?_, ?_, ?_⟩
  · rw [htmp]
    exact ht.tmpfile
  · rw [hhost, hfile]
    exact ht.outfile
  · rw [hhost, hfile]
    exact ht.marker

/-! ## A round of the pass -/

theorem checkLackTask_within (ht : t.FilesIn cfg S) : FileSystem.Within S s.fs (checkLackTask cfg t s).fs := by
  unfold checkLackTask
  dsimp only
  split
  · exact .refl
  · refine foldl_induct (P := fun b : Sm => FileSystem.Within S s.fs b.fs) (fun b i _ hb => ?_) (.touches ht.marker)
    rcases lackOne_cases cfg b t (getLocaldir cfg t.base.hostname t.base.filename) i with
      he | ⟨-, ⟨-, he⟩ | ⟨task0, st, -, he⟩⟩ <;> rw [he] <;> exact hb

/-- The files of the blocks that can be merged. -/
def TableFilesIn (S : Bytes → Prop) (st : TaskStore) : Prop := Table (fun v => S v.base.tmpfile) st

theorem mergeOne_within (io : MergeIo) {h f : Bytes} {c i : Int} {ofd : Nat} (hout : s.fs.NamedIn S ofd)
    (htable : TableFilesIn S s.store) :
    FileSystem.Within S s.fs (mergeOne io h f c ofd i s).1.fs := by
  rcases mergeOne_cases io h f c ofd i s with ⟨-, he⟩ | ⟨v, st, hg, hc⟩
  · rw [he]
    exact .refl
  · have hv : S v.base.tmpfile := (htable.take hg).1
    rcases hc with ⟨-, he⟩ | ⟨-, he, -⟩ | ⟨-, d, -, e, err, -, fs, hfs, s', rfl, ⟨-, he⟩ | ⟨-, he⟩⟩ <;> rw [he]
    · exact .refl
    · exact .refl
    all_goals
      have hw : FileSystem.Within S s.fs fs := by
        rw [hfs]
        split
        · exact (FileSystem.Within.pwrite hout _ _).trans (.unlink hv)
        · exact .pwrite hout _ _
      exact hw

theorem doMergeFile_within (cfg : Cfg) (io : MergeIo) {h f srcip filemd5 : Bytes} {c : Int}
    (hout : S (getLocaldir cfg h f)) (htable : TableFilesIn S s.store) :
    FileSystem.Within S s.fs (doMergeFile cfg io h srcip f c filemd5 s).fs := by
  by_cases ho : io.openOut = true
  · obtain ⟨text, he⟩ := doMergeFile_open cfg ho s h srcip f c filemd5
    rw [he]
    generalize hs0 : ({ s with fs := (s.fs.creat (getLocaldir cfg h f)).2 } : Sm).note (.merge h f c) = s0
    have hw0 : FileSystem.Within S s.fs s0.fs := by
      rw [← hs0]
      exact .creat hout
    have hnamed : s0.fs.NamedIn S (s.fs.creat (getLocaldir cfg h f)).1 := by
      rw [← hs0]
      exact FileSystem.namedIn_creat hout
    have htable0 : TableFilesIn S s0.store := by
      rw [← hs0]
      exact htable
    -- the open output and the blocks in the table keep their names in the set, round by round
    refine And.left (mergeLoop_induct (P := fun b : Sm => FileSystem.Within S s.fs b.fs ∧
      b.fs.NamedIn S (s.fs.creat (getLocaldir cfg h f)).1 ∧ TableFilesIn S b.store) (fun b i _ hb => ?_)
      ⟨hw0, hnamed, htable0⟩)
    obtain ⟨hw, hn, htab⟩ := hb
    have hone := mergeOne_within io (h := h) (f := f) (c := c) (i := i) hn htab
    exact ⟨hw.trans hone, hone.named _ hn, (mergeOne_table io h f c _ i htab).1⟩
  · unfold doMergeFile
    rw [if_neg ho]
    exact .refl

theorem finTask_within (cfg : Cfg) (io : MergeIo) (ht : t.base.overstatus = .ok → t.FilesIn cfg S)
    (htable : TableFilesIn S s.store) : FileSystem.Within S s.fs (finTask cfg io t s).fs := by
  by_cases hover : t.base.overstatus = .ok
  · have hfiles := ht hover
    have hlack : FileSystem.Within S s.fs (beforeMerge cfg t s).fs := checkLackTask_within hfiles
    have htable1 : TableFilesIn S (beforeMerge cfg t s).store :=
      Table.add (checkLackTask_table cfg (fun _ hv => hv) htable) hfiles.tmpfile
    rw [finTask_ok cfg io hover]
    split
    · exact hlack.trans (doMergeFile_within cfg io hfiles.outfile htable1)
    · exact hlack
  · unfold finTask
    rw [if_pos hover]
    split
    · exact .refl
    · have hfs : (clearAlltaskTimeout t.base.hostname t.base.filename t.sub.count s).fs = s.fs := by
        refine foldl_induct (P := fun b : Sm => b.fs = s.fs) (fun b i _ hb => ?_) rfl
        rcases clearOne_cases t.base.hostname t.base.filename t.sub.count b i with
          ⟨-, he⟩ | ⟨v, st, -, he⟩ <;> rw [he] <;> exact hb
      rw [note_fs, hfs]
      exact .refl

/-! ## The machine -/

/-- The names of the files that are open are in the set. -/
def OpenIn (S : Bytes → Prop) (s : Sm) : Prop :=
  ∀ fd t node off, s.recv fd = some (t, node, off) → s.fs.NamedIn S node

/-- The invariant: so are the files of all blocks. -/
structure FilesHeld (cfg : Cfg) (S : Bytes → Prop) (s : Sm) : Prop where
  records : Records (Tasklist.FilesIn cfg S) s
  opened : OpenIn S s

theorem FilesHeld.mono (h : FilesHeld cfg S s) (hST : ∀ path, S path → T path) : FilesHeld cfg T s :=
  ⟨h.records.mono fun _ ht => ht.mono hST, fun fd t node off hr => (h.opened fd t node off hr).mono hST⟩

theorem OpenIn.within (h : OpenIn S s) (hw : FileSystem.Within S s.fs s'.fs) (hr : s'.recv = s.recv) :
    OpenIn S s' := by
  intro fd t node off hv
  rw [hr] at hv
  exact hw.named node (h fd t node off hv)

/-- One connection goes on with an open file, or without one. -/
theorem OpenIn.update {r : Option (Tasklist × Nat × Nat)} (h : OpenIn S s) (hw : FileSystem.Within S s.fs s'.fs)
    (hr : s'.recv = Function.update s.recv fd r) (hn : ∀ t node off, r = some (t, node, off) → s'.fs.NamedIn S node) :
    OpenIn S s' := by
  intro fd' t node off hv
  rw [hr] at hv
  by_cases hfd : fd' = fd
  · subst hfd
    rw [Function.update_self] at hv
    exact hn t node off hv
  · rw [Function.update_of_ne hfd] at hv
    exact hw.named node (h fd' t node off hv)

theorem HeadMove.within (hm : HeadMove cfg opens fd s s') (h : OpenIn S s)
    (hpost : ∀ t, s'.log = s.log ++ [.post t] → S (prepared cfg t).base.tmpfile) :
    FileSystem.Within S s.fs s'.fs ∧ OpenIn S s' := by
  have hsame : s'.fs = s.fs → FileSystem.Within S s.fs s'.fs := fun hfs => hfs ▸ .refl
  cases hm with
  | stay hs => exact ⟨hsame hs.fs, h.within (hsame hs.fs) hs.recv⟩
  | ask host store fs log recv => exact ⟨hsame fs, h.within (hsame fs) recv⟩
  | noRecord none store fs log recv => exact ⟨hsame fs, h.within (hsame fs) recv⟩
  | refuse task0 t st home posted store fs log recv => exact ⟨hsame fs, h.within (hsame fs) recv⟩
  | start task0 t st home posted opened free store fs log recv =>
    have hw : FileSystem.Within S s.fs s'.fs := fs ▸ .creat (hpost t log)
    refine ⟨hw, h.update hw recv fun v node off he => ?_⟩
    obtain ⟨-, hf⟩ := Prod.mk.inj (Option.some.inj he)
    obtain ⟨rfl, -⟩ := Prod.mk.inj hf
    rw [fs]
    exact FileSystem.namedIn_creat (hpost t log)

theorem BodyMove.within (hm : BodyMove fd s s') (h : OpenIn S s) :
    FileSystem.Within S s.fs s'.fs ∧ OpenIn S s' := by
  -- the bytes go to the file of the connection, which stays open or not
  have hwrite : ∀ {t : Tasklist} {node off : Nat} {bytes : Bytes} {r : Option (Tasklist × Nat × Nat)},
      s.recv fd = some (t, node, off) → s'.fs = s.fs.pwrite node off bytes →
      s'.recv = Function.update s.recv fd r → (∀ v node' off', r = some (v, node', off') → node' = node) →
      FileSystem.Within S s.fs s'.fs ∧ OpenIn S s' := by
    intro t node off bytes r recv0 fs recv hr
    have hn := h fd t node off recv0
    have hw : FileSystem.Within S s.fs s'.fs := fs ▸ .pwrite hn off bytes
    exact ⟨hw, h.update hw recv fun v node' off' he => hr v node' off' he ▸ hw.named node hn⟩
  cases hm with
  | stay hs =>
    have hw : FileSystem.Within S s.fs s'.fs := hs.fs ▸ .refl
    exact ⟨hw, h.within hw hs.recv⟩
  | write t node off bytes recv0 fits pos more store fs log recv =>
    exact hwrite recv0 fs recv fun _ _ _ he => (Prod.mk.inj (Prod.mk.inj (Option.some.inj he)).2).1.symm
  | finish t node off bytes recv0 fits pos done store fs log recv =>
    exact hwrite recv0 fs recv fun _ _ _ he => nomatch he
  | overflow t node off bytes recv0 fits neg store fs log recv =>
    exact hwrite recv0 fs recv fun _ _ _ he => (Prod.mk.inj (Prod.mk.inj (Option.some.inj he)).2).1.symm

theorem CloseMove.within (hm : CloseMove fd s s') (h : OpenIn S s) :
    FileSystem.Within S s.fs s'.fs ∧ OpenIn S s' := by
  cases hm with
  | stay hs =>
    have hw : FileSystem.Within S s.fs s'.fs := hs.fs ▸ .refl
    exact ⟨hw, h.within hw hs.recv⟩
  | abort t f recv0 store fs log recv =>
    have hw : FileSystem.Within S s.fs s'.fs := fs ▸ .refl
    exact ⟨hw, h.update hw recv fun _ _ _ he => nomatch he⟩

theorem finIter_within (cfg : Cfg) (io : MergeIo) (h : FilesHeld cfg S s) :
    FileSystem.Within S s.fs (finIter cfg io s).fs ∧ OpenIn S (finIter cfg io s) := by
  rcases ho : s.once with _ | k
  · unfold finIter
    rw [ho]
    exact ⟨.refl, h.opened⟩
  rcases hq : s.store.vfstask .fin with _ | ⟨t, rest⟩
  · rw [finIter_nil ho hq]
    exact ⟨.refl, h.opened⟩
  by_cases hk : k < 128
  · rw [finIter_cons ho hq hk]
    have ht : t.taken.FilesIn cfg S :=
      filesIn_ofBlock cfg S t _ (h.records.fin t (by rw [hq]; exact List.mem_cons_self)) rfl rfl rfl rfl
    have htable : TableFilesIn S s.popFin.store := fun v hv =>
      (h.records.table.of_alltask_eq alltask_popFin v hv).tmpfile
    have hw := finTask_within (s := ({ s.popFin with once := some (k + 1) } : Sm).note (.fin t.taken)) cfg io
      (fun _ => ht) htable
    exact ⟨hw, h.opened.within hw (recv_of_acon (finTask_frame ..).1)⟩
  · rw [finIter_full ho hq (by omega)]
    exact ⟨.refl, h.opened⟩

/-- **What a step does to the files.** It changes files of the set only, when the files of a record that it makes
are in the set, and the files of all blocks stay there. -/
theorem smStep_within (hs : WellSited s) (h : FilesHeld cfg S s) (a : SmAct)
    (hpost : ∀ t, (smStep cfg s a).log = s.log ++ [.post t] → (prepared cfg t).FilesIn cfg S) :
    FileSystem.Within S s.fs (smStep cfg s a).fs ∧ FilesHeld cfg S (smStep cfg s a) := by
  have hrec := (h.records.smStep cfg (filesIn_ofBlock cfg S) hs a hpost).1
  obtain ⟨ht, -⟩ := hs
  suffices hfiles : FileSystem.Within S s.fs (smStep cfg s a).fs ∧ OpenIn S (smStep cfg s a) from
    ⟨hfiles.1, hrec, hfiles.2⟩
  have hsame : ∀ {s' : Sm}, SameRecords s s' → FileSystem.Within S s.fs s'.fs ∧ OpenIn S s' := by
    intro s' hs
    have hw : FileSystem.Within S s.fs s'.fs := hs.fs ▸ .refl
    exact ⟨hw, h.opened.within hw hs.recv⟩
  cases a with
  | accept fd ip mem => exact hsame (acceptNew_same cfg mem fd ip ht).2.1
  | recv fd chunk io =>
    obtain ⟨-, -, s1, s2, hm1, hm2, hm3⟩ := doRecv_moves cfg io Mybuff.data fd chunk ht
    have hlog : (smStep cfg s (.recv fd chunk io)).log = s1.log := hm3.log_eq.trans hm2.log_eq
    obtain ⟨hw1, ho1⟩ := hm1.within h.opened fun t he => (hpost t (hlog.trans he)).tmpfile
    obtain ⟨hw2, ho2⟩ := hm2.within ho1
    obtain ⟨hw3, ho3⟩ := hm3.within ho2
    exact ⟨(hw1.trans hw2).trans hw3, ho3⟩
  | send fd n => exact (doSend_move fd n ht).2.2.within h.opened
  | close fd => exact (doClose_move fd ht).1.within h.opened
  | finBegin => exact hsame (finBegin_same s)
  | finIter io => exact finIter_within cfg io h
  | began hostname filename => exact ⟨.refl, h.opened⟩

end VfsOss
