import VfsOss.Sm.Confined
import VfsOss.Sm.Proofs.FilesProofs
import VfsOss.Sm.Proofs.HandedOverProofs
import VfsOss.Sm.Proofs.PathsProofs

/-!
# Proofs: the files and directories of uploads stay below the data directory

A place that is harmless when a block is started stays so, as directories only come to be. So the names that are
harmless are one set for all blocks, and no step leaves it.
-/

namespace VfsOss

open CLib

variable {cfg : Cfg} {cwd : List Bytes} {mkdir : Bytes → Bool} {dirs dirs' : Dirs} {w : Tree} {t : Tasklist}
variable {a : SmAct × (Bytes → Bool)}

/-! ## Directories -/

theorem Harmless.mono {path : Bytes} (h : Harmless cfg cwd dirs path)
    (hd : ∀ place, dirs place = true → dirs' place = true) : Harmless cfg cwd dirs' path :=
  h.imp_left (hd _)

/-- `createdir` removes no directory, and makes only such as the path leads through. -/
theorem createdirLoop_spec {files : List Bytes} (h : ∀ file ∈ files, Harmless cfg cwd dirs file) :
    (∀ place, dirs place = true → (createdirLoop cwd mkdir files dirs).2 place = true) ∧
    ∀ place, (createdirLoop cwd mkdir files dirs).2 place ≠ dirs place →
      StrictlyBelow (locate cwd cfg.dstDatadir) place := by
  induction files generalizing dirs with
  | nil => exact ⟨fun _ hd => hd, fun _ hne => absurd rfl hne⟩
  | cons file files ih =>
    unfold createdirLoop
    by_cases hd : dirs (locate cwd file) = true
    · rw [if_pos hd]
      exact ih fun f hf => h f (List.mem_cons_of_mem file hf)
    · rw [if_neg hd]
      by_cases hm : mkdir file = true
      · rw [if_pos hm]
        have hgrow : ∀ place, dirs place = true → Function.update dirs (locate cwd file) true place = true := by
          intro place hp
          by_cases hpl : place = locate cwd file
          · rw [hpl, Function.update_self]
          · rwa [Function.update_of_ne hpl]
        obtain ⟨hkeep, hmade⟩ := ih fun f hf => (h f (List.mem_cons_of_mem file hf)).mono hgrow
        refine ⟨fun place hp => hkeep place (hgrow place hp), fun place hne => ?_⟩
        by_cases hpl : place = locate cwd file
        · rw [hpl]
          exact (h file List.mem_cons_self).resolve_left hd
        · refine hmade place fun he => hne ?_
          rwa [Function.update_of_ne hpl] at he
      · rw [if_neg hm]
        exact ⟨fun _ hp => hp, fun _ hne => absurd rfl hne⟩

/-! ## The marker -/

theorem markerLine_eq (localfile : Bytes) :
    snprintf 256 (txt "touch " ++ checkfile localfile) = txt "touch " ++ markerArgs localfile := by
  unfold snprintf markerArgs
  rw [List.take_append, List.take_of_length_le (by decide)]
  rfl

/-- The files of a record whose names are harmless. -/
theorem NamesHarmless.filesIn {localfile : Bytes} {idx count : Int} (hsh : TouchesWords cfg.shTouch)
    (h : NamesHarmless cfg cwd dirs localfile idx count)
    (hfile : getLocaldir cfg t.base.hostname t.base.filename = localfile) (hidx : t.sub.idx = idx)
    (hcount : t.sub.count = count) : (prepared cfg t).FilesIn cfg (Harmless cfg cwd dirs) := by
  subst hfile hidx hcount
  refine ⟨h.tmpfile, h.outfile, fun path hp => h.markers path (hsh _ h.plain path ?_)⟩
  rwa [← markerLine_eq]

/-! ## Plain names -/

/-- What leads to the end of a path with one more component. -/
theorem mem_leading_append {path c dir : Bytes} (hc : (47 : UInt8) ∉ c) (h : dir ∈ leading (path ++ 47 :: c)) :
    dir ∈ leading path ∨ dir = path := by
  obtain ⟨k, hk, rfl⟩ := List.mem_map.mp h
  obtain ⟨-, hk⟩ := List.mem_filter.mp hk
  obtain ⟨hpos, hslash⟩ : 1 ≤ k ∧ (path ++ 47 :: c)[k]? = some 47 := by simpa using hk
  rcases Nat.lt_trichotomy k path.length with hlt | rfl | hgt
  · left
    rw [List.getElem?_append_left hlt] at hslash
    rw [List.take_append_of_le_length (Nat.le_of_lt hlt)]
    refine List.mem_map.mpr ⟨k, List.mem_filter.mpr ⟨List.mem_range.mpr hlt, ?_⟩, rfl⟩
    simpa using ⟨hpos, hslash⟩
  · exact Or.inr (List.take_left ..)
  · rw [List.getElem?_append_right (Nat.le_of_lt hgt)] at hslash
    obtain ⟨j, hj⟩ : ∃ j, k - path.length = j + 1 := ⟨k - path.length - 1, by omega⟩
    rw [hj, List.getElem?_cons_succ] at hslash
    exact absurd (List.mem_of_getElem? hslash) hc

theorem isName_of_mem {c : Bytes} (h : (95 : UInt8) ∈ c) : IsName c := by
  refine ⟨List.ne_nil_of_mem h, ?_, ?_⟩
  all_goals
    rintro rfl
    exact absurd h (by decide)

section Plain

variable {host name : Bytes}

/-- The place of a file of a host. -/
theorem locate_file (hd : cfg.dstDatadir ≠ []) (hh : PlainName host) {file : Bytes} (hfile : IsName file)
    (hslash : (47 : UInt8) ∉ file) : locate cwd ((cfg.dstDatadir ++ 47 :: host) ++ 47 :: file) =
      file :: host :: locate cwd cfg.dstDatadir := by
  rw [locate_append (by simp), locate_append hd, follow_single hh.noSlash, enter_name hh.isName, follow_single hslash,
    enter_name hfile]

theorem harmless_file (hd : cfg.dstDatadir ≠ []) (hh : PlainName host) {file : Bytes} (hfile : IsName file)
    (hslash : (47 : UInt8) ∉ file) : Harmless cfg cwd dirs ((cfg.dstDatadir ++ 47 :: host) ++ 47 :: file) := by
  refine Or.inr ?_
  rw [locate_file hd hh hfile hslash]
  exact strictlyBelow_cons.mpr (List.suffix_cons ..)

theorem subfile_plain {localfile : Bytes} {idx count : Int}
    (htmp : (localfile ++ 47 :: name).length + (blockSuffix idx count).length ≤ 255) :
    subfile (localfile ++ 47 :: name) idx count = localfile ++ 47 :: (name ++ blockSuffix idx count) := by
  rw [subfile, snprintf_of_le]
  · simp [blockSuffix]
  · simp [blockSuffix] at htmp ⊢
    omega

theorem markerArgs_plain {localfile : Bytes} (hmarker : (localfile ++ 47 :: name).length + 16 ≤ 249) :
    markerArgs (localfile ++ 47 :: name) = localfile ++ 47 :: (name ++ txt "_checkfile_nodup") := by
  have hlen : (txt "_checkfile_nodup").length = 16 := rfl
  have hall : ((localfile ++ 47 :: name) ++ txt "_checkfile_nodup").length ≤ 249 := by
    rw [List.length_append, hlen]
    exact hmarker
  rw [markerArgs, checkfile, snprintf_of_le (by omega), List.take_of_length_le hall, List.append_assoc,
    List.cons_append]

/-- The shell leaves the name of a marker in one piece. -/
theorem not_special_of_plain (hd : DatadirThere cfg cwd dirs) (hh : PlainName host) (hn : PlainName name) :
    ∀ b ∈ (cfg.dstDatadir ++ 47 :: host) ++ 47 :: (name ++ txt "_checkfile_nodup"), b ∉ 32 :: 9 :: shellSpecial := by
  have hsuffix : (txt "_checkfile_nodup").all (fun b => decide (b ∉ 32 :: 9 :: shellSpecial)) = true := by decide
  intro b hb
  simp only [List.mem_append, List.mem_cons] at hb
  rcases hb with (hb | rfl | hb) | rfl | hb | hb
  · exact hd.plain b hb
  · decide
  · exact hh.plain b hb
  · decide
  · exact hn.plain b hb
  · exact of_decide_eq_true (List.all_eq_true.mp hsuffix b hb)

/-- **Plain names are harmless**, when none of the paths is cut. -/
theorem namesHarmless_of_plain (hd : DatadirThere cfg cwd dirs) (hh : PlainName host) (hn : PlainName name)
    {idx count : Int} (hmarker : ((cfg.dstDatadir ++ 47 :: host) ++ 47 :: name).length + 16 ≤ 249)
    (htmp : ((cfg.dstDatadir ++ 47 :: host) ++ 47 :: name).length + (blockSuffix idx count).length ≤ 255) :
    NamesHarmless cfg cwd dirs ((cfg.dstDatadir ++ 47 :: host) ++ 47 :: name) idx count := by
  have hmark : (95 : UInt8) ∈ name ++ txt "_checkfile_nodup" := List.mem_append_right _ (by decide)
  have hblock : (95 : UInt8) ∈ name ++ blockSuffix idx count := List.mem_append_right _ List.mem_cons_self
  have hslash : ∀ {s : Bytes}, (47 : UInt8) ∉ s → (47 : UInt8) ∉ name ++ s := fun hs hm =>
    (List.mem_append.mp hm).elim hn.noSlash hs
  have hbytes := not_special_of_plain hd hh hn
  refine ⟨?_, ?_, harmless_file hd.nonempty hh hn.isName hn.noSlash, ?_, ?_⟩
  · rw [subfile_plain htmp]
    intro dir hdir
    rcases mem_leading_append (hslash (slash_not_mem_blockSuffix idx count)) hdir with hdir | rfl
    · rcases mem_leading_append hh.noSlash hdir with hdir | rfl
      · exact Or.inl (hd.leading dir hdir)
      · exact Or.inl hd.there
    · -- the directory of the host
      refine Or.inr ?_
      rw [locate_append hd.nonempty, follow_single hh.noSlash, enter_name hh.isName]
      exact strictlyBelow_cons.mpr List.suffix_rfl
  · rw [subfile_plain htmp]
    exact harmless_file hd.nonempty hh (isName_of_mem hblock) (hslash (slash_not_mem_blockSuffix idx count))
  · rw [markerArgs_plain hmarker]
    exact fun b hb hs => hbytes b hb (List.mem_cons_of_mem _ (List.mem_cons_of_mem _ hs))
  · rw [markerArgs_plain hmarker, words, List.splitOnP_eq_singleton]
    · intro path hp
      obtain rfl := List.mem_singleton.mp (List.mem_filter.mp hp).1
      exact harmless_file hd.nonempty hh (isName_of_mem hmark) (hslash (by decide))
    · intro b hb
      have hb := hbytes b hb
      simp only [List.mem_cons, not_or] at hb
      simp [hb.1, hb.2.1]

end Plain

/-! ## Runs -/

theorem mem_since_of_madeBy {s s' : Sm} (h : madeBy s s' = some t) : .post t ∈ s.since s' := by
  unfold madeBy at h
  split at h
  · next u rest he =>
    obtain rfl := Option.some.inj h
    rw [he]
    exact List.mem_cons_self
  · exact nomatch h

/-- A record is made from a header with harmless names. -/
theorem StepConfined.made (hsh : TouchesWords cfg.shTouch) (hs : WellSited w.sm) (ha : StepConfined cfg cwd w a)
    (hpost : .post t ∈ w.sm.since (smStep cfg w.sm a.1)) :
    (prepared cfg t).FilesIn cfg (Harmless cfg cwd w.dirs) ∧
    ∀ dir ∈ leading (prepared cfg t).base.tmpfile, Harmless cfg cwd w.dirs dir := by
  obtain ⟨fd, chunk, io, l, he, hl, hmade⟩ := mem_since_post hs.1 hpost
  obtain ⟨act, mkdir⟩ := a
  obtain rfl : act = .recv fd chunk io := he
  have hnames := ha.2 l hl
  have hidx : t.sub.idx = toInt32 (atol l.idx) := congrArg TaskSub.idx hmade.sub
  have hcount : t.sub.count = toInt32 (atol l.count) := congrArg TaskSub.count hmade.sub
  refine ⟨hnames.filesIn hsh (hmade.localdir cfg) hidx hcount, ?_⟩
  have htmp : (prepared cfg t).base.tmpfile =
      subfile (l.localdir cfg) (toInt32 (atol l.idx)) (toInt32 (atol l.count)) := by
    rw [← hmade.localdir cfg, ← hidx, ← hcount]
    rfl
  rw [htmp]
  exact hnames.onTheWay

/-- The invariant: the paths of all records fit, and their files are harmless. -/
structure Tree.Held (cfg : Cfg) (cwd : List Bytes) (w : Tree) : Prop where
  paths : PathsHeld cfg w.sm
  files : FilesHeld cfg (Harmless cfg cwd w.dirs) w.sm

/-- **A step** whose header has harmless names changes nothing outside. -/
theorem Tree.Held.step (h : w.Held cfg cwd) (hsh : TouchesWords cfg.shTouch) (ha : StepConfined cfg cwd w a) :
    treeStepInto cfg cwd w a = .ok (treeStep cfg cwd w a) ∧ w.KeepsBelow cfg cwd (treeStep cfg cwd w a) ∧
    (treeStep cfg cwd w a).Held cfg cwd := by
  have hs : WellSited w.sm := h.paths.1
  have hok : treeStepInto cfg cwd w a = .ok (treeStep cfg cwd w a) :=
    ((smStepInto_guarded cfg w.sm a.1).map (w.enter cfg cwd a.2)).ok
      ⟨ha.1, fun t ht _ => h.paths.processed ht⟩
  have hdirs : (∀ place, w.dirs place = true → (treeStep cfg cwd w a).dirs place = true) ∧
      ∀ place, (treeStep cfg cwd w a).dirs place ≠ w.dirs place →
        StrictlyBelow (locate cwd cfg.dstDatadir) place := by
    unfold treeStep Tree.enter
    cases hmade : madeBy w.sm (smStep cfg w.sm a.1) with
    | none => exact ⟨fun _ hd => hd, fun _ hne => absurd rfl hne⟩
    | some t => exact createdirLoop_spec (ha.made hsh hs (mem_since_of_madeBy hmade)).2
  obtain ⟨hw, hfiles⟩ := smStep_within hs h.files a.1 fun t hlog => by
    refine (ha.made hsh hs ?_).1
    rw [Sm.since, hlog, List.drop_left]
    exact List.mem_singleton_self _
  refine ⟨hok, ⟨fun path hne => ?_, hdirs.2⟩, h.paths.step ha.1, hfiles.mono fun path hp => hp.mono hdirs.1⟩
  by_contra hout
  obtain ⟨hnames, hcontent⟩ := hw.same path hout
  exact hne.elim (fun hn => hn hnames) fun hc => hc hcontent

theorem init_held (cfg : Cfg) (cwd : List Bytes) (n : Nat) (fs : FileSystem Bytes) (dirs : Dirs) :
    (Tree.init n fs dirs).Held cfg cwd := by
  obtain ⟨⟨htidy, loc, hl⟩, hrec⟩ := init_pathsHeld cfg n
  have hrecv : ∀ fd t f, (Tree.init n fs dirs).sm.recv fd ≠ some (t, f) := by
    intro fd t f he
    exact absurd he (by simp [Tree.init, Sm.recv, Sm.init, Conn.unused])
  have hfin : ∀ t, t ∉ (Tree.init n fs dirs).sm.store.vfstask .fin := by
    simp [Tree.init, Sm.init, initTaskInfo]
  have htable : ∀ t, ¬ InAlltask (Tree.init n fs dirs).sm.store t := by
    rintro t ⟨b, hb⟩
    exact absurd hb (by simp [Tree.init, Sm.init, initTaskInfo])
  refine ⟨⟨⟨htidy, loc, hl.placed, fun hr => (hrecv _ _ _ hr).elim⟩, hrec.fin, hrec.table,
      fun hr => (hrecv _ _ _ hr).elim⟩,
    ⟨fun t ht => absurd ht (hfin t), fun t ht => absurd ht (htable t), fun hr => (hrecv _ _ _ hr).elim⟩,
    fun fd t node off hr => (hrecv _ _ _ hr).elim⟩

/-- **Path confinement.** In a run whose headers have harmless names, and whose arrays hold, every file that is
made, emptied, written or removed and every directory that is made lies below the data directory. -/
theorem uploads_confined (hsh : TouchesWords cfg.shTouch) (cwd : List Bytes) (n : Nat) (fs : FileSystem Bytes)
    (dirs : Dirs) (as : List (SmAct × (Bytes → Bool)))
    (hok : RunOk (treeStep cfg cwd) (StepConfined cfg cwd) (.init n fs dirs) as) :
    Confined cfg cwd (.init n fs dirs) as := by
  rintro as' a ⟨rest, rfl⟩
  rw [List.append_assoc, RunOk.append] at hok
  obtain ⟨hok, ha, -⟩ := hok
  have hstep : ∀ w a, Tree.Held cfg cwd w → StepConfined cfg cwd w a → Tree.Held cfg cwd (treeStep cfg cwd w a) :=
    fun w a h ha => (h.step hsh ha).2.2
  have h0 := init_held cfg cwd n fs dirs
  have hrun := (guarded_run (fun w a => (smStepInto_guarded cfg w.sm a.1).map (w.enter cfg cwd a.2))
    (Tree.init n fs dirs) as').ok (hok.of_invariant (Tree.Held cfg cwd) hstep
      (fun w a h ha => ⟨ha.1, fun t ht _ => h.paths.processed ht⟩) h0)
  obtain ⟨hlast, hbelow, -⟩ := (run_invariant (Tree.Held cfg cwd) hstep h0 hok).step hsh ha
  exact ⟨_, _, hrun, hlast, hbelow⟩

/-- A call that does not overrun an array, and makes only records with harmless names. -/
theorem stepConfined_recv {fd : Nat} {chunk : Bytes} {io : RecvIo} (hs : WellSited w.sm)
    (hok : (smStepInto cfg w.sm (.recv fd chunk io)).isOk = true)
    (hnames : (w.sm.since (smStep cfg w.sm (.recv fd chunk io))).all (Event.ofPost fun t =>
      NamesHarmless cfg cwd w.dirs (getLocaldir cfg t.base.hostname t.base.filename) t.sub.idx t.sub.count) = true) :
    StepConfined cfg cwd w (.recv fd chunk io, mkdir) := by
  constructor
  · rcases hr : smStepInto cfg w.sm (.recv fd chunk io) with err | s'
    · rw [hr] at hok
      exact nomatch hok
    · exact ((smStepInto_guarded cfg w.sm (.recv fd chunk io)).eq_of_ok hr).1.1
  · intro l hl
    obtain ⟨t, hmade, hlog⟩ := doRecv_post hs.1 hl
    have hpost : .post t ∈ w.sm.since (smStep cfg w.sm (.recv fd chunk io)) := by
      rw [Sm.since, show (smStep cfg w.sm (.recv fd chunk io)).log = _ from hlog, List.drop_left]
      exact List.mem_singleton_self _
    have h := of_decide_eq_true (List.all_eq_true.mp hnames (.post t) hpost)
    rw [hmade.localdir cfg, hmade.sub] at h
    exact h

theorem touchesWords_touching : TouchesWords Cfg.touching.shTouch := by
  intro args _ path hp
  rwa [show Cfg.touching.shTouch (txt "touch " ++ args) = words args from rfl] at hp

/-- The file of a host is received, and merged below the data directory. -/
theorem uploads_confined_plain :
    let w := run (treeStep .touching []) (.init 4 .empty sampleDirs) (wholeUpload (txt "h") (txt "/d/f"))
    Confined .touching [] (.init 4 .empty sampleDirs) (wholeUpload (txt "h") (txt "/d/f")) ∧
    w.dirs [txt "h", txt "vfs", txt "data"] = true ∧ w.sm.fs.content (txt "/data/vfs/h/f") = some [65] ∧
    w.sm.fs.content (txt "/data/vfs/h/f_checkfile_nodup") = some [] := by
  intro w
  have hmerged : w.dirs [txt "h", txt "vfs", txt "data"] = true ∧ w.sm.fs.content (txt "/data/vfs/h/f") = some [65] ∧
      w.sm.fs.content (txt "/data/vfs/h/f_checkfile_nodup") = some [] := by
    decide +kernel
  refine ⟨uploads_confined touchesWords_touching [] 4 .empty sampleDirs _ ?_, hmerged⟩
  have haccept : StepConfined .touching [] (.init 4 .empty sampleDirs) (.accept 3 0 fun _ => 0, fun _ => true) :=
    ⟨trivial, trivial⟩
  have hheld := ((init_held .touching [] 4 .empty sampleDirs).step touchesWords_touching haccept).2.2
  exact ⟨haccept, stepConfined_recv hheld.paths.1 (by decide +kernel) (by decide +kernel), ⟨trivial, trivial⟩,
    ⟨trivial, trivial⟩, trivial⟩

/-- Step `k` of a run that is confined. -/
theorem Confined.keepsBelow {as : List (SmAct × (Bytes → Bool))} (h : Confined cfg cwd w as) {k : Nat}
    (hk : as[k]? = some a) :
    (run (treeStep cfg cwd) w (as.take k)).KeepsBelow cfg cwd
      (treeStep cfg cwd (run (treeStep cfg cwd) w (as.take k)) a) := by
  have hguard : ∀ (w : Tree) a, Guarded _ (treeStepInto cfg cwd w a) (treeStep cfg cwd w a) := fun w a =>
    (smStepInto_guarded cfg w.sm a.1).map (w.enter cfg cwd a.2)
  have hpre : as.take k ++ [a] <+: as := by
    rw [← Option.toList_some, ← hk, ← List.take_add_one]
    exact List.take_prefix ..
  obtain ⟨w', w'', hrun, hstep, hbelow⟩ := h (as.take k) a hpre
  obtain ⟨-, rfl⟩ := (guarded_run hguard w (as.take k)).eq_of_ok hrun
  obtain ⟨-, rfl⟩ := (hguard _ a).eq_of_ok hstep
  exact hbelow

/-- Three uploads that are not confined. The temporary file of the first is in `/etc`; on the way to that of the
second `/data/x` is made; and of the third the shell makes `b_checkfile_nodup` where it runs. -/
theorem names_escape :
    ¬ Confined .touching [] (.init 4 .empty sampleDirs) (wholeUpload (txt "../../etc") (txt "/d/f")) ∧
    ¬ Confined .touching [] (.init 4 .empty sampleDirs) (wholeUpload (txt "../x/../vfs/h") (txt "/d/f")) ∧
    ¬ Confined .touching [] (.init 4 .empty sampleDirs) (wholeUpload (txt "h") (txt "/d/a b")) := by
  refine ⟨fun h => ?_, fun h => ?_, fun h => ?_⟩
  · have hfile := (h.keepsBelow (k := 1) rfl).files (txt "/data/vfs/../../etc/f_1_1") (Or.inr (by decide +kernel))
    exact absurd hfile (by decide +kernel)
  · have hdir := (h.keepsBelow (k := 1) rfl).dirs [txt "x", txt "data"] (by decide +kernel)
    exact absurd hdir (by decide +kernel)
  · have hfile := (h.keepsBelow (k := 3) rfl).files (txt "b_checkfile_nodup") (Or.inr (by decide +kernel))
    exact absurd hfile (by decide +kernel)

end VfsOss
