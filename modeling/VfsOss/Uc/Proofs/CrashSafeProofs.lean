import VfsOss.Uc.Proofs.DirSyncProofs

/-!
# Proofs: killing the process while it synchronises a directory

The watermark: when the process is dead, the time stored for a directory is not later than that of any
due file of the directory that has not been queued.
-/

namespace VfsOss

open CLib

variable {cfg : UcCfg} {s s' : Uc} {indir name : Bytes} {l : Listing} {st : Stat} {last : Int}

theorem Queued.mono (h : Queued cfg s name st) (hq : s.queued <+: s'.queued) : Queued cfg s' name st :=
  fun p hp => hq.subset (h p hp)

theorem le_of_mem_dueTimes {t : Int} (h : t ∈ dueTimes last l) : last ≤ t := by
  induction l with
  | done => exact absurd h (by simp [dueTimes])
  | file n st rest ih =>
    rw [dueTimes] at h
    split at h
    · next hdue =>
      rcases List.mem_cons.mp h with rfl | h
      · exact hdue.2.2
      · exact ih h
    · exact ih h
  | dir n sub rest _ ih => exact ih h

/-- A file only changes the time of its own directory. -/
theorem syncFile_sync (hm : ∀ n, cfg.mallocOk n = true) (time : Bytes → Int → Int)
    (hp : WellPlaced s.store) (hne : indir ≠ []) (hlen : indir.length ≤ 244) (hn : EntryName name)
    (hfit : ¬ Hidden name → indir.length + 1 + name.length ≤ 255 ∧
      blockCount cfg st.size < 2 ^ 31 - 1) {p : List Bytes} (hne' : p ≠ locate [] indir) :
    (syncFile cfg time indir last name st s).sync (syncName :: p) = s.sync (syncName :: p) := by
  by_cases hdue : Due last name st
  · refine (syncFile_of_due hm time hp hne hlen hn (hfit hdue.1) hdue).others _ ?_
    rw [syncPlace_eq hne hlen]
    exact fun he => hne' (List.cons.inj he).2
  · rw [syncFile_of_not_due time hdue]

/-- The subdirectories of `l` are as they were in `sync`. -/
def Untouched (sync : List Bytes → Option Bytes) (here : List Bytes) (names : List Bytes) (s : Uc) :
    Prop :=
  ∀ n ∈ names, ∀ p, (n :: here) <:+ p → s.sync (syncName :: p) = sync (syncName :: p)

/-- Directories beside each other. -/
theorem not_suffix_of_ne {n n' : Bytes} {here p : List Bytes} (hne : n ≠ n') (h : (n' :: here) <:+ p) :
    ¬ (n :: here) <:+ p := by
  intro h'
  have he := List.suffix_of_suffix_length_le h h' (by simp)
  obtain ⟨r, hr⟩ := he
  have hlen := congrArg List.length hr
  simp only [List.length_append, List.length_cons] at hlen
  obtain rfl := List.length_eq_zero_iff.mp (by omega : r.length = 0)
  exact hne (List.cons.inj hr).1.symm

theorem not_suffix_self {n : Bytes} {here : List Bytes} : ¬ (n :: here) <:+ here := by
  intro h
  have := h.length_le
  simp at this

theorem Untouched.tail {sync : List Bytes → Option Bytes} {here names : List Bytes} {n : Bytes}
    (h : Untouched sync here (n :: names) s) : Untouched sync here names s :=
  fun n' hn' => h n' (List.mem_cons_of_mem _ hn')

/-- Visiting a file leaves the other directories untouched. -/
theorem Untouched.syncFile {sync : List Bytes → Option Bytes} {names : List Bytes} {n : Bytes}
    (h : Untouched sync (locate [] indir) (n :: names) s) (hm : ∀ n, cfg.mallocOk n = true)
    (time : Bytes → Int → Int) (hp : WellPlaced s.store) (hne : indir ≠ []) (hlen : indir.length ≤ 244)
    (hn : EntryName name) (hfit : ¬ Hidden name → indir.length + 1 + name.length ≤ 255 ∧
      blockCount cfg st.size < 2 ^ 31 - 1) :
    Untouched sync (locate [] indir) names (VfsOss.syncFile cfg time indir last name st s) := by
  intro n' hn' p hsuf
  rw [← h.tail n' hn' p hsuf]
  refine syncFile_sync hm time hp hne hlen hn hfit ?_
  rintro rfl
  exact not_suffix_self hsuf

/-- Visiting a subdirectory: it is found as it was, and leaves those beside it untouched. -/
theorem Untouched.sub {sync : List Bytes → Option Bytes} {n : Bytes} {sub rest : Listing}
    (h : Untouched sync (locate [] indir) (Listing.dir n sub rest).names s)
    (hm : ∀ n, cfg.mallocOk n = true) (time : Bytes → Int → Int) (hp : WellPlaced s.store)
    (hne : indir ≠ []) (hfit : Fits cfg indir (.dir n sub rest)) (hh : ¬ Hidden n) :
    getSyncTime s.sync (entryPath indir n) = getSyncTime sync (entryPath indir n) ∧
    Untouched sync (locate [] (entryPath indir n)) sub.names s ∧
    Untouched sync (locate [] indir) rest.names
      (syncLoop cfg time (entryPath indir n) (getSyncTime sync (entryPath indir n)) sub s) := by
  obtain ⟨hn, hfresh, hsub, -⟩ := hfit
  obtain ⟨hne', hlen', hplace⟩ := entryPath_dir hne hn hh (hsub hh).1
  refine ⟨getSyncTime_congr ?_, fun n' hn' p hsuf => ?_, fun n' hn' p hsuf => ?_⟩
  · rw [syncPlace_eq hne' hlen', hplace]
    exact h n (List.mem_cons_self ..) _ List.suffix_rfl
  · rw [hplace] at hsuf
    exact h n (List.mem_cons_self ..) p ((List.suffix_cons n' _).trans hsuf)
  · have h1 := syncLoop_syncs hm time sub (entryPath indir n) (getSyncTime sync (entryPath indir n)) s
      hp hne' hlen' (hsub hh).2
    rw [hplace] at h1
    have hdiff : n ≠ n' := fun he => hfresh (he ▸ hn')
    rw [h1.others p (not_suffix_of_ne hdiff hsuf)]
    exact h.tail n' hn' p hsuf

/-- A file that has been visited: it is queued, or the process is dead and, when the files are in order,
the directory's time is not later than the file's. -/
def Visited (cfg : UcCfg) (s' : Uc) (dir name : Bytes) (st : Stat) (ordered : Prop) : Prop :=
  Queued cfg s' (entryPath dir name) st ∨
  s'.left = some 0 ∧ (ordered → getSyncTime s'.sync dir ≤ st.ctime)

theorem Visited.later {ordered : Prop} {here : List Bytes} {dir : Bytes}
    (h : Visited cfg s dir name st ordered) (hs : Syncs here s s') :
    Visited cfg s' dir name st ordered := by
  rcases h with h | ⟨hl, h⟩
  · exact Or.inl (h.mono hs.queued)
  · obtain rfl := hs.dead hl
    exact Or.inr ⟨hl, h⟩

theorem Visited.imp {ordered ordered' : Prop} {dir : Bytes} (h : Visited cfg s dir name st ordered)
    (hi : ordered' → ordered) : Visited cfg s dir name st ordered' :=
  Or.imp id (fun ⟨hl, h⟩ => ⟨hl, fun ho => h (hi ho)⟩) h

/-- A due file has been cut: it is queued, or the process is dead; the time stored for the directory is
the old one, zero or the file's. -/
theorem Splits.visited {t : Int} (h : Splits (syncPlace indir) (fmtInt st.ctime)
      (pieces cfg (entryPath indir name) taskAddfile st.size) s s') :
    (Queued cfg s' (entryPath indir name) st ∨ s'.left = some 0) ∧
    (getSyncTime s.sync indir ≤ t → storedTime st.ctime ≤ t → 0 ≤ t → getSyncTime s'.sync indir ≤ t) := by
  obtain ⟨ps, hq, -, hcase⟩ := h.outcome
  rcases hcase with ⟨hl, -, hsync⟩ | ⟨hsync, hdone⟩
  · refine ⟨Or.inr hl, fun hold _ hzero => ?_⟩
    rcases hsync with hsync | hsync
    · rwa [getSyncTime_congr hsync]
    · rwa [getSyncTime_empty hsync]
  · refine ⟨?_, fun _ hstored _ => by rwa [getSyncTime_stored hsync]⟩
    rcases hdone with rfl | hl
    · refine Or.inl fun p hp => ?_
      rw [hq]
      exact List.mem_append_right _ hp
    · exact Or.inr hl

/-- **The watermark.** Every due file has been visited when the process is done with a directory or dead,
if the directory's time was not later than any of its files' before. -/
theorem syncLoop_visited (hm : ∀ n, cfg.mallocOk n = true) (time : Bytes → Int → Int)
    (sync : List Bytes → Option Bytes) (l : Listing) :
    ∀ (indir : Bytes) (s : Uc), WellPlaced s.store → indir ≠ [] → indir.length ≤ 244 →
      Fits cfg indir l → Untouched sync (locate [] indir) l.names s →
      ∀ dir name st, FileAt indir l dir name st → Due (getSyncTime sync dir) name st →
        Visited cfg (syncLoop cfg time indir (getSyncTime sync indir) l s) dir name st
          (InOrder sync indir l ∧
            ∀ t ∈ dueTimes (getSyncTime sync indir) l, getSyncTime s.sync indir ≤ t) := by
  induction l with
  | done => exact fun _ _ _ _ _ _ _ _ _ _ hat => absurd hat (by simp [FileAt])
  | file n st' rest ih =>
    intro indir s hp hne hlen hfit hun dir name st hat hdue
    obtain ⟨hn, hfresh, hpath, hrest⟩ := hfit
    have h1 := syncFile_syncs hm time (getSyncTime sync indir) st' hp hne hlen hn hpath
    rw [syncLoop]
    generalize hs1 : syncFile cfg time indir (getSyncTime sync indir) n st' s = s1 at h1
    have h2 := syncLoop_syncs hm time rest indir (getSyncTime sync indir) s1 h1.placed hne hlen hrest
    have hun1 : Untouched sync (locate [] indir) rest.names s1 := by
      rw [← hs1]
      exact hun.syncFile hm time hp hne hlen hn hpath
    rcases hat with ⟨rfl, rfl, rfl⟩ | hat
    · -- the file itself
      have hsplit := syncFile_of_due hm time hp hne hlen hn (hpath hdue.1) hdue
      rw [hs1] at hsplit
      refine Visited.later ?_ h2
      rcases (hsplit.visited (t := st.ctime)).1 with hq | hl
      · exact Or.inl hq
      · refine Or.inr ⟨hl, ?_⟩
        rintro ⟨hord, hpre⟩
        obtain ⟨hstored, hzero⟩ := hord.1 hdue _ (List.mem_cons_self ..)
        refine hsplit.visited.2 (hpre _ ?_) hstored hzero
        rw [dueTimes, if_pos hdue]
        exact List.mem_cons_self ..
    · -- a file behind it
      refine (ih indir s1 h1.placed hne hlen hrest hun1 dir name st hat hdue).imp ?_
      rintro ⟨hord, hpre⟩
      refine ⟨hord.2, fun t ht => ?_⟩
      by_cases hdue' : Due (getSyncTime sync indir) n st'
      · have hsplit := syncFile_of_due hm time hp hne hlen hn (hpath hdue'.1) hdue'
        rw [hs1] at hsplit
        rw [dueTimes, if_pos hdue'] at hpre
        obtain ⟨hstored, hzero⟩ := hord.1 hdue' t (List.mem_cons_of_mem _ ht)
        exact hsplit.visited.2 (hpre t (List.mem_cons_of_mem _ ht)) hstored hzero
      · rw [syncFile_of_not_due time hdue'] at hs1
        rw [dueTimes, if_neg hdue'] at hpre
        rw [← hs1]
        exact hpre t ht
  | dir n sub rest ihsub ih =>
    intro indir s hp hne hlen hfit hun dir name st hat hdue
    obtain ⟨hn, hfresh, hsub, hrest⟩ := id hfit
    rw [syncLoop]
    split
    · next hh =>
      rcases hat with ⟨hvis, -⟩ | hat
      · exact absurd hh hvis
      · refine (ih indir s hp hne hlen hrest hun.tail dir name st hat hdue).imp ?_
        rintro ⟨hord, hpre⟩
        exact ⟨hord.2, hpre⟩
    · next hh =>
      obtain ⟨hne', hlen', hplace⟩ := entryPath_dir hne hn hh (hsub hh).1
      obtain ⟨htime, hunSub, hun1⟩ := hun.sub hm time hp hne hfit hh
      dsimp only
      rw [htime]
      have h1 := syncLoop_syncs hm time sub (entryPath indir n) (getSyncTime sync (entryPath indir n)) s
        hp hne' hlen' (hsub hh).2
      have hvisSub := ihsub (entryPath indir n) s hp hne' hlen' (hsub hh).2 hunSub
      generalize syncLoop cfg time (entryPath indir n) (getSyncTime sync (entryPath indir n)) sub s = s1
        at h1 hvisSub hun1
      rw [hplace] at h1
      have h2 := syncLoop_syncs hm time rest indir (getSyncTime sync indir) s1 h1.placed hne hlen hrest
      rcases hat with ⟨-, hat⟩ | hat
      · -- in the subdirectory
        refine ((hvisSub dir name st hat hdue).later h2).imp ?_
        rintro ⟨hord, -⟩
        refine ⟨hord.1 hh, fun t ht => ?_⟩
        rw [htime]
        exact le_of_mem_dueTimes ht
      · refine (ih indir s1 h1.placed hne hlen hrest hun1 dir name st hat hdue).imp ?_
        rintro ⟨hord, hpre⟩
        refine ⟨hord.2, fun t ht => ?_⟩
        have hsame : getSyncTime s1.sync indir = getSyncTime s.sync indir := by
          refine getSyncTime_congr ?_
          rw [syncPlace_eq hne hlen]
          exact h1.others _ not_suffix_self
        rw [hsame]
        exact hpre t ht

/-- Files that come in the order of their times are safe. -/
theorem crashSafe_of_inOrder {sync : List Bytes → Option Bytes} (hm : ∀ n, cfg.mallocOk n = true)
    (hfit : RootFits cfg indir l) (hord : InOrder sync indir l) : CrashSafe cfg indir l sync := by
  obtain ⟨hne, hlen, hl⟩ := hfit
  intro k n n' time time' l' hl' hsame killed restarted dir name st hat hdue hnot
  have hvis := syncLoop_visited hm time sync l indir (Uc.init n sync (some k)) (initTaskInfo_placed n)
    hne hlen hl (fun _ _ _ _ => rfl) dir name st hat hdue
  rcases hvis with hq | ⟨-, hle⟩
  · exact absurd hq hnot
  have hdue' : Due (getSyncTime killed.sync dir) name st :=
    ⟨hdue.1, hdue.2.1, hle ⟨hord, fun t ht => le_of_mem_dueTimes ht⟩⟩
  have hvis' := syncLoop_visited hm time' killed.sync l' indir (Uc.init n' killed.sync none)
    (initTaskInfo_placed n') hne hlen hl' (fun _ _ _ _ => rfl) dir name st
    ((hsame dir name st).mp hat) hdue'
  rcases hvis' with hq | ⟨hl, -⟩
  · exact hq
  · have halive : restarted.left = none := (syncLoop_syncs hm time' l' indir _ (Uc.init n' killed.sync none)
      (initTaskInfo_placed n') hne hlen hl').alive rfl
    exact absurd (halive.symm.trans hl) (by simp)

/-! ## Running up to a given change -/

/-- The process killed after a number of further changes, or not at all. -/
def Uc.limit (s : Uc) (left : Option Nat) : Uc := { s with left := left }

theorem limit_left {left : Option Nat} (h : s.left = left) : s.limit left = s := by
  rw [Uc.limit, ← h]

/-- A part of the program makes a fixed number of changes: with as many more, it ends as if it were not
killed. -/
def Consumes (f : Uc → Uc) (s : Uc) : Prop :=
  ∃ c, ∀ k, f (s.limit (some (c + k))) = (f (s.limit none)).limit (some k)

theorem Consumes.id (s : Uc) : Consumes (fun s => s) s := ⟨0, fun k => by rw [Nat.zero_add]; rfl⟩

theorem Consumes.comp {f g : Uc → Uc} (hf : Consumes f s) (hg : Consumes g (f (s.limit none)))
    (halive : (f (s.limit none)).left = none) : Consumes (fun s => g (f s)) s := by
  obtain ⟨c, hc⟩ := hf
  obtain ⟨d, hd⟩ := hg
  refine ⟨c + d, fun k => ?_⟩
  dsimp only
  rw [Nat.add_assoc, hc, hd, limit_left halive]

theorem Consumes.effect {f : Uc → Uc} (hf : ∀ s x, f (s.limit x) = (f s).limit x) (s : Uc) :
    Consumes (fun s => s.effect f) s := by
  refine ⟨1, fun k => ?_⟩
  have h1 : (s.limit (some (1 + k))).left = some (k + 1) := by rw [Nat.add_comm]; rfl
  dsimp only
  rw [effect_succ h1, effect_none rfl, hf, hf]
  rfl

theorem updateSyncTime_consumes (st : Option Stat) (filename : Bytes) (s : Uc) :
    Consumes (updateSyncTime st filename) s := by
  cases st with
  | none => exact .id s
  | some st =>
    let file := syncPlace (dirname filename)
    let store text (s : Uc) : Uc := { s with sync := Function.update s.sync file (some text) }
    have h := Consumes.comp (.effect (f := store []) (fun _ _ => rfl) s)
      (.effect (f := store (fmtInt st.ctime)) (fun _ _ => rfl) _) rfl
    exact h

theorem splitLoop_consumes (time : Int → Int) (base : TaskBase) (count : Int) (is : List Int) :
    ∀ (start : Int) (s : Uc), Consumes (splitLoop cfg time base count is start) s := by
  induction is with
  | nil => exact fun start s => .id s
  | cons idx rest ih =>
    intro start s
    rcases hg : vfsGetTask cfg.mallocOk s.store .home with ⟨r, st⟩
    have hget : ∀ x, vfsGetTask cfg.mallocOk (s.limit x).store .home = (r, st) := fun _ => hg
    cases r with
    | ok task =>
      generalize ht : subRecord task base idx count start
        (if idx = count then base.fsize - 1 else start + cfg.splicMinSize - 1) (time idx) = t
      have hstep : ∀ x, splitLoop cfg time base count (idx :: rest) start (s.limit x) =
          splitLoop cfg time base count rest (start + cfg.splicMinSize)
            ((s.limit x).effect fun s => { s with store := vfsSetTask st t .waitSync }) := by
        intro x
        rw [splitLoop, insertSubTask, hget, ← ht]
      obtain ⟨c, hc⟩ : Consumes (fun s => splitLoop cfg time base count rest (start + cfg.splicMinSize)
          (s.effect fun s => { s with store := vfsSetTask st t .waitSync })) s :=
        .comp (.effect (fun _ _ => rfl) s) (ih _ _) rfl
      exact ⟨c, fun k => by rw [hstep, hstep]; exact hc k⟩
    | err =>
      refine ⟨0, fun k => ?_⟩
      rw [splitLoop, insertSubTask, hget, splitLoop, insertSubTask, hget, Nat.zero_add]
      rfl
    | nothing =>
      refine ⟨0, fun k => ?_⟩
      rw [splitLoop, insertSubTask, hget, splitLoop, insertSubTask, hget, Nat.zero_add]
      rfl

theorem splitTask_consumes (cfg : UcCfg) (time : Int → Int) (st : Option Stat) (base : TaskBase) (s : Uc) :
    Consumes (splitTask cfg time st base) s := by
  by_cases h0 : base.fsize = 0
  · refine ⟨0, fun k => ?_⟩
    rw [splitTask, splitTask, if_pos h0, if_pos h0, Nat.zero_add]
    rfl
  · have halive : (updateSyncTime st (snprintf 256 base.filename) (s.limit none)).left = none := by
      cases st with
      | none => rfl
      | some st => exact (updateSyncTime_spec st _ (s.limit none)).2.2.1 rfl
    obtain ⟨c, hc⟩ := Consumes.comp (updateSyncTime_consumes st (snprintf 256 base.filename) s)
      (splitLoop_consumes time { base with hostname := snprintf 256 cfg.hostname }
        (splicCount cfg base.fsize) (idxs (splicCount cfg base.fsize)) 0 _) halive
    refine ⟨c, fun k => ?_⟩
    rw [splitTask, splitTask, if_neg h0, if_neg h0]
    exact hc k

theorem syncFile_consumes (cfg : UcCfg) (time : Bytes → Int → Int) (indir : Bytes) (last : Int)
    (name : Bytes) (st : Stat) (s : Uc) :
    Consumes (syncFile cfg time indir last name st) s := by
  by_cases hdue : Due last name st
  · have hh : ¬ name.head? = some 46 := hdue.1
    have hlt : ¬ st.ctime < last := by
      have := hdue.2.2
      omega
    have heq : ∀ s, syncFile cfg time indir last name st s = splitTask cfg (time (entryPath indir name))
        (some st) (syncTask (entryPath indir name) st) s := by
      intro s
      rw [syncFile, if_neg hh]
      dsimp only
      rw [if_neg hlt]
    obtain ⟨c, hc⟩ := splitTask_consumes cfg (time (entryPath indir name)) (some st)
      (syncTask (entryPath indir name) st) s
    exact ⟨c, fun k => by rw [heq, heq, hc]⟩
  · refine ⟨0, fun k => ?_⟩
    rw [syncFile_of_not_due time hdue, syncFile_of_not_due time hdue, Nat.zero_add]
    rfl

theorem syncLoop_consumes (hm : ∀ n, cfg.mallocOk n = true) (time : Bytes → Int → Int) (l : Listing) :
    ∀ (indir : Bytes) (last : Int) (s : Uc), WellPlaced s.store → indir ≠ [] → indir.length ≤ 244 →
      Fits cfg indir l → Consumes (syncLoop cfg time indir last l) s := by
  induction l with
  | done => exact fun indir last s _ _ _ _ => .id s
  | file n st rest ih =>
    intro indir last s hp hne hlen hfit
    obtain ⟨hn, -, hpath, hrest⟩ := hfit
    have h1 := syncFile_syncs (s := s.limit none) hm time last st hp hne hlen hn hpath
    have h := Consumes.comp (syncFile_consumes cfg time indir last n st s) (ih indir last _ h1.placed hne hlen hrest)
      (h1.alive rfl)
    exact h
  | dir n sub rest ihsub ih =>
    intro indir last s hp hne hlen hfit
    obtain ⟨hn, -, hsub, hrest⟩ := hfit
    by_cases hh : n.head? = some 46
    · obtain ⟨c, hc⟩ := ih indir last s hp hne hlen hrest
      refine ⟨c, fun k => ?_⟩
      rw [syncLoop, syncLoop, if_pos hh, if_pos hh]
      exact hc k
    · obtain ⟨hne', hlen', -⟩ := entryPath_dir hne hn hh (hsub hh).1
      have h1 := syncLoop_syncs hm time sub (entryPath indir n) (getSyncTime s.sync (entryPath indir n))
        (s.limit none) hp hne' hlen' (hsub hh).2
      obtain ⟨c, hc⟩ := Consumes.comp
        (ihsub (entryPath indir n) (getSyncTime s.sync (entryPath indir n)) s hp hne' hlen' (hsub hh).2)
        (ih indir last _ h1.placed hne hlen hrest) (h1.alive rfl)
      refine ⟨c, fun k => ?_⟩
      rw [syncLoop, syncLoop, if_neg hh, if_neg hh]
      exact hc k

/-! ## Which file a block belongs to -/

theorem FileAt.fits (hfit : Fits cfg indir l) {dir : Bytes} (h : FileAt indir l dir name st)
    (hh : ¬ Hidden name) : EntryName name ∧ dir.length + 1 + name.length ≤ 255 := by
  induction l generalizing indir with
  | done => exact absurd h (by simp [FileAt])
  | file n st' rest ih =>
    obtain ⟨hn, -, hpath, hrest⟩ := hfit
    rcases h with ⟨rfl, rfl, rfl⟩ | h
    · exact ⟨hn, (hpath hh).1⟩
    · exact ih hrest h
  | dir n sub rest ihsub ih =>
    obtain ⟨hn, -, hsub, hrest⟩ := hfit
    rcases h with ⟨hvis, h⟩ | h
    · exact ihsub (hsub hvis).2 h
    · exact ih hrest h

/-- A file is in the directory itself, or in one below it. -/
theorem FileAt.place (hne : indir ≠ []) (hfit : Fits cfg indir l) {dir : Bytes}
    (h : FileAt indir l dir name st) :
    dir = indir ∧ name ∈ l.names ∨ ∃ n ∈ l.names, (n :: locate [] indir) <:+ locate [] dir := by
  induction l generalizing indir with
  | done => exact absurd h (by simp [FileAt])
  | file n st' rest ih =>
    obtain ⟨-, -, -, hrest⟩ := hfit
    rcases h with ⟨rfl, rfl, rfl⟩ | h
    · exact Or.inl ⟨rfl, List.mem_cons_self ..⟩
    · rcases ih hne hrest h with ⟨hd, hmem⟩ | ⟨n', hmem, hsuf⟩
      · exact Or.inl ⟨hd, List.mem_cons_of_mem _ hmem⟩
      · exact Or.inr ⟨n', List.mem_cons_of_mem _ hmem, hsuf⟩
  | dir n sub rest ihsub ih =>
    obtain ⟨hn, -, hsub, hrest⟩ := hfit
    rcases h with ⟨hvis, h⟩ | h
    · obtain ⟨hne', -, hplace⟩ := entryPath_dir hne hn hvis (hsub hvis).1
      refine Or.inr ⟨n, List.mem_cons_self .., ?_⟩
      rw [← hplace]
      rcases ihsub hne' (hsub hvis).2 h with ⟨rfl, -⟩ | ⟨n', -, hsuf⟩
      · exact List.suffix_rfl
      · exact (List.suffix_cons n' _).trans hsuf
    · rcases ih hne hrest h with ⟨hd, hmem⟩ | ⟨n', hmem, hsuf⟩
      · exact Or.inl ⟨hd, List.mem_cons_of_mem _ hmem⟩
      · exact Or.inr ⟨n', List.mem_cons_of_mem _ hmem, hsuf⟩

/-- Files of a subdirectory are apart from the other entries of the directory. -/
theorem FileAt.apart (hne : indir ≠ []) (hfit : Fits cfg indir l) {dir n : Bytes} (hn : n ∉ l.names)
    (h : FileAt indir l dir name st) : ¬ (n :: locate [] indir) <:+ locate [] dir := by
  rcases h.place hne hfit with ⟨rfl, -⟩ | ⟨n', hmem, hsuf⟩
  · exact not_suffix_self
  · exact not_suffix_of_ne (fun he => hn (he ▸ hmem)) hsuf

/-- Two entries for one file are one. -/
theorem FileAt.unique (hne : indir ≠ []) (hfit : Fits cfg indir l) {dir : Bytes} {st' : Stat}
    (h : FileAt indir l dir name st) (h' : FileAt indir l dir name st') : st = st' := by
  have self : ∀ {rest : Listing} {n : Bytes} {st : Stat}, Fits cfg indir rest → n ∉ rest.names →
      ¬ FileAt indir rest indir n st := by
    intro rest n st hrest hn h
    rcases h.place hne hrest with ⟨-, hmem⟩ | ⟨n', -, hsuf⟩
    · exact hn hmem
    · exact not_suffix_self hsuf
  induction l generalizing indir with
  | done => exact absurd h (by simp [FileAt])
  | file n st0 rest ih =>
    obtain ⟨-, hfresh, -, hrest⟩ := hfit
    rcases h with ⟨rfl, rfl, rfl⟩ | h <;> rcases h' with ⟨hd, hn, hs⟩ | h'
    · exact hs.symm
    · exact absurd h' (self hrest hfresh)
    · rw [hd, hn] at h
      exact absurd h (self hrest hfresh)
    · exact ih hne hrest h h' self
  | dir n sub rest ihsub ih =>
    obtain ⟨hn, hfresh, hsub, hrest⟩ := hfit
    have inSub : ∀ {st : Stat}, ¬ Hidden n → FileAt (entryPath indir n) sub dir name st →
        (n :: locate [] indir) <:+ locate [] dir := by
      intro st hvis h
      obtain ⟨hne', -, hplace⟩ := entryPath_dir hne hn hvis (hsub hvis).1
      rw [← hplace]
      rcases h.place hne' (hsub hvis).2 with ⟨rfl, -⟩ | ⟨n', -, hsuf⟩
      · exact List.suffix_rfl
      · exact (List.suffix_cons n' _).trans hsuf
    rcases h with ⟨hvis, h⟩ | h <;> rcases h' with ⟨hvis', h'⟩ | h'
    · obtain ⟨hne', -, -⟩ := entryPath_dir hne hn hvis (hsub hvis).1
      refine ihsub hne' (hsub hvis).2 h h' ?_
      intro rest' n' st' hrest' hn' hat
      rcases hat.place hne' hrest' with ⟨-, hmem⟩ | ⟨n'', -, hsuf⟩
      · exact hn' hmem
      · exact not_suffix_self hsuf
    · exact absurd (inSub hvis h) (h'.apart hne hrest hfresh)
    · exact absurd (inSub hvis' h') (h.apart hne hrest hfresh)
    · exact ih hne hrest h h' self

/-- The path of a visible file says which file it is. -/
theorem FileAt.eq_of_path (hne : indir ≠ []) (hfit : Fits cfg indir l) {dir dir' name' : Bytes}
    {st' : Stat} (h : FileAt indir l dir name st) (h' : FileAt indir l dir' name' st')
    (hh : ¬ Hidden name) (hh' : ¬ Hidden name') (he : entryPath dir name = entryPath dir' name') :
    dir = dir' ∧ name = name' ∧ st = st' := by
  obtain ⟨hn, hlen⟩ := h.fits hfit hh
  obtain ⟨hn', hlen'⟩ := h'.fits hfit hh'
  rw [entryPath_eq hlen, entryPath_eq hlen'] at he
  obtain ⟨rfl, rfl⟩ := (append_sep_inj hn.2 hn'.2).mp he
  exact ⟨rfl, rfl, h.unique hne hfit h'⟩

/-- Every block that is queued belongs to a due file. -/
theorem queued_due (hm : ∀ n, cfg.mallocOk n = true) (time : Bytes → Int → Int)
    (sync : List Bytes → Option Bytes) (l : Listing) :
    ∀ (indir : Bytes) (s : Uc), WellPlaced s.store → indir ≠ [] → indir.length ≤ 244 →
      Fits cfg indir l → Untouched sync (locate [] indir) l.names s →
      ∀ p ∈ (syncLoop cfg time indir (getSyncTime sync indir) l s).queued, p ∈ s.queued ∨
        ∃ dir name st, FileAt indir l dir name st ∧ Due (getSyncTime sync dir) name st ∧
          p.filename = entryPath dir name := by
  induction l with
  | done => exact fun _ _ _ _ _ _ _ p hp => Or.inl hp
  | file n st rest ih =>
    intro indir s hp hne hlen hfit hun p hpq
    obtain ⟨hn, -, hpath, hrest⟩ := hfit
    have h1 := syncFile_syncs hm time (getSyncTime sync indir) st hp hne hlen hn hpath
    have hun1 : Untouched sync (locate [] indir) rest.names
        (syncFile cfg time indir (getSyncTime sync indir) n st s) :=
      hun.syncFile hm time hp hne hlen hn hpath
    rcases ih indir _ h1.placed hne hlen hrest hun1 p hpq with hold | ⟨dir, name, st', hat, hdue, hf⟩
    · by_cases hdue : Due (getSyncTime sync indir) n st
      · obtain ⟨ps, hq, hpre, -⟩ := (syncFile_of_due hm time hp hne hlen hn (hpath hdue.1) hdue).outcome
        rw [hq] at hold
        rcases List.mem_append.mp hold with hold | hnew
        · exact Or.inl hold
        · refine Or.inr ⟨indir, n, st, Or.inl ⟨rfl, rfl, rfl⟩, hdue, ?_⟩
          obtain ⟨i, -, rfl⟩ := List.mem_map.mp (hpre.subset hnew)
          rfl
      · rw [syncFile_of_not_due time hdue] at hold
        exact Or.inl hold
    · exact Or.inr ⟨dir, name, st', Or.inr hat, hdue, hf⟩
  | dir n sub rest ihsub ih =>
    intro indir s hp hne hlen hfit hun p hpq
    obtain ⟨hn, hfresh, hsub, hrest⟩ := hfit
    rw [syncLoop] at hpq
    split at hpq
    · rcases ih indir s hp hne hlen hrest hun.tail p hpq with hold | ⟨dir, name, st', hat, hdue, hf⟩
      · exact Or.inl hold
      · exact Or.inr ⟨dir, name, st', Or.inr hat, hdue, hf⟩
    · next hh =>
      obtain ⟨htime, hunSub, hun1⟩ := hun.sub hm time hp hne ⟨hn, hfresh, hsub, hrest⟩ hh
      obtain ⟨hne', hlen', -⟩ := entryPath_dir hne hn hh (hsub hh).1
      dsimp only at hpq
      rw [htime] at hpq
      have h1 := syncLoop_syncs hm time sub (entryPath indir n) (getSyncTime sync (entryPath indir n)) s
        hp hne' hlen' (hsub hh).2
      rcases ih indir _ h1.placed hne hlen hrest hun1 p hpq with hold | ⟨dir, name, st', hat, hdue, hf⟩
      · rcases ihsub (entryPath indir n) s hp hne' hlen' (hsub hh).2 hunSub p hold with
          hold | ⟨dir, name, st', hat, hdue, hf⟩
        · exact Or.inl hold
        · exact Or.inr ⟨dir, name, st', Or.inl ⟨hh, hat⟩, hdue, hf⟩
      · exact Or.inr ⟨dir, name, st', Or.inr hat, hdue, hf⟩

/-! ## Files out of order -/

theorem exists_of_mem_dueTimes (indir : Bytes) {t : Int} (h : t ∈ dueTimes last l) :
    ∃ name st, FileAt indir l indir name st ∧ Due last name st ∧ st.ctime = t := by
  induction l with
  | done => exact absurd h (by simp [dueTimes])
  | file n st rest ih =>
    rw [dueTimes] at h
    split at h
    · next hdue =>
      rcases List.mem_cons.mp h with rfl | h
      · exact ⟨n, st, Or.inl ⟨rfl, rfl, rfl⟩, hdue, rfl⟩
      · obtain ⟨name, st', hat, hrest⟩ := ih h
        exact ⟨name, st', Or.inr hat, hrest⟩
    · obtain ⟨name, st', hat, hrest⟩ := ih h
      exact ⟨name, st', Or.inr hat, hrest⟩
  | dir n sub rest _ ih =>
    obtain ⟨name, st', hat, hrest⟩ := ih h
    exact ⟨name, st', Or.inr hat, hrest⟩

/-- A process that is killed while it stores the time of a due file: after the file has been emptied, or
after the time has been written. -/
theorem syncFile_killed (hm : ∀ n, cfg.mallocOk n = true) (time : Bytes → Int → Int)
    (hp : WellPlaced s.store) (hne : indir ≠ []) (hlen : indir.length ≤ 244) (hn : EntryName name)
    (hfit : indir.length + 1 + name.length ≤ 255) (hdue : Due last name st) (stored : Bool) :
    let s' := syncFile cfg time indir last name st (s.limit (some (if stored then 2 else 1)))
    s'.left = some 0 ∧ s'.queued = s.queued ∧
      s'.sync (syncPlace indir) = some (if stored then fmtInt st.ctime else []) := by
  obtain ⟨hh, hsize, hlast⟩ := hdue
  have hpath := entryPath_eq hfit
  have hplen : (entryPath indir name).length < 256 := by
    rw [hpath, List.length_append, List.length_cons]
    omega
  have hname : snprintf 256 (syncTask (entryPath indir name) st).filename = indir ++ 47 :: name := by
    rw [show (syncTask (entryPath indir name) st).filename = snprintf 256 (entryPath indir name) from rfl,
      snprintf_of_le hplen, snprintf_of_le hplen, hpath]
  have hsync := syncPlace_dirname hne hlen hn
  -- the process is dead before the first block
  have hdead : ∀ (base : TaskBase) (s1 : Uc), WellPlaced s1.store → s1.left = some 0 →
      splitLoop cfg (time (entryPath indir name)) base (splicCount cfg st.size)
        (idxs (splicCount cfg st.size)) 0 s1 = s1 := by
    intro base s1 hp1 hl
    have hspec := splitLoop_spec hm (time (entryPath indir name)) base (splicCount cfg st.size)
      (splicCount cfg st.size).toNat 0 s1 hp1
    simp only [Nat.cast_zero, mul_zero] at hspec
    obtain ⟨ps, hq, -⟩ := hspec
    rw [idxs_eq]
    exact hq.dead hl
  intro s'
  have hs' : s' = updateSyncTime (some st) (indir ++ 47 :: name)
      (s.limit (some (if stored then 2 else 1))) := by
    change syncFile .. = _
    rw [syncFile, if_neg (show ¬ name.head? = some 46 from hh)]
    dsimp only
    have hfsize : (syncTask (entryPath indir name) st).fsize ≠ 0 := by
      change ((st.size : Nat) : Int) ≠ 0
      omega
    rw [if_neg (by omega), splitTask, if_neg hfsize, hname]
    cases stored <;> exact hdead _ _ hp rfl
  rw [hs', ← hsync]
  cases stored with
  | false => exact ⟨rfl, rfl, Function.update_self ..⟩
  | true => exact ⟨rfl, rfl, Function.update_self ..⟩

/-- A file that a restart misses: it was due and has not been queued, and the time stored for its
directory is later than its own. -/
def Missed (sync : List Bytes → Option Bytes) (indir : Bytes) (l : Listing) (s' : Uc) : Prop :=
  s'.left = some 0 ∧ ∃ dir name st, FileAt indir l dir name st ∧ Due (getSyncTime sync dir) name st ∧
    (∀ p ∈ s'.queued, p.filename ≠ entryPath dir name) ∧ st.ctime < getSyncTime s'.sync dir

/-- Files out of order are missed by some kill. -/
theorem exists_missed (hm : ∀ n, cfg.mallocOk n = true) (time : Bytes → Int → Int)
    (sync : List Bytes → Option Bytes) (l : Listing) :
    ∀ (indir : Bytes) (s : Uc), WellPlaced s.store → indir ≠ [] → indir.length ≤ 244 →
      Fits cfg indir l → Untouched sync (locate [] indir) l.names s →
      (∀ dir name st, FileAt indir l dir name st → ¬ Hidden name →
        ∀ p ∈ s.queued, p.filename ≠ entryPath dir name) →
      ¬ InOrder sync indir l →
      ∃ k, Missed sync indir l
        (syncLoop cfg time indir (getSyncTime sync indir) l (s.limit (some k))) := by
  induction l with
  | done => exact fun _ _ _ _ _ _ _ _ hno => absurd trivial hno
  | file n st rest ih =>
    intro indir s hp hne hlen hfit hun hclean hno
    obtain ⟨hn, hfresh, hpath, hrest⟩ := id hfit
    by_cases hhead : Due (getSyncTime sync indir) n st →
        ∀ t ∈ st.ctime :: dueTimes (getSyncTime sync indir) rest, storedTime st.ctime ≤ t ∧ 0 ≤ t
    · -- a file behind this one
      have hno' : ¬ InOrder sync indir rest := fun h => hno ⟨hhead, h⟩
      have h1 := syncFile_syncs (s := s.limit none) hm time (getSyncTime sync indir) st
        hp hne hlen hn hpath
      have hun1 : Untouched sync (locate [] indir) rest.names
          (syncFile cfg time indir (getSyncTime sync indir) n st (s.limit none)) :=
        Untouched.syncFile (s := s.limit none) hun hm time hp hne hlen hn hpath
      have hclean1 : ∀ dir name st', FileAt indir rest dir name st' → ¬ Hidden name →
          ∀ p ∈ (syncFile cfg time indir (getSyncTime sync indir) n st (s.limit none)).queued,
            p.filename ≠ entryPath dir name := by
        intro dir name st' hat hh p hpq he
        by_cases hdue : Due (getSyncTime sync indir) n st
        · obtain ⟨ps, hq, hpre, -⟩ :=
            (syncFile_of_due (s := s.limit none) hm time hp hne hlen hn (hpath hdue.1) hdue).outcome
          rw [hq] at hpq
          rcases List.mem_append.mp hpq with hold | hnew
          · exact hclean dir name st' (Or.inr hat) hh p hold he
          · obtain ⟨i, -, rfl⟩ := List.mem_map.mp (hpre.subset hnew)
            have hat' : FileAt indir (.file n st rest) indir n st := Or.inl ⟨rfl, rfl, rfl⟩
            obtain ⟨rfl, rfl, -⟩ := hat'.eq_of_path hne hfit (Or.inr hat) hdue.1 hh he
            rcases hat.place hne hrest with ⟨-, hmem⟩ | ⟨n', -, hsuf⟩
            · exact hfresh hmem
            · exact not_suffix_self hsuf
        · rw [syncFile_of_not_due time hdue] at hpq
          exact hclean dir name st' (Or.inr hat) hh p hpq he
      obtain ⟨k, hl, dir, name, st', hat, hrest'⟩ :=
        ih indir _ h1.placed hne hlen hrest hun1 hclean1 hno'
      obtain ⟨c, hc⟩ := syncFile_consumes cfg time indir (getSyncTime sync indir) n st s
      refine ⟨c + k, ?_⟩
      rw [syncLoop, hc]
      exact ⟨hl, dir, name, st', Or.inr hat, hrest'⟩
    · -- this file is stored before an older one
      push Not at hhead
      obtain ⟨hdue, t, ht, hbad⟩ := hhead
      obtain ⟨name, st', hat, hdue', rfl⟩ : ∃ name st', FileAt indir (.file n st rest) indir name st' ∧
          Due (getSyncTime sync indir) name st' ∧ st'.ctime = t := by
        refine exists_of_mem_dueTimes indir ?_
        rw [dueTimes, if_pos hdue]
        exact ht
      have hkill := syncFile_killed (s := s) hm time hp hne hlen hn (hpath hdue.1).1 hdue
        (decide (storedTime st.ctime > st'.ctime))
      generalize (if decide (storedTime st.ctime > st'.ctime) = true then 2 else 1) = k at hkill
      refine ⟨k, ?_⟩
      have hplaced := (syncFile_syncs (s := s.limit (some k)) hm time
        (getSyncTime sync indir) st hp hne hlen hn hpath).placed
      rw [syncLoop]
      dsimp only at hkill
      generalize syncFile cfg time indir (getSyncTime sync indir) n st (s.limit (some k)) = s1
        at hkill hplaced
      obtain ⟨hl, hq, hsync⟩ := hkill
      rw [(syncLoop_syncs hm time rest indir (getSyncTime sync indir) s1 hplaced hne hlen hrest).dead hl]
      refine ⟨hl, indir, name, st', hat, hdue', ?_, ?_⟩
      · rw [hq]
        exact hclean indir name st' hat hdue'.1
      · by_cases hlate : storedTime st.ctime > st'.ctime
        · rw [if_pos (by simpa using hlate)] at hsync
          rw [getSyncTime_stored hsync]
          exact hlate
        · rw [if_neg (by simpa using hlate)] at hsync
          rw [getSyncTime_empty hsync]
          exact hbad (by omega)
  | dir n sub rest ihsub ih =>
    intro indir s hp hne hlen hfit hun hclean hno
    obtain ⟨hn, hfresh, hsub, hrest⟩ := id hfit
    have hcleanRest : ∀ dir name st, FileAt indir rest dir name st → ¬ Hidden name →
        ∀ p ∈ s.queued, p.filename ≠ entryPath dir name :=
      fun dir name st hat => hclean dir name st (Or.inr hat)
    by_cases hh : n.head? = some 46
    · have hno' : ¬ InOrder sync indir rest := fun h => hno ⟨fun hvis => absurd hh hvis, h⟩
      obtain ⟨k, hl, dir, name, st', hat, hrest'⟩ := ih indir s hp hne hlen hrest hun.tail hcleanRest hno'
      refine ⟨k, ?_⟩
      rw [syncLoop, if_pos hh]
      exact ⟨hl, dir, name, st', Or.inr hat, hrest'⟩
    · obtain ⟨hne', hlen', hplace⟩ := entryPath_dir hne hn hh (hsub hh).1
      obtain ⟨htime, hunSub, hun1⟩ := hun.sub hm time hp hne hfit hh
      by_cases hnoSub : InOrder sync (entryPath indir n) sub
      · -- behind the subdirectory
        have hno' : ¬ InOrder sync indir rest := fun h => hno ⟨fun _ => hnoSub, h⟩
        obtain ⟨htime0, hunSub0, hun0⟩ :=
          Untouched.sub (s := s.limit none) hun hm time hp hne hfit hh
        have h1 := syncLoop_syncs hm time sub (entryPath indir n) (getSyncTime sync (entryPath indir n))
          (s.limit none) hp hne' hlen' (hsub hh).2
        have hclean1 : ∀ dir name st', FileAt indir rest dir name st' → ¬ Hidden name →
            ∀ p ∈ (syncLoop cfg time (entryPath indir n) (getSyncTime sync (entryPath indir n)) sub
              (s.limit none)).queued, p.filename ≠ entryPath dir name := by
          intro dir name st' hat hvis p hpq he
          rcases queued_due hm time sync sub (entryPath indir n) (s.limit none) hp hne' hlen' (hsub hh).2
            hunSub0 p hpq with hold | ⟨dir', name', st'', hat', hdue', hf⟩
          · exact hcleanRest dir name st' hat hvis p hold he
          · have hin : FileAt indir (.dir n sub rest) dir' name' st'' := Or.inl ⟨hh, hat'⟩
            obtain ⟨rfl, rfl, -⟩ := hin.eq_of_path hne hfit (Or.inr hat) hdue'.1 hvis (hf.symm.trans he)
            refine hat.apart hne hrest hfresh ?_
            rw [← hplace]
            rcases hat'.place hne' (hsub hh).2 with ⟨rfl, -⟩ | ⟨n', -, hsuf⟩
            · exact List.suffix_rfl
            · exact (List.suffix_cons n' _).trans hsuf
        obtain ⟨k, hl, dir, name, st', hat, hrest'⟩ :=
          ih indir _ h1.placed hne hlen hrest hun0 hclean1 hno'
        obtain ⟨c, hc⟩ := syncLoop_consumes hm time sub (entryPath indir n)
          (getSyncTime sync (entryPath indir n)) s hp hne' hlen' (hsub hh).2
        refine ⟨c + k, ?_⟩
        rw [syncLoop, if_neg hh]
        dsimp only
        rw [show getSyncTime (s.limit (some (c + k))).sync (entryPath indir n) =
          getSyncTime sync (entryPath indir n) from htime, hc]
        exact ⟨hl, dir, name, st', Or.inr hat, hrest'⟩
      · -- in the subdirectory
        obtain ⟨k, hl, dir, name, st', hat, hrest'⟩ := ihsub (entryPath indir n) s hp hne' hlen'
          (hsub hh).2 hunSub (fun dir name st hat => hclean dir name st (Or.inl ⟨hh, hat⟩)) hnoSub
        refine ⟨k, ?_⟩
        rw [syncLoop, if_neg hh]
        dsimp only
        rw [show getSyncTime (s.limit (some k)).sync (entryPath indir n) =
          getSyncTime sync (entryPath indir n) from htime]
        have hplaced := (syncLoop_syncs hm time sub (entryPath indir n)
          (getSyncTime sync (entryPath indir n)) (s.limit (some k)) hp hne' hlen' (hsub hh).2).placed
        rw [(syncLoop_syncs hm time rest indir (getSyncTime sync indir) _ hplaced hne hlen hrest).dead hl]
        exact ⟨hl, dir, name, st', Or.inl ⟨hh, hat⟩, hrest'⟩

theorem not_queued_of_clean (hsize : st.size ≠ 0) (h : ∀ p ∈ s.queued, p.filename ≠ name) :
    ¬ Queued cfg s name st := by
  intro hq
  have hpos : 0 < blockCount cfg st.size := blockCount_pos cfg (by omega)
  have hmem := hq (pieceAt cfg name taskAddfile st.size (blockCount cfg st.size) 1)
    (List.mem_map_of_mem (mem_idxs.mpr ⟨le_refl _, by omega⟩))
  exact h _ hmem rfl

/-- Only files that come in the order of their times are safe. -/
theorem inOrder_of_crashSafe {sync : List Bytes → Option Bytes} (hm : ∀ n, cfg.mallocOk n = true)
    (hfit : RootFits cfg indir l) (hsafe : CrashSafe cfg indir l sync) : InOrder sync indir l := by
  obtain ⟨hne, hlen, hl⟩ := hfit
  by_contra hno
  have hempty : ∀ (n : Nat) (sync : List Bytes → Option Bytes) (left : Option Nat),
      (Uc.init n sync left).queued = [] := fun _ _ _ => rfl
  obtain ⟨k, -, dir, name, st, hat, hdue, hclean, hlate⟩ := exists_missed hm (fun _ _ => 0) sync l indir
    (Uc.init 0 sync none) (initTaskInfo_placed 0) hne hlen hl (fun _ _ _ _ => rfl)
    (fun _ _ _ _ _ p hp => absurd hp (by rw [hempty]; simp)) hno
  have hq := hsafe k 0 0 (fun _ _ => 0) (fun _ _ => 0) l hl (fun _ _ _ => Iff.rfl) dir name st hat hdue
    (not_queued_of_clean hdue.2.1 hclean)
  refine not_queued_of_clean hdue.2.1 (fun p hp he => ?_) hq
  -- the restart reads the later time
  rcases queued_due hm (fun _ _ => 0) _ l indir _ (initTaskInfo_placed 0) hne hlen hl
    (fun _ _ _ _ => rfl) p hp with hold | ⟨dir', name', st', hat', hdue', hf⟩
  · rw [hempty] at hold
    exact absurd hold (by simp)
  · obtain ⟨rfl, rfl, rfl⟩ := hat.eq_of_path hne hl hat' hdue.1 hdue'.1 (he.symm.trans hf)
    exact absurd hdue'.2.2 (not_le.mpr hlate)

/-- **A directory is safe exactly when its files are in order.** -/
theorem crash_safe_iff (cfg : UcCfg) (indir : Bytes) (l : Listing) (sync : List Bytes → Option Bytes)
    (hm : ∀ n, cfg.mallocOk n = true) (hfit : RootFits cfg indir l) :
    CrashSafe cfg indir l sync ↔ InOrder sync indir l :=
  ⟨inOrder_of_crashSafe hm hfit, crashSafe_of_inOrder hm hfit⟩

/-- Two files, the older one first, and a subdirectory between them. -/
theorem crash_safe_in_order :
    let l := Listing.file (txt "a") ⟨1, 5, []⟩ (.dir (txt "s") (.file (txt "c") ⟨2, 3, []⟩ .done)
      (.file (txt "b") ⟨1, 10, []⟩ .done))
    CrashSafe .sample (txt "/d") l fun _ => none := by
  intro l
  exact (crash_safe_iff .sample (txt "/d") l (fun _ => none) (fun _ => rfl)
    ⟨by decide, by decide, by decide +kernel⟩).mpr (by decide +kernel)

/-- Two files, the newer one first: killed after the newer one has been queued, the process never queues
the older one. -/
theorem crash_loses_older :
    ¬ CrashSafe .sample (txt "/d")
      (.file (txt "a") ⟨1, 10, []⟩ (.file (txt "b") ⟨1, 5, []⟩ .done)) fun _ => none := by
  intro h
  have hq := h 3 2 2 (fun _ _ => 0) (fun _ _ => 0) _ (by decide +kernel) (fun _ _ _ => Iff.rfl)
    (txt "/d") (txt "b") ⟨1, 5, []⟩ (Or.inr (Or.inl ⟨rfl, rfl, rfl⟩)) (by decide +kernel)
    (by decide +kernel)
  exact absurd hq (by decide +kernel)

end VfsOss
