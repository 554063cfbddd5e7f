import VfsOss.CLib.Proofs.TextProofs
import VfsOss.Uc.CrashSafe
import VfsOss.Uc.Proofs.SplitProofs

/-!
# Proofs: what synchronising a directory changes

A directory's `.sync_time` is only changed while its own files are visited, and what is queued stays
queued.
-/

namespace VfsOss

open CLib

variable {cfg : UcCfg} {s s' : Uc} {indir name : Bytes} {l : Listing} {st : Stat} {last : Int}
variable {place : List Bytes}

/-! ## Places -/

theorem entryPath_eq (h : indir.length + 1 + name.length ≤ 255) :
    entryPath indir name = indir ++ 47 :: name := by
  have hs : indir ++ txt "/" ++ name = indir ++ 47 :: name := by
    rw [List.append_assoc]
    rfl
  rw [entryPath, hs, snprintf_of_le]
  simp only [List.length_append, List.length_cons]
  omega

theorem isName_of_entryName (h : EntryName name) (hh : ¬ Hidden name) : IsName name := by
  refine ⟨h.1, ?_, ?_⟩
  · rintro rfl
    exact hh rfl
  · rintro rfl
    exact hh rfl

theorem locate_entry (hne : indir ≠ []) (h : EntryName name) (hh : ¬ Hidden name) :
    locate [] (indir ++ 47 :: name) = name :: locate [] indir := by
  rw [locate_append hne, follow_single h.2, enter_name (isName_of_entryName h hh)]

/-- The name of the `.sync_time` files. -/
def syncName : Bytes := txt ".sync_time"

theorem syncPlace_eq (hne : indir ≠ []) (h : indir.length ≤ 244) :
    syncPlace indir = syncName :: locate [] indir := by
  have hs : indir ++ txt "/.sync_time" = indir ++ 47 :: syncName := rfl
  have hlen : syncName.length = 10 := by decide
  rw [syncPlace, hs, snprintf_of_le, locate_append hne, follow_single (by decide), enter_name]
  · exact ⟨by decide, by decide, by decide⟩
  · simp only [List.length_append, List.length_cons, hlen]
    omega

/-- Slashes at the end of a path do not change where it leads. -/
theorem locate_trailing {d : Bytes} (h : d ≠ []) (k : Nat) :
    locate [] (d ++ List.replicate k 47) = locate [] d := by
  induction k with
  | zero => simp
  | succ k ih =>
    have hs : d ++ List.replicate (k + 1) 47 = (d ++ List.replicate k 47) ++ 47 :: [] := by
      rw [List.replicate_succ', List.append_assoc]
    rw [hs, locate_append (by simp [h]), ih]
    rfl

/-- A path without its slashes at the end. -/
theorem exists_trailing (d : Bytes) :
    ∃ d' k, d = d' ++ List.replicate k 47 ∧ (d.reverse.dropWhile (· = 47)) = d'.reverse := by
  refine ⟨(d.reverse.dropWhile (· = 47)).reverse, (d.reverse.takeWhile (· = 47)).length, ?_, by simp⟩
  have hrep : d.reverse.takeWhile (· = 47) =
      List.replicate (d.reverse.takeWhile (· = 47)).length 47 := by
    refine List.eq_replicate_of_mem fun b hb => ?_
    simpa using List.mem_takeWhile_imp hb
  calc d = d.reverse.reverse := by simp
    _ = (d.reverse.takeWhile (· = 47) ++ d.reverse.dropWhile (· = 47)).reverse := by
        rw [List.takeWhile_append_dropWhile]
    _ = (d.reverse.dropWhile (· = 47)).reverse ++ (d.reverse.takeWhile (· = 47)).reverse :=
        List.reverse_append
    _ = _ := by rw [hrep, List.reverse_replicate, List.length_replicate]

/-- `update_sync_time` and `get_sync_time` use the same file for a directory. -/
theorem syncPlace_dirname (hne : indir ≠ []) (h : indir.length ≤ 244) (hn : EntryName name) :
    syncPlace (dirname (indir ++ 47 :: name)) = syncPlace indir := by
  obtain ⟨d, k, hd, hdrop⟩ := exists_trailing indir
  have hrev : (indir ++ 47 :: name).reverse = name.reverse ++ 47 :: indir.reverse := by simp
  have hno : ∀ b ∈ name.reverse, b ≠ 47 := by
    intro b hb he
    rw [he] at hb
    exact hn.2 (List.mem_reverse.mp hb)
  have h1 : (name.reverse ++ 47 :: indir.reverse).dropWhile (· = 47) =
      name.reverse ++ 47 :: indir.reverse := by
    obtain ⟨x, xs, hx⟩ := List.exists_cons_of_ne_nil (fun he => hn.1 (List.reverse_eq_nil_iff.mp he))
    rw [hx, List.cons_append, List.dropWhile_cons_of_neg]
    simpa using hno x (by rw [hx]; simp)
  have h2 : (name.reverse ++ 47 :: indir.reverse).dropWhile (· ≠ 47) = 47 :: indir.reverse := by
    rw [List.dropWhile_append_of_pos (by simpa using hno), List.dropWhile_cons_of_neg (by simp)]
  have hdir : dirname (indir ++ 47 :: name) = if d = [] then txt "/" else d := by
    unfold dirname
    rw [hrev, h1, h2]
    dsimp only
    rw [List.dropWhile_cons_of_pos (by simp), hdrop]
    cases hr : d.reverse with
    | nil => rw [if_pos (List.reverse_eq_nil_iff.mp hr)]
    | cons x xs =>
      rw [if_neg (fun he => by rw [he] at hr; exact absurd hr (by simp))]
      exact (congrArg List.reverse hr).symm.trans (List.reverse_reverse d)
  rw [hdir]
  split
  · next hnil =>
    -- the directory is the root
    obtain ⟨j, rfl⟩ : ∃ j, k = j + 1 := by
      cases k with
      | zero => exact absurd (by rw [hd, hnil]; rfl) hne
      | succ j => exact ⟨j, rfl⟩
    have hroot : indir = txt "/" ++ List.replicate j 47 := by
      rw [hd, hnil, List.replicate_succ]
      rfl
    rw [syncPlace_eq hne h, syncPlace_eq (by decide) (by decide), hroot, locate_trailing (by decide)]
  · next hnil =>
    have hlen : d.length ≤ 244 := by
      rw [hd, List.length_append] at h
      omega
    rw [syncPlace_eq hne h, syncPlace_eq hnil hlen, hd, locate_trailing hnil]

/-! ## One file -/

theorem getSyncTime_congr {σ σ' : List Bytes → Option Bytes}
    (h : σ (syncPlace indir) = σ' (syncPlace indir)) : getSyncTime σ indir = getSyncTime σ' indir := by
  rw [getSyncTime, getSyncTime, h]

theorem getSyncTime_stored {σ : List Bytes → Option Bytes} {ctime : Int}
    (h : σ (syncPlace indir) = some (fmtInt ctime)) : getSyncTime σ indir = storedTime ctime := by
  rw [getSyncTime, h]
  rfl

theorem getSyncTime_empty {σ : List Bytes → Option Bytes} (h : σ (syncPlace indir) = some []) :
    getSyncTime σ indir = 0 := by
  rw [getSyncTime, h]
  decide

theorem syncFile_of_not_due (time : Bytes → Int → Int) (h : ¬ Due last name st) (s : Uc) :
    syncFile cfg time indir last name st s = s := by
  unfold syncFile
  split
  · rfl
  · next hh =>
    dsimp only
    split
    · rfl
    · next hlt =>
      have hz : st.size = 0 := by
        by_contra hz
        exact h ⟨hh, hz, by omega⟩
      unfold splitTask syncTask getLocalfileStat
      rw [if_pos (by simp [hz])]

/-- A due file is cut into blocks, and its directory's `.sync_time` gets its time. -/
theorem syncFile_of_due (hm : ∀ n, cfg.mallocOk n = true) (time : Bytes → Int → Int)
    (hp : WellPlaced s.store) (hne : indir ≠ []) (hlen : indir.length ≤ 244) (hn : EntryName name)
    (hfit : indir.length + 1 + name.length ≤ 255 ∧ blockCount cfg st.size < 2 ^ 31 - 1)
    (hdue : Due last name st) :
    Splits (syncPlace indir) (fmtInt st.ctime)
      (pieces cfg (entryPath indir name) taskAddfile st.size) s
      (syncFile cfg time indir last name st s) := by
  obtain ⟨hh, hsize, hlast⟩ := hdue
  have hpath := entryPath_eq hfit.1
  have hplen : (entryPath indir name).length ≤ 255 := by
    rw [hpath, List.length_append, List.length_cons]
    omega
  have hname : (syncTask (entryPath indir name) st).filename = entryPath indir name :=
    snprintf_of_le (by omega)
  have hcount : splicCount cfg st.size = blockCount cfg st.size :=
    splicCount_eq (by omega) (by have := hfit.2; omega)
  have hspec := splitTask_spec hm (time (entryPath indir name)) st (syncTask (entryPath indir name) st) hp
    (show ((st.size : Nat) : Int) ≠ 0 by omega) (by rw [hname]; exact hplen)
  have hfsize : (syncTask (entryPath indir name) st).fsize = st.size := rfl
  have htype : (syncTask (entryPath indir name) st).type = taskAddfile := rfl
  rw [hname, hpath, syncPlace_dirname hne hlen hn, ← hpath, hfsize, htype, hcount] at hspec
  unfold syncFile
  rw [if_neg (show ¬ name.head? = some 46 from hh)]
  dsimp only
  rw [if_neg (by omega)]
  exact hspec

/-! ## A whole directory -/

/-- Below the directory `here` the process has worked: it has only changed `.sync_time` files there, and
what was queued still is. -/
structure Syncs (here : List Bytes) (s s' : Uc) : Prop where
  placed : WellPlaced s'.store
  alive : s.left = none → s'.left = none
  dead : s.left = some 0 → s' = s
  queued : s.queued <+: s'.queued
  others : ∀ p, ¬ here <:+ p → s'.sync (syncName :: p) = s.sync (syncName :: p)

theorem Syncs.refl {here : List Bytes} (h : WellPlaced s.store) : Syncs here s s :=
  ⟨h, fun h => h, fun _ => rfl, List.prefix_rfl, fun _ _ => rfl⟩

theorem Syncs.trans {here : List Bytes} {s'' : Uc} (h : Syncs here s s') (h' : Syncs here s' s'') :
    Syncs here s s'' where
  placed := h'.placed
  alive hl := h'.alive (h.alive hl)
  dead hl := by
    obtain rfl := h.dead hl
    exact h'.dead hl
  queued := h.queued.trans h'.queued
  others p hp := (h'.others p hp).trans (h.others p hp)

/-- What happens in a subdirectory happens below the directory. -/
theorem Syncs.up {here : List Bytes} {n : Bytes} (h : Syncs (n :: here) s s') : Syncs here s s' where
  placed := h.placed
  alive := h.alive
  dead := h.dead
  queued := h.queued
  others p hp := h.others p fun hs => hp ((List.suffix_cons n here).trans hs)

theorem Splits.syncs {here : List Bytes} {text : Bytes} {full : List Piece}
    (h : Splits (syncName :: here) text full s s') : Syncs here s s' where
  placed := h.placed
  alive := h.alive
  dead := h.dead
  queued := by
    obtain ⟨ps, hq, -⟩ := h.outcome
    rw [hq]
    exact List.prefix_append ..
  others p hp := h.others _ fun he => hp (by rw [(List.cons.inj he).2])

theorem syncFile_syncs (hm : ∀ n, cfg.mallocOk n = true) (time : Bytes → Int → Int) (last : Int)
    (st : Stat) (hp : WellPlaced s.store) (hne : indir ≠ []) (hlen : indir.length ≤ 244) (hn : EntryName name)
    (hfit : ¬ Hidden name → indir.length + 1 + name.length ≤ 255 ∧
      blockCount cfg st.size < 2 ^ 31 - 1) :
    Syncs (locate [] indir) s (syncFile cfg time indir last name st s) := by
  by_cases hdue : Due last name st
  · have hsplit := syncFile_of_due hm time hp hne hlen hn (hfit hdue.1) hdue
    rw [syncPlace_eq hne hlen] at hsplit
    exact hsplit.syncs
  · rw [syncFile_of_not_due time hdue]
    exact .refl hp

/-- The path of a visible subdirectory. -/
theorem entryPath_dir (hne : indir ≠ []) (hn : EntryName name) (hh : ¬ Hidden name)
    (hfit : indir.length + 1 + name.length ≤ 244) :
    entryPath indir name ≠ [] ∧ (entryPath indir name).length ≤ 244 ∧
      locate [] (entryPath indir name) = name :: locate [] indir := by
  rw [entryPath_eq (by omega)]
  refine ⟨by simp, ?_, locate_entry hne hn hh⟩
  rw [List.length_append, List.length_cons]
  omega

theorem syncLoop_syncs (hm : ∀ n, cfg.mallocOk n = true) (time : Bytes → Int → Int) (l : Listing) :
    ∀ (indir : Bytes) (last : Int) (s : Uc), WellPlaced s.store → indir ≠ [] → indir.length ≤ 244 →
      Fits cfg indir l → Syncs (locate [] indir) s (syncLoop cfg time indir last l s) := by
  induction l with
  | done => exact fun indir last s hp _ _ _ => .refl hp
  | file n st rest ih =>
    intro indir last s hp hne hlen hfit
    obtain ⟨hn, -, hpath, hrest⟩ := hfit
    have h1 := syncFile_syncs hm time last st hp hne hlen hn hpath
    exact h1.trans (ih indir last _ h1.placed hne hlen hrest)
  | dir n sub rest ihsub ih =>
    intro indir last s hp hne hlen hfit
    obtain ⟨hn, -, hsub, hrest⟩ := hfit
    rw [syncLoop]
    split
    · exact ih indir last s hp hne hlen hrest
    · next hh =>
      obtain ⟨hne', hlen', hplace⟩ := entryPath_dir hne hn hh (hsub hh).1
      have h1 := ihsub (entryPath indir n) (getSyncTime s.sync (entryPath indir n)) s hp hne' hlen'
        (hsub hh).2
      rw [hplace] at h1
      exact h1.up.trans (ih indir last _ h1.placed hne hlen hrest)

end VfsOss
