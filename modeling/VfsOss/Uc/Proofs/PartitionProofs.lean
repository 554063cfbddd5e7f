import VfsOss.Uc.Partition
import VfsOss.Uc.Proofs.SplitProofs

/-!
# Proofs: the blocks cut a file, and are the same wherever they are worked out

Both loops queue the block `rangeAt` for each index; `process_lack` works out the same range as long as
an `int` holds the number of blocks.
-/

namespace VfsOss

open CLib

variable {ucfg : UcCfg} {cfg : Cfg} {s r : Uc} {st : TaskStore} {d size n : Int}

/-! ## The ranges -/

/-- Block `i` of a file that is cut into `n` blocks of at most `d` bytes. -/
def rangeAt (d size n i : Int) : BlockRange :=
  ⟨i, n, d * (i - 1), if i = n then size - 1 else d * i - 1⟩

/-- The number of blocks is such that all but the last are full and the last is not empty. -/
theorem blockCount_bounds (cfg : UcCfg) (size : Int) :
    cfg.splicMinSize * (blockCount cfg size - 1) < size ∧ size ≤ cfg.splicMinSize * blockCount cfg size := by
  have hpos := cfg.pos
  have hdiv := Int.mul_ediv_add_emod (size + cfg.splicMinSize - 1) cfg.splicMinSize
  have hmod0 := Int.emod_nonneg (size + cfg.splicMinSize - 1) (Int.ne_of_gt hpos)
  have hmod1 := Int.emod_lt_of_pos (size + cfg.splicMinSize - 1) hpos
  rw [← blockCount] at hdiv
  rw [mul_sub, mul_one]
  omega

/-- The blocks behind the first `k`. -/
theorem rangeAt_tiles (hd : 0 < d) (hlt : d * (n - 1) < size) :
    ∀ m k : Nat, (k : Int) + m = n → 0 < m →
      Tiles (d * k) ((idxsFrom k m).map fun i => ((rangeAt d size n i).start, (rangeAt d size n i).last))
        size := by
  intro m
  induction m with
  | zero => exact fun k _ h0 => absurd h0 (by simp)
  | succ m ih =>
    intro k hk _
    have hstart : d * ((k : Int) + 1 - 1) = d * k := by ring
    rw [idxsFrom, List.map_cons]
    simp only [rangeAt, hstart]
    rcases Nat.eq_zero_or_pos m with rfl | hm
    · -- the last block
      have hn : (k : Int) + 1 = n := by omega
      rw [if_pos hn, idxsFrom, List.map_nil]
      have hkn : d * (k : Int) < size := by
        have hk1 : (k : Int) = n - 1 := by omega
        rwa [hk1]
      exact .one hkn
    · have hne : (k : Int) + 1 ≠ n := by omega
      have hnext : d * ((k : Int) + 1) = d * ((k + 1 : Nat) : Int) := by push_cast; ring
      have htail := ih (k + 1) (by push_cast; omega) hm
      rw [if_neg hne]
      have hstep : d * (k : Int) + d = d * ((k : Int) + 1) := by ring
      refine .cons (by omega) ?_
      rw [Int.sub_add_cancel, hnext]
      exact htail

/-- No block is empty or too long. -/
theorem rangeAt_size (hd : 0 < d) (hlt : d * (n - 1) < size) (hle : size ≤ d * n) (i : Int) :
    (rangeAt d size n i).start ≤ (rangeAt d size n i).last ∧
      (rangeAt d size n i).last - (rangeAt d size n i).start + 1 ≤ d := by
  unfold rangeAt
  dsimp only
  have hstep : d * (i - 1) + d = d * i := by ring
  split
  · next hi =>
    subst hi
    omega
  · omega

/-- The blocks of a file cut it. -/
theorem blockPartition (cfg : UcCfg) (hsize : 0 < size) :
    BlockPartition cfg size
      ((idxs (blockCount cfg size)).map (rangeAt cfg.splicMinSize size (blockCount cfg size))) := by
  obtain ⟨hlt, hle⟩ := blockCount_bounds cfg size
  have hpos := blockCount_pos cfg hsize
  have htiles : Tiles 0 (((idxs (blockCount cfg size)).map
      (rangeAt cfg.splicMinSize size (blockCount cfg size))).map fun b => (b.start, b.last)) size := by
    have h := rangeAt_tiles cfg.pos hlt (blockCount cfg size).toNat 0 (by simp; omega) (by omega)
    rw [← idxs_eq, Nat.cast_zero, mul_zero] at h
    rw [List.map_map]
    exact h
  refine ⟨?_, ?_, ?_, htiles, fun file hfile => ?_⟩
  · rw [List.map_map]
    exact List.map_id ..
  · intro b hb
    obtain ⟨i, -, rfl⟩ := List.mem_map.mp hb
    rfl
  · intro b hb
    obtain ⟨i, -, rfl⟩ := List.mem_map.mp hb
    exact rangeAt_size cfg.pos hlt hle i
  · subst hfile
    have h := htiles.flatMap_slice_whole file
    rwa [List.flatMap_map] at h

/-! ## The two loops -/

/-- The block of a piece. -/
def Piece.range (p : Piece) : BlockRange := ⟨p.idx, p.count, p.start, p.last⟩

theorem ranges_queued (s : Uc) : ranges s.store .waitSync = s.queued.map Piece.range := by
  rw [ranges, Uc.queued, List.map_map]
  rfl

/-- What `split_task` queues, as ranges. -/
theorem ranges_splitTask (hm : ∀ n, ucfg.mallocOk n = true) (time : Int → Int) (stat : Option Stat)
    (base : TaskBase) (hp : WellPlaced s.store) (hl : s.left = none) (hsize : base.fsize ≠ 0) :
    ranges (splitTask ucfg time stat base s).store .waitSync = ranges s.store .waitSync ++
      (idxs (splicCount ucfg base.fsize)).map
        (rangeAt ucfg.splicMinSize base.fsize (splicCount ucfg base.fsize)) := by
  obtain ⟨-, -, hq⟩ := splitTask_queued hm time stat base hp hl
  rw [if_neg hsize] at hq
  rw [ranges_queued, hq, List.map_append, ← ranges_queued, List.map_map]
  rfl

/-- What the loop of `do_req` queues. -/
theorem ranges_splitLoop (hm : ∀ n, cfg.mallocOk n = true) (time : Int → Int) (header : HttpHeader)
    (hlen : toInt64 (header.datalen - 1) = header.datalen - 1) (d count : Int) :
    ∀ (n k : Nat) (st : TaskStore), WellPlaced st →
      ranges (SmHttp.splitLoop cfg d time header count (idxsFrom k n) (d * k) st) .wait =
        ranges st .wait ++ (idxsFrom k n).map (rangeAt d header.datalen count) := by
  intro n
  induction n with
  | zero =>
    intro k st _
    rw [idxsFrom, SmHttp.splitLoop, List.map_nil, List.append_nil]
  | succ n ih =>
    intro k st hp
    rw [idxsFrom, SmHttp.splitLoop]
    generalize hend : (if (k : Int) + 1 = count then toInt64 ((header.datalen : Int) - 1)
      else d * k + d - 1) = end_
    obtain ⟨loc, hp⟩ := hp
    obtain ⟨task, st', hg⟩ := vfsGetTask_home hm st
    rw [SmHttp.insertSubTask, hg]
    dsimp only
    generalize ht : SmHttp.subRecord task header (k + 1) count (d * k) end_ (time (k + 1)) = t
    have haddr : t.addr = task.addr := by rw [← ht]; rfl
    obtain ⟨hp', hlast⟩ := hp.home_set (q := .wait) hg haddr (by simp) (by simp)
    have hnext : d * (k : Int) + d = d * ((k + 1 : Nat) : Int) := by push_cast; ring
    have hrange : rangeAt d header.datalen count (k + 1) = ({ t with status := .wait } : Tasklist).range := by
      rw [← ht]
      show _ = (⟨k + 1, count, d * k, end_⟩ : BlockRange)
      have h1 : d * ((k : Int) + 1 - 1) = d * k := by ring
      have h2 : d * ((k : Int) + 1) = d * k + d := by ring
      rw [rangeAt, h1, h2, ← hend, hlen]
    rw [hnext, ih (k + 1) _ hp', List.map_cons, hrange, ranges, ranges, hlast, List.map_append,
      List.append_assoc]
    rfl

/-- `split_task` is called to its end unless counting the blocks overflows. -/
theorem splitTaskCall_eq_some {time : Int → Int} {stat : Option Stat} {base : TaskBase} {s' : Uc} :
    splitTaskCall ucfg time stat base s = some s' ↔
      (base.fsize ≠ 0 → ¬ countOverflows ucfg base.fsize) ∧ splitTask ucfg time stat base s = s' := by
  unfold splitTaskCall
  split
  · next hover => exact ⟨(nomatch ·), fun h => absurd hover.2 (h.1 hover.1)⟩
  · next hover => exact ⟨fun h => ⟨fun hsize ho => hover ⟨hsize, ho⟩, Option.some.inj h⟩, fun h => congrArg some h.2⟩

/-! ## Two plugins -/

theorem splicCount_http (hsize : 0 < size) {header : HttpHeader} (hlen : (header.datalen : Int) = size) :
    SmHttp.splicCount ucfg.splicMinSize header.datalen = splicCount ucfg size := by
  rw [SmHttp.splicCount, splicCount, hlen, Int.tdiv_eq_ediv_of_nonneg (by omega),
    Int.tmod_eq_emod_of_nonneg (by omega)]

theorem countOverflows_http (hsize : 0 < size) {header : HttpHeader} (hlen : (header.datalen : Int) = size) :
    SmHttp.countOverflows ucfg.splicMinSize header.datalen ↔ countOverflows ucfg size := by
  rw [SmHttp.countOverflows, countOverflows, splicCount_http hsize hlen, hlen,
    Int.tdiv_eq_ediv_of_nonneg (by omega)]

/-- A count of blocks that an `int` holds overflows exactly if it is the largest `int`. -/
theorem countOverflows_iff (hsize : 0 < size) (hfit : blockCount ucfg size ≤ 2 ^ 31 - 1) :
    countOverflows ucfg size ↔ blockCount ucfg size = 2 ^ 31 - 1 := by
  have hpos := blockCount_pos ucfg hsize
  have hcount : splicCount ucfg size = blockCount ucfg size := splicCount_eq hsize (by omega)
  have hdiv : blockCount ucfg size = _ := blockCount_eq (by omega : 0 ≤ size)
  have hquot : 0 ≤ size.tdiv ucfg.splicMinSize :=
    Int.tdiv_nonneg (by omega) (Int.le_of_lt ucfg.pos)
  rw [countOverflows, hcount]
  constructor
  · rintro (h | h)
    · split at hdiv <;> rw [toInt32_of_range (by omega) (by omega)] at h <;> omega
    · exact h
  · exact Or.inr

/-- **The blocks of a file.** While an `int` holds the number of blocks, `split_task` and the `do_req` of
`sm_http`, if it gets that far, queue the same blocks and these cut the file, unless their number is the
largest `int`. -/
theorem partitioned_alike_iff (hm : ∀ n, ucfg.mallocOk n = true) (hm' : ∀ n, cfg.mallocOk n = true)
    (time : Int → Int) (stat : Option Stat) (io : RequestIo) {base : TaskBase} {header : HttpHeader} {m : Sm}
    (hp : WellPlaced s.store) (hp' : WellPlaced m.store) (hl : s.left = none) (hsize : 0 < base.fsize)
    (hfit : blockCount ucfg base.fsize ≤ 2 ^ 31 - 1) (hlen : (header.datalen : Int) = base.fsize)
    (hlen' : header.datalen < 2 ^ 63) (htype : header.type ≠ 1)
    (hmd5 : checkLocalfileMd5 cfg header.hostname header.filename header.filemd5 m.fs = false) :
    PartitionedAlike ucfg cfg time stat io base header s m ↔ blockCount ucfg base.fsize ≠ 2 ^ 31 - 1 := by
  have hover := countOverflows_iff hsize hfit
  constructor
  · rintro ⟨s', m', blocks, hs, -⟩ hmax
    rw [splitTaskCall, if_pos ⟨Int.ne_of_gt hsize, hover.mpr hmax⟩] at hs
    exact absurd hs (by simp)
  · intro hmax
    have hcount : splicCount ucfg base.fsize = blockCount ucfg base.fsize :=
      splicCount_eq hsize (by omega)
    have hnot : ¬ countOverflows ucfg base.fsize := fun h => hmax (hover.mp h)
    have hnot' : ¬ SmHttp.countOverflows ucfg.splicMinSize header.datalen := fun h =>
      hnot ((countOverflows_http hsize hlen).mp h)
    have hloop := ranges_splitLoop hm' io.time header (toInt64_of_range (by omega) (by omega))
      ucfg.splicMinSize (blockCount ucfg base.fsize) (blockCount ucfg base.fsize).toNat 0 m.store hp'
    rw [← idxs_eq, Nat.cast_zero, mul_zero, hlen] at hloop
    refine ⟨splitTask ucfg time stat base s,
      { m with
        store := SmHttp.splitLoop cfg ucfg.splicMinSize io.time header (blockCount ucfg base.fsize)
          (idxs (blockCount ucfg base.fsize)) 0 m.store },
      _, ?_, ?_, ?_, hloop, blockPartition ucfg hsize⟩
    · rw [splitTaskCall, if_neg fun h => hnot h.2]
    · rw [SmHttp.doReq, if_neg htype, if_neg (by simp [hmd5]), if_neg (by omega), if_neg hnot',
        splicCount_http hsize hlen, hcount]
    · rw [ranges_splitTask hm time stat base hp hl (Int.ne_of_gt hsize), hcount]

/-- A file of three bytes in blocks of one. -/
theorem partitioned_alike_three :
    let base := { TaskBase.zero with filename := txt "/d/f", fsize := 3 }
    let header := { HttpHeader.zero with filename := txt "/d/f", filemd5 := txt "m", datalen := 3 }
    PartitionedAlike .sample .sample (fun _ => 7) none ⟨fun _ => 7, true⟩ base header (.init 4 (fun _ => none) none)
        (.init 4) :=
  (partitioned_alike_iff (fun _ => rfl) (fun _ => rfl) _ _ _ (initTaskInfo_placed 4) (initTaskInfo_placed 4)
    rfl (by simp) (by decide) rfl (by simp) (by simp [HttpHeader.zero]) (by decide)).mpr (by decide)

/-- A file of as many blocks as the largest `int`: the loop's index overflows. -/
theorem largest_count_overflows :
    let base := { TaskBase.zero with filename := txt "/d/f", fsize := 2 ^ 31 - 1 }
    let header := { HttpHeader.zero with filename := txt "/d/f", filemd5 := txt "m", datalen := 2 ^ 31 - 1 }
    blockCount .sample base.fsize ≤ 2 ^ 31 - 1 ∧
      ¬ PartitionedAlike .sample .sample (fun _ => 7) none ⟨fun _ => 7, true⟩ base header
        (.init 4 (fun _ => none) none) (.init 4) := by
  intro base header
  refine ⟨by decide, fun ⟨s', m', blocks, hs, _⟩ => ?_⟩
  rw [splitTaskCall, if_pos (by decide)] at hs
  exact absurd hs (by simp)

/-! ## Sending again -/

/-- What `process_lack` does for an index it accepts. -/
theorem processLack_accepts (hm : ∀ n, ucfg.mallocOk n = true) (hp : WellPlaced r.store)
    (hl : r.left = none) (now : Int) (stat : Stat) (filename : Bytes) {idx count : Int}
    (hidx : 1 ≤ idx ∧ idx ≤ count) (hstart : ucfg.splicMinSize * (idx - 1) ≤ stat.size - 1) :
    ranges (processLack ucfg now (some stat) filename idx count r).store .waitSync =
      ranges r.store .waitSync ++ [⟨idx, count, ucfg.splicMinSize * (idx - 1),
        min (ucfg.splicMinSize * idx - 1) (stat.size - 1)⟩] := by
  have hpos := ucfg.pos
  have hstart0 : 0 ≤ ucfg.splicMinSize * (idx - 1) := Int.mul_nonneg (by omega) (by omega)
  have hnext : ucfg.splicMinSize * (idx - 1) + ucfg.splicMinSize = ucfg.splicMinSize * idx := by ring
  have hfsize : (getLocalfileStat stat
      { TaskBase.zero with filename := snprintf 256 filename }).fsize = stat.size := rfl
  generalize hbase : getLocalfileStat stat { TaskBase.zero with filename := snprintf 256 filename } = base
    at hfsize
  have hend : (if ucfg.splicMinSize * (idx - 1) + ucfg.splicMinSize - 1 > base.fsize - 1 then base.fsize - 1
      else ucfg.splicMinSize * (idx - 1) + ucfg.splicMinSize - 1) =
        min (ucfg.splicMinSize * idx - 1) (stat.size - 1) := by
    rw [hnext, hfsize]
    split <;> omega
  unfold processLack
  dsimp only
  rw [hbase, if_neg (by omega), hend, hfsize, if_neg (by omega), UcHttp.insertSubTask]
  obtain ⟨s', hs', hdead | ⟨-, hq⟩⟩ := insertSubTask_spec hm hp
    { base with hostname := snprintf 256 ucfg.hostname } idx count (ucfg.splicMinSize * (idx - 1))
    (min (ucfg.splicMinSize * idx - 1) (stat.size - 1)) now
  · rw [hl] at hdead
    exact absurd hdead.1 (by simp)
  · rw [hs', Option.getD_some, ranges_queued, hq.queued, List.map_append, ← ranges_queued]
    rfl

/-- What it does for an index it does not accept. -/
theorem processLack_rejects (now : Int) (stat : Stat) (filename : Bytes) {idx count : Int}
    (hnot : ¬ ((1 ≤ idx ∧ idx ≤ count) ∧ ucfg.splicMinSize * (idx - 1) ≤ stat.size - 1)) :
    processLack ucfg now (some stat) filename idx count r = r := by
  unfold processLack
  dsimp only
  split
  · rfl
  · next hidx =>
    have hidx : 1 ≤ idx ∧ idx ≤ count := by omega
    rw [if_pos]
    have hfsize : (getLocalfileStat stat
        { TaskBase.zero with filename := snprintf 256 filename }).fsize = stat.size := rfl
    rw [hfsize]
    have hstart : ¬ ucfg.splicMinSize * (idx - 1) ≤ stat.size - 1 := fun h => hnot ⟨hidx, h⟩
    omega

section Resend

variable {time : Int → Int} {now : Int} {stat : Stat} {base : TaskBase} {filename : Bytes}
/-- While an `int` holds the number of blocks, the block sent again is the one that was cut. -/
theorem resendsAgree_same (hm : ∀ n, ucfg.mallocOk n = true) (hp' : WellPlaced r.store)
    (hl' : r.left = none) (hsize : 0 < stat.size) (hfit : blockCount ucfg stat.size ≤ 2 ^ 31 - 1) {i : Int} (h1 : 1 ≤ i)
    (hi : i ≤ splicCount ucfg stat.size) :
    ranges (processLack ucfg now (some stat) filename i (splicCount ucfg stat.size) r).store .waitSync =
      ranges r.store .waitSync ++ [rangeAt ucfg.splicMinSize stat.size (splicCount ucfg stat.size) i] := by
  have hpos := blockCount_pos ucfg (by omega : (0 : Int) < stat.size)
  have hcount : splicCount ucfg stat.size = blockCount ucfg stat.size :=
    splicCount_eq (by omega) (by omega)
  obtain ⟨hlt, hle⟩ := blockCount_bounds ucfg stat.size
  rw [hcount] at hi ⊢
  have hfull : ucfg.splicMinSize * (i - 1) ≤ ucfg.splicMinSize * (blockCount ucfg stat.size - 1) :=
    Int.mul_le_mul_of_nonneg_left (by omega) (Int.le_of_lt ucfg.pos)
  rw [processLack_accepts hm hp' hl' now stat filename ⟨h1, hi⟩ (by omega), rangeAt]
  congr 3
  split
  · next hlast =>
    rw [hlast]
    omega
  · next hlast =>
    have hprev : ucfg.splicMinSize * i ≤ ucfg.splicMinSize * (blockCount ucfg stat.size - 1) :=
      Int.mul_le_mul_of_nonneg_left (by omega) (Int.le_of_lt ucfg.pos)
    omega

variable (hm : ∀ n, ucfg.mallocOk n = true) (hp : WellPlaced s.store) (hl : s.left = none)
variable (hp' : WellPlaced r.store) (hl' : r.left = none) (hsize : 0 < stat.size)
variable (hbase : base.fsize = stat.size)

include hm hp hl hp' hl' hsize hbase

/-- The last block that is sent again ends too early when the number of blocks has been cut. -/
theorem resendsAgree_fits (h : ResendsAgree ucfg time now stat base filename s r)
    (hcount : 0 < splicCount ucfg stat.size) : blockCount ucfg stat.size ≤ 2 ^ 31 - 1 := by
  by_contra hbig
  obtain ⟨s', blocks, hs, hsplit, hsame⟩ := h.same
  obtain ⟨-, rfl⟩ := splitTaskCall_eq_some.mp hs
  obtain ⟨b, hb, hidx, hlack⟩ := hsame (splicCount ucfg stat.size) (by omega) (le_refl _)
  rw [ranges_splitTask hm time _ base hp hl (by omega), hbase] at hsplit
  obtain rfl := List.append_cancel_left hsplit
  have hlt : splicCount ucfg stat.size < blockCount ucfg stat.size := by
    have hrange := toInt32_lt (blockCount ucfg stat.size)
    rw [← splicCount_eq_toInt32 (by omega)] at hrange
    omega
  generalize splicCount ucfg stat.size = n at *
  obtain ⟨i, -, rfl⟩ := List.mem_map.mp hb
  obtain rfl : i = n := hidx
  -- all the blocks up to this one are full
  have hfull := (blockCount_bounds ucfg stat.size).1
  have hend : ucfg.splicMinSize * i ≤ ucfg.splicMinSize * (blockCount ucfg stat.size - 1) :=
    Int.mul_le_mul_of_nonneg_left (by omega) (Int.le_of_lt ucfg.pos)
  have hprev : ucfg.splicMinSize * (i - 1) ≤ ucfg.splicMinSize * i :=
    Int.mul_le_mul_of_nonneg_left (by omega) (Int.le_of_lt ucfg.pos)
  rw [processLack_accepts hm hp' hl' now stat filename ⟨by omega, le_refl i⟩ (by omega)] at hlack
  have hblock := List.head_eq_of_cons_eq (List.append_cancel_left hlack)
  have hlast := congrArg BlockRange.last hblock
  rw [rangeAt, if_pos rfl] at hlast
  dsimp only at hlast
  omega

/-- **Sending again agrees with splitting** exactly if no `int` overflows while the blocks are counted, and an
`int` holds their number, or as an `int` that number is not positive. -/
theorem resends_agree_iff : ResendsAgree ucfg time now stat base filename s r ↔
    ¬ countOverflows ucfg stat.size ∧
      (blockCount ucfg stat.size ≤ 2 ^ 31 - 1 ∨ splicCount ucfg stat.size ≤ 0) := by
  constructor
  · intro h
    obtain ⟨s', -, hs, -⟩ := h.same
    have hover := (splitTaskCall_eq_some.mp hs).1 (by omega)
    rw [hbase] at hover
    by_cases hcount : 0 < splicCount ucfg stat.size
    · exact ⟨hover, Or.inl (resendsAgree_fits hm hp hl hp' hl' hsize hbase h hcount)⟩
    · exact ⟨hover, Or.inr (by omega)⟩
  · rintro ⟨hover, hfit⟩
    have hcall : splitTaskCall ucfg time (some stat) base s = some (splitTask ucfg time (some stat) base s) :=
      splitTaskCall_eq_some.mpr ⟨fun _ => hbase ▸ hover, rfl⟩
    have hsplit : ranges (splitTask ucfg time (some stat) base s).store .waitSync = _ :=
      ranges_splitTask hm time _ base hp hl (by omega)
    rw [hbase] at hsplit
    refine ⟨fun idx count => ?_, _, _, hcall, hsplit, fun i h1 hi => ?_⟩
    · split
      · next hidx =>
        have hpos := ucfg.pos
        have hstart : 0 ≤ ucfg.splicMinSize * (idx - 1) := Int.mul_nonneg (by omega) (by omega)
        have hnext : ucfg.splicMinSize * (idx - 1) + ucfg.splicMinSize = ucfg.splicMinSize * idx := by ring
        refine ⟨_, processLack_accepts hm hp' hl' now stat filename hidx.1 hidx.2, hstart, ?_, ?_⟩
        · dsimp only
          omega
        · dsimp only
          omega
      · next hidx => rw [processLack_rejects now stat filename hidx]
    · have hfit : blockCount ucfg stat.size ≤ 2 ^ 31 - 1 := hfit.resolve_right (by omega)
      exact ⟨_, List.mem_map_of_mem (mem_idxs.mpr ⟨h1, hi⟩), rfl,
        resendsAgree_same hm hp' hl' hsize hfit h1 hi⟩

end Resend

/-- A file of three bytes in blocks of one. -/
theorem resends_agree_three :
    let base := { TaskBase.zero with filename := txt "/d/f", fsize := 3 }
    let s := Uc.init 4 (fun _ => none) none
    ResendsAgree .sample (fun _ => 7) 9 ⟨3, 0, txt "m"⟩ base (txt "/d/f") s s :=
  (resends_agree_iff (fun _ => rfl) (initTaskInfo_placed 4) rfl (initTaskInfo_placed 4) rfl (by simp)
    rfl).mpr ⟨by decide, Or.inl (by decide)⟩

/-- A file of one byte more than `2 ^ 32` in blocks of one byte: `split_task` queues the whole file as its
only block, `process_lack` the first byte. -/
theorem cut_count_disagrees :
    let base := { TaskBase.zero with filename := txt "/d/f", fsize := 2 ^ 32 + 1 }
    let s := Uc.init 4 (fun _ => none) none
    splicCount .sample (2 ^ 32 + 1) = 1 ∧
      ranges (splitTask .sample (fun _ => 7) (some ⟨2 ^ 32 + 1, 0, txt "m"⟩) base s).store .waitSync =
        [⟨1, 1, 0, 2 ^ 32⟩] ∧
      ranges (processLack .sample 9 (some ⟨2 ^ 32 + 1, 0, txt "m"⟩) (txt "/d/f") 1 1 s).store .waitSync =
        [⟨1, 1, 0, 0⟩] ∧
      ¬ ResendsAgree .sample (fun _ => 7) 9 ⟨2 ^ 32 + 1, 0, txt "m"⟩ base (txt "/d/f") s s := by
  intro base s
  have hcount : splicCount .sample (2 ^ 32 + 1) = 1 := by decide +kernel
  have hsplit : ranges (splitTask .sample (fun _ => 7) (some ⟨2 ^ 32 + 1, 0, txt "m"⟩) base s).store .waitSync =
      [⟨1, 1, 0, 2 ^ 32⟩] := by
    decide +kernel
  have hlack : ranges (processLack .sample 9 (some ⟨2 ^ 32 + 1, 0, txt "m"⟩) (txt "/d/f") 1 1 s).store .waitSync =
      [⟨1, 1, 0, 0⟩] := by
    decide +kernel
  refine ⟨hcount, hsplit, hlack, fun h => ?_⟩
  obtain ⟨s', blocks, hs, hblocks, hsame⟩ := h.same
  obtain ⟨-, rfl⟩ := splitTaskCall_eq_some.mp hs
  obtain ⟨b, hb, -, hb'⟩ := hsame 1 (le_refl 1) (by decide +kernel)
  have hnil : ranges s.store .waitSync = [] := rfl
  have hone : splicCount .sample ((2 ^ 32 + 1 : Nat) : Int) = 1 := hcount
  dsimp only at hb'
  rw [hone, hlack, hnil, List.nil_append] at hb'
  rw [hsplit, hnil, List.nil_append] at hblocks
  rw [← hblocks, List.head_eq_of_cons_eq hb'.symm] at hb
  exact absurd hb (by decide)

end VfsOss
