import VfsOss.Sm.Detection
import VfsOss.Sm.Proofs.MergeRecordsProofs

/-!
# Proofs: lacking blocks are asked for unless the marker is there

The loop of `check_lack_task` asks for exactly the blocks without a file, and what follows in the round
leaves the requests in `TASK_WAIT`. The loop is not entered when the marker is there.
-/

namespace VfsOss

open CLib

variable {cfg : Cfg} {s s' : Sm} {t v : Tasklist} {loc : Nat → Loc} {i c : Int} {f h : Bytes}
variable {localfile : Bytes} {a : SmAct} {q : TaskStatus} {m : Nat → Bool}

/-! ## The loop -/

@[simp] theorem lackOne_fs (cfg : Cfg) (t : Tasklist) (localfile : Bytes) (i : Int) (s : Sm) :
    (lackOne cfg t localfile s i).fs = s.fs := by
  rcases lackOne_cases cfg s t localfile i with he | ⟨-, ⟨-, he⟩ | ⟨task0, st, -, he⟩⟩
  · rw [he]
  · rw [he]
  · rw [he]
    rfl

theorem vfsGetTask_home_ok (hm : ∀ n, m n = true) (st : TaskStore) :
    ∃ t st', vfsGetTask m st .home = (.ok t, st') := by
  unfold vfsGetTask
  rw [if_neg (by simp)]
  split
  · exact ⟨_, _, rfl⟩
  · rw [if_pos rfl, if_pos (hm _)]
    exact ⟨_, _, rfl⟩

/-- A round that asks: the request is the last record in `TASK_WAIT`. -/
theorem wait_lackAsk {task0 : Tasklist} {st : TaskStore} (hp : Placed s.store loc)
    (hg : vfsGetTask cfg.mallocOk s.store .home = (.ok task0, st)) :
    (lackAsk t i task0 st s).store.vfstask .wait =
      s.store.vfstask .wait ++ [{ lackRecord t task0 i with status := .wait }] := by
  obtain ⟨hp', -⟩ := hp.get hg
  have hheld : Function.update loc task0.addr .held (lackRecord t task0 i).addr = .held :=
    Function.update_self ..
  have hst : st.vfstask .wait = s.store.vfstask .wait := by
    have he := vfstask_vfsGetTask_ne (m := cfg.mallocOk) (s := s.store)
      (show TaskStatus.wait ≠ .home by simp)
    rwa [hg] at he
  show (vfsSetTask _ _ .wait).vfstask .wait = _
  rw [vfstask_vfsSetTask (by simp) (hp'.mark.not_queued (by rw [hheld]; simp)), Function.update_self,
    vfstask_setTaskFromAlltask, hst]

/-- A round leaves what waits. -/
theorem lackOne_waits (hp : Placed s.store loc) :
    ∀ u ∈ s.store.vfstask .wait, u ∈ (lackOne cfg t localfile s i).store.vfstask .wait := by
  intro u hu
  rcases lackOne_cases cfg s t localfile i with he | ⟨-, ⟨-, he⟩ | ⟨task0, st, hg, he⟩⟩
  · rwa [he]
  · rw [he]
    show u ∈ (vfsGetTask cfg.mallocOk s.store .home).2.vfstask .wait
    rwa [vfstask_vfsGetTask_ne (by simp)]
  · rw [he, wait_lackAsk hp hg]
    exact List.mem_append_left _ hu

/-- A round for a block without a file asks for it. -/
theorem lackOne_asks (hm : ∀ n, cfg.mallocOk n = true) (hp : Placed s.store loc)
    (hc : s.fs.content (subfile localfile i t.sub.count) = none) : ∃ v,
    .lack v ∈ s.since (lackOne cfg t localfile s i) ∧
      { v with status := .wait } ∈ (lackOne cfg t localfile s i).store.vfstask .wait ∧
      v.AsksFor t.base.hostname t.base.filename i t.sub.count := by
  obtain ⟨task0, st, hg⟩ := vfsGetTask_home_ok hm s.store
  have he : lackOne cfg t localfile s i = lackAsk t i task0 st s := by
    unfold lackOne
    rw [hc, hg]
  rw [he, wait_lackAsk hp hg]
  refine ⟨lackRecord t task0 i, ?_, List.mem_append_right _ (List.mem_singleton_self _), rfl, rfl, rfl, rfl⟩
  have hl : s.since (lackAsk t i task0 st s) = _ ++ [.lack (lackRecord t task0 i)] := since_of_log rfl
  rw [hl]
  exact List.mem_append_right _ (List.mem_singleton_self _)

/-- It asks only for a block without a file. -/
theorem lackOne_lacks : Grew (fun e => ∀ v, e = .lack v → v.sub.idx = i ∧
    s.fs.content (subfile localfile i t.sub.count) = none) s (lackOne cfg t localfile s i) := by
  rcases lackOne_cases cfg s t localfile i with he | ⟨hc, ⟨-, he⟩ | ⟨task0, st, -, he⟩⟩
  · rw [he]
    exact .refl
  · rw [he]
    exact .of_log_eq rfl
  · rw [he]
    refine ⟨_, rfl, fun e hm => ?_⟩
    rcases List.mem_append.mp hm with hm | hm
    · obtain ⟨u, -, rfl⟩ := List.mem_map.mp hm
      exact fun v hv => absurd hv (by simp)
    · rw [List.mem_singleton.mp hm]
      rintro v hv
      obtain rfl := Event.lack.inj hv
      exact ⟨rfl, hc⟩

/-- The loop leaves what waits, and asks for every block without a file. -/
theorem lackLoop_asks (hm : ∀ n, cfg.mallocOk n = true) : ∀ (l : List Int) (s : Sm) (loc : Nat → Loc),
    Placed s.store loc →
    (∀ u ∈ s.store.vfstask .wait, u ∈ (l.foldl (lackOne cfg t localfile) s).store.vfstask .wait) ∧
    ∀ i ∈ l, s.fs.content (subfile localfile i t.sub.count) = none → ∃ v,
      .lack v ∈ s.since (l.foldl (lackOne cfg t localfile) s) ∧
        { v with status := .wait } ∈ (l.foldl (lackOne cfg t localfile) s).store.vfstask .wait ∧
        v.AsksFor t.base.hostname t.base.filename i t.sub.count := by
  intro l
  induction l with
  | nil => exact fun s _ _ => ⟨fun u hu => hu, fun i hi => absurd hi (by simp)⟩
  | cons i l ih =>
    intro s loc hp
    obtain ⟨-, loc', hp', -⟩ := (lackOne_internal (s := s) cfg t localfile i).store loc hp
    obtain ⟨hw, hasks⟩ := ih _ loc' hp'
    have hone : Grew _ s (lackOne cfg t localfile s i) := lackOne_grew t localfile i
    have hloop : Grew (fun _ => True) (lackOne cfg t localfile s i)
        (l.foldl (lackOne cfg t localfile) (lackOne cfg t localfile s i)) :=
      foldl_induct (P := Grew _ (lackOne cfg t localfile s i))
        (fun b j _ hb => hb.trans ((lackOne_grew ..).mono fun _ _ => trivial)) .refl
    refine ⟨fun u hu => hw u (lackOne_waits hp u hu), fun j hj hc => ?_⟩
    show ∃ v, .lack v ∈ s.since (l.foldl _ (lackOne cfg t localfile s i)) ∧ _
    rw [hone.since_append hloop]
    rcases List.mem_cons.mp hj with rfl | hj
    · obtain ⟨v, hv, hwait, hkey⟩ := lackOne_asks hm hp hc
      exact ⟨v, List.mem_append_left _ hv, hw _ hwait, hkey⟩
    · obtain ⟨v, hv, hwait, hkey⟩ := hasks j hj (by rwa [lackOne_fs])
      exact ⟨v, List.mem_append_right _ hv, hwait, hkey⟩

/-! ## The check -/

/-- Without a marker the check asks for every block that has no file once the marker is made. -/
theorem checkLackTask_asks (hm : ∀ n, cfg.mallocOk n = true) (hp : Placed s.store loc)
    (hmark : s.fs.content (checkfile (getLocaldir cfg t.base.hostname t.base.filename)) = none)
    (hi : i ∈ idxs t.sub.count)
    (hc : (touchMarker cfg (getLocaldir cfg t.base.hostname t.base.filename) s.fs).content
      (subfile (getLocaldir cfg t.base.hostname t.base.filename) i t.sub.count) = none) :
    Asked s (checkLackTask cfg t s) t i := by
  unfold checkLackTask
  dsimp only
  rw [hmark]
  exact (lackLoop_asks hm (idxs t.sub.count) { s with fs := touchMarker cfg _ s.fs } loc hp).2 i hi hc

/-- It asks only without a marker, and for blocks that then have no file. -/
theorem checkLackTask_lacks (cfg : Cfg) (t : Tasklist) (s : Sm) : Grew (fun e => ∀ v, e = .lack v →
    s.fs.content (checkfile (getLocaldir cfg t.base.hostname t.base.filename)) = none ∧
    (touchMarker cfg (getLocaldir cfg t.base.hostname t.base.filename) s.fs).content
      (subfile (getLocaldir cfg t.base.hostname t.base.filename) v.sub.idx t.sub.count) = none)
    s (checkLackTask cfg t s) := by
  unfold checkLackTask
  generalize getLocaldir cfg t.base.hostname t.base.filename = localfile
  dsimp only
  split
  · exact .refl
  · next hmark =>
    refine And.right (foldl_induct (P := fun b => b.fs = touchMarker cfg localfile s.fs ∧ Grew _ s b)
      (fun b i _ hb => ⟨by rw [lackOne_fs, hb.1], hb.2.trans ?_⟩) ⟨rfl, .of_log_eq rfl⟩)
    refine lackOne_lacks.mono fun e he v hv => ⟨hmark, ?_⟩
    obtain ⟨rfl, hc⟩ := he v hv
    rwa [hb.1] at hc

/-! ## The rest of the round -/

/-- A round of the merge loop leaves the queues. -/
theorem mergeOne_queues {ofd : Nat} (io : MergeIo) (hp : Placed s.store loc) (q : TaskStatus) :
    ∀ u ∈ s.store.vfstask q, u ∈ (mergeOne io h f c ofd i s).1.store.vfstask q := by
  rcases mergeOne_cases io h f c ofd i s with ⟨-, hr⟩ | ⟨w, st, hg, hc⟩
  · rw [hr]
    exact fun u hu => hu
  · have hk : ToHome s.store (vfsSetTask st w .home) := hp.take_home hg
    have hst : st.vfstask = s.store.vfstask := (getTaskFromAlltask_some hg).2.1
    rcases hc with ⟨-, hr⟩ | ⟨-, hr, -⟩ | ⟨-, d, -, e, err, -, fs, -, s', rfl, ⟨-, hr⟩ | ⟨-, hr⟩⟩ <;> rw [hr]
    · exact hk.queue q
    · show ∀ u ∈ s.store.vfstask q, u ∈ st.vfstask q
      exact fun u hu => hst ▸ hu
    · exact hk.queue q
    · exact hk.queue q

theorem doMergeFile_queues (io : MergeIo) (srcip filemd5 : Bytes) (hp : Placed s.store loc)
    (q : TaskStatus) :
    ∀ u ∈ s.store.vfstask q, u ∈ (doMergeFile cfg io h srcip f c filemd5 s).store.vfstask q := by
  unfold doMergeFile
  dsimp only
  split
  · rw [note_store]
    refine (mergeLoop_induct (P := fun b => WellPlaced b.store ∧
      ∀ u ∈ s.store.vfstask q, u ∈ b.store.vfstask q) (s := mergeBegin cfg h f c s) ?_
      ⟨⟨loc, hp⟩, fun u hu => hu⟩).2
    rintro b j - ⟨⟨loc', hp'⟩, hb⟩
    obtain ⟨-, loc'', hp'', -⟩ := (mergeOne_internal (s := b) io h f c _ j).store loc' hp'
    exact ⟨⟨loc'', hp''⟩, fun u hu => mergeOne_queues io hp' q u (hb u hu)⟩
  · exact fun u hu => hu

/-- What the check has asked for is still waiting after the round. -/
theorem finTask_asks (io : MergeIo) (hp : Placed s.store loc)
    (ht : loc t.addr = .held) (hok : t.base.overstatus = .ok) (ha : Asked s (checkLackTask cfg t s) t i) :
    Asked s (finTask cfg io t s) t i := by
  obtain ⟨⟨loc', hp'⟩, -⟩ := beforeMerge_placed cfg hp ht
  obtain ⟨v, hv, hw, hkey⟩ := ha
  have hbefore : Asked s (beforeMerge cfg t s) t i := ⟨v, hv, hw, hkey⟩
  rw [finTask_ok cfg io hok]
  split
  · have hgrew : Grew _ s (beforeMerge cfg t s) := beforeMerge_grew cfg t s
    refine ⟨v, ?_, doMergeFile_queues io _ _ hp' .wait _ hw, hkey⟩
    rw [hgrew.since_append (doMergeFile_grew ..)]
    exact List.mem_append_left _ hv
  · exact hbefore

/-- A round asks only where the check does. -/
theorem finTask_lacks (cfg : Cfg) (io : MergeIo) (hok : t.base.overstatus = .ok) (s : Sm) :
    Grew (fun e => ∀ v, e = .lack v →
      s.fs.content (checkfile (getLocaldir cfg t.base.hostname t.base.filename)) = none ∧
      (touchMarker cfg (getLocaldir cfg t.base.hostname t.base.filename) s.fs).content
        (subfile (getLocaldir cfg t.base.hostname t.base.filename) v.sub.idx t.sub.count) = none)
      s (finTask cfg io t s) := by
  have hbefore : Grew _ s (beforeMerge cfg t s) := (checkLackTask_lacks cfg t s).trans (.of_log_eq rfl)
  rw [finTask_ok cfg io hok]
  split
  · refine hbefore.trans ((doMergeFile_grew ..).mono fun e he v hv => ?_)
    rcases he with rfl | ⟨u, rfl | rfl | rfl⟩ | ⟨p, rfl⟩ | ⟨ip, text, sent, rfl⟩ <;>
      exact absurd hv (by simp)
  · exact hbefore

/-! ## Steps and runs -/

/-- A step asks for every lacking block exactly if the marker is not in the way. -/
theorem stepDetects_iff (hm : ∀ n, cfg.mallocOk n = true) (hp : WellPlaced s.store) (a : SmAct) :
    StepDetects cfg s a ↔ StepUnmarked cfg s a := by
  obtain ⟨loc, hp⟩ := hp
  refine forall₃_congr fun t ht hok => forall₂_congr fun i hl => ?_
  obtain ⟨io, s1, hstep, hstore, hfs, hlog, u, rest, hq, hu⟩ := finTask_of_processed ht cfg
  have hp1 : Placed s1.store (Function.update loc t.addr .held) := by
    have htu : t.addr = u.addr := by rw [hu, Tasklist.taken]
    rw [hstore, htu]
    exact popFin_placed hp hq
  have hfin : Grew (fun e => ∀ v, e ≠ .lack v) s s1 := ⟨_, hlog, by simp⟩
  have hgrew : Grew _ s1 (finTask cfg io t s1) := finTask_lacks cfg io hok s1
  rw [hfs] at hgrew
  rw [hstep]
  constructor
  · rintro ⟨v, hv, -, -, -, hidx, -⟩
    rw [hfin.since_append hgrew] at hv
    obtain ⟨es, hes, hlacks⟩ := hgrew
    rw [since_of_log hlog, since_of_log hes] at hv
    rcases List.mem_append.mp hv with hv | hv
    · exact absurd hv (by simp)
    · exact hidx ▸ hlacks _ hv v rfl
  · rintro ⟨hmark, hc⟩
    rw [← hfs] at hmark hc
    obtain ⟨v, hv, hw, hkey⟩ := finTask_asks io hp1 (Function.update_self ..) hok
      (checkLackTask_asks hm hp1 hmark hl.range hc)
    refine ⟨v, ?_, hw, hkey⟩
    rw [hfin.since_append hgrew]
    exact List.mem_append_right _ hv

/-- **Lacking blocks are asked for.** In a run in which a file may be uploaded any number of times, every
block that is processed gets the lacking blocks of its upload asked for, exactly if no marker is there
whenever that matters. -/
theorem lack_detected_iff (cfg : Cfg) (n : Nat) (as : List SmAct) (hm : ∀ n, cfg.mallocOk n = true) :
    RunOk (smStep cfg) (StepDetects cfg) (Sm.init n) as ↔
      RunOk (smStep cfg) (StepUnmarked cfg) (Sm.init n) as :=
  RunOk.iff_of_invariant WellSited (fun _ a h => smStep_sited h a)
    (fun _ a h => stepDetects_iff hm h.placed a) (init_sited n) as

/-- The first upload of the file, when `malloc` does not fail. -/
theorem lack_detected_two :
    RunOk (smStep .sample) (StepDetects .sample) (Sm.init 4) (twoGenerations.take 6) := by
  refine (lack_detected_iff .sample 4 _ fun _ => rfl).mpr ?_
  have hmarker : RunOk (smStep .sample) (fun s a => ∀ t ∈ processed s a,
      let localfile := getLocaldir .sample t.base.hostname t.base.filename
      s.fs.content (checkfile localfile) = none ∧ ∀ i ∈ idxs t.sub.count,
        s.fs.content (tmpPath .sample t.base.hostname t.base.filename i t.sub.count) = none →
          (touchMarker .sample localfile s.fs).content (subfile localfile i t.sub.count) = none)
      (Sm.init 4) (twoGenerations.take 6) := by
    decide +kernel
  exact hmarker.mono fun s a h t ht _ i hl => ⟨(h t ht).1, (h t ht).2 i hl.range hl.absent⟩

/-- The second upload of a file finds the marker of the first one, and its lost block is not asked for. -/
theorem second_upload_not_detected :
    ¬ RunOk (smStep .sample) (StepDetects .sample) (Sm.init 4) (twoGenerations ++ [.finIter .ok]) := by
  intro h
  have hstep : StepDetects .sample secondUpload (.finIter .ok) := (RunOk.append.mp h).2.1
  obtain ⟨⟨t, ht, hok, hhost, hfile, hcount⟩, hunasked, hnone⟩ :
      (∃ t ∈ processed secondUpload (.finIter .ok), t.base.overstatus = .ok ∧
        t.base.hostname = txt "h" ∧ t.base.filename = txt "f" ∧ t.sub.count = 2) ∧
      (∀ e ∈ sinceBegan (txt "h") (txt "f") secondUpload.log, e.isLack = false) ∧
      ∀ e ∈ secondUpload.since (smStep .sample secondUpload (.finIter .ok)), e.isLack = false := by
    decide +kernel
  have hlack : Lacking .sample secondUpload t 2 := by
    refine ⟨?_, ?_, fun v hv => ?_⟩
    · rw [hcount]
      decide
    · rw [hhost, hfile, hcount]
      decide +kernel
    · rw [hhost, hfile] at hv
      exact absurd (hunasked _ hv) (by simp [Event.isLack])
  obtain ⟨v, hv, -⟩ := hstep t ht hok 2 hlack
  exact absurd (hnone _ hv) (by simp [Event.isLack])

end VfsOss
