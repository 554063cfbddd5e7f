import VfsOss.Sm.Merge
import VfsOss.Sm.Machine
import VfsOss.Sm.Proofs.MergeRecordsProofs

/-!
# Proofs: what a merge of a complete file concatenates

The check looks for any record under a key that is not expired, the merge takes the first one whatever
its flag is. They agree as long as the first ones are not expired.
-/

namespace VfsOss

open CLib

variable {cfg : Cfg} {io : MergeIo} {s : Sm} {v : Tasklist} {loc : Nat → Loc} {i c : Int}
variable {h f srcip filemd5 : Bytes}

/-! ## The bytes -/

/-- A block that is copied without an error is copied in full. -/
theorem copyLoop_done (read write : Nat → Option Nat) : ∀ (n k : Nat) (d : Bytes), d.length ≤ n →
    (copyLoop read write n k d).2 = false → (copyLoop read write n k d).1 = d := by
  intro n
  induction n with
  | zero =>
    intro k d hd _
    rw [List.length_eq_zero_iff.mp (Nat.le_zero.mp hd), copyLoop]
  | succ n ih =>
    intro k d hd herr
    rw [copyLoop] at herr ⊢
    by_cases hnil : d = []
    · rw [if_pos hnil, hnil]
    rw [if_neg hnil] at herr ⊢
    have hpos : 0 < d.length := List.length_pos_iff.mpr hnil
    cases hr : read k with
    | none =>
      rw [hr] at herr
      exact absurd herr (by simp)
    | some m =>
      rw [hr] at herr
      dsimp only at herr ⊢
      generalize hb : d.take (max 1 (min m 1024000)) = buf at herr ⊢
      have hlen : 1 ≤ buf.length := by
        rw [← hb, List.length_take]
        omega
      have hsplit : buf ++ d.drop buf.length = d := by
        have hpre : buf <+: d := by
          rw [← hb]
          exact List.take_prefix ..
        obtain ⟨rest, hrest⟩ := hpre
        rw [← hrest, List.drop_left]
      cases hw : write k with
      | none =>
        rw [hw] at herr
        exact absurd herr (by simp)
      | some w =>
        rw [hw] at herr
        dsimp only at herr ⊢
        by_cases hlt : w < buf.length
        · rw [if_pos hlt] at herr
          exact absurd herr (by simp)
        · rw [if_neg hlt] at herr ⊢
          dsimp only at herr ⊢
          rw [ih (k + 1) (d.drop buf.length) (by rw [List.length_drop]; omega) herr, hsplit]

/-- No other name refers to the node the output goes to. -/
def OnlyName (fs : FileSystem Bytes) (ofd : Nat) (out : Bytes) : Prop :=
  ∀ p, fs.names p = some ofd → p = out

/-- What the round of a block does to the files when nothing fails: its bytes are behind the output's. -/
theorem mergeOne_copies {ofd : Nat} {out : Bytes} (io : MergeIo) (h : Bytes) (hout : OnlyName s.fs ofd out)
    (hf : findTask s.store f i c = some v) (he : v.base.expire = 0)
    (hone : (mergeOne io h f c ofd i s).2 = true) :
    ∃ d, s.fs.content v.base.tmpfile = some d ∧
      (mergeOne io h f c ofd i s).1.fs.node ofd = s.fs.node ofd ++ d ∧
      OnlyName (mergeOne io h f c ofd i s).1.fs ofd out ∧
      ∀ p, p ≠ out → ∀ e, (mergeOne io h f c ofd i s).1.fs.content p = some e →
        s.fs.content p = some e := by
  rcases mergeOne_cases io h f c ofd i s with ⟨hn, -⟩ | ⟨w, st, hg, hc⟩
  · rw [getTaskFromAlltask_none.mp hn] at hf
    exact absurd hf (by simp)
  · obtain rfl : w = v := Option.some.inj ((getTaskFromAlltask_some hg).1.symm.trans hf)
    rcases hc with ⟨hne, -⟩ | ⟨-, hr, -⟩ | ⟨-, d, hd, e, err, hcopy, fs, hfs, s', rfl, ⟨-, hr⟩ |
      ⟨⟨herr, hun⟩, hr⟩⟩
    · exact absurd he hne
    · rw [hr] at hone
      exact absurd hone (by simp)
    · rw [hr] at hone
      exact absurd hone (by simp)
    · rw [if_pos hun] at hfs
      have hfull : e = d := by
        have hdone := copyLoop_done (io.read i) (io.write i) d.length 0 d (le_refl _)
        rw [hcopy] at hdone
        exact hdone herr
      rw [hr]
      refine ⟨d, hd, ?_, fun p hp => ?_, fun p hp b hb => ?_⟩
      · show fs.node ofd = _
        rw [hfs]
        show (s.fs.pwrite ofd (s.fs.node ofd).length e).node ofd = _
        rw [FileSystem.node_pwrite_self, splice_end, hfull]
      · have hp : fs.names p = some ofd := hp
        rw [hfs] at hp
        by_cases hpt : p = w.base.tmpfile
        · rw [hpt, FileSystem.unlink] at hp
          dsimp only at hp
          rw [Function.update_self] at hp
          exact absurd hp (by simp)
        · rw [FileSystem.names_unlink_ne _ hpt] at hp
          exact hout p hp
      · have hb : fs.content p = some b := hb
        rw [hfs] at hb
        by_cases hpt : p = w.base.tmpfile
        · rw [hpt, FileSystem.content_unlink_self] at hb
          exact absurd hb (by simp)
        · rw [FileSystem.content_unlink_ne _ hpt, FileSystem.content_pwrite_ne] at hb
          · exact hb
          · exact fun hn => hp (hout p hn)

/-! ## The loop -/

/-- A merge loop that finds all its records and has no error: its history in order. -/
theorem mergeLoop_since {ofd : Nat} (record : Int → Tasklist) : ∀ (l : List Int) (s : Sm) (loc : Nat → Loc),
    Placed s.store loc → l.Nodup → (∀ i ∈ l, findTask s.store f i c = some (record i)) →
    (∀ p, .ioErr p ∉ s.since (mergeLoop io h f c ofd l s)) →
    s.since (mergeLoop io h f c ofd l s) = l.map fun i => mergeEvent h f (record i) := by
  intro l
  induction l with
  | nil => exact fun s _ _ _ _ _ => since_self rfl
  | cons i l ih =>
    intro s loc hp hnd hfind hio
    obtain ⟨hi, hnd⟩ := List.nodup_cons.mp hnd
    obtain ⟨s1, -, hloop, ⟨loc', hp'⟩, hio', hsince, -, hother⟩ :=
      mergeLoop_first hp hi (hfind i (by simp)) hio
    rw [hloop, hsince, List.map_cons]
    rw [ih s1 loc' hp' hnd (fun j hj => by rw [hother j hj]; exact hfind j (by simp [hj])) hio']

/-- A merge loop that finds all its records, none of them expired, and has no error: the files of the
blocks are in the output, one behind the other. -/
theorem mergeLoop_copies {ofd : Nat} {out : Bytes} (record : Int → Tasklist) :
    ∀ (l : List Int) (s : Sm) (loc : Nat → Loc), Placed s.store loc → l.Nodup → OnlyName s.fs ofd out →
    (∀ i ∈ l, findTask s.store f i c = some (record i) ∧ (record i).base.expire = 0) →
    (∀ p, .ioErr p ∉ s.since (mergeLoop io h f c ofd l s)) →
    ∃ bytes : Int → Bytes,
      (∀ i ∈ l, (record i).base.tmpfile ≠ out →
        s.fs.content (record i).base.tmpfile = some (bytes i)) ∧
      (mergeLoop io h f c ofd l s).fs.node ofd = s.fs.node ofd ++ l.flatMap bytes := by
  intro l
  induction l with
  | nil =>
    intro s loc _ _ _ _ _
    exact ⟨fun _ => [], by simp, by simp [mergeLoop]⟩
  | cons i l ih =>
    intro s loc hp hnd hout hfind hio
    obtain ⟨hi, hnd⟩ := List.nodup_cons.mp hnd
    obtain ⟨hf, he⟩ := hfind i (by simp)
    obtain ⟨s1, hone, hloop, ⟨loc', hp'⟩, hio', -, -, hother⟩ := mergeLoop_first hp hi hf hio
    have hcopies := mergeOne_copies io h hout hf he (by rw [hone])
    rw [hone] at hcopies
    obtain ⟨d, hd, hnode, hout1, hkept⟩ := hcopies
    obtain ⟨bytes, hbytes, hloop1⟩ := ih s1 loc' hp' hnd hout1 (fun j hj => by
      rw [hother j hj]
      exact hfind j (by simp [hj])) hio'
    have hne : ∀ j ∈ l, j ≠ i := fun j hj he => hi (he ▸ hj)
    have hrest : l.flatMap (Function.update bytes i d) = l.flatMap bytes :=
      List.flatMap_congr fun j hj => Function.update_of_ne (hne j hj) ..
    refine ⟨Function.update bytes i d, fun j hj htmp => ?_, ?_⟩
    · rcases List.mem_cons.mp hj with rfl | hj
      · rw [Function.update_self]
        exact hd
      · rw [Function.update_of_ne (hne j hj)]
        exact hkept _ htmp _ (hbytes j hj htmp)
    · rw [hloop, hloop1, hnode, List.flatMap_cons, Function.update_self, hrest, List.append_assoc]

/-! ## The merge of a complete file -/

/-- **The check and the merge.** When every block of a file has a record that is not expired, the merge
that follows, if no operation on a file fails, concatenates one such record for each index exactly if
the records that are first under their keys are not expired. -/
theorem merge_every_block_iff (hp : WellPlaced s.store) (hall : checkTaskAllsubIsok s.store f c = true)
    (hio : ∀ p, .ioErr p ∉ s.since (doMergeFile cfg io h srcip f c filemd5 s)) :
    MergesEveryBlock cfg h f c s (doMergeFile cfg io h srcip f c filemd5 s) ↔
      FirstsUnexpired f c s.store := by
  obtain ⟨loc, hp⟩ := hp
  have hfind := findTask_of_allsub hp hall
  by_cases ho : io.openOut = true
  · obtain ⟨ofd, m, text, hofd, hstore, hfs, he, hsince⟩ := doMergeFile_since cfg h srcip f c filemd5 ho s
    have hpm : Placed m.store loc := by rwa [hstore]
    generalize hrec : (fun i => (findTask s.store f i c).getD (.fresh 0)) = record
    have hrecord : ∀ i ∈ idxs c, findTask m.store f i c = some (record i) := by
      intro i hi
      obtain ⟨v, hv⟩ := hfind i hi
      rw [hstore, ← hrec]
      dsimp only
      rw [hv]
      rfl
    have hiom : ∀ p, .ioErr p ∉ m.since (mergeLoop io h f c ofd (idxs c) m) := fun p hmem =>
      hio p (by rw [hsince]; simp [hmem])
    have horder := mergeLoop_since record (idxs c) m loc hpm (nodup_idxs c) hrecord hiom
    rw [horder] at hsince
    constructor
    · rintro ⟨record', bytes, report, hrec', hsince', -⟩ i hi v hv
      -- both describe the history of the merge
      rw [hsince, List.cons_append] at hsince'
      have hmaps := (List.append_inj (List.cons.inj hsince').2 (by simp)).1
      have hi' := List.map_inj_left.mp hmaps i hi
      have hv' : record i = v := by
        have := hrecord i hi
        rw [hstore, hv] at this
        exact (Option.some.inj this).symm
      rw [mergeEvent, hv'] at hi'
      split at hi'
      · next hexp => exact hexp
      · exact absurd hi' (by simp)
    · intro hfirst
      have hunexp : ∀ i ∈ idxs c, findTask m.store f i c = some (record i) ∧ (record i).base.expire = 0 :=
        fun i hi => ⟨hrecord i hi, hfirst i hi _ (by rw [← hstore]; exact hrecord i hi)⟩
      have hout : OnlyName m.fs ofd (getLocaldir cfg h f) := by
        intro p hn
        rw [hfs, hofd] at hn
        by_contra hne
        exact FileSystem.names_creat_other _ hne hn
      obtain ⟨bytes, hbytes, hnode⟩ :=
        mergeLoop_copies record (idxs c) m loc hpm (nodup_idxs c) hout hunexp hiom
      refine ⟨record, bytes, .report srcip text io.connect, fun i hi => ?_, ?_, ?_⟩
      · obtain ⟨hf, hexp⟩ := hunexp i hi
        rw [hstore] at hf
        refine ⟨⟨_, (findTask_some hf).1⟩, (findTask_some hf).2, hexp, fun hne => ?_⟩
        rw [← hbytes i hi hne, hfs, FileSystem.content_creat_ne _ hne]
      · rw [hsince, List.cons_append]
        congr 2
        exact List.map_congr_left fun i hi => if_pos (hunexp i hi).2
      · rw [he, ← hofd]
        show (mergeLoop io h f c ofd (idxs c) m).fs.node ofd = _
        rw [hnode, hfs, hofd, FileSystem.node_creat, List.nil_append]
  · refine absurd ?_ (hio (getLocaldir cfg h f))
    unfold doMergeFile
    rw [if_neg ho, since_of_log (l := [.ioErr (getLocaldir cfg h f)]) rfl]
    simp

/-- The merge of a file with one block. -/
theorem merge_every_block_one : MergesEveryBlock .sample (txt "h") (txt "f") 1 oneBlock
    (doMergeFile .sample .ok (txt "h") [] (txt "f") 1 [] oneBlock) := by
  refine (merge_every_block_iff oneBlock_placed (by decide +kernel)
    (not_ioErr_of_all (by decide +kernel))).mpr ?_
  show ∀ idx ∈ idxs 1, ∀ t ∈ findTask oneBlock.store (txt "f") idx 1, t.base.expire = 0
  decide +kernel

/-- The position in a history is a block that has been left out. -/
def SkipsAt (log : List Event) (k : Nat) : Bool := log[k]?.any fun | .skip .. => true | _ => false

/-- A merge that leaves its first block out has not concatenated every block. -/
theorem not_mergesEveryBlock {s' : Sm} (hc : 0 < c) (hskip : SkipsAt (s.since s') 1 = true) :
    ¬ MergesEveryBlock cfg h f c s s' := by
  rintro ⟨record, bytes, report, -, hsince, -⟩
  obtain ⟨n, hn⟩ : ∃ n, c.toNat = n + 1 := ⟨c.toNat - 1, by omega⟩
  rw [hsince, idxs, hn, List.range_succ_eq_map] at hskip
  exact absurd hskip (by simp [SkipsAt])

/-- A failed file operation. -/
def Event.isIoErr : Event → Bool
  | .ioErr _ => true
  | _ => false

theorem not_ioErr_of_any {l : List Event} (h : l.any Event.isIoErr = false) : ∀ p, .ioErr p ∉ l := by
  intro p hp
  exact absurd (List.any_eq_false.mp h _ hp) (by simp [Event.isIoErr])

/-- One host uploads its first block of two twice, then another host uploads the second block of a file of
the same name: asking for its first block marks the newer record of the other host's. The check finds
the older one, the merge takes the newer one and leaves it out. -/
theorem check_passes_merge_skips :
    let as := SmAct.post 3 (txt "a") (txt "f") 1 2 1 [1] ++ SmAct.post 4 (txt "a") (txt "f") 1 2 1 [1] ++
      [.finBegin, .finIter .ok, .finIter .ok, .finIter .ok] ++ SmAct.post 5 (txt "b") (txt "f") 2 2 1 [2]
    let s := run (smStep .sample) (Sm.init 8) as
    (s.store.vfstask .fin).length = 1 ∧ ∀ t ∈ s.store.vfstask .fin,
      let m := beforeMerge .sample t.taken s.popFin
      let m' := doMergeFile .sample .ok (txt "b") [] (txt "f") 2 [] m
      checkTaskAllsubIsok m.store (txt "f") 2 = true ∧ (∀ p, .ioErr p ∉ m.since m') ∧
        ¬ MergesEveryBlock .sample (txt "b") (txt "f") 2 m m' := by
  intro as s
  have hrun : (s.store.vfstask .fin).length = 1 ∧ ∀ t ∈ s.store.vfstask .fin,
      let m := beforeMerge .sample t.taken s.popFin
      let m' := doMergeFile .sample .ok (txt "b") [] (txt "f") 2 [] m
      checkTaskAllsubIsok m.store (txt "f") 2 = true ∧
        (m.since m').any Event.isIoErr = false ∧ SkipsAt (m.since m') 1 = true := by
    decide +kernel
  refine ⟨hrun.1, fun t ht => ?_⟩
  obtain ⟨hall, hio, hskip⟩ := hrun.2 t ht
  exact ⟨hall, not_ioErr_of_any hio, not_mergesEveryBlock (by simp) hskip⟩

end VfsOss
