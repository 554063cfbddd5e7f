import VfsOss.CLib.Proofs.DecimalProofs
import VfsOss.Sm.Proofs.ReassemblyRunProofs

/-!
# Proofs: reassembly in any order

Over successive passes with arrivals in between, the upload is merged exactly once, in the round that
processes the last of its blocks.
-/

namespace VfsOss

open CLib

variable {cfg : Cfg} {u : Upload} {A : List Tasklist} {K : List (Bytes × Bytes)} {s : Sm} {p : Pass}
variable {ps : List Pass}

theorem files_owned (hA : ∀ v ∈ A, BlockOf cfg u v) : Owned cfg u (u.files A) := by
  intro q hq
  obtain ⟨v, hv, rfl⟩ := List.mem_map.mp hq
  exact Or.inr ⟨v.sub.idx, (hA v hv).idx, (hA v hv).tmpfile⟩

theorem mem_among {q : List Tasklist} {t : Tasklist} :
    t ∈ u.among q ↔ t ∈ q ∧ t.base.filename = u.filename := by
  simp [Upload.among]

theorem Arrival.blocks {s p : Sm} (h : Arrival cfg u s p) :
    ∀ v ∈ u.among (p.store.vfstask .fin), BlockOf cfg u v := by
  intro v hv
  obtain ⟨hq, hf⟩ := mem_among.mp hv
  exact (h.mine v hq hf).1

theorem Arrival.sorted {s p : Sm} (h : Arrival cfg u s p)
    (hK : ∀ q ∈ u.files (u.among (p.store.vfstask .fin)), q ∈ K) :
    Sorted cfg u K (p.store.vfstask .fin) := by
  refine ⟨fun t ht hf => ⟨(h.mine t ht hf).1, hK _ ?_⟩, h.other⟩
  exact List.mem_map_of_mem (mem_among.mpr ⟨ht, hf⟩)

/-- Between two passes the blocks in the table keep their files and the new ones bring theirs. -/
theorem Holding.arrival {p : Sm} (h : Holding cfg u A (u.files A) s) (hp : Arrival cfg u s p)
    (hA : ∀ v ∈ A, BlockOf cfg u v) (hd : u.NamesDiffer cfg)
    (hdisj : ∀ v ∈ A, ∀ w ∈ u.among (p.store.vfstask .fin), v.sub.idx ≠ w.sub.idx) :
    Holding cfg u A (u.files A ++ u.files (u.among (p.store.vfstask .fin)))
      { p with once := some 0 } := by
  refine h.congr' hp.placed hp.alltask fun q hq => ?_
  rcases List.mem_append.mp hq with hq | hq
  · obtain ⟨v, hv, rfl⟩ := List.mem_map.mp hq
    have hb := hA v hv
    refine (hp.files _ (files_owned hA _ hq) fun t ht hf => ?_).trans (h.file _ hq)
    have hbt := (hp.mine t ht hf).1
    change v.base.tmpfile ≠ t.base.tmpfile
    rw [hb.tmpfile, hbt.tmpfile]
    exact fun he => hdisj v hv t (mem_among.mpr ⟨ht, hf⟩) (hd.2 _ hb.idx _ hbt.idx he)
  · obtain ⟨v, hv, rfl⟩ := List.mem_map.mp hq
    obtain ⟨hvq, hvf⟩ := mem_among.mp hv
    exact (hp.mine v hvq hvf).2

/-! ## The table after some of the waiting blocks have been processed -/

/-- The blocks in the table after those of `l` have been processed on top of `A`. -/
def table (l A : List Tasklist) : List Tasklist := (l.map Tasklist.taken).reverse ++ A

theorem table_blocks {p : Sm} (hp : Arrival cfg u s p) (hA : ∀ v ∈ A, BlockOf cfg u v)
    {l : List Tasklist} (hl : ∀ v ∈ l, v ∈ u.among (p.store.vfstask .fin)) :
    ∀ v ∈ table l A, BlockOf cfg u v ∧ (v.base.tmpfile, u.block v.sub.idx) ∈
      u.files A ++ u.files (u.among (p.store.vfstask .fin)) := by
  intro v hv
  rcases List.mem_append.mp hv with hv | hv
  · obtain ⟨w, hw, rfl⟩ := List.mem_map.mp (List.mem_reverse.mp hv)
    refine ⟨(hp.blocks w (hl w hw)).taken, List.mem_append_right _ ?_⟩
    exact List.mem_map.mpr ⟨w, hl w hw, rfl⟩
  · exact ⟨hA v hv, List.mem_append_left _ (List.mem_map_of_mem hv)⟩

theorem table_perm (l A r : List Tasklist) :
    ((table l A ++ r).map fun v => v.sub.idx).Perm ((A ++ (l ++ r)).map fun v => v.sub.idx) := by
  rw [table, ← List.append_assoc A]
  simp only [List.map_append, List.map_reverse, List.map_map]
  refine List.Perm.append_right _ (List.Perm.trans ?_ List.perm_append_comm)
  exact List.Perm.append_right _ (List.reverse_perm _)

theorem table_addr {l : List Tasklist} {v : Tasklist} (hv : v ∈ l ∨ v ∈ A) :
    ∃ w ∈ table l A, w.addr = v.addr := by
  rcases hv with hv | hv
  · exact ⟨v.taken, List.mem_append_left _ (List.mem_reverse.mpr (List.mem_map_of_mem hv)), rfl⟩
  · exact ⟨v, List.mem_append_right _ hv, rfl⟩

/-- A merged upload's records by address. -/
theorem Merged.of_addr {R R' : List Tasklist} (h : Merged cfg u R s)
    (hr : ∀ v ∈ R', ∃ w ∈ R, w.addr = v.addr) : Merged cfg u R' s := by
  refine ⟨h.output, h.unlinked, fun v hv => ?_, h.gone⟩
  obtain ⟨w, hw, ha⟩ := hr v hv
  obtain ⟨r, hm, hra⟩ := h.home w hw
  exact ⟨r, hm, hra.trans ha⟩

theorem owned_files {p : Sm} (hp : Arrival cfg u s p) (hA : ∀ v ∈ A, BlockOf cfg u v) :
    Owned cfg u (u.files A ++ u.files (u.among (p.store.vfstask .fin))) := by
  intro q hq
  rcases List.mem_append.mp hq with hq | hq
  · exact files_owned hA q hq
  · exact files_owned hp.blocks q hq

theorem owned_output : Owned cfg u [(u.outfile cfg, u.bytes)] := by
  intro q hq
  obtain rfl := List.mem_singleton.mp hq
  exact Or.inl rfl

theorem not_mine {q : List Tasklist} (h : u.among q = []) :
    ∀ t ∈ q, t.base.filename ≠ u.filename := by
  intro t ht hf
  have hm : t ∈ u.among q := mem_among.mpr ⟨ht, hf⟩
  rw [h] at hm
  exact absurd hm (by simp)

/-! ## The passes -/

/-- The merged file stays as it is while blocks of the upload no longer arrive. -/
theorem Holding.passes_done (hn : 1 ≤ u.count) :
    ∀ (ps : List Pass) (s : Sm), Holding cfg u [] [(u.outfile cfg, u.bytes)] s →
      Passes cfg u s ps → u.arrivals ps = [] →
      Holding cfg u [] [(u.outfile cfg, u.bytes)] (afterPasses cfg s ps) ∧
      u.merges (afterPasses cfg s ps).log = u.merges s.log := by
  intro ps
  induction ps with
  | nil => exact fun s h _ _ => ⟨h, rfl⟩
  | cons p ps ih =>
    rintro s h ⟨hp, hio, hrest⟩ harr
    rw [Upload.arrivals, List.flatMap_cons, List.append_eq_nil_iff] at harr
    have hK : Owned cfg u [(u.outfile cfg, u.bytes)] := owned_output
    have hnone := not_mine harr.1
    have h0 : Holding cfg u [] [(u.outfile cfg, u.bytes)] (p.after cfg ([] : List Tasklist).length) := by
      refine h.congr' hp.placed hp.alltask fun q hq => ?_
      refine (hp.files q.1 (hK q hq) fun t ht hf => absurd hf (hnone t ht)).trans (h.file q hq)
    obtain ⟨h1, hm⟩ := Holding.rounds hp.placed hp.waiting hK (mem_idxs.mpr ⟨le_refl 1, hn⟩) p.queue []
      [] [] (by simp) h0 (by simp) (by simp [Upload.files])
      ⟨fun t ht hf => absurd hf (hnone t ht), hp.other⟩ (by simp) (by rw [harr.1]; simp)
    rw [harr.1, List.map_nil, List.reverse_nil, List.nil_append, List.nil_append] at h1
    have hend := checkFinTask_short cfg p.io hp.placed hp.waiting
    have h2 : Holding cfg u [] [(u.outfile cfg, u.bytes)] (checkFinTask cfg p.io p.start) := by
      rw [hend]
      exact h1.congr h1.placed rfl h1.file
    obtain ⟨h3, hm3⟩ := ih _ h2 hrest harr.2
    refine ⟨h3, hm3.trans ?_⟩
    rw [hend, ← hp.merges]
    exact hm

/-- The upload's last block in a queue that has one. -/
theorem exists_last_among {q : List Tasklist} (h : u.among q ≠ []) :
    ∃ l₁ t l₂, q = l₁ ++ t :: l₂ ∧ t.base.filename = u.filename ∧ u.among l₂ = [] := by
  induction q with
  | nil => exact absurd rfl h
  | cons t q ih =>
    by_cases hq : u.among q = []
    · by_cases ht : t.base.filename = u.filename
      · exact ⟨[], t, q, rfl, ht, hq⟩
      · refine absurd ?_ h
        simpa [Upload.among, ht] using hq
    · obtain ⟨l₁, v, l₂, rfl, hv, hl⟩ := ih hq
      exact ⟨t :: l₁, v, l₂, rfl, hv, hl⟩

/-- The upload is merged exactly once in the passes, when its last block is processed: before that
round there is no merge of it, after the round it is merged, and it stays merged to the end. -/
structure MergedOnce (cfg : Cfg) (u : Upload) (records : List Tasklist) (s : Sm) (ps : List Pass) :
    Prop where
  last : ∃ ps₁ p ps₂ l₁ t l₂, ps = ps₁ ++ p :: ps₂ ∧ p.queue = l₁ ++ t :: l₂ ∧
    t.base.filename = u.filename ∧ u.among l₂ = [] ∧ u.arrivals ps₂ = [] ∧
    u.merges (p.after cfg l₁.length).log = u.merges s.log ∧
    Merged cfg u records (p.after cfg (l₁.length + 1)) ∧
    u.merges (p.after cfg (l₁.length + 1)).log =
      u.merges s.log ++ [.merge u.hostname u.filename u.count]
  once : u.merges (afterPasses cfg s ps).log =
    u.merges s.log ++ [.merge u.hostname u.filename u.count]
  output : (afterPasses cfg s ps).fs.content (u.outfile cfg) = some u.bytes
  gone : ∀ t, InAlltask (afterPasses cfg s ps).store t → t.base.filename ≠ u.filename

/-- The pass in which the last block of the upload is processed, and the passes after it. -/
theorem Holding.pass_last (hn : 1 ≤ u.count) (hd : u.NamesDiffer cfg)
    (h : Holding cfg u A (u.files A) s) (hrun : Passes cfg u s (p :: ps))
    (hA : ∀ v ∈ A, BlockOf cfg u v)
    (hperm : ((A ++ u.arrivals (p :: ps)).map fun v => v.sub.idx).Perm (idxs u.count))
    (hps : u.arrivals ps = []) (hq : u.among p.queue ≠ []) :
    MergedOnce cfg u (A ++ u.arrivals (p :: ps)) s (p :: ps) := by
  obtain ⟨hp, hio, hrest⟩ := hrun
  have harr : u.arrivals (p :: ps) = u.among p.queue := by
    rw [Upload.arrivals, List.flatMap_cons]
    change _ ++ u.arrivals ps = _
    rw [hps, List.append_nil]
  rw [harr] at hperm ⊢
  have hnd := hperm.nodup_iff.mpr (nodup_idxs _)
  rw [List.map_append, List.nodup_append] at hnd
  have hdisj : ∀ v ∈ A, ∀ w ∈ u.among p.queue, v.sub.idx ≠ w.sub.idx := fun v hv w hw =>
    hnd.2.2 _ (List.mem_map_of_mem hv) _ (List.mem_map_of_mem hw)
  have hK := owned_files hp hA
  have hsort := hp.sorted (K := u.files A ++ u.files (u.among p.queue))
    fun q hq => List.mem_append_right _ hq
  obtain ⟨l₁, t, l₂, hsplit, htf, hl₂⟩ := exists_last_among hq
  have hsort' : ∀ l, (∀ v ∈ l, v ∈ p.queue) →
      Sorted cfg u (u.files A ++ u.files (u.among p.queue)) l := fun l hl =>
    ⟨fun v hv => hsort.mine v (hl v hv), fun v hv => hsort.other v (hl v hv)⟩
  have hamong : u.among p.queue = u.among l₁ ++ [t] := by
    rw [hsplit, Upload.among, List.filter_append, List.filter_cons_of_pos (by simpa using htf)]
    change u.among l₁ ++ t :: u.among l₂ = _
    rw [hl₂]
  have htq : t ∈ p.queue := by rw [hsplit]; simp
  have htb := (hp.mine t htq htf).1
  have hidx : ∀ v ∈ u.among l₁, v.sub.idx ≠ t.sub.idx := by
    have := hnd.2.1
    rw [hamong, List.map_append, List.nodup_append] at this
    exact fun v hv => this.2.2 _ (List.mem_map_of_mem hv) _ (by simp)
  -- the rounds before the last block
  have h0 : Holding cfg u A _ (p.after cfg ([] : List Tasklist).length) := h.arrival hp hA hd hdisj
  obtain ⟨h1, hm1⟩ := Holding.rounds hp.placed hp.waiting hK htb.idx l₁ [] (t :: l₂) A hsplit h0 hA
    (fun q hq => List.mem_append_left _ hq) (hsort' l₁ fun v hv => by rw [hsplit]; simp [hv])
    (fun v hv => hdisj v hv t (mem_among.mpr ⟨htq, htf⟩)) hidx
  rw [List.nil_append] at h1 hm1
  have hm0 : u.merges (p.after cfg ([] : List Tasklist).length).log = u.merges s.log := hp.merges
  -- its round
  have hj : l₁.length < p.queue.length := by rw [hsplit]; simp
  have hget : p.queue[l₁.length] = t := by simp [hsplit]
  have hw := hp.waiting
  change p.queue.length ≤ 128 at hw
  have hfin : (p.after cfg l₁.length).store.vfstask .fin = p.queue.drop l₁.length :=
    (rounds_spec cfg p.io hp.placed (Nat.le_of_lt hj) (by omega)).2.2
  rw [List.drop_eq_getElem_cons hj, hget] at hfin
  obtain ⟨h2, ⟨loc, hl, hh⟩, hm2⟩ := h1.started hfin (l₁.length + 1)
  have hsucc : p.after cfg (l₁.length + 1) = finTask cfg (p.io l₁.length) p.queue[l₁.length].taken
      ({ (p.after cfg l₁.length).popFin with once := some (l₁.length + 1) }.note
        (.fin p.queue[l₁.length].taken)) := rounds_succ cfg p.io hp.placed hj (by omega)
  rw [hget] at hsucc
  have hBA := table_blocks hp hA (l := u.among l₁)
    fun v hv => by
      change v ∈ u.among p.queue
      rw [hamong]
      simp [hv]
  have hpermB : ((t.taken :: table (u.among l₁) A).map fun v => v.sub.idx).Perm (idxs u.count) := by
    refine List.Perm.trans ?_ hperm
    rw [hamong]
    refine List.Perm.trans ?_ (table_perm (u.among l₁) A [t])
    rw [List.map_append, List.map_cons]
    exact (List.perm_append_singleton t.sub.idx _).symm
  obtain ⟨hmerged, h3, hm3⟩ := h2.finTask_last (hio l₁.length) htb.taken (fun v hv => (hBA v hv).1)
    (fun q hq => by
      obtain ⟨v, hv, rfl⟩ := List.mem_map.mp hq
      rcases List.mem_cons.mp hv with rfl | hv
      · exact (hsort.mine t htq htf).2
      · exact (hBA v hv).2) hd hpermB hl hh
  rw [← hsucc] at hmerged h3 hm3
  -- the rounds after it
  have hlen : (l₁ ++ [t]).length = l₁.length + 1 := by simp
  rw [← hlen] at h3
  have hnone := not_mine hl₂
  obtain ⟨h4, hm4⟩ := Holding.rounds hp.placed hp.waiting owned_output htb.idx l₂ (l₁ ++ [t]) [] []
    (by rw [hsplit]; simp) h3 (by simp) (by simp [Upload.files])
    ⟨fun v hv hf => absurd hf (hnone v hv), fun v hv => hp.other v (by
      change v ∈ p.queue
      rw [hsplit]
      simp [hv])⟩ (by simp) (by rw [hl₂]; simp)
  rw [hl₂, List.map_nil, List.reverse_nil, List.nil_append,
    show l₁ ++ [t] ++ l₂ = p.queue by rw [hsplit]; simp] at h4
  rw [show l₁ ++ [t] ++ l₂ = p.queue by rw [hsplit]; simp, hlen] at hm4
  have hend := checkFinTask_short cfg p.io hp.placed hp.waiting
  have h5 : Holding cfg u [] [(u.outfile cfg, u.bytes)] (checkFinTask cfg p.io p.start) := by
    rw [hend]
    exact h4.congr h4.placed rfl h4.file
  obtain ⟨h6, hm6⟩ := Holding.passes_done hn ps _ h5 hrest hps
  have hmerges : u.merges (p.after cfg (l₁.length + 1)).log =
      u.merges s.log ++ [.merge u.hostname u.filename u.count] := by
    rw [hm3, hm2, hm1, hm0]
  refine ⟨⟨[], p, ps, l₁, t, l₂, rfl, hsplit, htf, hl₂, hps, hm1.trans hm0, ?_, hmerges⟩, ?_, ?_, ?_⟩
  · refine hmerged.of_addr fun v hv => ?_
    rw [hamong, ← List.append_assoc] at hv
    rcases List.mem_append.mp hv with hv | hv
    · obtain ⟨w, hw, ha⟩ := table_addr (List.mem_append.mp hv).symm
      exact ⟨w, List.mem_cons_of_mem _ hw, ha⟩
    · obtain rfl := List.mem_singleton.mp hv
      exact ⟨v.taken, List.mem_cons_self, rfl⟩
  · change u.merges (afterPasses cfg (checkFinTask cfg p.io p.start) ps).log = _
    rw [hm6, hend, ← hmerges]
    exact hm4
  · exact h6.file (u.outfile cfg, u.bytes) (by simp)
  · intro v hv hvf
    exact absurd ((h6.mem v).mp ⟨hv, hvf⟩) (by simp)

/-- The passes from a state in which the blocks `A` are in the table and others are still to come. -/
theorem Holding.passes (hn : 1 ≤ u.count) (hd : u.NamesDiffer cfg) :
    ∀ (ps : List Pass) (s : Sm) (A : List Tasklist), Holding cfg u A (u.files A) s →
      Passes cfg u s ps → (∀ v ∈ A, BlockOf cfg u v) →
      ((A ++ u.arrivals ps).map fun v => v.sub.idx).Perm (idxs u.count) → u.arrivals ps ≠ [] →
      MergedOnce cfg u (A ++ u.arrivals ps) s ps := by
  intro ps
  induction ps with
  | nil => exact fun s A _ _ _ _ hne => absurd rfl hne
  | cons p ps ih =>
    intro s A h hrun hA hperm hne
    by_cases hps : u.arrivals ps = []
    · refine Holding.pass_last hn hd h hrun hA hperm hps fun hq => hne ?_
      rw [Upload.arrivals, List.flatMap_cons, hq]
      exact hps
    · obtain ⟨hp, hio, hrest⟩ := hrun
      have harr : u.arrivals (p :: ps) = u.among p.queue ++ u.arrivals ps := rfl
      have hnd := hperm.nodup_iff.mpr (nodup_idxs _)
      rw [harr, List.map_append, List.map_append, List.nodup_append] at hnd
      have hdisj : ∀ v ∈ A, ∀ w ∈ u.among p.queue, v.sub.idx ≠ w.sub.idx := fun v hv w hw =>
        hnd.2.2 _ (List.mem_map_of_mem hv) _ (List.mem_append_left _ (List.mem_map_of_mem hw))
      -- a block that comes later keeps the upload incomplete through this pass
      obtain ⟨m, hm⟩ := List.exists_mem_of_ne_nil _ hps
      have hmi : m.sub.idx ∈ idxs u.count :=
        hperm.mem_iff.mp (List.mem_map_of_mem (by rw [harr]; simp [hm]))
      have hmA : ∀ v ∈ A, v.sub.idx ≠ m.sub.idx := fun v hv =>
        hnd.2.2 _ (List.mem_map_of_mem hv) _ (List.mem_append_right _ (List.mem_map_of_mem hm))
      have hmq : ∀ v ∈ u.among p.queue, v.sub.idx ≠ m.sub.idx := by
        have := hnd.2.1
        rw [List.nodup_append] at this
        exact fun v hv => this.2.2 _ (List.mem_map_of_mem hv) _ (List.mem_map_of_mem hm)
      have hK := owned_files hp hA
      have h0 : Holding cfg u A _ (p.after cfg ([] : List Tasklist).length) :=
        h.arrival hp hA hd hdisj
      obtain ⟨h1, hm1⟩ := Holding.rounds hp.placed hp.waiting hK hmi p.queue [] [] A (by simp) h0 hA
        (fun q hq => List.mem_append_left _ hq)
        (hp.sorted fun q hq => List.mem_append_right _ hq) hmA hmq
      rw [List.nil_append] at h1 hm1
      set B := table (u.among p.queue) A with hB
      have hBA := table_blocks hp hA fun v hv => hv
      have hend := checkFinTask_short cfg p.io hp.placed hp.waiting
      have h2 : Holding cfg u B (u.files B) (checkFinTask cfg p.io p.start) := by
        rw [hend]
        refine h1.congr' h1.placed rfl fun q hq => ?_
        obtain ⟨v, hv, rfl⟩ := List.mem_map.mp hq
        exact h1.file _ (hBA v hv).2
      have hpermB := (table_perm (u.among p.queue) A (u.arrivals ps)).trans hperm
      obtain ⟨hlast, honce, hout, hgone⟩ := ih _ B h2 hrest (fun v hv => (hBA v hv).1) hpermB hps
      have hmerges : u.merges (checkFinTask cfg p.io p.start).log = u.merges s.log := by
        rw [hend, ← hp.merges]
        exact hm1
      rw [hmerges] at hlast honce
      obtain ⟨ps₁, p', ps₂, l₁, t, l₂, rfl, hsplit, htf, hl₂, hps₂, hm2, hmg, hm3⟩ := hlast
      refine ⟨⟨p :: ps₁, p', ps₂, l₁, t, l₂, rfl, hsplit, htf, hl₂, hps₂, hm2, ?_, hm3⟩, honce, hout,
        hgone⟩
      refine hmg.of_addr fun v hv => ?_
      rw [harr, ← List.append_assoc] at hv
      rcases List.mem_append.mp hv with hv | hv
      · obtain ⟨w, hw, ha⟩ := table_addr (List.mem_append.mp hv).symm
        exact ⟨w, List.mem_append_left _ hw, ha⟩
      · exact ⟨v, List.mem_append_right _ hv, rfl⟩

/-- **Reassembly in any order.** Let the blocks of an upload whose files have different names arrive in
any order, in any number of passes and among any blocks of other files. The upload is merged exactly
once, in the round of the block that comes last. -/
theorem reassembled_in_any_order (hn : 1 ≤ u.count) (hd : u.NamesDiffer cfg)
    (hplaced : WellPlaced s.store) (hs : ∀ t, InAlltask s.store t → Foreign cfg u t)
    (hrun : Passes cfg u s ps)
    (hall : ((u.arrivals ps).map fun v => v.sub.idx).Perm (idxs u.count)) :
    MergedOnce cfg u (u.arrivals ps) s ps := by
  have h0 : Holding cfg u [] (u.files []) s := by
    refine ⟨hplaced, fun t => ?_, fun t ht _ => hs t ht, by simp [Upload.files]⟩
    constructor
    · rintro ⟨ht, hf⟩
      exact absurd hf (hs t ht).filename
    · simp
  have hne : u.arrivals ps ≠ [] := by
    intro hnil
    rw [hnil] at hall
    have h1 : (1 : Int) ∈ idxs u.count := mem_idxs.mpr ⟨le_refl 1, hn⟩
    exact absurd (hall.mem_iff.mpr h1) (by simp)
  exact Holding.passes hn hd ps s [] h0 hrun (by simp) hall hne

/-! ## When the names differ -/

/-- Names that are not cut differ. -/
theorem namesDiffer_of_length (h : ∀ i ∈ idxs u.count, (u.outfile cfg ++ txt "_" ++ fmtInt i ++ txt "_" ++
    fmtInt u.count).length ≤ 255) : u.NamesDiffer cfg := by
  have hfull : ∀ i ∈ idxs u.count, u.tmpfile cfg i =
      u.outfile cfg ++ txt "_" ++ fmtInt i ++ txt "_" ++ fmtInt u.count := by
    intro i hi
    exact List.take_of_length_le (h i hi)
  refine ⟨fun i hi he => ?_, fun i hi j hj he => ?_⟩
  · have := congrArg List.length ((hfull i hi).symm.trans he)
    simp only [List.length_append, show (txt "_").length = 1 from rfl] at this
    omega
  · rw [hfull i hi, hfull j hj] at he
    exact fmtInt_injective (List.append_cancel_left (List.append_cancel_right
      (List.append_cancel_right he)))

/-! ## Blocks that have just been received -/

theorem received_content {l : List Int} (hnd : (l.map (u.tmpfile cfg)).Nodup) :
    (∀ i ∈ l, (u.received cfg l).fs.content (u.tmpfile cfg i) = some (u.block i)) ∧
    ∀ path, path ∉ l.map (u.tmpfile cfg) → (u.received cfg l).fs.content path = none := by
  have key : ∀ (l : List Int) (fs : FileSystem Bytes), (l.map (u.tmpfile cfg)).Nodup →
      (∀ i ∈ l, (l.foldl (fun fs i => fs.save (u.tmpfile cfg i) (u.block i)) fs).content
        (u.tmpfile cfg i) = some (u.block i)) ∧
      ∀ path, path ∉ l.map (u.tmpfile cfg) →
        (l.foldl (fun fs i => fs.save (u.tmpfile cfg i) (u.block i)) fs).content path =
          fs.content path := by
    intro l
    induction l with
    | nil => exact fun fs _ => ⟨by simp, fun path _ => rfl⟩
    | cons j l ih =>
      intro fs hnd
      rw [List.map_cons, List.nodup_cons] at hnd
      obtain ⟨h1, h2⟩ := ih (fs.save (u.tmpfile cfg j) (u.block j)) hnd.2
      refine ⟨fun i hi => ?_, fun path hp => ?_⟩
      · rcases List.mem_cons.mp hi with rfl | hi
        · exact (h2 _ hnd.1).trans (fs.content_save_self _)
        · exact h1 i hi
      · rw [List.map_cons, List.mem_cons, not_or] at hp
        exact (h2 path hp.2).trans (fs.content_save_ne hp.1 _)
  obtain ⟨h1, h2⟩ := key l FileSystem.empty hnd
  exact ⟨h1, fun path hp => h2 path hp⟩

/-- Blocks that are received before the first pass arrive as `Arrival` says. -/
theorem received_arrival {l : List Int} (hnd : (l.map (u.tmpfile cfg)).Nodup)
    (hl : ∀ i ∈ l, i ∈ idxs u.count) (hlen : l.length ≤ 128) :
    Arrival cfg u (u.received cfg []) (u.received cfg l) := by
  have hrec : ∀ t ∈ (u.received cfg l).store.vfstask .fin, ∃ p ∈ l.zipIdx, t = u.record cfg p := by
    intro t ht
    obtain ⟨p, hp, rfl⟩ := List.mem_map.mp ht
    exact ⟨p, hp, rfl⟩
  obtain ⟨hc, hn⟩ := received_content hnd
  refine ⟨received_placed u cfg l, rfl, ?_, ?_, ?_, ?_, rfl⟩
  · change (l.zipIdx.map (u.record cfg)).length ≤ 128
    simpa using hlen
  · intro t ht _
    obtain ⟨⟨i, k⟩, hp, rfl⟩ := hrec t ht
    have hi : i ∈ l := List.fst_mem_of_mem_zipIdx hp
    exact ⟨⟨rfl, rfl, rfl, hl i hi, rfl, rfl, rfl⟩, hc i hi⟩
  · intro t ht hf
    obtain ⟨p, -, rfl⟩ := hrec t ht
    exact absurd rfl hf
  · intro path _ hne
    rw [hn path fun hm => ?_]
    · rfl
    · obtain ⟨i, hi, rfl⟩ := List.mem_map.mp hm
      obtain ⟨k, hk, rfl⟩ := List.getElem_of_mem hi
      have hz : (l[k], k) ∈ l.zipIdx := List.mk_mem_zipIdx_iff_getElem?.mpr (List.getElem?_eq_getElem hk)
      exact hne (u.record cfg (l[k], k)) (List.mem_map_of_mem hz) rfl rfl

/-- Two blocks, the second before the first. -/
theorem reassembled_two_blocks :
    let u := Upload.sample (txt "f") 2
    let p : Pass := ⟨u.received .sample [2, 1], fun _ => .ok⟩
    u.NamesDiffer .sample ∧ MergedOnce .sample u (u.arrivals [p]) (u.received .sample []) [p] := by
  intro u p
  have hd : u.NamesDiffer .sample := by
    refine namesDiffer_of_length ?_
    decide
  refine ⟨hd, reassembled_in_any_order (by decide) hd (received_placed _ _ []) ?_ ⟨?_, ?_, trivial⟩ ?_⟩
  · rintro t ⟨b, hb⟩
    exact absurd hb (by simp [Upload.received])
  · exact received_arrival (by decide) (by decide) (by decide)
  · exact fun _ => MergeIo.ok_succeeds
  · exact (List.Perm.swap 1 2 [] : [(2 : Int), 1].Perm [1, 2])

/-- A file whose path takes up all 255 bytes has no room for the suffix of its temporary file: the merge
empties the file it is about to read. -/
theorem merge_loses_long_name :
    let u := Upload.sample (List.replicate 243 97) 1
    let s := u.received .sample []
    let p : Pass := ⟨u.received .sample [1], fun _ => .ok⟩
    1 ≤ u.count ∧ WellPlaced s.store ∧ (∀ t, InAlltask s.store t → Foreign .sample u t) ∧
    Passes .sample u s [p] ∧ ((u.arrivals [p]).map fun v => v.sub.idx).Perm (idxs u.count) ∧
    ¬ MergedOnce .sample u (u.arrivals [p]) s [p] := by
  intro u s p
  refine ⟨by decide, received_placed _ _ [], ?_, ⟨?_, ?_, trivial⟩, ?_, fun h => ?_⟩
  · rintro t ⟨b, hb⟩
    exact absurd hb (by simp [s, Upload.received])
  · exact received_arrival (by simp) (by decide) (by decide)
  · exact fun _ => MergeIo.ok_succeeds
  · decide +kernel
  · have hout : (afterPasses .sample s [p]).fs.content (u.outfile .sample) = none := by
      decide +kernel
    rw [h.output] at hout
    exact absurd hout (by simp)

end VfsOss
