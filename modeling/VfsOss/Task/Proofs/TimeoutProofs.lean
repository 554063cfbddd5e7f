import VfsOss.Task.Timeout
import VfsOss.Task.Proofs.PlacementProofs

/-!
# Proofs: timeouts

What `do_timeout_task` leaves in the queues: the records whose `stime` is not too long ago, in their
order.
-/

namespace VfsOss

open CLib

variable {s s' : TaskStore} {loc loc' : Nat → Loc} {t u : Tasklist} {st : TaskStatus}
variable {taskTimeout cur : Int} {taken : Nat → Int}

/-- A record that stays: its `stime` is not more than `taskTimeout` seconds ago. -/
def InTime (taskTimeout cur : Int) (t : Tasklist) : Prop := cur - t.base.stime ≤ taskTimeout

instance (taskTimeout cur : Int) : DecidablePred (InTime taskTimeout cur) :=
  fun _ => inferInstanceAs (Decidable (_ ≤ _))

/-- Two records of a queue with one address are one record. -/
theorem Placed.eq_of_queue (h : Placed s loc) (ht : t ∈ s.vfstask st) (hu : u ∈ s.vfstask st)
    (he : t.addr = u.addr) : t = u :=
  List.inj_on_of_nodup_map (h.nodupQueue st) ht hu he

/-- Placement does not look at the counters. -/
theorem Placed.congr (h : Placed s loc) (hq : s'.vfstask = s.vfstask) (ha : s'.alltask = s.alltask)
    (hn : s'.next = s.next) : Placed s' loc := by
  constructor
  · rw [hq]
    exact h.queue
  · rw [ha]
    exact h.chain
  · rw [hq]
    exact h.nodupQueue
  · rw [ha]
    exact h.nodupChain
  · rw [hn]
    exact h.unborn
  · rw [ha]
    exact h.hash

/-- A record of a queue that is recycled leaves this queue, enters `TASK_HOME` and nothing else happens. -/
structure Recycled (s s' : TaskStore) (loc : Nat → Loc) (st : TaskStatus) (t : Tasklist) : Prop where
  placed : Placed s' (Function.update loc t.addr (.queue .home))
  queue : s'.vfstask st = (s.vfstask st).filter fun u => u.addr ≠ t.addr
  others : ∀ st', st' ≠ st → st' ≠ .home → s'.vfstask st' = s.vfstask st'

/-- What recycling comes to for a record that is in no chain. -/
theorem checkTaskTimeout_eq (hold : ¬ InTime taskTimeout cur t)
    (hchain : ∀ b, ∀ u ∈ s.alltask b, u.addr ≠ t.addr) :
    (checkTaskTimeout taskTimeout cur s t).vfstask = (vfsSetTask s t.zeroed .home).vfstask ∧
      (checkTaskTimeout taskTimeout cur s t).alltask = s.alltask ∧
      (checkTaskTimeout taskTimeout cur s t).next = s.next := by
  have hlt : cur - t.base.stime > taskTimeout := by
    rw [InTime] at hold
    omega
  -- the queues are filtered twice
  have htwice : ∀ q, ((s.vfstask q).filter fun u => u.addr ≠ t.addr).filter
      (fun u => u.addr ≠ t.zeroed.addr) = (s.vfstask q).filter fun u => u.addr ≠ t.zeroed.addr := by
    intro q
    rw [List.filter_filter]
    apply List.filter_congr
    intro u _
    exact Bool.and_self _
  rw [checkTaskTimeout, if_pos hlt, vfsSetTask, vfsSetTask, if_neg (by simp), if_neg (by simp)]
  refine ⟨?_, ?_, rfl⟩
  · simp only [unlinkTask, htwice]
  · funext b
    apply List.filter_eq_self.mpr
    intro u hu
    rw [decide_eq_true_eq]
    exact hchain b u hu

theorem checkTaskTimeout_inTime (hin : InTime taskTimeout cur t) :
    checkTaskTimeout taskTimeout cur s t = s := by
  rw [checkTaskTimeout, if_neg]
  rw [InTime] at hin
  omega

theorem checkTaskTimeout_old (h : Placed s loc) (hhome : st ≠ .home) (ht : t ∈ s.vfstask st)
    (hold : ¬ InTime taskTimeout cur t) :
    Recycled s (checkTaskTimeout taskTimeout cur s t) loc st t := by
  have hloc : loc t.addr = .queue st := h.queue ht
  obtain ⟨hvfs, hall, hnext⟩ := checkTaskTimeout_eq hold
    (h.not_chained (t := t) fun b => by rw [hloc]; simp)
  have hq : ∀ st', st' ≠ .home → (checkTaskTimeout taskTimeout cur s t).vfstask st' =
      (s.vfstask st').filter fun u => u.addr ≠ t.addr := by
    intro st' hne
    rw [hvfs, vfsSetTask, if_neg (by simp)]
    dsimp only
    rw [Function.update_of_ne hne]
    rfl
  refine ⟨?_, hq st hhome, ?_⟩
  · have hset := h.set (t := t.zeroed) .home (by simp) (by simp [Tasklist.zeroed, hloc])
      (by simp [Tasklist.zeroed, hloc])
    apply hset.congr hvfs
    · rw [hall, alltask_vfsSetTask]
    · rw [hnext, vfsSetTask, if_neg (by simp)]
  · intro st' hne hne'
    rw [hq st' hne', List.filter_eq_self]
    intro u hu
    rw [decide_eq_true_eq]
    intro he
    have hu' := h.queue hu
    rw [he, hloc] at hu'
    exact hne (Loc.queue.inj hu').symm

/-- Records have only moved from queues to `TASK_HOME`. -/
def Shelved (loc loc' : Nat → Loc) : Prop :=
  ∀ a, loc' a = loc a ∨ (∃ st, loc a = .queue st) ∧ loc' a = .queue .home

theorem Shelved.refl (loc : Nat → Loc) : Shelved loc loc := fun _ => Or.inl rfl

theorem Shelved.trans {loc'' : Nat → Loc} (h : Shelved loc loc') (h' : Shelved loc' loc'') :
    Shelved loc loc'' := by
  intro a
  rcases h a with ha | ⟨hq, ha⟩
  · rcases h' a with ha' | ⟨hq', ha'⟩
    · exact Or.inl (ha'.trans ha)
    · exact Or.inr ⟨ha ▸ hq', ha'⟩
  · rcases h' a with ha' | ⟨-, ha'⟩
    · exact Or.inr ⟨hq, ha'.trans ha⟩
    · exact Or.inr ⟨hq, ha'⟩

theorem Shelved.update {a : Nat} (h : loc a = .queue st) :
    Shelved loc (Function.update loc a (.queue .home)) := by
  intro b
  by_cases hb : b = a
  · subst hb
    exact Or.inr ⟨⟨st, h⟩, Function.update_self ..⟩
  · exact Or.inl (Function.update_of_ne hb ..)

/-- What a scan leaves: the records of its queue that are in time, and those it has not been asked to look
at. -/
structure Swept (taskTimeout cur : Int) (s s' : TaskStore) (loc : Nat → Loc) (st : TaskStatus)
    (l : List Tasklist) : Prop where
  placed : ∃ loc', Placed s' loc' ∧ Shelved loc loc'
  queue : s'.vfstask st = (s.vfstask st).filter fun u => u ∉ l ∨ InTime taskTimeout cur u
  others : ∀ st', st' ≠ st → st' ≠ .home → s'.vfstask st' = s.vfstask st'

/-- The loop over some records of the queue, by induction on them. -/
theorem sweep (taskTimeout cur : Int) (hhome : st ≠ .home) (l : List Tasklist) :
    ∀ (s : TaskStore) (loc : Nat → Loc), Placed s loc → (∀ t ∈ l, t ∈ s.vfstask st) → (l.map Tasklist.addr).Nodup →
    Swept taskTimeout cur s (l.foldl (checkTaskTimeout taskTimeout cur) s) loc st l := by
  induction l with
  | nil =>
    intro s loc hp _ _
    refine ⟨⟨loc, hp, Shelved.refl loc⟩, ?_, fun _ _ _ => rfl⟩
    rw [List.foldl_nil, eq_comm, List.filter_eq_self]
    simp
  | cons t l ih =>
    intro s loc hp hl hnodup
    rw [List.map_cons, List.nodup_cons] at hnodup
    have ht : t ∈ s.vfstask st := hl t List.mem_cons_self
    have hrest : ∀ u ∈ l, u ∈ s.vfstask st := fun u hu => hl u (List.mem_cons_of_mem _ hu)
    rw [List.foldl_cons]
    by_cases hin : InTime taskTimeout cur t
    · rw [checkTaskTimeout_inTime hin]
      obtain ⟨hp', hq, ho⟩ := ih s loc hp hrest hnodup.2
      refine ⟨hp', ?_, ho⟩
      rw [hq]
      apply List.filter_congr
      intro u hu
      rw [decide_eq_decide, List.mem_cons]
      by_cases hut : u = t
      · subst hut
        simp [hin]
      · simp [hut]
    · have hrec := checkTaskTimeout_old hp hhome ht hin
      have hne : ∀ u ∈ l, u.addr ≠ t.addr := by
        intro u hu he
        exact hnodup.1 (he ▸ List.mem_map_of_mem hu)
      have hleft : ∀ u ∈ l, u ∈ (checkTaskTimeout taskTimeout cur s t).vfstask st := by
        intro u hu
        rw [hrec.queue, List.mem_filter, decide_eq_true_eq]
        exact ⟨hrest u hu, hne u hu⟩
      obtain ⟨⟨loc', hp', hs'⟩, hq, ho⟩ := ih _ _ hrec.placed hleft hnodup.2
      refine ⟨⟨loc', hp', (Shelved.update (hp.queue ht)).trans hs'⟩, ?_,
        fun st' h1 h2 => (ho st' h1 h2).trans (hrec.others st' h1 h2)⟩
      rw [hq, hrec.queue, List.filter_filter]
      apply List.filter_congr
      intro u hu
      rw [← Bool.decide_and, decide_eq_decide, List.mem_cons]
      by_cases hut : u = t
      · subst hut
        simp [hin]
      · have hadr : u.addr ≠ t.addr := fun he => hut (hp.eq_of_queue hu ht he)
        simp [hut, hadr]

/-- A scan keeps the records of its queue that are in time, and touches no other queue but `TASK_HOME`. -/
theorem scanSomeStatusTask_timeout (taskTimeout cur : Int) (h : Placed s loc) (hst : st ≠ .unknown)
    (hhome : st ≠ .home) :
    let s' := scanSomeStatusTask s st (checkTaskTimeout taskTimeout cur)
    (∃ loc', Placed s' loc' ∧ Shelved loc loc') ∧
      s'.vfstask st = (s.vfstask st).filter (InTime taskTimeout cur) ∧
      ∀ st', st' ≠ st → st' ≠ .home → s'.vfstask st' = s.vfstask st' := by
  rw [scanSomeStatusTask, if_neg hst]
  obtain ⟨hp', hq, ho⟩ := sweep taskTimeout cur hhome (s.vfstask st) s loc h
    (fun _ ht => ht) (h.nodupQueue st)
  refine ⟨hp', ?_, ho⟩
  rw [hq]
  apply List.filter_congr
  intro u hu
  simp [hu]

/-- The scans of some queues, one after the other. -/
theorem scans_timeout (taskTimeout cur : Int) (l : List TaskStatus)
    (hl : ∀ st ∈ l, st ≠ .unknown ∧ st ≠ .home) (hnodup : l.Nodup) : ∀ (s : TaskStore) (loc : Nat → Loc), Placed s loc →
    let s' := l.foldl (fun s st => scanSomeStatusTask s st (checkTaskTimeout taskTimeout cur)) s
    (∃ loc', Placed s' loc' ∧ Shelved loc loc') ∧
      (∀ st ∈ l, s'.vfstask st = (s.vfstask st).filter (InTime taskTimeout cur)) ∧
      ∀ st, st ∉ l → st ≠ .home → s'.vfstask st = s.vfstask st := by
  induction l with
  | nil => exact fun s loc h => ⟨⟨loc, h, Shelved.refl loc⟩, by simp, fun _ _ _ => rfl⟩
  | cons st l ih =>
    intro s loc h
    rw [List.nodup_cons] at hnodup
    obtain ⟨hst, hhome⟩ := hl st List.mem_cons_self
    obtain ⟨⟨loc1, h1, hs1⟩, hq1, ho1⟩ :=
      scanSomeStatusTask_timeout taskTimeout cur h hst hhome
    obtain ⟨⟨loc2, h2, hs2⟩, hq2, ho2⟩ :=
      ih (fun st' hst' => hl st' (List.mem_cons_of_mem _ hst')) hnodup.2 _ loc1 h1
    refine ⟨⟨loc2, h2, hs1.trans hs2⟩, ?_, ?_⟩
    · intro st' hst'
      rw [List.foldl_cons]
      rcases List.mem_cons.mp hst' with rfl | hmem
      · rw [ho2 st' hnodup.1 hhome, hq1]
      · have hne : st' ≠ st := fun he => hnodup.1 (he ▸ hmem)
        rw [hq2 st' hmem, ho1 st' hne (hl st' hst').2]
    · intro st' hst' hhome'
      rw [List.mem_cons, not_or] at hst'
      rw [List.foldl_cons, ho2 st' hst'.2 hhome', ho1 st' hst'.1 hhome']

theorem ne_of_mem_timeoutStatuses (h : st ∈ timeoutStatuses) : st ≠ .unknown ∧ st ≠ .home := by
  constructor
  · rintro rfl
    simp [timeoutStatuses] at h
  · rintro rfl
    simp [timeoutStatuses] at h

/-- **`do_timeout_task`** leaves in each queue before `TASK_CLEAN` the records that are in time, in their
order. -/
theorem doTimeoutTask_spec (taskTimeout cur : Int) (h : Placed s loc) :
    let s' := doTimeoutTask taskTimeout cur s
    (∃ loc', Placed s' loc' ∧ Shelved loc loc') ∧
      (∀ st ∈ timeoutStatuses, s'.vfstask st = (s.vfstask st).filter (InTime taskTimeout cur)) ∧
      ∀ st, st ∉ timeoutStatuses → st ≠ .home → s'.vfstask st = s.vfstask st :=
  scans_timeout taskTimeout cur timeoutStatuses (fun _ => ne_of_mem_timeoutStatuses) (by decide) s loc h

/-- **When only old records time out**: when every record with an `stime` too long ago is old. -/
theorem onlyOld_iff (h : Placed s loc) :
    OnlyOld taskTimeout cur taken s (doTimeoutTask taskTimeout cur s) ↔
      ∀ st ∈ timeoutStatuses, ∀ t ∈ s.vfstask st, taskTimeout < cur - t.base.stime →
        taskTimeout < cur - taken t.addr := by
  obtain ⟨-, hq, -⟩ := doTimeoutTask_spec taskTimeout cur h
  constructor
  · intro hold st hst t ht hlt
    have hgone : t ∉ (doTimeoutTask taskTimeout cur s).vfstask st := by
      rw [hq st hst, List.mem_filter, decide_eq_true_eq, InTime]
      omega
    have hnot := (hold st hst).1 t ht hgone
    rw [Young] at hnot
    omega
  · intro hcond st hst
    rw [hq st hst]
    constructor
    · intro t ht hgone hyoung
      rw [List.mem_filter, decide_eq_true_eq, InTime] at hgone
      rw [Young] at hyoung
      have := hcond st hst t ht
      have : ¬ (cur - t.base.stime ≤ taskTimeout) := fun hin => hgone ⟨ht, hin⟩
      omega
    · rw [List.filter_filter]
      apply List.filter_congr
      intro t ht
      rw [← Bool.decide_and, decide_eq_decide, Young, InTime]
      have := hcond st hst t ht
      omega

/-! ## Stamps -/

/-- `do_timeout_task` looks at a record at the address `a` with the `stime` `n`. -/
def Stamp (s : TaskStore) (a : Nat) (n : Int) : Prop :=
  ∃ q ∈ timeoutStatuses, ∃ t ∈ s.vfstask q, t.addr = a ∧ t.base.stime = n

variable {m : Nat → Bool} {q q' : TaskStatus} {a : Nat} {n : Int}

theorem Stamp.of_vfstask (hs : s'.vfstask = s.vfstask) (h : Stamp s' a n) : Stamp s a n := by
  unfold Stamp at h ⊢
  rwa [hs] at h

/-- Taking a record adds no stamp. -/
theorem Stamp.of_get (h : Stamp (vfsGetTask m s q).2 a n) : Stamp s a n := by
  rcases hg : vfsGetTask m s q with ⟨r, s'⟩
  rw [hg] at h
  cases r with
  | ok t =>
    rcases vfsGetTask_ok hg with ⟨u, rest, hq, -, hs', -⟩ | ⟨-, -, -, hs', -⟩
    · obtain ⟨st, hst, v, hv, ha, hv'⟩ := h
      refine ⟨st, hst, v, ?_, ha, hv'⟩
      rw [hs'] at hv
      by_cases hne : st = q
      · subst hne
        rw [Function.update_self] at hv
        rw [hq]
        exact List.mem_cons_of_mem _ hv
      · rwa [Function.update_of_ne hne] at hv
    · exact h.of_vfstask hs'
  | err =>
    have hnot : _ ∧ s.next ≤ (vfsGetTask m s q).2.next :=
      vfsGetTask_not_ok (by rw [hg]; simp)
    rw [hg] at hnot
    exact h.of_vfstask hnot.1
  | nothing =>
    have hnot : _ ∧ s.next ≤ (vfsGetTask m s q).2.next :=
      vfsGetTask_not_ok (by rw [hg]; simp)
    rw [hg] at hnot
    exact h.of_vfstask hnot.1

/-- Putting a record into a queue adds at most its own stamp. -/
theorem Stamp.of_set (h : Stamp (vfsSetTask s t q) a n) :
    Stamp s a n ∨ (q ∈ timeoutStatuses ∧ t.addr = a ∧ t.base.stime = n) := by
  obtain ⟨st, hst, v, hv, ha, hv'⟩ := h
  rcases mem_vfsSetTask hv with ⟨hv, -⟩ | ⟨rfl, -, rfl⟩
  · exact Or.inl ⟨st, hst, v, hv, ha, hv'⟩
  · exact Or.inr ⟨hst, ha, hv'⟩

/-- Recycling adds no stamp. -/
theorem Stamp.of_home (h : Stamp (vfsSetTask s t .home) a n) : Stamp s a n := by
  rcases h.of_set with h | ⟨hst, -⟩
  · exact h
  · exact absurd rfl (ne_of_mem_timeoutStatuses hst).2

/-- Putting a record without an `stime` into a queue adds no other stamp than 0. -/
theorem Stamp.of_unstamped (hn : n ≠ 0) (ht : t.base.stime = 0) (h : Stamp (vfsSetTask s t q) a n) :
    Stamp s a n := by
  rcases h.of_set with h | ⟨-, -, hn'⟩
  · exact h
  · exact absurd (hn'.symm.trans ht) hn

/-- Moving a record from one queue to another adds no stamp. -/
theorem Stamp.of_shift (hg : vfsGetTask m s q = (.ok t, s')) (hq : q ∈ timeoutStatuses)
    (h : Stamp (vfsSetTask s' t q') a n) : Stamp s a n := by
  rcases h.of_set with h | ⟨-, ha, hn⟩
  · apply Stamp.of_get (m := m) (q := q)
    rwa [hg]
  · rcases vfsGetTask_ok hg with ⟨u, rest, hu, rfl, -⟩ | ⟨rfl, -⟩
    · refine ⟨q, hq, u, ?_, ha, hn⟩
      rw [hu]
      exact List.mem_cons_self
    · exact absurd rfl (ne_of_mem_timeoutStatuses hq).2

/-- A record in one of these queues is not the one that comes from `TASK_HOME`. -/
theorem Stamp.ne_of_get (hp : Placed s loc) (hg : vfsGetTask m s .home = (.ok t, s'))
    (h : Stamp s a n) : t.addr ≠ a := by
  rintro rfl
  obtain ⟨q, hq, u, hu, ha, -⟩ := h
  have hloc := hp.queue hu
  rw [ha] at hloc
  rcases (hp.get hg).2 with hl | ⟨-, hl⟩
  · rw [hl] at hloc
    exact (ne_of_mem_timeoutStatuses hq).2 (Loc.queue.inj hloc).symm
  · rw [hl] at hloc
    contradiction

/-- `do_timeout_task` adds no stamp. -/
theorem Stamp.of_timeout (hp : Placed s loc) (h : Stamp (doTimeoutTask taskTimeout cur s) a n) :
    Stamp s a n := by
  obtain ⟨-, hq, -⟩ := doTimeoutTask_spec taskTimeout cur hp
  obtain ⟨st, hst, t, ht, ha, ht'⟩ := h
  rw [hq st hst] at ht
  exact ⟨st, hst, t, (List.mem_filter.mp ht).1, ha, ht'⟩

end VfsOss
