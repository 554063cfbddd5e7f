import VfsOss.Task.Proofs.FifoProofs

/-!
# Proofs: runs of the task store

`init_task_info` makes the queues, and every call keeps them and the order in them.
-/

namespace VfsOss

open CLib TaskMem

variable {m m' : TaskMem} {q q' : TaskStatus → List Nat} {st : TaskStatus} {a b n k : Nat}

/-! ## The beginning -/

/-- The heads that have been initialised are empty queues. -/
theorem ring_initHeads (sts : List TaskStatus) (l : ListHeads Node)
    (h : st ∈ sts ∨ Ring l (.head st) []) :
    Ring (sts.foldl (fun l st => initListHead l (.head st)) l) (.head st) [] := by
  induction sts generalizing l with
  | nil =>
    rcases h with h | h
    · exact absurd h List.not_mem_nil
    · exact h
  | cons st' sts ih =>
    apply ih
    by_cases heq : st = st'
    · subst heq
      exact Or.inr (ring_initListHead ..)
    · rcases h with h | h
      · exact Or.inl (List.mem_of_ne_of_mem heq h)
      · right
        apply h.initListHead_other
        rw [List.mem_singleton]
        exact fun heq' => heq (Node.head.inj heq').symm

theorem mem_statuses (hst : st ≠ .unknown) : st ∈ statuses := by
  cases st with
  | unknown => contradiction
  | _ => decide

/-- The queues of a new store. The loop adds at the head. -/
def startQueues (k : Nat) (st : TaskStatus) : List Nat :=
  if st = .home then (List.range k).reverse else []

/-- The loop of `init_task_info` after `k` records. -/
structure HomeLinked (n k : Nat) (m : TaskMem) : Prop where
  ring : ∀ {st}, st ≠ .unknown → Ring m.links (.head st) (nodes (startQueues k st))
  hlist : ∀ {a}, a < k → Ring m.links (.hlist a) []
  userlist : ∀ {a}, a < k → Ring m.links (.userlist a) []
  tasks : ∀ a, m.tasks a = if a < k then { Tasklist.fresh a with status := .home } else .fresh a
  taskcount : m.taskcount = fun _ => 0
  records : m.records = List.range n
  next : m.next = n

theorem HomeLinked.status (h : HomeLinked n k m) (ha : a < k) : (m.tasks a).status = .home := by
  rw [h.tasks, if_pos ha]

theorem mem_startQueues : a ∈ startQueues k st ↔ st = .home ∧ a < k := by
  unfold startQueues
  split
  · simp [*]
  · simp [*]

theorem startQueues_succ_home : startQueues (k + 1) .home = k :: startQueues k .home := by
  show (List.range (k + 1)).reverse = k :: (List.range k).reverse
  rw [List.range_succ, List.reverse_append]
  rfl

theorem HomeLinked.linkHome (h : HomeLinked n k m) : HomeLinked n (k + 1) (m.linkHome k) := by
  have hnew : ∀ {st} {u : Node}, OfTask k u → u ∉ Node.head st :: nodes (startQueues k st) := by
    rintro st u (rfl | rfl | rfl)
    · rw [List.mem_cons, mem_nodes, mem_startQueues]
      simp
    · simp [nodes]
    · simp [nodes]
  -- what the record's own nodes become, and what they leave alone
  have hinit : ∀ {head : Node} {zs : List Node}, Ring m.links head zs →
      (∀ u, OfTask k u → u ∉ head :: zs) → Ring (m.initTask k).links head zs := ring_initTask
  have hhome := hinit (h.ring (show TaskStatus.home ≠ .unknown by simp)) fun u => hnew
  have hother : ∀ {head : Node} {zs : List Node}, Ring (m.initTask k).links head zs →
      (∀ u ∈ head :: zs, u ≠ .llist k ∧ u ∉ Node.head .home :: nodes (startQueues k .home)) →
      Ring (m.linkHome k).links head zs := fun h' hdisj => hhome.listAddHead_other h' hdisj
  have hrecord : ∀ {b : Nat} {u : Node}, u = .hlist b ∨ u = .userlist b →
      Ring (m.initTask k).links u [] → Ring (m.linkHome k).links u [] := by
    intro b u hu h'
    apply hother h'
    intro v hv
    rw [List.mem_singleton] at hv
    subst hv
    rcases hu with rfl | rfl
    · simp [nodes]
    · simp [nodes]
  have hold : ∀ {b : Nat} {u : Node}, b < k → u = .hlist b ∨ u = .userlist b → ∀ v, OfTask k v →
      v ∉ [u] := by
    rintro b u hb (rfl | rfl) v (rfl | rfl | rfl)
    all_goals simp
    all_goals omega
  constructor
  · intro st hst
    by_cases hhome' : st = .home
    · subst hhome'
      rw [startQueues_succ_home]
      exact hhome.listAddHead (hnew (Or.inl rfl))
    · have hempty : ∀ k, startQueues k st = [] := fun k => if_neg hhome'
      rw [hempty]
      have hring := h.ring hst
      rw [hempty] at hring
      apply hother (hinit hring ?_)
      · intro u hu
        rw [nodes, List.map_nil, List.mem_singleton] at hu
        subst hu
        refine ⟨by simp, ?_⟩
        rw [List.mem_cons]
        rintro (heq | hmem)
        · exact hhome' (Node.head.inj heq)
        · exact head_not_mem_nodes _ _ hmem
      · rintro u (rfl | rfl | rfl)
        all_goals simp [nodes]
  · intro b hb
    rcases Nat.lt_succ_iff_lt_or_eq.mp hb with hb | rfl
    · exact hrecord (Or.inl rfl) (hinit (h.hlist hb) (hold hb (Or.inl rfl)))
    · exact hrecord (Or.inl rfl) (ring_initTask_self (Or.inr (Or.inl rfl)))
  · intro b hb
    rcases Nat.lt_succ_iff_lt_or_eq.mp hb with hb | rfl
    · exact hrecord (Or.inr rfl) (hinit (h.userlist hb) (hold hb (Or.inr rfl)))
    · exact hrecord (Or.inr rfl) (ring_initTask_self (Or.inr (Or.inr rfl)))
  · intro b
    show Function.update m.tasks k { m.tasks k with status := .home } b = _
    by_cases hb : b = k
    · subst hb
      rw [Function.update_self, if_pos (Nat.lt_succ_self b), h.tasks, if_neg (Nat.lt_irrefl b)]
    · rw [Function.update_of_ne hb, h.tasks]
      split
      · rw [if_pos (by omega)]
      · rw [if_neg (by omega)]
  · exact h.taskcount
  · exact h.records
  · exact h.next

/-- `init_task_info` links all records. -/
theorem homeLinked_initTaskInfo (links : ListHeads Node) (n : Nat) :
    HomeLinked n n (TaskMem.initTaskInfo links n) := by
  have hrun : ∀ k, HomeLinked n k ((List.range k).foldl TaskMem.linkHome
      { links := statuses.foldl (fun l st => initListHead l (.head st)) links
        tasks := .fresh
        taskcount := fun _ => 0
        next := n
        databuff := mybuffInit
        records := List.range n }) := by
    intro k
    induction k with
    | zero =>
      constructor
      · intro st hst
        have hempty : startQueues 0 st = [] := by
          rw [startQueues]
          split
          · rfl
          · rfl
        rw [hempty]
        exact ring_initHeads _ _ (Or.inl (mem_statuses hst))
      · exact fun h => absurd h (Nat.not_lt_zero _)
      · exact fun h => absurd h (Nat.not_lt_zero _)
      · exact fun _ => (if_neg (Nat.not_lt_zero _)).symm
      · rfl
      · rfl
      · rfl
    | succ k ih =>
      rw [List.range_succ, List.foldl_append]
      exact ih.linkHome
  exact hrun n

/-- A new store is filed: all records are in `TASK_HOME`. -/
theorem HomeLinked.filed (h : HomeLinked n n m) : Filed m (startQueues n) := by
  have hmem : ∀ {a}, a ∈ m.records ↔ a < n := by
    intro a
    rw [h.records, List.mem_range]
  constructor
  · exact h.ring
  · intro st a hst ha
    exact hmem.mpr (mem_startQueues.mp ha).2
  · intro a st ha hst
    rw [mem_startQueues, h.status (hmem.mp ha)]
    constructor
    · exact fun h => h.1.symm
    · exact fun h => ⟨h.symm, hmem.mp ha⟩
  · intro a ha hunk
    rw [h.status (hmem.mp ha)] at hunk
    contradiction
  · exact fun ha => h.hlist (hmem.mp ha)
  · exact fun ha => h.userlist (hmem.mp ha)
  · intro st hst hhome
    rw [h.taskcount, startQueues, if_neg hhome]
    rfl
  · intro a ha
    rw [h.next]
    exact hmem.mp ha

/-! ## One call -/

/-- What a call makes of the queues: some records leave a queue, others enter it behind those that
stay. -/
def Grown (m : TaskMem) (q q' : TaskStatus → List Nat) : Prop :=
  ∀ st, st ≠ .unknown → ∃ kept new, q' st = kept ++ new ∧ kept.Sublist (q st) ∧
    ∀ a ∈ new, a ∉ q st ∧ a ∈ m.records

theorem Grown.refl (m : TaskMem) (q : TaskStatus → List Nat) : Grown m q q :=
  fun st _ => ⟨q st, [], by simp, List.Sublist.refl _, by simp⟩

/-- A record has left its queue. -/
theorem Grown.erase {rest : List Nat} (hq : q st = a :: rest) :
    Grown m q (Function.update q st rest) := by
  intro st' hst'
  by_cases hne : st' = st
  · subst hne
    refine ⟨rest, [], by simp, ?_, by simp⟩
    rw [hq]
    exact List.sublist_cons_self a rest
  · rw [Function.update_of_ne hne]
    exact Grown.refl m q st' hst'

/-- A record has entered a queue. -/
theorem Grown.append (ha : a ∈ m.records) (hnot : a ∉ q st) :
    Grown m q (Function.update q st (q st ++ [a])) := by
  intro st' hst'
  by_cases hne : st' = st
  · subst hne
    refine ⟨q st', [a], by simp, List.Sublist.refl _, ?_⟩
    intro b hb
    rw [List.mem_singleton] at hb
    subst hb
    exact ⟨hnot, ha⟩
  · rw [Function.update_of_ne hne]
    exact Grown.refl m q st' hst'

theorem Scanned.grown (h : Scanned st q q') (hfiled : Filed m q) (hst : st ≠ .unknown)
    (hhome : st ≠ .home) : Grown m q q' := by
  intro st' hst'
  by_cases hne : st' = st
  · subst hne
    exact ⟨q' st', [], by simp, h.scanned, by simp⟩
  by_cases hne' : st' = .home
  · subst hne'
    obtain ⟨moved, hmoved, hsub⟩ := h.home
    refine ⟨q .home, moved, hmoved, List.Sublist.refl _, fun a ha => ⟨fun hin => ?_, ?_⟩⟩
    · exact hne (hfiled.unique hst' hst hin (hsub a ha))
    · exact hfiled.isRecord hst (hsub a ha)
  · rw [h.others st' hne hne']
    exact Grown.refl m q st' hst'

/-- A record is held when it is in no queue. -/
theorem Filed.unknown_iff (h : Filed m q) (ha : a ∈ m.records) :
    (m.tasks a).status = .unknown ↔ ∀ st, st ≠ .unknown → a ∉ q st := by
  constructor
  · intro hunk st hst hmem
    rw [h.status ha hst, hunk] at hmem
    exact hst hmem.symm
  · intro hnone
    by_contra hst
    exact hnone _ hst ((h.status ha hst).mpr rfl)

/-- A scan leaves what is held held. -/
theorem Scanned.unknown_iff (h : Scanned st q q') (hfiled : Filed m q) (hfiled' : Filed m' q')
    (hst : st ≠ .unknown) (hrecords : m'.records = m.records) (ha : a ∈ m.records) :
    (m'.tasks a).status = .unknown ↔ (m.tasks a).status = .unknown := by
  have ha' : a ∈ m'.records := by rwa [hrecords]
  obtain ⟨moved, hmoved, hsub⟩ := h.home
  rw [hfiled'.unknown_iff ha', hfiled.unknown_iff ha]
  constructor
  · intro hnone st' hst' hmem
    by_cases hne : st' = st
    · subst hne
      rcases h.stays a hmem with hin | hin
      · exact hnone st' hst' hin
      · exact hnone .home (by simp) hin
    by_cases hne' : st' = .home
    · subst hne'
      apply hnone .home hst'
      rw [hmoved]
      exact List.mem_append_left _ hmem
    · apply hnone st' hst'
      rwa [h.others st' hne hne']
  · intro hnone st' hst' hmem
    by_cases hne : st' = st
    · subst hne
      exact hnone st' hst' (h.scanned.subset hmem)
    by_cases hne' : st' = .home
    · subst hne'
      rw [hmoved] at hmem
      rcases List.mem_append.mp hmem with hin | hin
      · exact hnone .home hst' hin
      · exact hnone st hst (hsub a hin)
    · apply hnone st' hst'
      rwa [← h.others st' hne hne']

/-- What holds in every state of a run. -/
structure FifoRun (s : TaskCalls) (q : TaskStatus → List Nat) : Prop where
  filed : Filed s.mem q
  held : ∀ {a}, a ∈ s.mem.records → (a ∈ s.held ↔ (s.mem.tasks a).status = .unknown)
  isRecord : ∀ {a}, a ∈ s.held → a ∈ s.mem.records
  past : ∀ a, s.entered a < s.now
  order : ∀ {st}, st ≠ .unknown → (q st).Pairwise fun a b => s.entered a ≤ s.entered b

/-- What a call does to the memory and to what is held. -/
structure Called (s : TaskCalls) (q : TaskStatus → List Nat) (m' : TaskMem) (held' : List Nat)
    (q' : TaskStatus → List Nat) : Prop where
  filed : Filed m' q'
  grown : Grown s.mem q q'
  records : ∀ {a}, a ∈ s.mem.records → a ∈ m'.records
  held : ∀ {a}, a ∈ m'.records → (a ∈ held' ↔ (m'.tasks a).status = .unknown)
  isRecord : ∀ {a}, a ∈ held' → a ∈ m'.records

variable {env : TaskEnv} {s : TaskCalls}

/-- A call that does what calls do keeps the order: who stays keeps the time of his entry, who enters
does so now. -/
theorem FifoRun.of_called (h : FifoRun s q) {held' : List Nat} (hc : Called s q m' held' q') :
    FifoRun
      { mem := m'
        held := held'
        entered := fun a => if (m'.tasks a).status = (s.mem.tasks a).status then s.entered a else s.now
        now := s.now + 1 } q' := by
  refine ⟨hc.filed, hc.held, hc.isRecord, fun a => ?_, ?_⟩
  · have := h.past a
    dsimp only
    split
    · omega
    · omega
  intro st hst
  obtain ⟨kept, new, hq', hkept, hnew⟩ := hc.grown st hst
  have hstay : ∀ a ∈ kept, (m'.tasks a).status = (s.mem.tasks a).status := by
    intro a ha
    have hold := h.filed.isRecord hst (hkept.subset ha)
    have hin : a ∈ q' st := by
      rw [hq']
      exact List.mem_append_left _ ha
    rw [(h.filed.status hold hst).mp (hkept.subset ha),
      (hc.filed.status (hc.records hold) hst).mp hin]
  have henter : ∀ a ∈ new, (m'.tasks a).status ≠ (s.mem.tasks a).status := by
    intro a ha heq
    obtain ⟨hnot, hold⟩ := hnew a ha
    have hin : a ∈ q' st := by
      rw [hq']
      exact List.mem_append_right _ ha
    rw [h.filed.status hold hst, ← heq] at hnot
    exact hnot ((hc.filed.status (hc.records hold) hst).mp hin)
  dsimp only
  rw [hq', List.pairwise_append]
  refine ⟨?_, ?_, ?_⟩
  · apply List.Pairwise.imp_of_mem _ ((h.order hst).sublist hkept)
    intro a b ha hb hle
    rwa [if_pos (hstay a ha), if_pos (hstay b hb)]
  · apply List.Pairwise.imp_of_mem _ (List.pairwise_of_forall fun _ _ => trivial)
    intro a b ha hb _
    rw [if_neg (henter a ha), if_neg (henter b hb)]
  · intro a ha b hb
    rw [if_pos (hstay a ha), if_neg (henter b hb)]
    exact Nat.le_of_lt (h.past a)

/-- A call that changes nothing that matters. -/
theorem FifoRun.called_same (h : FifoRun s q) (hfiled : Filed m' q)
    (hrecords : m'.records = s.mem.records) (htasks : ∀ b, (m'.tasks b).status = (s.mem.tasks b).status) :
    Called s q m' s.held q := by
  constructor
  · exact hfiled
  · exact Grown.refl _ _
  · exact fun ha => hrecords ▸ ha
  · intro a ha
    rw [htasks]
    exact h.held (hrecords ▸ ha)
  · exact fun ha => hrecords ▸ h.isRecord ha

theorem FifoRun.called_get (h : FifoRun s q) (st : TaskStatus) :
    ∃ m' held' q', (TaskOp.get st).exec env s = some (m', held') ∧ Called s q m' held' q' := by
  unfold TaskOp.exec
  dsimp only
  by_cases hst : st = .unknown
  · subst hst
    refine ⟨s.mem, s.held, q, ?_, h.called_same h.filed rfl fun _ => rfl⟩
    rw [TaskMem.vfsGetTask, if_pos rfl]
    rfl
  cases hq : q st with
  | cons a rest =>
    obtain ⟨hget, hfiled, hself, htouch⟩ := h.filed.vfsGetTask_cons hst hq env.mallocOk
    rw [hget]
    refine ⟨_, _, _, rfl, hfiled, Grown.erase hq, fun hb => htouch.records ▸ hb, ?_, ?_⟩
    · intro b hb
      rw [htouch.records] at hb
      rw [List.mem_cons]
      by_cases hba : b = a
      · subst hba
        exact iff_of_true (Or.inl rfl) hself
      · rw [htouch.status b hba, ← h.held hb, or_iff_right hba]
    · intro b hb
      rw [htouch.records]
      rcases List.mem_cons.mp hb with rfl | hb
      · apply h.filed.isRecord hst
        rw [hq]
        exact List.mem_cons_self
      · exact h.isRecord hb
  | nil =>
    rw [h.filed.vfsGetTask_nil hst hq]
    by_cases hhome : st = .home
    · rw [if_pos hhome]
      cases env.mallocOk s.mem.next with
      | false =>
        refine ⟨{ s.mem with next := s.mem.next + 1 }, s.held, q, rfl, ?_⟩
        exact h.called_same (h.filed.congr rfl (fun _ => rfl) rfl rfl (Nat.le_succ _)) rfl fun _ => rfl
      | true =>
        obtain ⟨hfiled, hself⟩ := h.filed.newTask
        have hkeep : ∀ {b}, b ∈ s.mem.records → (s.mem.newTask.tasks b).status = (s.mem.tasks b).status := by
          intro b hb
          show (Function.update s.mem.tasks s.mem.next _ b).status = _
          rw [Function.update_of_ne (Nat.ne_of_lt (h.filed.born hb))]
        refine ⟨s.mem.newTask, s.mem.next :: s.held, q, rfl, hfiled, Grown.refl _ _,
          fun hb => List.mem_cons_of_mem _ hb, ?_, ?_⟩
        · intro b hb
          rw [List.mem_cons]
          rcases List.mem_cons.mp hb with rfl | hb
          · exact iff_of_true (Or.inl rfl) hself
          · rw [hkeep hb, ← h.held hb, or_iff_right (Nat.ne_of_lt (h.filed.born hb))]
        · intro b hb
          rcases List.mem_cons.mp hb with rfl | hb
          · exact List.mem_cons_self
          · exact List.mem_cons_of_mem _ (h.isRecord hb)
    · rw [if_neg hhome]
      exact ⟨s.mem, s.held, q, rfl, h.called_same h.filed rfl fun _ => rfl⟩

theorem FifoRun.called_set (h : FifoRun s q) (ha : a ∈ s.held) (base : TaskBase) (sub : TaskSub)
    (st : TaskStatus) :
    ∃ m' held' q', (TaskOp.set a base sub st).exec env s = some (m', held') ∧
      Called s q m' held' q' := by
  unfold TaskOp.exec
  dsimp only
  have hrec := h.isRecord ha
  have hfill := h.filed.fillTask (a := a) base sub
  by_cases hst : st = .unknown
  · subst hst
    rw [TaskMem.vfsSetTask, if_pos rfl, if_pos rfl]
    exact ⟨_, _, q, rfl, h.called_same hfill rfl (status_fillTask base sub)⟩
  · rw [if_neg hst]
    have hunk : ((s.mem.fillTask a base sub).tasks a).status = .unknown := by
      rw [status_fillTask]
      exact (h.held hrec).mp ha
    have hnot : a ∉ q st := (h.filed.unknown_iff hrec).mp ((h.held hrec).mp ha) st hst
    have hrecords : ((s.mem.fillTask a base sub).vfsSetTask a st).records = s.mem.records :=
      records_vfsSetTask ..
    refine ⟨_, _, _, rfl, hfill.vfsSetTask hst hrec hunk, Grown.append hrec hnot, ?_, ?_, ?_⟩
    · exact fun hb => hrecords ▸ hb
    · intro b hb
      rw [hrecords] at hb
      rw [status_vfsSetTask hst, status_fillTask, List.mem_filter]
      by_cases hba : b = a
      · subst hba
        rw [if_pos rfl]
        simp [hst]
      · rw [if_neg hba, ← h.held hb]
        simp [hba]
    · exact fun hb => hrecords ▸ h.isRecord (List.mem_filter.mp hb).1

theorem FifoRun.called_scan (h : FifoRun s q) (hhome : st ≠ .home) {cb : Nat → TaskMem → TaskMem}
    (hcb : st ≠ .unknown → Recycles st cb) :
    ∃ m' q', s.mem.scanSomeStatusTask st cb = some m' ∧ Called s q m' s.held q' := by
  by_cases hst : st = .unknown
  · subst hst
    refine ⟨s.mem, q, ?_, h.called_same h.filed rfl fun _ => rfl⟩
    rw [TaskMem.scanSomeStatusTask, if_pos rfl]
  · obtain ⟨m', q', hscan, hfiled, hq', hrecords⟩ := scanSomeStatusTask_spec h.filed hst hhome (hcb hst)
    refine ⟨m', q', hscan, hfiled, hq'.grown h.filed hst hhome, fun ha => hrecords ▸ ha, ?_, ?_⟩
    · intro a ha
      rw [hrecords] at ha
      rw [h.held ha, hq'.unknown_iff h.filed hfiled hst hrecords ha]
    · exact fun ha => hrecords ▸ h.isRecord ha

/-- Every call that callers may make returns, and keeps the queues and the order in them. -/
theorem FifoRun.step {op : TaskOp} (h : FifoRun s q) (hop : Allowed s op) :
    Ends env s op ∧ ∃ q', FifoRun (taskStep env s op) q' := by
  have hcalled : ∃ m' held' q', op.exec env s = some (m', held') ∧ Called s q m' held' q' := by
    cases op with
    | get st => exact h.called_get st
    | set a base sub st => exact h.called_set hop base sub st
    | scanTimeout st cur =>
      obtain ⟨m', q', hscan, hc⟩ := h.called_scan hop
        (fun hst => checkTaskTimeout_recycles hst hop env.taskTimeout cur)
      refine ⟨m', s.held, q', ?_, hc⟩
      unfold TaskOp.exec
      dsimp only
      rw [hscan]
      rfl
    | scanData st =>
      obtain ⟨m', q', hscan, hc⟩ := h.called_scan hop
        (fun hst => getDataFromTask_recycles hst hop env.initBuffSize env.mem)
      refine ⟨m', s.held, q', ?_, hc⟩
      unfold TaskOp.exec
      dsimp only
      rw [hscan]
      rfl
  obtain ⟨m', held', q', hexec, hc⟩ := hcalled
  constructor
  · show (op.exec env s).isSome
    rw [hexec]
    rfl
  · refine ⟨q', ?_⟩
    unfold taskStep
    rw [hexec]
    exact h.of_called hc

/-! ## Runs -/

theorem FifoRun.init (links : ListHeads Node) (n : Nat) :
    FifoRun (TaskCalls.init links n) (startQueues n) := by
  have hlinked := homeLinked_initTaskInfo links n
  refine ⟨hlinked.filed, fun {a} ha => ?_, fun ha => absurd ha List.not_mem_nil,
    fun _ => Nat.zero_lt_one, ?_⟩
  · have hstatus : (((TaskCalls.init links n).mem.tasks a).status) = .home := by
      apply hlinked.status
      exact List.mem_range.mp (hlinked.records ▸ ha)
    rw [hstatus]
    exact iff_of_false List.not_mem_nil (by simp)
  · intro st _
    exact List.pairwise_of_forall fun _ _ => Nat.le_refl 0

/-- The queues of a state are queues as they should be. -/
theorem FifoRun.fifoQueues (h : FifoRun s q) : FifoQueues env s := by
  refine ⟨q, fun st hst => h.filed.ring hst, ?_, ?_, fun a ha => h.held ha, ?_, ?_, ?_⟩
  · exact fun a st st' hst hst' ha ha' => h.filed.unique hst hst' ha ha'
  · exact fun a ha st hst => h.filed.status ha hst
  · intro st hst a rest hq
    obtain ⟨hget, -⟩ := h.filed.vfsGetTask_cons hst hq env.mallocOk
    refine ⟨⟨_, hget⟩, ?_⟩
    have horder := h.order hst
    rw [hq, List.pairwise_cons] at horder
    exact horder.1
  · intro st hst hhome hq
    rw [h.filed.vfsGetTask_nil hst hq, if_neg hhome]
  · intro st hst hhome
    rw [TaskMem.getTaskCount, if_neg hst]
    exact h.filed.count hst hhome

/-- **First in, first out.** In every sequence of calls as callers may make them every call returns, and
after it the store holds queues as they should be. -/
theorem fifo_queues (env : TaskEnv) (links : ListHeads Node) (n : Nat) (ops : List TaskOp)
    (h : RunOk (taskStep env) Allowed (TaskCalls.init links n) ops) :
    RunOk (taskStep env) (Ends env) (TaskCalls.init links n) ops ∧
      FifoQueues env (run (taskStep env) (TaskCalls.init links n) ops) := by
  have hinit : ∃ q, FifoRun (TaskCalls.init links n) q := ⟨_, FifoRun.init links n⟩
  have hstep : ∀ s op, (∃ q, FifoRun s q) → Allowed s op → ∃ q, FifoRun (taskStep env s op) q := by
    rintro s op ⟨q, hq⟩ hop
    exact (hq.step hop).2
  constructor
  · apply RunOk.of_invariant (fun s => ∃ q, FifoRun s q) hstep _ hinit h
    rintro s op ⟨q, hq⟩ hop
    exact (hq.step hop).1
  · obtain ⟨q, hq⟩ := run_invariant (fun s => ∃ q, FifoRun s q) hstep hinit h
    exact hq.fifoQueues

/-- Memory that holds anything, an allocator that has none left, the configuration. -/
def fullEnv : TaskEnv := ⟨fun _ => false, fun _ => 0, 1024, 3600⟩

/-- A record on its way: from `TASK_HOME` to `TASK_WAIT`, back by a timeout, and taken again. -/
def roundTrip : List TaskOp :=
  [.get .home, .set 1 .zero .zero .wait, .scanTimeout .wait (fun _ => 5000), .get .home]

theorem fifo_queues_round :
    RunOk (taskStep fullEnv) (Ends fullEnv) (TaskCalls.init ⟨id, id⟩ 2) roundTrip ∧
      FifoQueues fullEnv (run (taskStep fullEnv) (TaskCalls.init ⟨id, id⟩ 2) roundTrip) :=
  fifo_queues fullEnv ⟨id, id⟩ 2 roundTrip (by decide)

end VfsOss
