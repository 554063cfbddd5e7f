import Mathlib.Data.List.Perm.Subperm
import VfsOss.CLib.Proofs.ListHeadProofs
import VfsOss.Task.Fifo

/-!
# Proofs: first in, first out

The queues, read off the pointers, and what each function makes of them.
-/

namespace VfsOss

open CLib TaskMem

variable {m m' : TaskMem} {q q' : TaskStatus → List Nat} {st : TaskStatus} {a b : Nat}

/-! ## The invariant -/

/-- The records of a queue, as nodes. -/
def nodes (q : List Nat) : List Node := q.map .llist

/-- The memory holds the queues `q`. -/
structure Filed (m : TaskMem) (q : TaskStatus → List Nat) : Prop where
  ring : ∀ {st}, st ≠ .unknown → Ring m.links (.head st) (nodes (q st))
  isRecord : ∀ {st a}, st ≠ .unknown → a ∈ q st → a ∈ m.records
  status : ∀ {a st}, a ∈ m.records → st ≠ .unknown → (a ∈ q st ↔ (m.tasks a).status = st)
  loose : ∀ {a}, a ∈ m.records → (m.tasks a).status = .unknown → Ring m.links (.llist a) []
  hlist : ∀ {a}, a ∈ m.records → Ring m.links (.hlist a) []
  userlist : ∀ {a}, a ∈ m.records → Ring m.links (.userlist a) []
  count : ∀ {st}, st ≠ .unknown → st ≠ .home → m.taskcount st = (q st).length
  born : ∀ {a}, a ∈ m.records → a < m.next

theorem mem_nodes {l : List Nat} : Node.llist a ∈ nodes l ↔ a ∈ l := by
  simp [nodes]

theorem head_not_mem_nodes (st : TaskStatus) (l : List Nat) : Node.head st ∉ nodes l := by
  simp [nodes]

/-- A record is in one queue. -/
theorem Filed.unique (h : Filed m q) {st' : TaskStatus} (hst : st ≠ .unknown) (hst' : st' ≠ .unknown)
    (ha : a ∈ q st) (ha' : a ∈ q st') : st = st' := by
  have hr := h.isRecord hst ha
  exact ((h.status hr hst).mp ha).symm.trans ((h.status hr hst').mp ha')

theorem Filed.nodup (h : Filed m q) (hst : st ≠ .unknown) : (q st).Nodup :=
  (List.nodup_cons.mp (h.ring hst).nodup).2.of_map _

/-- Two queues have no node in common. -/
theorem Filed.disjoint (h : Filed m q) {st' : TaskStatus} (hst : st ≠ .unknown) (hst' : st' ≠ .unknown)
    (hne : st' ≠ st) : ∀ u ∈ Node.head st' :: nodes (q st'), u ∉ Node.head st :: nodes (q st) := by
  intro u hu hmem
  rcases List.mem_cons.mp hu with rfl | hu
  · rcases List.mem_cons.mp hmem with heq | hmem
    · exact hne (Node.head.inj heq)
    · exact head_not_mem_nodes st' _ hmem
  · obtain ⟨c, hc, rfl⟩ := List.mem_map.mp hu
    rcases List.mem_cons.mp hmem with heq | hmem
    · contradiction
    · exact hne (h.unique hst' hst hc (mem_nodes.mp hmem))

/-! ## Taking a record out of its queue -/

/-- What a function leaves alone that changes the status of one record. -/
structure Touches (a : Nat) (m m' : TaskMem) : Prop where
  status : ∀ b, b ≠ a → (m'.tasks b).status = (m.tasks b).status
  records : m'.records = m.records
  next : m'.next = m.next

/-- A record's node among those of its queue. -/
theorem Filed.split (h : Filed m q) (hst : st ≠ .unknown) (ha : a ∈ q st) :
    ∃ pre post, (q st).erase a = pre ++ post ∧ nodes (q st) = nodes pre ++ .llist a :: nodes post := by
  obtain ⟨pre, post, hq⟩ := List.append_of_mem ha
  refine ⟨pre, post, ?_, by rw [nodes, hq, List.map_append]; rfl⟩
  have hnodup := h.nodup hst
  rw [hq] at hnodup ⊢
  have hpre : a ∉ pre := by
    simp only [List.nodup_append, List.mem_cons] at hnodup
    grind
  rw [List.erase_append_right _ hpre, List.erase_cons_head]

/-- Deleting a record's node leaves the lists alone that have no node of its queue. -/
theorem Filed.del_other (h : Filed m q) (hst : st ≠ .unknown) (ha : a ∈ q st) {head : Node}
    {zs : List Node} (h' : Ring m.links head zs)
    (hdisj : ∀ u ∈ head :: zs, u ∉ Node.head st :: nodes (q st)) :
    Ring (listDelInit m.links (.llist a)) head zs := by
  obtain ⟨pre, post, -, hnodes⟩ := h.split hst ha
  have hring := h.ring hst
  rw [hnodes] at hdisj hring
  exact hring.listDelInit_other h' hdisj

/-- The other two nodes of a record are in no list. -/
theorem Filed.del_record (h : Filed m q) (hst : st ≠ .unknown) (ha : a ∈ q st) {u : Node}
    (hu : u = .hlist b ∨ u = .userlist b) (h' : Ring m.links u []) :
    Ring (listDelInit m.links (.llist a)) u [] := by
  apply h.del_other hst ha h'
  intro v hv
  rw [List.mem_singleton] at hv
  subst hv
  rcases hu with rfl | rfl
  · simp [nodes]
  · simp [nodes]

/-- A record is taken out of its queue: its node is deleted, its counter goes down, its status becomes
`TASK_UNKNOWN`. -/
theorem Filed.unlink (h : Filed m q) (hst : st ≠ .unknown) (ha : a ∈ q st) (ht : Touches a m m')
    (hlinks : m'.links = listDelInit m.links (.llist a)) (hself : (m'.tasks a).status = .unknown)
    (hcount : m'.taskcount = Function.update m.taskcount st (m.taskcount st - 1)) :
    Filed m' (Function.update q st ((q st).erase a)) := by
  have hnotin : a ∉ (q st).erase a := (h.nodup hst).not_mem_erase
  have hother : ∀ {head : Node} {zs : List Node}, Ring m.links head zs →
      (∀ u ∈ head :: zs, u ∉ Node.head st :: nodes (q st)) → Ring m'.links head zs := by
    intro head zs h' hdisj
    rw [hlinks]
    exact h.del_other hst ha h' hdisj
  constructor
  · intro st' hst'
    by_cases hne : st' = st
    · subst hne
      obtain ⟨pre, post, herase, hnodes⟩ := h.split hst ha
      have hring := h.ring hst
      rw [hnodes] at hring
      rw [Function.update_self, herase, nodes, List.map_append, hlinks]
      exact hring.listDelInit
    · rw [Function.update_of_ne hne]
      exact hother (h.ring hst') (h.disjoint hst hst' hne)
  · intro st' b hst' hb
    rw [ht.records]
    by_cases hne : st' = st
    · subst hne
      rw [Function.update_self] at hb
      exact h.isRecord hst (List.mem_of_mem_erase hb)
    · rw [Function.update_of_ne hne] at hb
      exact h.isRecord hst' hb
  · intro b st' hb hst'
    rw [ht.records] at hb
    by_cases hab : b = a
    · subst hab
      rw [hself]
      refine iff_of_false ?_ (fun heq => hst' heq.symm)
      by_cases hne : st' = st
      · subst hne
        rwa [Function.update_self]
      · rw [Function.update_of_ne hne]
        exact fun hmem => hne (h.unique hst' hst hmem ha)
    · rw [ht.status b hab, ← h.status hb hst']
      by_cases hne : st' = st
      · subst hne
        rw [Function.update_self]
        exact List.mem_erase_of_ne hab
      · rw [Function.update_of_ne hne]
  · intro b hb hunk
    rw [ht.records] at hb
    by_cases hab : b = a
    · subst hab
      rw [hlinks]
      exact ring_listDelInit_self ..
    · rw [ht.status b hab] at hunk
      apply hother (h.loose hb hunk)
      intro u hu hmem
      rw [List.mem_singleton] at hu
      subst hu
      rcases List.mem_cons.mp hmem with heq | hmem
      · contradiction
      · rw [mem_nodes, h.status hb hst, hunk] at hmem
        exact hst hmem.symm
  · intro b hb
    rw [ht.records] at hb
    rw [hlinks]
    exact h.del_record hst ha (Or.inl rfl) (h.hlist hb)
  · intro b hb
    rw [ht.records] at hb
    rw [hlinks]
    exact h.del_record hst ha (Or.inr rfl) (h.userlist hb)
  · intro st' hst' hhome
    rw [hcount]
    by_cases hne : st' = st
    · subst hne
      rw [Function.update_self, Function.update_self, h.count hst' hhome, List.length_erase_of_mem ha]
      have := List.length_pos_of_mem ha
      omega
    · rw [Function.update_of_ne hne, Function.update_of_ne hne]
      exact h.count hst' hhome
  · intro b hb
    rw [ht.records] at hb
    rw [ht.next]
    exact h.born hb

/-! ## Putting a record into a queue -/

theorem status_fillTask (base : TaskBase) (sub : TaskSub) (b : Nat) :
    ((m.fillTask a base sub).tasks b).status = (m.tasks b).status := by
  show (Function.update m.tasks a _ b).status = _
  by_cases hba : b = a
  · subst hba
    rw [Function.update_self]
  · rw [Function.update_of_ne hba]

theorem status_vfsSetTask (hst : st ≠ .unknown) :
    ((m.vfsSetTask a st).tasks b).status = if b = a then st else (m.tasks b).status := by
  rw [TaskMem.vfsSetTask, if_neg hst]
  show (Function.update m.tasks a _ b).status = _
  by_cases hba : b = a
  · subst hba
    rw [Function.update_self, if_pos rfl]
  · rw [Function.update_of_ne hba, if_neg hba]

/-- `vfs_set_task` puts a record that is held behind the others. -/
theorem Filed.vfsSetTask (h : Filed m q) (hst : st ≠ .unknown) (ha : a ∈ m.records)
    (hunk : (m.tasks a).status = .unknown) :
    Filed (m.vfsSetTask a st) (Function.update q st (q st ++ [a])) := by
  have hloose := h.loose ha hunk
  have hnew : Node.llist a ∉ Node.head st :: nodes (q st) := by
    rw [List.mem_cons, mem_nodes, h.status ha hst, hunk]
    rintro (heq | heq)
    · contradiction
    · exact hst heq.symm
  have hself : ∀ b, ((m.vfsSetTask a st).tasks b).status =
      if b = a then st else (m.tasks b).status := fun _ => status_vfsSetTask hst
  have hlinks : (m.vfsSetTask a st).links = listAddTail m.links (.llist a) (.head st) := by
    rw [TaskMem.vfsSetTask, if_neg hst]
    show listAddTail (listDelInit m.links (.llist a)) _ _ = _
    rw [hloose.listDelInit_eq]
  have hcount : (m.vfsSetTask a st).taskcount = Function.update m.taskcount st (m.taskcount st + 1) := by
    rw [TaskMem.vfsSetTask, if_neg hst]
    rfl
  have hrecords : (m.vfsSetTask a st).records = m.records := by
    rw [TaskMem.vfsSetTask, if_neg hst]
    rfl
  have hnext : (m.vfsSetTask a st).next = m.next := by
    rw [TaskMem.vfsSetTask, if_neg hst]
    rfl
  have hring := h.ring hst
  have hother : ∀ {head : Node} {zs : List Node}, Ring m.links head zs →
      (∀ u ∈ head :: zs, u ≠ .llist a ∧ u ∉ Node.head st :: nodes (q st)) →
      Ring (m.vfsSetTask a st).links head zs := by
    intro head zs h' hdisj
    rw [hlinks]
    exact hring.listAddTail_other h' hdisj
  have hrecordOther : ∀ {b : Nat} {u : Node}, u = .hlist b ∨ u = .userlist b → Ring m.links u [] →
      Ring (m.vfsSetTask a st).links u [] := by
    intro b u hu hring'
    apply hother hring'
    intro v hv
    rw [List.mem_singleton] at hv
    subst hv
    rcases hu with rfl | rfl
    · simp [nodes]
    · simp [nodes]
  constructor
  · intro st' hst'
    by_cases hne : st' = st
    · subst hne
      rw [Function.update_self, hlinks, nodes, List.map_append]
      exact hring.listAddTail hnew
    · rw [Function.update_of_ne hne]
      apply hother (h.ring hst')
      intro u hu
      refine ⟨?_, h.disjoint hst hst' hne u hu⟩
      rintro rfl
      rcases List.mem_cons.mp hu with heq | hu
      · contradiction
      · rw [mem_nodes, h.status ha hst', hunk] at hu
        exact hst' hu.symm
  · intro st' b hst' hb
    rw [hrecords]
    by_cases hne : st' = st
    · subst hne
      rw [Function.update_self, List.mem_append, List.mem_singleton] at hb
      rcases hb with hb | rfl
      · exact h.isRecord hst' hb
      · exact ha
    · rw [Function.update_of_ne hne] at hb
      exact h.isRecord hst' hb
  · intro b st' hb hst'
    rw [hrecords] at hb
    rw [hself]
    by_cases hab : b = a
    · subst hab
      rw [if_pos rfl]
      by_cases hne : st' = st
      · subst hne
        rw [Function.update_self]
        simp
      · rw [Function.update_of_ne hne, h.status hb hst', hunk]
        exact iff_of_false (fun heq => hst' heq.symm) (fun heq => hne heq.symm)
    · rw [if_neg hab, ← h.status hb hst']
      by_cases hne : st' = st
      · subst hne
        rw [Function.update_self, List.mem_append, List.mem_singleton]
        simp [hab]
      · rw [Function.update_of_ne hne]
  · intro b hb hunk'
    rw [hrecords] at hb
    rw [hself] at hunk'
    by_cases hab : b = a
    · rw [if_pos hab] at hunk'
      exact absurd hunk' hst
    · rw [if_neg hab] at hunk'
      apply hother (h.loose hb hunk')
      intro u hu
      rw [List.mem_singleton] at hu
      subst hu
      refine ⟨fun heq => hab (Node.llist.inj heq), ?_⟩
      rw [List.mem_cons, mem_nodes, h.status hb hst, hunk']
      rintro (heq | heq)
      · contradiction
      · exact hst heq.symm
  · intro b hb
    rw [hrecords] at hb
    exact hrecordOther (Or.inl rfl) (h.hlist hb)
  · intro b hb
    rw [hrecords] at hb
    exact hrecordOther (Or.inr rfl) (h.userlist hb)
  · intro st' hst' hhome
    rw [hcount]
    by_cases hne : st' = st
    · subst hne
      rw [Function.update_self, Function.update_self, h.count hst' hhome, List.length_append]
      rfl
    · rw [Function.update_of_ne hne, Function.update_of_ne hne]
      exact h.count hst' hhome
  · intro b hb
    rw [hrecords] at hb
    rw [hnext]
    exact h.born hb

/-! ## The functions -/

/-- What does not show in pointers, statuses and counters does not matter. -/
theorem Filed.congr (h : Filed m q) (hlinks : m'.links = m.links)
    (hstatus : ∀ b, (m'.tasks b).status = (m.tasks b).status) (hcount : m'.taskcount = m.taskcount)
    (hrecords : m'.records = m.records) (hnext : m.next ≤ m'.next) : Filed m' q := by
  constructor
  · rw [hlinks]
    exact h.ring
  · rw [hrecords]
    exact h.isRecord
  · intro a st ha hst
    rw [hrecords] at ha
    rw [hstatus]
    exact h.status ha hst
  · intro a ha hunk
    rw [hrecords] at ha
    rw [hstatus] at hunk
    rw [hlinks]
    exact h.loose ha hunk
  · rw [hlinks, hrecords]
    exact h.hlist
  · rw [hlinks, hrecords]
    exact h.userlist
  · rw [hcount]
    exact h.count
  · intro a ha
    rw [hrecords] at ha
    exact Nat.lt_of_lt_of_le (h.born ha) hnext

theorem Filed.fillTask (h : Filed m q) (base : TaskBase) (sub : TaskSub) :
    Filed (m.fillTask a base sub) q :=
  h.congr rfl (status_fillTask base sub) rfl rfl (Nat.le_refl _)

/-- The nodes of a record. -/
def OfTask (a : Nat) (u : Node) : Prop := u = .llist a ∨ u = .hlist a ∨ u = .userlist a

/-- Initialising a record's nodes leaves the rings alone that have none of them. -/
theorem ring_initTask {head : Node} {zs : List Node} (h : Ring m.links head zs)
    (hnew : ∀ u, OfTask a u → u ∉ head :: zs) : Ring (m.initTask a).links head zs := by
  apply Ring.initListHead_other
  · apply Ring.initListHead_other
    · exact h.initListHead_other (hnew _ (Or.inl rfl))
    · exact hnew _ (Or.inr (Or.inl rfl))
  · exact hnew _ (Or.inr (Or.inr rfl))

/-- The nodes of a record that has been initialised are rings of their own. -/
theorem ring_initTask_self {u : Node} (hu : OfTask a u) : Ring (m.initTask a).links u [] := by
  unfold TaskMem.initTask
  dsimp only
  rcases hu with rfl | rfl | rfl
  · apply Ring.initListHead_other
    · apply Ring.initListHead_other
      · exact ring_initListHead ..
      · simp
    · simp
  · apply Ring.initListHead_other
    · exact ring_initListHead ..
    · simp
  · exact ring_initListHead ..

/-- A new record is held. -/
theorem Filed.newTask (h : Filed m q) :
    Filed m.newTask q ∧ (m.newTask.tasks m.next).status = .unknown := by
  have hfresh : m.next ∉ m.records := fun hmem => Nat.lt_irrefl _ (h.born hmem)
  have hkeep : ∀ {head : Node} {zs : List Node}, Ring m.links head zs →
      (∀ u, OfTask m.next u → u ∉ head :: zs) → Ring m.newTask.links head zs :=
    fun h' hnew => ring_initTask (m := { m with
      tasks := Function.update m.tasks m.next (.fresh m.next)
      next := m.next + 1
      records := m.next :: m.records }) h' hnew
  have hself : ∀ {u : Node}, OfTask m.next u → Ring m.newTask.links u [] :=
    fun hu => ring_initTask_self hu
  have hstatus : ∀ b, (m.newTask.tasks b).status = if b = m.next then .unknown else (m.tasks b).status := by
    intro b
    show (Function.update m.tasks m.next (Tasklist.fresh m.next) b).status = _
    by_cases hb : b = m.next
    · subst hb
      rw [Function.update_self, if_pos rfl]
      rfl
    · rw [Function.update_of_ne hb, if_neg hb]
  have hmem : ∀ {b}, b ∈ m.newTask.records ↔ b = m.next ∨ b ∈ m.records := List.mem_cons
  have hold : ∀ {b}, b ∈ m.records → b ≠ m.next := fun hb heq => hfresh (heq ▸ hb)
  have hsingle : ∀ {b : Nat} {v : Node}, OfTask b v → b ∈ m.records →
      ∀ u, OfTask m.next u → u ∉ v :: ([] : List Node) := by
    intro b v hv hb u hu hmem'
    rw [List.mem_singleton] at hmem'
    have hne := hold hb
    rcases hv with rfl | rfl | rfl <;> rcases hu with rfl | rfl | rfl <;> simp_all
  refine ⟨?_, by rw [hstatus, if_pos rfl]⟩
  constructor
  · intro st hst
    apply hkeep (h.ring hst)
    intro u hu hu'
    rcases hu with rfl | rfl | rfl
    · rw [List.mem_cons, mem_nodes] at hu'
      rcases hu' with hu' | hu'
      · contradiction
      · exact hfresh (h.isRecord hst hu')
    · simp [nodes] at hu'
    · simp [nodes] at hu'
  · intro st a hst ha
    exact hmem.mpr (Or.inr (h.isRecord hst ha))
  · intro a st ha hst
    rw [hstatus]
    rcases hmem.mp ha with rfl | ha
    · rw [if_pos rfl]
      exact iff_of_false (fun hq => hfresh (h.isRecord hst hq)) (fun heq => hst heq.symm)
    · rw [if_neg (hold ha)]
      exact h.status ha hst
  · intro a ha hunk
    rw [hstatus] at hunk
    rcases hmem.mp ha with rfl | ha
    · exact hself (Or.inl rfl)
    · rw [if_neg (hold ha)] at hunk
      exact hkeep (h.loose ha hunk) (hsingle (Or.inl rfl) ha)
  · intro a ha
    rcases hmem.mp ha with rfl | ha
    · exact hself (Or.inr (Or.inl rfl))
    · exact hkeep (h.hlist ha) (hsingle (Or.inr (Or.inl rfl)) ha)
  · intro a ha
    rcases hmem.mp ha with rfl | ha
    · exact hself (Or.inr (Or.inr rfl))
    · exact hkeep (h.userlist ha) (hsingle (Or.inr (Or.inr rfl)) ha)
  · exact h.count
  · intro a ha
    show a < m.next + 1
    rcases hmem.mp ha with rfl | ha
    · omega
    · have := h.born ha
      omega

/-- The first node of a queue. -/
theorem Filed.next_head (h : Filed m q) (hst : st ≠ .unknown) :
    m.links.next (.head st) = match q st with
      | [] => .head st
      | a :: _ => .llist a := by
  rw [(h.ring hst).next_head]
  cases q st with
  | nil => rfl
  | cons a rest => rfl

/-- `vfs_get_task` takes the first record of a queue. -/
theorem Filed.vfsGetTask_cons (h : Filed m q) (hst : st ≠ .unknown) {rest : List Nat} (hq : q st = a :: rest)
    (mallocOk : Nat → Bool) :
    m.vfsGetTask mallocOk st = some (.ok a, m.takeTask st a) ∧
      Filed (m.takeTask st a) (Function.update q st rest) ∧
      ((m.takeTask st a).tasks a).status = .unknown ∧ Touches a m (m.takeTask st a) := by
  have hnext := h.next_head hst
  rw [hq] at hnext
  have hself : ((m.takeTask st a).tasks a).status = .unknown := by
    show (Function.update m.tasks a _ a).status = _
    rw [Function.update_self]
  have htouch : Touches a m (m.takeTask st a) := by
    refine ⟨fun b hb => ?_, rfl, rfl⟩
    show (Function.update m.tasks a _ b).status = _
    rw [Function.update_of_ne hb]
  refine ⟨?_, ?_, hself, htouch⟩
  · rw [TaskMem.vfsGetTask, if_neg hst, hnext, if_neg (by simp)]
  · have hfiled := h.unlink hst (by rw [hq]; exact List.mem_cons_self) htouch rfl hself rfl
    rwa [hq, List.erase_cons_head] at hfiled

/-- An empty queue gives nothing, except `TASK_HOME` when `malloc` succeeds. -/
theorem Filed.vfsGetTask_nil (h : Filed m q) (hst : st ≠ .unknown) (hq : q st = []) (mallocOk : Nat → Bool) :
    m.vfsGetTask mallocOk st =
      if st = .home then
        if mallocOk m.next then some (.ok m.next, m.newTask)
        else some (.nothing, { m with next := m.next + 1 })
      else some (.nothing, m) := by
  have hnext := h.next_head hst
  rw [hq] at hnext
  rw [TaskMem.vfsGetTask, if_neg hst, if_pos hnext]

/-! ## A scan -/

/-- The queues when a record has been recycled. -/
def recycled (q : TaskStatus → List Nat) (st : TaskStatus) (a : Nat) : TaskStatus → List Nat :=
  Function.update (Function.update q st ((q st).erase a)) .home (q .home ++ [a])

/-- A record recycled as the callbacks do it. -/
theorem Filed.recycle (h : Filed m q) (hst : st ≠ .unknown) (hhome : st ≠ .home) (ha : a ∈ q st)
    (hl : m'.links = listDelInit m.links (.llist a)) (htasks : m'.tasks = m.tasks)
    (hcount : m'.taskcount = m.taskcount) (hrecords : m'.records = m.records)
    (hnext : m'.next = m.next) :
    Filed (((m'.addCount st (-1)).zeroTask a).vfsSetTask a .home) (recycled q st a) := by
  -- the status is not read again, so it might as well have been cleared
  generalize hmid : ((m'.addCount st (-1)).zeroTask a).setStatus a .unknown = mid
  have htouch : Touches a m mid := by
    rw [← hmid]
    refine ⟨fun b hb => ?_, hrecords, hnext⟩
    show (Function.update (Function.update m'.tasks a _) a _ b).status = _
    rw [Function.update_of_ne hb, Function.update_of_ne hb, htasks]
  have hself : (mid.tasks a).status = .unknown := by
    rw [← hmid]
    show (Function.update (Function.update m'.tasks a _) a _ a).status = _
    rw [Function.update_self]
  have hfiled : Filed mid (Function.update q st ((q st).erase a)) := by
    apply h.unlink hst ha htouch
    · rw [← hmid]
      exact hl
    · exact hself
    · rw [← hmid]
      show Function.update m'.taskcount st (m'.taskcount st + -1) = _
      rw [hcount]
      rfl
  have hmem : a ∈ mid.records := by
    rw [htouch.records]
    exact h.isRecord hst ha
  have hset := hfiled.vfsSetTask (show TaskStatus.home ≠ .unknown by simp) hmem hself
  have heq : mid.vfsSetTask a .home = ((m'.addCount st (-1)).zeroTask a).vfsSetTask a .home := by
    rw [← hmid, TaskMem.vfsSetTask, TaskMem.vfsSetTask, if_neg (by simp), if_neg (by simp)]
    unfold TaskMem.setStatus TaskMem.del TaskMem.addCount
    dsimp only
    rw [Function.update_self, Function.update_idem]
  rw [heq, Function.update_of_ne (show TaskStatus.home ≠ st from fun heq => hhome heq.symm)] at hset
  exact hset

/-- What the callbacks of a scan do with a record: nothing, or it is recycled. -/
def Recycles (st : TaskStatus) (cb : Nat → TaskMem → TaskMem) : Prop :=
  ∀ {m q a}, Filed m q → a ∈ q st → (cb a m).records = m.records ∧
    (Filed (cb a m) q ∨ Filed (cb a m) (recycled q st a))

theorem records_vfsSetTask (m : TaskMem) (a : Nat) (st : TaskStatus) :
    (m.vfsSetTask a st).records = m.records := by
  unfold TaskMem.vfsSetTask
  split
  · rfl
  · rfl

theorem checkTaskTimeout_recycles (hst : st ≠ .unknown) (hhome : st ≠ .home) (taskTimeout : Int)
    (cur : Nat → Int) : Recycles st fun a m => m.checkTaskTimeout taskTimeout (cur a) a := by
  intro m q a h ha
  have hr := h.isRecord hst ha
  have hstatus : (m.tasks a).status = st := (h.status hr hst).mp ha
  dsimp only
  unfold checkTaskTimeout
  split
  · refine ⟨records_vfsSetTask .., Or.inr ?_⟩
    have hcur : ((((m.del (.llist a)).del (.hlist a)).del (.userlist a)).tasks a).status = st := hstatus
    dsimp only
    rw [hcur]
    refine h.recycle hst hhome ha ?_ rfl rfl rfl rfl
    -- the other two nodes of the record are in no list
    have hh := h.del_record hst ha (Or.inl rfl) (h.hlist hr)
    have hu := h.del_record hst ha (Or.inr rfl) (h.userlist hr)
    show listDelInit (listDelInit (listDelInit m.links _) (.hlist a)) (.userlist a) = _
    rw [hh.listDelInit_eq, hu.listDelInit_eq]
  · exact ⟨rfl, Or.inl h⟩

theorem getDataFromTask_recycles (hst : st ≠ .unknown) (hhome : st ≠ .home) (initBuffSize : Nat)
    (mem : Nat → UInt8) : Recycles st (getDataFromTask initBuffSize mem) := by
  intro m q a h ha
  have hr := h.isRecord hst ha
  have hstatus : (m.tasks a).status = st := (h.status hr hst).mp ha
  unfold getDataFromTask
  refine ⟨records_vfsSetTask .., Or.inr ?_⟩
  generalize mybuffSetdata initBuffSize mem m.databuff (dataLine (m.tasks a).base) = d
  have hcur : ((({ m with databuff := d } : TaskMem).del (.llist a)).tasks a).status = st := hstatus
  dsimp only
  rw [hcur]
  exact h.recycle hst hhome ha rfl rfl rfl rfl rfl

/-- What a scan makes of the queues. -/
structure Scanned (st : TaskStatus) (q q' : TaskStatus → List Nat) : Prop where
  scanned : (q' st).Sublist (q st)
  home : ∃ moved, q' .home = q .home ++ moved ∧ ∀ a ∈ moved, a ∈ q st
  others : ∀ st', st' ≠ st → st' ≠ .home → q' st' = q st'
  stays : ∀ a ∈ q st, a ∈ q' st ∨ a ∈ q' .home

theorem Scanned.refl (st : TaskStatus) (q : TaskStatus → List Nat) : Scanned st q q :=
  ⟨List.Sublist.refl _, ⟨[], by simp, by simp⟩, fun _ _ _ => rfl, fun _ ha => Or.inl ha⟩

theorem Scanned.recycled (h : Scanned st q q') (hhome : st ≠ .home) (ha : a ∈ q' st) :
    Scanned st q (recycled q' st a) := by
  obtain ⟨moved, hmoved, hsub⟩ := h.home
  constructor
  · rw [VfsOss.recycled, Function.update_of_ne hhome, Function.update_self]
    exact List.erase_sublist.trans h.scanned
  · refine ⟨moved ++ [a], ?_, ?_⟩
    · rw [VfsOss.recycled, Function.update_self, hmoved, List.append_assoc]
    · intro b hb
      rcases List.mem_append.mp hb with hb | hb
      · exact hsub b hb
      · rw [List.mem_singleton] at hb
        subst hb
        exact h.scanned.subset ha
  · intro st' hne hne'
    rw [VfsOss.recycled, Function.update_of_ne hne', Function.update_of_ne hne]
    exact h.others st' hne hne'
  · intro b hb
    rw [VfsOss.recycled, Function.update_of_ne hhome, Function.update_self, Function.update_self]
    rcases h.stays b hb with hb | hb
    · by_cases hba : b = a
      · subst hba
        exact Or.inr (List.mem_append_right _ List.mem_cons_self)
      · exact Or.inl ((List.mem_erase_of_ne hba).mpr hb)
    · exact Or.inr (List.mem_append_left _ hb)

/-- A scan on its way: the nodes still to be visited are the last ones of the queue. -/
def Scanning (m : TaskMem) (q : TaskStatus → List Nat) (st : TaskStatus) (rest : List Node)
    (m' : TaskMem) : Prop :=
  ∃ q' kept todo, rest = nodes todo ∧ Filed m' q' ∧ q' st = kept ++ todo ∧ Scanned st q q' ∧
    m'.records = m.records

theorem Scanning.start (h : Filed m q) : Scanning m q st (nodes (q st)) m :=
  ⟨q, [], q st, rfl, h, rfl, Scanned.refl st q, rfl⟩

theorem Scanning.ring (hst : st ≠ .unknown) {rest : List Node} (h : Scanning m q st rest m') :
    ∃ pre, Ring m'.links (.head st) (pre ++ rest) := by
  obtain ⟨q', kept, todo, rfl, hfiled, hq', -, -⟩ := h
  refine ⟨nodes kept, ?_⟩
  have hring := hfiled.ring hst
  rwa [hq', nodes, List.map_append] at hring

/-- One round of the loop. -/
theorem Scanning.round (hst : st ≠ .unknown) (hhome : st ≠ .home) {cb : Nat → TaskMem → TaskMem}
    (hcb : Recycles st cb) {x : Node} {rest : List Node} (h : Scanning m q st (x :: rest) m') :
    ∃ a, x = .llist a ∧ Scanning m q st rest (cb a m') := by
  obtain ⟨q', kept, todo, hx, hfiled, hq', hscan, hrecords⟩ := h
  cases todo with
  | nil => contradiction
  | cons a todo =>
    obtain ⟨rfl, rfl⟩ := List.cons.inj hx
    refine ⟨a, rfl, ?_⟩
    have ha : a ∈ q' st := by
      rw [hq']
      exact List.mem_append_right _ List.mem_cons_self
    obtain ⟨hrecords', hkept | hmoved⟩ := hcb hfiled ha
    · refine ⟨q', kept ++ [a], todo, rfl, hkept, ?_, hscan, hrecords'.trans hrecords⟩
      rw [hq', List.append_assoc]
      rfl
    · refine ⟨_, kept, todo, rfl, hmoved, ?_, hscan.recycled hhome ha, hrecords'.trans hrecords⟩
      have hnodup := hfiled.nodup hst
      have hnot : a ∉ kept := by
        rw [hq'] at hnodup
        simp only [List.nodup_append, List.mem_cons] at hnodup
        grind
      rw [VfsOss.recycled, Function.update_of_ne hhome, Function.update_self, hq',
        List.erase_append_right _ hnot, List.erase_cons_head]

/-- A scan comes to its end, and has recycled some of the records of its queue. -/
theorem scanSomeStatusTask_spec (h : Filed m q) (hst : st ≠ .unknown) (hhome : st ≠ .home)
    {cb : Nat → TaskMem → TaskMem} (hcb : Recycles st cb) :
    ∃ m' q', m.scanSomeStatusTask st cb = some m' ∧ Filed m' q' ∧ Scanned st q q' ∧
      m'.records = m.records := by
  have hlen : (nodes (q st)).length < m.records.length + 1 := by
    rw [nodes, List.length_map]
    have hsub := (h.nodup hst).subperm fun a ha => h.isRecord hst ha
    exact Nat.lt_succ_of_le hsub.length_le
  have hstart : m.links.next (.head st) = (nodes (q st)).head?.getD (.head st) := (h.ring hst).next_head
  rw [scanSomeStatusTask, if_neg hst, hstart]
  have hloop : ∀ body : Node → TaskMem → Option TaskMem, (∀ a m, body (.llist a) m = some (cb a m)) →
      ∃ m' q', forEachSafe TaskMem.links (.head st) body (m.records.length + 1)
        ((nodes (q st)).head?.getD (.head st)) (m.links.next ((nodes (q st)).head?.getD (.head st))) m = some m' ∧
        Filed m' q' ∧ Scanned st q q' ∧ m'.records = m.records := by
    intro body hbody
    obtain ⟨m', hm', q', kept, todo, -, hfiled, -, hscan, hrecords⟩ :=
      forEachSafe_spec TaskMem.links (.head st) body (Scanning m q st) (Scanning.ring hst)
        (fun {x rest m'} hround => by
          obtain ⟨a, rfl, hnext⟩ := Scanning.round hst hhome hcb hround
          exact ⟨cb a m', hbody a m', hnext⟩)
        _ _ m hlen (Scanning.start h)
    exact ⟨m', q', hm', hfiled, hscan, hrecords⟩
  exact hloop _ fun _ _ => rfl

end VfsOss
