import VfsOss.Task.Placement
import VfsOss.Task.Proofs.StoreProofs
import Mathlib.Data.List.Nodup

/-!
# Proofs: the store operations move one record at a time

After each operation the store agrees with the old placement changed at the one address the operation
moves.
-/

namespace VfsOss

open CLib

variable {m : Nat → Bool} {s s' : TaskStore} {t u : Tasklist} {st : TaskStatus} {loc : Nat → Loc}
variable {f : Bytes} {i c : Int} {e : Nat} {l : Loc} {b : Fin 16}

section Placed

theorem Placed.loc_of_inQueue {a : Nat} (h : Placed s loc) (hq : InQueue s st a) : loc a = .queue st := by
  obtain ⟨u, hu, rfl⟩ := hq
  exact h.queue hu

/-- A record that is in a queue is in no other. -/
theorem WellPlaced.inQueue_iff {a : Nat} {st st' : TaskStatus} (h : WellPlaced s) (hq : InQueue s st a) :
    InQueue s st' a ↔ st' = st := by
  obtain ⟨loc, hloc⟩ := h
  constructor
  · intro hq'
    exact Loc.queue.inj ((hloc.loc_of_inQueue hq').symm.trans (hloc.loc_of_inQueue hq))
  · rintro rfl
    exact hq

theorem Placed.not_queued (h : Placed s loc) (ht : ∀ st, loc t.addr ≠ .queue st) :
    ∀ st, ∀ u ∈ s.vfstask st, u.addr ≠ t.addr := by
  intro st u hu he
  exact ht st (by rw [← he]; exact h.queue hu)

theorem Placed.not_chained (h : Placed s loc) (ht : ∀ b, loc t.addr ≠ .chain b) :
    ∀ b, ∀ u ∈ s.alltask b, u.addr ≠ t.addr := by
  intro b u hu he
  exact ht b (by rw [← he]; exact h.chain hu)

theorem Placed.born (h : Placed s loc) {a : Nat} (ha : loc a ≠ .unborn) : a < s.next := by
  by_contra hlt
  exact ha (h.unborn (by omega))

/-- Two records of the table with one address are one record. -/
theorem Placed.eq_of_addr (h : Placed s loc) (ht : InAlltask s t) (hu : InAlltask s u)
    (he : t.addr = u.addr) : t = u := by
  obtain ⟨b, ht⟩ := ht
  obtain ⟨b', hu⟩ := hu
  have hb : b = b' := by
    have h1 := h.chain ht
    have h2 := h.chain hu
    rw [he, h2] at h1
    exact (Loc.chain.inj h1).symm
  subst hb
  exact List.inj_on_of_nodup_map (h.nodupChain b) ht hu he

/-- The chain a record is in is the one its key is looked up in. -/
theorem Placed.inAlltask_iff (h : Placed s loc) : InAlltask s t ↔
    t ∈ s.alltask (getVfsTaskHash t.base.filename t.sub.idx t.sub.count) := by
  constructor
  · rintro ⟨b, hb⟩
    rwa [← h.hash hb]
  · exact fun ht => ⟨_, ht⟩

theorem Placed.mem_of_sameKey (h : Placed s loc) (ht : InAlltask s t)
    (hk : sameKey f i c t = true) : t ∈ s.alltask (getVfsTaskHash f i c) := by
  obtain ⟨rfl, rfl, rfl⟩ := sameKey_iff.mp hk
  exact h.inAlltask_iff.mp ht

/-- A search finds nothing when the table has no record with the key. -/
theorem Placed.findTask_eq_none (h : Placed s loc) : findTask s f i c = none ↔
    ∀ t, InAlltask s t → sameKey f i c t = false := by
  unfold findTask
  rw [List.find?_eq_none]
  constructor
  · intro hn t ht
    by_contra hk
    have hk : sameKey f i c t = true := by simpa using hk
    exact hn t (h.mem_of_sameKey ht hk) hk
  · intro hn t ht
    simp [hn t ⟨_, ht⟩]

theorem Placed.checkTask_iff (h : Placed s loc) : checkTaskFromAlltask s f i c e = true ↔
    ∃ t, InAlltask s t ∧ sameKey f i c t = true ∧ t.base.expire = e := by
  rw [checkTaskFromAlltask_iff]
  constructor
  · rintro ⟨t, ht, hk, he⟩
    exact ⟨t, ⟨_, ht⟩, hk, he⟩
  · rintro ⟨t, ht, hk, he⟩
    exact ⟨t, h.mem_of_sameKey ht hk, hk, he⟩

end Placed

section Operations

/-- A pop moves the record out of its queue, or out of the unallocated addresses. -/
theorem Placed.get (h : Placed s loc) (hg : vfsGetTask m s st = (.ok t, s')) :
    Placed s' (Function.update loc t.addr .held) ∧
    (loc t.addr = .queue st ∨ (st = .home ∧ loc t.addr = .unborn)) := by
  have hall : s'.alltask = s.alltask := by
    have hframe : (vfsGetTask m s st).2.alltask = s.alltask := alltask_vfsGetTask
    rwa [hg] at hframe
  rcases vfsGetTask_ok hg with ⟨u, rest, hq, rfl, hv, hn⟩ | ⟨rfl, hq, rfl, hv, hn⟩
  · have hu : loc u.addr = .queue st := h.queue (by rw [hq]; simp)
    have hnd := h.nodupQueue st
    rw [hq, List.map_cons, List.nodup_cons] at hnd
    refine ⟨⟨?_, ?_, ?_, ?_, ?_, ?_⟩, Or.inl hu⟩
    · intro st' v hv'
      rw [hv] at hv'
      by_cases hs : st' = st
      · subst hs
        rw [Function.update_self] at hv'
        have hne : v.addr ≠ u.addr := fun he => hnd.1 (he ▸ List.mem_map_of_mem hv')
        rw [Function.update_of_ne hne]
        exact h.queue (by rw [hq]; simp [hv'])
      · rw [Function.update_of_ne hs] at hv'
        have hne : v.addr ≠ u.addr := by
          intro he
          have := h.queue hv'
          rw [he, hu] at this
          exact hs (Loc.queue.inj this).symm
        rw [Function.update_of_ne hne]
        exact h.queue hv'
    · intro b v hv'
      rw [hall] at hv'
      have hne : v.addr ≠ u.addr := by
        intro he
        have := h.chain hv'
        rw [he, hu] at this
        exact Loc.noConfusion this
      rw [Function.update_of_ne hne]
      exact h.chain hv'
    · intro st'
      rw [hv]
      by_cases hs : st' = st
      · subst hs
        rw [Function.update_self]
        exact hnd.2
      · rw [Function.update_of_ne hs]
        exact h.nodupQueue st'
    · intro b
      rw [hall]
      exact h.nodupChain b
    · intro a ha
      rw [hn] at ha
      have hne : a ≠ u.addr := by
        have := h.born (a := u.addr) (by rw [hu]; simp)
        omega
      rw [Function.update_of_ne hne]
      exact h.unborn ha
    · intro b v hv'
      rw [hall] at hv'
      exact h.hash hv'
  · change Placed s' (Function.update loc s.next .held) ∧ _
    have hu : loc s.next = .unborn := h.unborn (le_refl _)
    have hne : ∀ v, loc v ≠ .unborn → v ≠ s.next := fun v hv he => hv (he ▸ hu)
    refine ⟨⟨?_, ?_, ?_, ?_, ?_, ?_⟩, Or.inr ⟨rfl, hu⟩⟩
    · intro st' v hv'
      rw [hv] at hv'
      have := h.queue hv'
      rw [Function.update_of_ne (hne _ (by rw [this]; simp)), this]
    · intro b v hv'
      rw [hall] at hv'
      have := h.chain hv'
      rw [Function.update_of_ne (hne _ (by rw [this]; simp)), this]
    · intro st'
      rw [hv]
      exact h.nodupQueue st'
    · intro b
      rw [hall]
      exact h.nodupChain b
    · intro a ha
      rw [hn] at ha
      have hne : a ≠ s.next := by omega
      rw [Function.update_of_ne hne]
      exact h.unborn (by omega)
    · intro b v hv'
      rw [hall] at hv'
      exact h.hash hv'

/-- A pop that returns nothing moves nothing. -/
theorem Placed.get_none (h : Placed s loc) (hg : ∀ t, (vfsGetTask m s st).1 ≠ .ok t) :
    Placed (vfsGetTask m s st).2 loc := by
  obtain ⟨hv, hn⟩ := vfsGetTask_not_ok hg
  refine ⟨?_, ?_, ?_, ?_, ?_, ?_⟩
  · intro st' v hv'
    rw [hv] at hv'
    exact h.queue hv'
  · intro b v hv'
    rw [alltask_vfsGetTask] at hv'
    exact h.chain hv'
  · intro st'
    rw [hv]
    exact h.nodupQueue st'
  · intro b
    rw [alltask_vfsGetTask]
    exact h.nodupChain b
  · intro a ha
    exact h.unborn (by omega)
  · intro b v hv'
    rw [alltask_vfsGetTask] at hv'
    exact h.hash hv'

/-- A push moves the record into the queue; it was held by the code that pushes it. -/
theorem Placed.set (h : Placed s loc) (st : TaskStatus) (hst : st ≠ .unknown) (hne : loc t.addr ≠ .unborn)
    (hc : ∀ b, loc t.addr ≠ .chain b) :
    Placed (vfsSetTask s t st) (Function.update loc t.addr (.queue st)) := by
  refine ⟨?_, ?_, ?_, ?_, ?_, ?_⟩
  · intro st' v hv
    rcases mem_vfsSetTask hv with ⟨hv, ha⟩ | ⟨rfl, -, rfl⟩
    · rw [Function.update_of_ne (ha hst)]
      exact h.queue hv
    · simp
  · intro b v hv
    rw [alltask_vfsSetTask] at hv
    rw [Function.update_of_ne (h.not_chained hc b v hv)]
    exact h.chain hv
  · intro st'
    have hnd : ∀ st', (((s.vfstask st').filter fun u => u.addr ≠ t.addr).map Tasklist.addr).Nodup :=
      fun st' => (h.nodupQueue st').sublist (List.filter_sublist.map _)
    unfold vfsSetTask
    rw [if_neg hst]
    by_cases hs : st' = st
    · subst hs
      simp only [Function.update_self, List.map_append, List.map_cons, List.map_nil]
      refine List.nodup_append.mpr ⟨hnd st', List.nodup_singleton _, ?_⟩
      intro a ha b hb
      obtain ⟨v, hv, rfl⟩ := List.mem_map.mp ha
      rw [List.mem_singleton.mp hb]
      simpa using (List.mem_filter.mp hv).2
    · simp only [Function.update_of_ne hs]
      exact hnd st'
  · intro b
    rw [alltask_vfsSetTask]
    exact h.nodupChain b
  · intro a ha
    rw [next_vfsSetTask] at ha
    have hat : a ≠ t.addr := fun he => by
      have := h.born hne
      omega
    rw [Function.update_of_ne hat]
    exact h.unborn ha
  · intro b v hv
    rw [alltask_vfsSetTask] at hv
    exact h.hash hv

/-- Adding to the table moves the record into the chain of its key. -/
theorem Placed.add (h : Placed s loc) (hne : loc t.addr ≠ .unborn)
    (hq : ∀ st, loc t.addr ≠ .queue st) :
    Placed (addTaskToAlltask s t) (Function.update loc t.addr
      (.chain (getVfsTaskHash t.base.filename t.sub.idx t.sub.count))) := by
  refine ⟨?_, ?_, ?_, ?_, ?_, ?_⟩
  · intro st v hv
    rw [vfstask_addTaskToAlltask] at hv
    rw [Function.update_of_ne (h.not_queued hq st v hv)]
    exact h.queue hv
  · intro b v hv
    rcases mem_addTaskToAlltask.mp hv with ⟨hv, ha⟩ | ⟨rfl, rfl⟩
    · rw [Function.update_of_ne ha]
      exact h.chain hv
    · simp
  · intro st
    exact h.nodupQueue st
  · intro b
    have hnd : ∀ b, (((s.alltask b).filter fun u => u.addr ≠ t.addr).map Tasklist.addr).Nodup :=
      fun b => (h.nodupChain b).sublist (List.filter_sublist.map _)
    unfold addTaskToAlltask
    by_cases hb : b = getVfsTaskHash t.base.filename t.sub.idx t.sub.count
    · subst hb
      simp only [Function.update_self, List.map_cons]
      refine List.nodup_cons.mpr ⟨?_, hnd _⟩
      intro hmem
      obtain ⟨v, hv, he⟩ := List.mem_map.mp hmem
      have := (List.mem_filter.mp hv).2
      simp [he] at this
    · simp only [Function.update_of_ne hb]
      exact hnd b
  · intro a ha
    have hat : a ≠ t.addr := fun he => by
      have := h.born hne
      rw [next_addTaskToAlltask] at ha
      omega
    rw [Function.update_of_ne hat]
    exact h.unborn ha
  · intro b v hv
    rcases mem_addTaskToAlltask.mp hv with ⟨hv, -⟩ | ⟨rfl, rfl⟩
    · exact h.hash hv
    · rfl

/-- Removing from the table moves the record out of its chain. -/
theorem Placed.take (h : Placed s loc) (hg : getTaskFromAlltask s f i c = some (t, s')) :
    Placed s' (Function.update loc t.addr .held) ∧
    loc t.addr = .chain (getVfsTaskHash f i c) ∧ ¬ InAlltask s' t := by
  obtain ⟨hf, hv, hn, hall⟩ := getTaskFromAlltask_some hg
  have htm := (findTask_some hf).1
  have hloc : loc t.addr = .chain (getVfsTaskHash f i c) := h.chain htm
  have hnot : ∀ b, ∀ v ∈ s'.alltask b, v.addr ≠ t.addr := by
    intro b v hv' he
    have hvs := mem_of_getTaskFromAlltask hg hv'
    have hvt : v = t := h.eq_of_addr ⟨_, hvs⟩ ⟨_, htm⟩ he
    subst hvt
    have hb : b = getVfsTaskHash f i c := by
      have := h.chain hvs
      rw [hloc] at this
      exact (Loc.chain.inj this).symm
    subst hb
    rw [hall, Function.update_self] at hv'
    exact key_ne_of_mem_eraseP (h.nodupChain _) hf hv' rfl
  refine ⟨⟨?_, ?_, ?_, ?_, ?_, ?_⟩, hloc, fun ⟨b, hb⟩ => hnot b t hb rfl⟩
  · intro st v hv'
    rw [hv] at hv'
    have := h.queue hv'
    have hne : v.addr ≠ t.addr := by
      intro he
      rw [he, hloc] at this
      exact Loc.noConfusion this
    rwa [Function.update_of_ne hne]
  · intro b v hv'
    rw [Function.update_of_ne (hnot b v hv')]
    exact h.chain (mem_of_getTaskFromAlltask hg hv')
  · intro st
    rw [hv]
    exact h.nodupQueue st
  · intro b
    rw [hall]
    by_cases hb : b = getVfsTaskHash f i c
    · subst hb
      rw [Function.update_self]
      exact (h.nodupChain _).sublist (List.eraseP_sublist.map _)
    · rw [Function.update_of_ne hb]
      exact h.nodupChain b
  · intro a ha
    rw [hn] at ha
    have hat : a ≠ t.addr := fun he => by
      have := h.born (a := t.addr) (by rw [hloc]; simp)
      omega
    rw [Function.update_of_ne hat]
    exact h.unborn ha
  · intro b v hv'
    exact h.hash (mem_of_getTaskFromAlltask hg hv')

/-- Marking records expired moves nothing. -/
theorem Placed.mark (h : Placed s loc) : Placed (setTaskFromAlltask s f i c e) loc := by
  have hmap : ∀ b, ((setTaskFromAlltask s f i c e).alltask b).map Tasklist.addr =
      (s.alltask b).map Tasklist.addr := by
    intro b
    rw [alltask_setTaskFromAlltask]
    by_cases hb : b = getVfsTaskHash f i c
    · subst hb
      rw [Function.update_self]
      exact map_updFirst fun _ => rfl
    · rw [Function.update_of_ne hb]
  refine ⟨?_, ?_, ?_, ?_, ?_, ?_⟩
  · intro st v hv
    exact h.queue hv
  · intro b v hv
    rcases mem_setTaskFromAlltask hv with hv | ⟨t, ht, rfl, rfl⟩
    · exact h.chain hv
    · exact h.chain (t := t) (findTask_some ht).1
  · intro st
    exact h.nodupQueue st
  · intro b
    rw [hmap]
    exact h.nodupChain b
  · intro a ha
    exact h.unborn ha
  · intro b v hv
    rcases mem_setTaskFromAlltask hv with hv | ⟨t, ht, rfl, rfl⟩
    · exact h.hash hv
    · exact h.hash (t := t) (findTask_some ht).1

end Operations

/-- At the start every record is in `TASK_HOME`. -/
theorem initTaskInfo_placed (n : Nat) : WellPlaced (initTaskInfo n) := by
  refine ⟨fun a => if a < n then .queue .home else .unborn, fun {st t} ht => ?_, fun {b t} ht => ?_,
    fun st => ?_, fun b => ?_, fun {a} ha => ?_, ?_⟩
  · change t ∈ (if st = .home then
      (List.range n).reverse.map fun a => { Tasklist.fresh a with status := .home } else []) at ht
    split at ht
    · next hst =>
      obtain ⟨a, ha, rfl⟩ := List.mem_map.mp ht
      rw [hst]
      have hlt : a < n := by simpa using ha
      exact if_pos hlt
    · exact absurd ht (by simp)
  · exact absurd ht (by simp [initTaskInfo])
  · change ((if st = .home then
      (List.range n).reverse.map fun a => { Tasklist.fresh a with status := .home } else []).map
        Tasklist.addr).Nodup
    split
    · have hid : (Tasklist.addr ∘ fun a => { Tasklist.fresh a with status := .home }) = id := rfl
      rw [List.map_map, hid, List.map_id, List.nodup_reverse]
      exact List.nodup_range
    · exact List.nodup_nil
  · exact List.nodup_nil
  · exact if_neg (by change n ≤ a at ha; omega)
  · intro b t ht
    exact absurd ht (by simp [initTaskInfo])

end VfsOss
