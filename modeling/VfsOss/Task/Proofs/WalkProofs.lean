import VfsOss.Task.Walk
import VfsOss.Task.Proofs.PlacementProofs

/-!
# Proofs: taking records off the front of a queue

What one round does to the queues, and from it what the whole loop does: the records that are left stay in the queue,
the others are at the ends of the queues they were sent to.
-/

namespace VfsOss

variable {T : Type} {s : TaskStore} {t : Tasklist} {q : TaskStatus} {body : WalkBody T} {m : Nat → Bool}

/-- A record moved from the front of one queue to the end of another. -/
theorem WellPlaced.move {rest : List Tasklist} {q : TaskStatus} (h : WellPlaced s) (m : Nat → Bool)
    (q' : TaskStatus) (hq : s.vfstask q = t :: rest) (hu : q ≠ .unknown) (hu' : q' ≠ .unknown) :
    ∃ s', vfsGetTask m s q = (.ok t.popped, s') ∧ WellPlaced (vfsSetTask s' t.popped q') ∧
      (vfsSetTask s' t.popped q').vfstask = Function.update (Function.update s.vfstask q rest) q'
        (Function.update s.vfstask q rest q' ++ [{ t with status := q' }]) := by
  obtain ⟨loc, hloc⟩ := h
  have hg := vfsGetTask_cons (m := m) hu hq
  obtain ⟨hplaced, -⟩ := hloc.get hg
  have hheld : Function.update loc t.addr .held t.popped.addr = .held := Function.update_self ..
  refine ⟨_, hg, ⟨_, hplaced.set (t := t.popped) q' hu' (by rw [hheld]; simp) (by rw [hheld]; simp)⟩, ?_⟩
  rw [vfstask_vfsSetTask hu' (hplaced.not_queued (t := t.popped) (by rw [hheld]; simp))]
  rfl

theorem onlyQueue_placed {l : List Tasklist} {n : Nat} (hnd : (l.map Tasklist.addr).Nodup)
    (hlt : ∀ t ∈ l, t.addr < n) : WellPlaced (onlyQueue q l n) := by
  refine ⟨fun a => if a < n then .queue q else .unborn, fun {st t} ht => ?_, fun {b t} ht => ?_, fun st => ?_,
    fun b => List.nodup_nil, fun {a} ha => if_neg (Nat.not_lt.mpr ha), fun {b t} ht => ?_⟩
  · change t ∈ (if st = q then l else []) at ht
    split at ht
    · next hst =>
      rw [hst]
      exact if_pos (hlt t ht)
    · exact absurd ht List.not_mem_nil
  · exact absurd ht List.not_mem_nil
  · change ((if st = q then l else []).map Tasklist.addr).Nodup
    split
    · exact hnd
    · exact List.nodup_nil
  · exact absurd ht List.not_mem_nil

/-- The records of two queues have different addresses. -/
theorem WellPlaced.nodup_append {p q : TaskStatus} (h : WellPlaced s) (hpq : p ≠ q) :
    ((s.vfstask p ++ s.vfstask q).map Tasklist.addr).Nodup := by
  obtain ⟨loc, hloc⟩ := h
  rw [List.map_append]
  refine List.Nodup.append (hloc.nodupQueue p) (hloc.nodupQueue q) fun a ha hb => hpq ?_
  obtain ⟨u, hu, rfl⟩ := List.mem_map.mp ha
  obtain ⟨v, hv, huv⟩ := List.mem_map.mp hb
  have hpv := hloc.queue hv
  rw [huv, hloc.queue hu] at hpv
  exact Loc.queue.inj hpv

/-! ## The walk over the list -/

/-- The walk takes the records in order and leaves the rest. -/
theorem walkList_split (body : WalkBody T) (n : Nat) (x : T) (l : List Tasklist) :
    (walkList body n x l).routed.map Prod.fst ++ (walkList body n x l).left.map Tasklist.popped =
      l.map Tasklist.popped := by
  induction n generalizing x l with
  | zero => rfl
  | succ n ih =>
    cases l with
    | nil => rfl
    | cons t rest =>
      rw [walkList]
      split
      · exact congrArg (t.popped :: ·) (ih _ rest)
      · rfl

/-- It looks at no more records than it has rounds. -/
theorem walkList_le (body : WalkBody T) (n : Nat) (x : T) (l : List Tasklist) : (walkList body n x l).routed.length ≤ n := by
  induction n generalizing x l with
  | zero => exact Nat.le_refl 0
  | succ n ih =>
    cases l with
    | nil => exact Nat.zero_le _
    | cons t rest =>
      rw [walkList]
      split
      · exact Nat.succ_le_succ (ih _ rest)
      · exact Nat.succ_le_succ (Nat.zero_le n)

/-- The records that are left are the last ones of the queue. -/
theorem walkList_left (body : WalkBody T) (n : Nat) (x : T) (l : List Tasklist) :
    (walkList body n x l).left = l.drop (walkList body n x l).routed.length := by
  induction n generalizing x l with
  | zero => rfl
  | succ n ih =>
    cases l with
    | nil => rfl
    | cons t rest =>
      rw [walkList]
      split
      · exact ih _ rest
      · rfl

/-- A body that never stops the loop: it looks at all the records, or at as many as it has rounds. -/
theorem walkList_left_of_goesOn (body : WalkBody T) (hon : ∀ x t, (body x t).2.1 = true) (n : Nat) (x : T) (l : List Tasklist) :
    (walkList body n x l).left = l.drop n := by
  induction n generalizing x l with
  | zero => rfl
  | succ n ih =>
    cases l with
    | nil => rfl
    | cons t rest =>
      rw [walkList, if_pos (hon x t.popped)]
      exact ih _ rest

/-- Every record goes to a queue the body can choose. -/
theorem walkList_routes {P : TaskStatus → Prop} (hbody : ∀ x t, P (body x t).1) (n : Nat) (x : T)
    (l : List Tasklist) : ∀ r ∈ (walkList body n x l).routed, P r.2 := by
  induction n generalizing x l with
  | zero => exact fun r hr => absurd hr List.not_mem_nil
  | succ n ih =>
    cases l with
    | nil => exact fun r hr => absurd hr List.not_mem_nil
    | cons t rest =>
      rw [walkList]
      split
      · intro r hr
        rcases List.mem_cons.mp hr with rfl | hr
        · exact hbody x t.popped
        · exact ih _ rest r hr
      · intro r hr
        rw [List.mem_singleton.mp hr]
        exact hbody x t.popped

theorem Walk.sentTo_sublist (w : Walk T) (p : TaskStatus) : (w.sentTo p).Sublist (w.routed.map Prod.fst) :=
  List.filter_sublist.map Prod.fst

theorem Walk.mem_sentTo {w : Walk T} {p : TaskStatus} (h : (t, p) ∈ w.routed) : t ∈ w.sentTo p :=
  List.mem_map.mpr ⟨_, List.mem_filter.mpr ⟨h, decide_eq_true rfl⟩, rfl⟩

/-- Records that go to two queues only are split between them. -/
theorem Walk.perm_sentTo {w : Walk T} {p p' : TaskStatus} (hne : p ≠ p') (h : ∀ r ∈ w.routed, r.2 = p ∨ r.2 = p') :
    (w.sentTo p ++ w.sentTo p').Perm (w.routed.map Prod.fst) := by
  have hother : (w.routed.filter fun r => r.2 = p') = w.routed.filter fun r => !decide (r.2 = p) := by
    refine List.filter_congr fun r hr => ?_
    rcases h r hr with he | he
    · simp [he, hne]
    · simp [he, hne.symm]
  unfold Walk.sentTo
  rw [hother, ← List.map_append]
  exact (List.filter_append_perm (fun r : Tasklist × TaskStatus => decide (r.2 = p)) w.routed).map Prod.fst

/-- The first record of a walk goes before the others. -/
theorem Walk.sentTo_cons (w : Walk T) (r : Tasklist × TaskStatus) (p : TaskStatus) :
    ({ w with routed := r :: w.routed } : Walk T).sentTo p =
      (([r].filter fun r => r.2 = p).map Prod.fst) ++ w.sentTo p := by
  unfold Walk.sentTo
  rw [← List.map_append, ← List.filter_append]
  rfl

/-! ## The walk on the store -/

/-- What the loop over the queue `q` has done is what the walk over its records has done. -/
structure Walked (q : TaskStatus) (s : TaskStore) (w : Walk T) (r : T × TaskStore) : Prop where
  state : r.1 = w.state
  placed : WellPlaced r.2
  left : r.2.vfstask q = w.left
  sent : ∀ p, p ≠ q → r.2.vfstask p = s.vfstask p ++ (w.sentTo p).map (Tasklist.inStatus p)

theorem inQueue_of_map {p : TaskStatus} {r : TaskStore} {l l' : List Tasklist}
    (hl : r.vfstask p = l' ++ l.map (Tasklist.inStatus p)) (ht : t ∈ l) : InQueue r p t.addr :=
  ⟨t.inStatus p, hl ▸ List.mem_append_right _ (List.mem_map_of_mem ht), rfl⟩

/-- A record of the queue stays there or is where it was sent, and nowhere else. -/
theorem Walked.onePlace {n : Nat} {x : T} {r : T × TaskStore} (hw : Walked q s (walkList body n x (s.vfstask q)) r)
    (hbody : ∀ x t, (body x t).1 ≠ q) (ht : t ∈ s.vfstask q) :
    ∃ p, (p = q ∨ (t.popped, p) ∈ (walkList body n x (s.vfstask q)).routed) ∧
      ∀ p', InQueue r.2 p' t.addr ↔ p' = p := by
  have hmem : t.popped ∈ (s.vfstask q).map Tasklist.popped := List.mem_map_of_mem ht
  rw [← walkList_split body n x (s.vfstask q)] at hmem
  rcases List.mem_append.mp hmem with hfront | hleft
  · obtain ⟨⟨u, p⟩, hu, rfl⟩ := List.mem_map.mp hfront
    have hq := inQueue_of_map (hw.sent p (walkList_routes (P := (· ≠ q)) hbody n x _ _ hu)) (Walk.mem_sentTo hu)
    exact ⟨p, Or.inr hu, fun p' => hw.placed.inQueue_iff hq⟩
  · obtain ⟨u, hu, heq⟩ := List.mem_map.mp hleft
    have haddr : u.popped.addr = t.popped.addr := congrArg Tasklist.addr heq
    exact ⟨q, Or.inl rfl, fun p' => hw.placed.inQueue_iff ⟨u, hw.left ▸ hu, haddr⟩⟩

theorem walkQueue_walked (m : Nat → Bool) (body : WalkBody T) (hq : q ≠ .home) (hu : q ≠ .unknown)
    (hbody : ∀ x t, (body x t).1 ≠ q ∧ (body x t).1 ≠ .unknown) (n : Nat) (x : T) (hp : WellPlaced s) :
    Walked q s (walkList body n x (s.vfstask q)) (walkQueue m q body n x s) := by
  induction n generalizing x s with
  | zero => exact ⟨rfl, hp, rfl, fun p _ => (List.append_nil _).symm⟩
  | succ n ih =>
    cases hl : s.vfstask q with
    | nil =>
      obtain ⟨r, hg, hr⟩ := vfsGetTask_nil (m := m) hq hl
      have hloop : walkQueue m q body (n + 1) x s = (x, s) := by
        rw [walkQueue, hg]
        cases r with
        | ok t => exact absurd rfl (hr t)
        | err => rfl
        | nothing => rfl
      rw [hloop]
      exact ⟨rfl, hp, hl, fun p _ => (List.append_nil _).symm⟩
    | cons t rest =>
      obtain ⟨hne, hnu⟩ := hbody x t.popped
      obtain ⟨s', hg, hp', hv⟩ := hp.move m (body x t.popped).1 hl hu hnu
      have hrest : (vfsSetTask s' t.popped (body x t.popped).1).vfstask q = rest := by
        rw [hv, Function.update_of_ne hne.symm, Function.update_self]
      have hother : ∀ p, p ≠ q → (vfsSetTask s' t.popped (body x t.popped).1).vfstask p = s.vfstask p ++
          (([(t.popped, (body x t.popped).1)].filter fun r => r.2 = p).map Prod.fst).map (Tasklist.inStatus p) := by
        intro p hpq
        rw [hv]
        by_cases hto : p = (body x t.popped).1
        · subst hto
          rw [Function.update_self, Function.update_of_ne hpq]
          simp [Tasklist.inStatus, Tasklist.popped]
        · rw [Function.update_of_ne hto, Function.update_of_ne hpq]
          simp [Ne.symm hto]
      rw [walkQueue, hg, walkList]
      dsimp only
      split
      · next hon =>
        have hw := ih (body x t.popped).2.2 hp'
        rw [hrest] at hw
        refine ⟨hw.state, hw.placed, hw.left, fun p hpq => ?_⟩
        rw [hw.sent p hpq, hother p hpq, List.append_assoc, ← List.map_append, Walk.sentTo_cons]
      · exact ⟨rfl, hp', hrest, hother⟩

/-! ## Draining a queue -/

/-- Records that were drained behind others are taken out as they would have been before. -/
theorem map_popped_moved (p : TaskStatus) (l l' : List Tasklist) (n : Nat) :
    ((l ++ l'.map (Tasklist.inStatus p)).take n).map Tasklist.popped = ((l ++ l').take n).map Tasklist.popped := by
  rw [List.map_take, List.map_take, List.map_append, List.map_append, List.map_map]
  rfl

theorem walkList_drain (p : TaskStatus) (n : Nat) (l : List Tasklist) (hn : l.length ≤ n) :
    (walkList (drainBody p) n () l).routed = l.map fun t => (t.popped, p) := by
  induction n generalizing l with
  | zero =>
    rw [List.length_eq_zero_iff.mp (Nat.le_zero.mp hn)]
    rfl
  | succ n ih =>
    cases l with
    | nil => rfl
    | cons t rest => exact congrArg ((t.popped, p) :: ·) (ih rest (Nat.le_of_succ_le_succ hn))

/-- After enough rounds the queue is empty and its records are behind those of the other queue. -/
structure Drained (q p : TaskStatus) (s s' : TaskStore) : Prop where
  placed : WellPlaced s'
  empty : s'.vfstask q = []
  moved : s'.vfstask p = s.vfstask p ++ (s.vfstask q).map (Tasklist.inStatus p)
  other : ∀ r, r ≠ q → r ≠ p → s'.vfstask r = s.vfstask r

theorem walkQueue_drained (m : Nat → Bool) {p : TaskStatus} (hq : q ≠ .home) (hu : q ≠ .unknown) (hpq : p ≠ q)
    (hpu : p ≠ .unknown) (hp : WellPlaced s) (n : Nat) (hn : (s.vfstask q).length ≤ n) :
    Drained q p s (walkQueue m q (drainBody p) n () s).2 := by
  have hw := walkQueue_walked m (drainBody p) hq hu (fun _ _ => ⟨hpq, hpu⟩) n () hp
  have hrouted := walkList_drain p n (s.vfstask q) hn
  refine ⟨hw.placed, ?_, ?_, fun r hr hrp => ?_⟩
  · rw [hw.left, walkList_left, hrouted, List.length_map, List.drop_length]
  · rw [hw.sent p hpq, Walk.sentTo, hrouted, List.filter_eq_self.mpr (by simp), List.map_map, List.map_map]
    rfl
  · rw [hw.sent r hr, Walk.sentTo, hrouted, List.filter_eq_nil_iff.mpr (by simp [Ne.symm hrp]), List.map_nil,
      List.map_nil, List.append_nil]

theorem drainQueue_drained (m : Nat → Bool) {p : TaskStatus} (hq : q ≠ .home) (hu : q ≠ .unknown) (hpq : p ≠ q)
    (hpu : p ≠ .unknown) (hp : WellPlaced s) : Drained q p s (drainQueue m q p s) :=
  walkQueue_drained m hq hu hpq hpu hp _ (Nat.le_refl _)

end VfsOss
