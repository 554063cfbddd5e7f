import VfsOss.Uc.Dispatch
import VfsOss.Task.Proofs.WalkProofs

/-!
# Proofs: sending the queued blocks

The first loop makes one list of what waits, the second walks over its front. A block that fails goes to the queue
the first loop has emptied, so it is not met again in the same call.
-/

namespace VfsOss

variable {N : Type} {attempt : N → Tasklist → Bool × N} {s : TaskStore} {t : Tasklist} {x : N}

/-! ## The attempts -/

theorem attempts_fst (attempt : N → Tasklist → Bool × N) (x : N) (l : List Tasklist) :
    (attempts attempt x l).1.map Prod.fst = l := by
  induction l generalizing x with
  | nil => rfl
  | cons t rest ih => exact congrArg (t :: ·) (ih _)

/-- The queue a block goes to. -/
def routeOf (a : Tasklist × Bool) : Tasklist × TaskStatus := (a.1, if a.2 then .home else .waitTmp)

theorem walkList_try (attempt : N → Tasklist → Bool × N) (n : Nat) (x : N) (l : List Tasklist) :
    (walkList (tryBody attempt) n x l).state = (attempts attempt x ((l.take n).map Tasklist.popped)).2 ∧
    (walkList (tryBody attempt) n x l).routed =
      (attempts attempt x ((l.take n).map Tasklist.popped)).1.map routeOf := by
  induction n generalizing x l with
  | zero => exact ⟨rfl, rfl⟩
  | succ n ih =>
    cases l with
    | nil => exact ⟨rfl, rfl⟩
    | cons t rest =>
      obtain ⟨hstate, hrouted⟩ := ih (attempt x t.popped).2 rest
      exact ⟨hstate, congrArg (routeOf (t.popped, (attempt x t.popped).1) :: ·) hrouted⟩

theorem sentTo_routeOf (w : Walk N) (as : List (Tasklist × Bool)) (h : w.routed = as.map routeOf) :
    w.sentTo .home = (as.filter fun a => a.2).map Prod.fst ∧
    w.sentTo .waitTmp = (as.filter fun a => ¬ a.2).map Prod.fst := by
  unfold Walk.sentTo
  rw [h, List.filter_map, List.filter_map, List.map_map, List.map_map]
  refine ⟨congrArg _ (List.filter_congr fun a _ => ?_), congrArg _ (List.filter_congr fun a _ => ?_)⟩
  · cases ha : a.2 <;> simp [routeOf, ha]
  · cases ha : a.2 <;> simp [routeOf, ha]

theorem sentTo_other (w : Walk N) (as : List (Tasklist × Bool)) (h : w.routed = as.map routeOf) {q : TaskStatus}
    (hhome : q ≠ .home) (htmp : q ≠ .waitTmp) : w.sentTo q = [] := by
  unfold Walk.sentTo
  rw [h, List.filter_eq_nil_iff.mpr, List.map_nil]
  intro r hr
  obtain ⟨a, -, rfl⟩ := List.mem_map.mp hr
  cases ha : a.2 with
  | true => simp [routeOf, ha, hhome.symm]
  | false => simp [routeOf, ha, htmp.symm]

/-! ## The records -/

/-- A block that has been tried has an outcome. -/
theorem mem_attempts (attempt : N → Tasklist → Bool × N) (x : N) {l : List Tasklist} (ht : t ∈ l) :
    ∃ b, (t, b) ∈ (attempts attempt x l).1 := by
  rw [← attempts_fst attempt x l] at ht
  obtain ⟨⟨u, b⟩, ha, rfl⟩ := List.mem_map.mp ht
  exact ⟨b, ha⟩

/-- Every block is where its outcome says. -/
theorem inQueue_outcome {r : TaskStore} {n : Nat} {home : List Tasklist}
    (hhome : r.vfstask .home = home ++
      (((attempts attempt x (((waitingToSend s).take n).map Tasklist.popped)).1.filter fun a => a.2).map
        Prod.fst).map (Tasklist.inStatus .home))
    (htmp : r.vfstask .waitTmp =
      (((attempts attempt x (((waitingToSend s).take n).map Tasklist.popped)).1.filter fun a => ¬ a.2).map
        Prod.fst).map (Tasklist.inStatus .waitTmp))
    (hwait : r.vfstask .waitSync =
      (s.vfstask .waitSync ++ (s.vfstask .waitTmp).map (Tasklist.inStatus .waitSync)).drop n)
    (ht : t ∈ waitingToSend s) :
    InQueue r (outcome (attempts attempt x (((waitingToSend s).take n).map Tasklist.popped)).1 t) t.addr := by
  unfold outcome
  split_ifs with hok hno
  · exact inQueue_of_map (t := t.popped) hhome (List.mem_map.mpr ⟨_, List.mem_filter.mpr ⟨hok, rfl⟩, rfl⟩)
  · exact inQueue_of_map (t := t.popped) (htmp.trans (List.nil_append _).symm)
      (List.mem_map.mpr ⟨_, List.mem_filter.mpr ⟨hno, by simp⟩, rfl⟩)
  · have hrest : t ∈ (waitingToSend s).drop n := by
      rw [← List.take_append_drop n (waitingToSend s)] at ht
      refine (List.mem_append.mp ht).resolve_left fun hfront => ?_
      obtain ⟨b, hb⟩ := mem_attempts attempt x (List.mem_map_of_mem (f := Tasklist.popped) hfront)
      cases b with
      | true => exact hok hb
      | false => exact hno hb
    have haddr : t.addr ∈ ((waitingToSend s).drop n).map Tasklist.addr := List.mem_map_of_mem hrest
    have hsame : ((s.vfstask .waitSync ++ (s.vfstask .waitTmp).map (Tasklist.inStatus .waitSync)).drop n).map
        Tasklist.addr = ((waitingToSend s).drop n).map Tasklist.addr := by
      rw [List.map_drop, List.map_drop, List.map_append, List.map_map, waitingToSend, List.map_append]
      rfl
    rw [← hsame, ← hwait] at haddr
    exact List.mem_map.mp haddr

/-- What the second loop finds and does. -/
theorem checkTask_walked (mallocOk : Nat → Bool) (csMaxTaskRunOnce : Nat) (attempt : N → Tasklist → Bool × N) (x : N)
    (hp : WellPlaced s) :
    Walked .waitSync (drainQueue mallocOk .waitTmp .waitSync s)
      (walkList (tryBody attempt) (csMaxTaskRunOnce - 1) x
        (s.vfstask .waitSync ++ (s.vfstask .waitTmp).map (Tasklist.inStatus .waitSync)))
      (UcClient.checkTask mallocOk csMaxTaskRunOnce attempt x s) := by
  have hd : Drained .waitTmp .waitSync s _ := drainQueue_drained mallocOk (by simp) (by simp) (by simp) (by simp) hp
  rw [← hd.moved]
  exact walkQueue_walked mallocOk (tryBody attempt) (by simp) (by simp)
    (fun x t => by unfold tryBody; dsimp only; split <;> simp) (csMaxTaskRunOnce - 1) x hd.placed

/-- The blocks that wait are tried in their order. -/
theorem checkTask_tried (mallocOk : Nat → Bool) (csMaxTaskRunOnce : Nat) (attempt : N → Tasklist → Bool × N) (x : N)
    (hp : WellPlaced s) :
    (UcClient.checkTask mallocOk csMaxTaskRunOnce attempt x s).1 = (tried attempt csMaxTaskRunOnce x s).2 := by
  rw [(checkTask_walked mallocOk csMaxTaskRunOnce attempt x hp).state, (walkList_try attempt _ x _).1,
    map_popped_moved]
  rfl

/-- **A call conserves the queued blocks**: from any queues, for any bound and whatever the attempts do. -/
theorem dispatch_conserves (mallocOk : Nat → Bool) (csMaxTaskRunOnce : Nat) (attempt : N → Tasklist → Bool × N)
    (x : N) (s : TaskStore) (hp : WellPlaced s) :
    Dispatches mallocOk attempt csMaxTaskRunOnce x s
      (UcClient.checkTask mallocOk csMaxTaskRunOnce attempt x s) := by
  have hd : Drained .waitTmp .waitSync s _ := drainQueue_drained mallocOk (by simp) (by simp) (by simp) (by simp) hp
  have hw := checkTask_walked mallocOk csMaxTaskRunOnce attempt x hp
  have hleft := walkList_left_of_goesOn (tryBody attempt) (fun _ _ => rfl) (csMaxTaskRunOnce - 1) x
    (s.vfstask .waitSync ++ (s.vfstask .waitTmp).map (Tasklist.inStatus .waitSync))
  obtain ⟨-, hrouted⟩ := walkList_try attempt (csMaxTaskRunOnce - 1) x
    (s.vfstask .waitSync ++ (s.vfstask .waitTmp).map (Tasklist.inStatus .waitSync))
  obtain ⟨hsent, hfailed⟩ := sentTo_routeOf _ _ hrouted
  rw [map_popped_moved] at hsent hfailed
  have hhome := (hw.sent .home (by simp)).trans (congrArg₂ (· ++ ·) (hd.other .home (by simp) (by simp))
    (congrArg (List.map (Tasklist.inStatus .home)) hsent))
  have htmp := (hw.sent .waitTmp (by simp)).trans (congrArg₂ (· ++ ·) hd.empty
    (congrArg (List.map (Tasklist.inStatus .waitTmp)) hfailed))
  have hwait := hw.left.trans hleft
  refine ⟨hd.empty, hw.placed, checkTask_tried mallocOk csMaxTaskRunOnce attempt x hp, ?_, ?_, hhome, htmp, hwait,
    fun t ht => ?_, fun q h1 h2 h3 => ?_⟩
  · rw [← List.length_map, tried, attempts_fst, List.length_map]
    exact List.length_take_le _ _
  · rw [show (fun a : Tasklist × Bool => a.1.addr) = Tasklist.addr ∘ Prod.fst from rfl, ← List.map_map, tried,
      attempts_fst, List.map_map]
    exact ((hp.nodup_append (p := .waitSync) (q := .waitTmp) (by simp)).sublist
      ((List.take_sublist _ _).map Tasklist.addr))
  · exact fun q => hw.placed.inQueue_iff (inQueue_outcome hhome htmp hwait ht)
  · rw [hw.sent q h3, sentTo_other _ _ hrouted h1 h2, List.map_nil, List.append_nil]
    exact hd.other q h2 h3

/-- Three queued blocks. -/
def threeQueued : TaskStore := onlyQueue .waitSync [.fresh 0, .fresh 1, .fresh 2] 3

theorem dispatch_conserves_three :
    Dispatches (fun _ => true) (fun (n : Nat) _ => (n % 2 = 0, n + 1)) 32 0 threeQueued
      (UcClient.checkTask (fun _ => true) 32 (fun n _ => (n % 2 = 0, n + 1)) 0 threeQueued) :=
  dispatch_conserves _ 32 _ 0 threeQueued (onlyQueue_placed (by decide) (by decide))

end VfsOss
