import VfsOss.Net.Timer
import Mathlib.Data.List.Chain
import Mathlib.Data.List.Induction

/-!
# Proofs: every timer is run when it is due

What is expected of one timer is told from the times of the scans alone. The memory follows: the timers that wait are
in `delay_active`, in one node each, with the times they wait for.
-/

namespace VfsOss

open CLib

/-- The pointers of a node that is in no list are as `INIT_LIST_HEAD` makes them. -/
theorem initListHead_of_ring {N : Type} [DecidableEq N] {l : ListHeads N} {x : N} (h : Ring l x []) :
    initListHead l x = l := by
  have hnext : Function.update l.next x x = l.next := Function.update_eq_self_iff.mpr h.linked.1.symm
  have hprev : Function.update l.prev x x = l.prev := Function.update_eq_self_iff.mpr h.linked.2.symm
  unfold initListHead ListHeads.setNext ListHeads.setPrev
  rw [hnext, hprev]

namespace TimerMem

/-! ## One timer -/

/-- What one scan makes of a timer: the time it waits for, and its runs so far. -/
def track (t : VfsTimer) (s : Option Int × List Int) (cur : Int) : Option Int × List Int :=
  match s.1 with
  | none => s
  | some next =>
    if next < cur then (if t.loop ≠ 0 then some (cur + t.spanTime) else none, s.2 ++ [cur]) else s

/-- A timer that was added at the time `cur`, after scans at the given times. -/
def tracked (t : VfsTimer) (cur : Int) (scans : List Int) : Option Int × List Int :=
  scans.foldl (track t) (some (cur + t.spanTime), [])

variable {t : VfsTimer} {cur : Int}

theorem tracked_append (scans : List Int) (now : Int) :
    tracked t cur (scans ++ [now]) = track t (tracked t cur scans) now := by
  unfold tracked
  rw [List.foldl_append]
  rfl

/-- A timer that is to run once waits for the first scan later than its span. -/
theorem tracked_once (h : t.loop = 0) (scans : List Int) :
    tracked t cur scans =
      match scans.find? (cur + t.spanTime < ·) with
      | none => (some (cur + t.spanTime), [])
      | some now => (none, [now]) := by
  induction scans using List.reverseRecOn with
  | nil => rfl
  | append_singleton scans now ih =>
    rw [tracked_append, ih, List.find?_append]
    cases scans.find? (cur + t.spanTime < ·) with
    | none =>
      by_cases hdue : cur + t.spanTime < now
      · simp [track, h, hdue]
      · simp [track, hdue]
    | some now' => simp [track]

/-- A timer that is to run for ever waits for its span after its last run. -/
theorem tracked_loop (h : t.loop ≠ 0) (cur : Int) (scans : List Int) :
    (∃ last, (cur :: (tracked t cur scans).2).getLast? = some last ∧
      (tracked t cur scans).1 = some (last + t.spanTime)) ∧
      (cur :: (tracked t cur scans).2).IsChain fun earlier later => earlier + t.spanTime < later := by
  induction scans using List.reverseRecOn with
  | nil => exact ⟨⟨cur, rfl, rfl⟩, List.isChain_singleton _⟩
  | append_singleton scans now ih =>
    obtain ⟨⟨last, hlast, hwait⟩, hchain⟩ := ih
    rw [tracked_append, track, hwait]
    dsimp only
    by_cases hdue : last + t.spanTime < now
    · rw [if_pos hdue, if_pos h, ← List.cons_append]
      refine ⟨⟨now, List.getLast?_concat .., rfl⟩, List.isChain_append.mpr ⟨hchain, List.isChain_singleton _, ?_⟩⟩
      intro x hx y hy
      rw [hlast, Option.mem_some_iff] at hx
      rw [List.head?_cons, Option.mem_some_iff] at hy
      rwa [← hx, ← hy]
    · rw [if_neg hdue]
      exact ⟨⟨last, hlast, hwait⟩, hchain⟩

/-! ## The two lists -/

variable {m m' : TimerMem} {lists lists' : DelayList → List Nat} {a b : Nat} {k k' : DelayList}

/-- The memory holds the two lists, with the nodes there are between them. -/
structure Held (m : TimerMem) (lists : DelayList → List Nat) : Prop where
  rings : Rings m.links TimerNode.head fun k => (lists k).map TimerNode.tlist
  mem : ∀ a, (∃ k, a ∈ lists k) ↔ a < m.next

/-- The lists after a node has been moved to the start of one of them. -/
def moved (lists : DelayList → List Nat) (a : Nat) (k : DelayList) : DelayList → List Nat :=
  Function.update (fun k => (lists k).erase a) k (a :: (lists k).erase a)

theorem tlist_ne_head (a : Nat) (k : DelayList) : TimerNode.tlist a ≠ .head k := nofun

theorem map_tlist_erase (l : List Nat) (a : Nat) :
    (l.map TimerNode.tlist).erase (.tlist a) = (l.erase a).map .tlist := by
  rw [List.map_erase fun a b h => TimerNode.tlist.inj h]

theorem map_tlist_moved (lists : DelayList → List Nat) (a : Nat) (k k' : DelayList) :
    (moved lists a k k').map TimerNode.tlist =
      Function.update (fun k => ((lists k).map TimerNode.tlist).erase (.tlist a)) k
        (.tlist a :: ((lists k).map TimerNode.tlist).erase (.tlist a)) k' := by
  unfold moved
  by_cases hk : k' = k
  · subst hk
    rw [Function.update_self, Function.update_self, map_tlist_erase, List.map_cons]
  · rw [Function.update_of_ne hk, Function.update_of_ne hk, map_tlist_erase]

namespace Held

theorem nodup (h : Held m lists) (k : DelayList) : (lists k).Nodup := (h.rings.nodup k).of_map _

theorem apart (h : Held m lists) (ha : a ∈ lists k) (ha' : a ∈ lists k') : k = k' :=
  h.rings.apart (List.mem_map_of_mem ha) (List.mem_map_of_mem ha')

theorem lt (h : Held m lists) (ha : a ∈ lists k) : a < m.next := (h.mem a).mp ⟨k, ha⟩

theorem models (h : Held m lists) : m.Models lists where
  rings := h.rings
  one := fun a ha => by
    obtain ⟨k, hk⟩ := (h.mem a).mpr ha
    exact ⟨k, hk, fun k' hk' => h.apart hk' hk⟩
  exist := fun _ _ ha => h.lt ha

/-- What the pointers do not show does not matter. -/
theorem congr (h : Held m lists) (hlinks : m'.links = m.links) (hnext : m'.next = m.next)
    (hlists : ∀ k, lists' k = lists k) : Held m' lists' := by
  obtain rfl : lists' = lists := funext hlists
  exact ⟨hlinks ▸ h.rings, hnext ▸ h.mem⟩

theorem mem_moved (h : Held m lists) : b ∈ moved lists a k k' ↔ b = a ∧ k' = k ∨ b ≠ a ∧ b ∈ lists k' := by
  have herase (k' : DelayList) : b ∈ (lists k').erase a ↔ b ≠ a ∧ b ∈ lists k' := (h.nodup k').mem_erase_iff
  unfold moved
  by_cases hk : k' = k
  · subst hk
    rw [Function.update_self, List.mem_cons, herase, and_iff_left rfl]
  · rw [Function.update_of_ne hk, herase]
    simp [hk]

/-- **A node is moved** to the start of a list. -/
theorem move (h : Held m lists) (ha : a < m.next) (k : DelayList) :
    Held ((m.del a).addHead a k) (moved lists a k) where
  rings := (h.rings.moveHead k (tlist_ne_head a)).congr (map_tlist_moved lists a k)
  mem := fun b => by
    rw [show ((m.del a).addHead a k).next = m.next from rfl, ← h.mem b]
    simp only [h.mem_moved]
    constructor
    · rintro ⟨k', ⟨rfl, -⟩ | ⟨-, hb⟩⟩
      · exact (h.mem b).mpr ha
      · exact ⟨k', hb⟩
    · rintro ⟨k', hb⟩
      by_cases hba : b = a
      · exact ⟨k, .inl ⟨hba, rfl⟩⟩
      · exact ⟨k', .inr ⟨hba, hb⟩⟩

end Held

/-- A node that is in no list. -/
theorem initListHead_free (h : Rings m.links TimerNode.head fun k => (lists k).map TimerNode.tlist)
    (ha : ∀ k, a ∉ lists k) : m.initNode a = m := by
  have hring : Ring m.links (.tlist a) [] := h.alone fun k => ⟨tlist_ne_head a k, fun hmem => by
    obtain ⟨b, hb, heq⟩ := List.mem_map.mp hmem
    exact ha k (TimerNode.tlist.inj heq ▸ hb)⟩
  unfold initNode
  rw [initListHead_of_ring hring]

/-- A node put at the start of a list from outside. -/
theorem rings_addHead (h : Rings m.links TimerNode.head fun k => (lists k).map TimerNode.tlist)
    (ha : ∀ k, a ∉ lists k) (k : DelayList) :
    Rings (m.addHead a k).links TimerNode.head fun k' => (moved lists a k k').map TimerNode.tlist := by
  have hout : ∀ k, TimerNode.tlist a ∉ (lists k).map TimerNode.tlist := fun k hmem => by
    obtain ⟨b, hb, heq⟩ := List.mem_map.mp hmem
    exact ha k (TimerNode.tlist.inj heq ▸ hb)
  refine (h.listAddHead k fun k => ⟨tlist_ne_head a k, hout k⟩).congr fun k' => ?_
  rw [map_tlist_moved]
  by_cases hk : k' = k
  · subst hk
    rw [Function.update_self, Function.update_self, List.erase_of_not_mem (hout k')]
  · rw [Function.update_of_ne hk, Function.update_of_ne hk, List.erase_of_not_mem (hout k')]

/-- The loop of `delay_task_init` links one node after the other into `delay_home`. -/
theorem rings_init (m : TimerMem) (hlinks : m.links = ⟨id, id⟩) (n : Nat) :
    ∃ (links : ListHeads TimerNode) (lists : DelayList → List Nat),
    (List.range n).foldl (fun m timer => (m.initNode timer).addHead timer .home) m = { m with links := links } ∧
      Rings links TimerNode.head (fun k => (lists k).map TimerNode.tlist) ∧
      ∀ k a, a ∈ lists k ↔ k = .home ∧ a < n := by
  induction n with
  | zero =>
    refine ⟨m.links, fun _ => [], rfl, hlinks ▸ rings_empty fun h => TimerNode.head.inj h, fun k a => ?_⟩
    simp
  | succ n ih =>
    obtain ⟨links, lists, hfold, hrings, hmem⟩ := ih
    have hout : ∀ k, n ∉ lists k := fun k hn => Nat.lt_irrefl n ((hmem k n).mp hn).2
    have hinit := initListHead_free (m := { m with links := links }) hrings hout
    refine ⟨_, moved lists n .home, ?_, rings_addHead (m := { m with links := links }) hrings hout .home,
      fun k a => ?_⟩
    · rw [List.range_succ, List.foldl_append, hfold, List.foldl_cons, List.foldl_nil, hinit]
      rfl
    · have hmoved : moved lists n .home = Function.update lists .home (n :: lists .home) := by
        unfold moved
        congr 1
        · exact funext fun k => List.erase_of_not_mem (hout k)
        · rw [List.erase_of_not_mem (hout .home)]
      rw [hmoved]
      cases k with
      | home =>
        rw [Function.update_self, List.mem_cons, hmem, Nat.lt_succ_iff_lt_or_eq, or_comm]
        simp
      | active =>
        rw [Function.update_of_ne (by decide), hmem]
        simp

/-! ## Adding a timer -/

/-- A list is not longer than there are nodes. -/
theorem Held.length_lt (h : Held m lists) (k : DelayList) : ((lists k).map TimerNode.tlist).length < m.next + 1 := by
  rw [List.length_map, Nat.lt_succ_iff]
  exact length_le_of_nodup (h.nodup k) fun a ha => h.lt ha

/-- What adding a timer does: it is put into a node from outside `delay_active`, with the next number. -/
structure Added (m : TimerMem) (lists : DelayList → List Nat) (t : VfsTimer) (cur : Int) (a : Nat) (m' : TimerMem)
    (lists' : DelayList → List Nat) : Prop where
  held : Held m' lists'
  active : lists' .active = a :: lists .active
  notActive : a ∉ lists .active
  timers : m'.timers = Function.update m.timers a { t with nextTime := cur + t.spanTime }
  added : m'.added = m.added + 1
  holds : m'.holds = Function.update m.holds a (some m.added)
  runs : m'.runs = m.runs

/-- The timer whose node this is. -/
def TimerNode.timer : TimerNode → Option Nat
  | .tlist timer => some timer
  | .head _ => none

/-- The node that is taken is the first one of `delay_home`, or a new one. -/
theorem Held.takeNode (h : Held m lists) : m.takeNode = some
    (match (lists .home).head? with
      | some timer => (timer, m.del timer)
      | none => (m.next, { m with next := m.next + 1 })) := by
  have hfirst : ((lists .home).map TimerNode.tlist).findSome? TimerNode.timer = (lists .home).head? := by
    cases lists .home <;> rfl
  unfold TimerMem.takeNode
  rw [findSafe_spec (f := TimerNode.timer) (h.rings.ring .home) (fun x hx => ?_) (h.length_lt .home), hfirst]
  · cases (lists .home).head? <;> rfl
  · obtain ⟨a, -, rfl⟩ := List.mem_map.mp hx
    rfl

/-- **Adding** a timer. -/
theorem Held.addToDelayTask (h : Held m lists) (t : VfsTimer) (cur : Int) :
    ∃ a m' lists', m.addToDelayTask t cur = some m' ∧ Added m lists t cur a m' lists' := by
  unfold TimerMem.addToDelayTask
  rw [h.takeNode]
  cases hhome : (lists .home).head? with
  | some a =>
    have ha : a ∈ lists .home := List.mem_of_mem_head? hhome
    have hactive : a ∉ lists .active := fun ha' => nomatch h.apart ha ha'
    have hfree : ∀ k, a ∉ (lists k).erase a := fun k => (h.nodup k).not_mem_erase
    have hrings : Rings (m.del a).links TimerNode.head fun k => ((lists k).erase a).map TimerNode.tlist :=
      (h.rings.listDelInit (tlist_ne_head a)).congr fun k => (map_tlist_erase (lists k) a).symm
    have hinit : (m.del a).initNode a = m.del a := initListHead_free hrings hfree
    refine ⟨a, _, moved lists a .active, rfl, ?_, ?_, hactive, rfl, rfl, rfl, rfl⟩
    · refine (h.move (h.lt ha) .active).congr ?_ rfl fun _ => rfl
      show listAddHead ((m.del a).initNode a).links _ _ = listAddHead (m.del a).links _ _
      rw [hinit]
    · unfold moved
      rw [Function.update_self, List.erase_of_not_mem hactive]
  | none =>
    have hfree : ∀ k, m.next ∉ lists k := fun k hmem => Nat.lt_irrefl _ (h.lt hmem)
    have hinit : m.initNode m.next = m := initListHead_free h.rings hfree
    have hactive : moved lists m.next .active .active = m.next :: lists .active := by
      unfold moved
      rw [Function.update_self, List.erase_of_not_mem (hfree .active)]
    refine ⟨m.next, _, moved lists m.next .active, rfl, ⟨?_, fun b => ?_⟩, hactive, hfree .active, rfl, rfl, rfl, rfl⟩
    · have hrings := rings_addHead h.rings hfree .active
      rw [← hinit] at hrings
      exact hrings
    · show _ ↔ b < m.next + 1
      simp only [h.mem_moved, Nat.lt_succ_iff_lt_or_eq, ← h.mem b]
      constructor
      · rintro ⟨k, ⟨rfl, -⟩ | ⟨-, hb⟩⟩
        · exact .inr rfl
        · exact .inl ⟨k, hb⟩
      · rintro (⟨k, hb⟩ | rfl)
        · exact ⟨k, .inr ⟨fun heq => hfree k (heq ▸ hb), hb⟩⟩
        · exact ⟨.active, .inl ⟨rfl, rfl⟩⟩

/-! ## Scanning -/

/-- The timer in a node is run by a scan. -/
def due (m : TimerMem) (cur : Int) (a : Nat) : Bool := (m.timers a).nextTime < cur

/-- The timer in a node is run by a scan, for the only time. -/
def ends (m : TimerMem) (cur : Int) (a : Nat) : Bool := m.due cur a && (m.timers a).loop = 0

/-- A timer after a scan. -/
def afterScan (cur : Int) (t : VfsTimer) : VfsTimer :=
  if t.nextTime < cur then
    { t with args := t.cb t.args, nextTime := if t.loop ≠ 0 then cur + t.spanTime else t.nextTime }
  else t

/-- The lists when a scan has visited some of the nodes in `delay_active` and the rest is left. -/
def scanLists (m : TimerMem) (lists : DelayList → List Nat) (cur : Int) (done rest : List Nat) :
    DelayList → List Nat
  | .home => (done.filter (m.ends cur)).reverse ++ lists .home
  | .active => done.filter (fun a => !m.ends cur a) ++ rest

/-- How far a scan that began in `m₀` has come. -/
structure Scanning (m₀ : TimerMem) (lists : DelayList → List Nat) (cur : Int) (done rest : List Nat) (m : TimerMem) :
    Prop where
  split : lists .active = done ++ rest
  held : Held m (scanLists m₀ lists cur done rest)
  timers : ∀ a, m.timers a = if a ∈ done then afterScan cur (m₀.timers a) else m₀.timers a
  runs : m.runs = m₀.runs ++ (done.filter (m₀.due cur)).map fun a => (m₀.holds a, cur)
  next : m.next = m₀.next
  added : m.added = m₀.added
  holds : m.holds = m₀.holds

variable {m₀ : TimerMem} {done rest : List Nat}

theorem filter_snoc (p : Nat → Bool) (l : List Nat) (a : Nat) :
    (l ++ [a]).filter p = if p a then l.filter p ++ [a] else l.filter p := by
  rw [List.filter_append]
  by_cases hp : p a = true
  · rw [if_pos hp, List.filter_cons_of_pos hp, List.filter_nil]
  · rw [if_neg hp, List.filter_cons_of_neg hp, List.filter_nil, List.append_nil]

/-- A node whose timer has more runs before it stays where it is. -/
theorem scanLists_stay (hends : m₀.ends cur a = false) (k : DelayList) :
    scanLists m₀ lists cur (done ++ [a]) rest k = scanLists m₀ lists cur done (a :: rest) k := by
  cases k with
  | home =>
    show ((done ++ [a]).filter (m₀.ends cur)).reverse ++ _ = (done.filter (m₀.ends cur)).reverse ++ _
    rw [filter_snoc, hends, if_neg Bool.false_ne_true]
  | active =>
    show (done ++ [a]).filter (fun a => !m₀.ends cur a) ++ rest = done.filter (fun a => !m₀.ends cur a) ++ a :: rest
    rw [filter_snoc, hends, Bool.not_false, if_pos rfl, List.append_assoc]
    rfl

/-- A node whose timer is done goes to `delay_home`. -/
theorem scanLists_end (hends : m₀.ends cur a = true) (hhome : a ∉ scanLists m₀ lists cur done (a :: rest) .home)
    (hdone : a ∉ done) (k : DelayList) :
    scanLists m₀ lists cur (done ++ [a]) rest k = moved (scanLists m₀ lists cur done (a :: rest)) a .home k := by
  cases k with
  | home =>
    rw [moved, Function.update_self, List.erase_of_not_mem hhome]
    show ((done ++ [a]).filter (m₀.ends cur)).reverse ++ _ = a :: ((done.filter (m₀.ends cur)).reverse ++ _)
    rw [filter_snoc, hends, if_pos rfl, List.reverse_append]
    rfl
  | active =>
    have hkept : a ∉ done.filter fun a => !m₀.ends cur a := fun hmem => hdone (List.mem_of_mem_filter hmem)
    rw [moved, Function.update_of_ne (by decide : DelayList.active ≠ .home)]
    show (done ++ [a]).filter (fun a => !m₀.ends cur a) ++ rest =
      (done.filter (fun a => !m₀.ends cur a) ++ a :: rest).erase a
    rw [filter_snoc, hends, Bool.not_true, if_neg Bool.false_ne_true, List.erase_append_right _ hkept,
      List.erase_cons_head]

namespace Scanning

/-- **One round** of the loop. -/
theorem round (h : Scanning m₀ lists cur done (a :: rest) m) (hnodup : (lists .active).Nodup) :
    Scanning m₀ lists cur (done ++ [a]) rest (scanBody cur a m) := by
  have hdone : a ∉ done := fun hmem =>
    List.disjoint_of_nodup_append (h.split ▸ hnodup) hmem List.mem_cons_self
  have hsplit : lists .active = (done ++ [a]) ++ rest := by
    rw [h.split, List.append_assoc]
    rfl
  have htimer : m.timers a = m₀.timers a := (h.timers a).trans (if_neg hdone)
  have htimers {f : Nat → VfsTimer} (ha : f a = afterScan cur (m₀.timers a))
      (hf : ∀ b, b ≠ a → f b = m.timers b) (b : Nat) :
      f b = if b ∈ done ++ [a] then afterScan cur (m₀.timers b) else m₀.timers b := by
    by_cases hb : b = a
    · subst hb
      rw [ha, if_pos (List.mem_append_right _ (List.mem_singleton_self b))]
    · rw [hf b hb, h.timers b]
      simp [hb]
  have hactive : a ∈ scanLists m₀ lists cur done (a :: rest) .active := List.mem_append_right _ List.mem_cons_self
  have hhome : a ∉ scanLists m₀ lists cur done (a :: rest) .home := fun hmem => nomatch h.held.apart hmem hactive
  have hlt : a < m.next := h.held.lt hactive
  unfold scanBody
  by_cases hdue : (m₀.timers a).nextTime < cur
  · have hruns : (m.callback a cur).runs =
        m₀.runs ++ ((done ++ [a]).filter (m₀.due cur)).map fun a => (m₀.holds a, cur) := by
      have hyes : m₀.due cur a = true := decide_eq_true hdue
      rw [filter_snoc, if_pos hyes, List.map_append, ← List.append_assoc, ← h.runs, ← h.holds]
      rfl
    have hcalled : (m.callback a cur).timers a = { m₀.timers a with args := (m₀.timers a).cb (m₀.timers a).args } := by
      unfold callback
      rw [htimer]
      exact Function.update_self ..
    have hothers : ∀ b, b ≠ a → (m.callback a cur).timers b = m.timers b := fun b hb => Function.update_of_ne hb ..
    rw [htimer, if_pos hdue]
    dsimp only
    rw [hcalled]
    by_cases hloop : (m₀.timers a).loop ≠ 0
    · rw [if_pos hloop]
      have hends : m₀.ends cur a = false := by
        unfold ends
        rw [decide_eq_false hloop, Bool.and_false]
      refine ⟨hsplit, h.held.congr rfl rfl (scanLists_stay hends), htimers ?_ fun b hb => ?_, hruns, h.next, h.added,
        h.holds⟩
      · show Function.update _ a _ a = _
        rw [Function.update_self, afterScan, if_pos hdue, if_pos hloop]
      · show Function.update _ a _ b = _
        rw [Function.update_of_ne hb, hothers b hb]
    · rw [if_neg hloop]
      have hends : m₀.ends cur a = true := by
        unfold ends due
        rw [decide_eq_true hdue, decide_eq_true (not_not.mp hloop)]
        rfl
      refine ⟨hsplit, ?_, htimers ?_ hothers, hruns, h.next, h.added, h.holds⟩
      · exact (h.held.move hlt .home).congr rfl rfl (scanLists_end hends hhome hdone)
      · show (m.callback a cur).timers a = _
        rw [hcalled, afterScan, if_pos hdue, if_neg hloop]
  · have hends : m₀.ends cur a = false := by
      unfold ends due
      rw [decide_eq_false hdue, Bool.false_and]
    rw [htimer, if_neg hdue]
    refine ⟨hsplit, h.held.congr rfl rfl (scanLists_stay hends), htimers ?_ fun _ _ => rfl, ?_, h.next, h.added,
      h.holds⟩
    · rw [htimer, afterScan, if_neg hdue]
    · rw [filter_snoc, if_neg (by simp [due, hdue]), h.runs]


end Scanning

/-- **A scan** visits every node of `delay_active`. -/
theorem Held.scanDelayTask (h : Held m lists) (cur : Int) :
    ∃ m', m.scanDelayTask cur = some m' ∧ Scanning m lists cur (lists .active) [] m' := by
  have hstart : Scanning m lists cur [] (lists .active) m := by
    refine ⟨rfl, h.congr rfl rfl fun k => ?_, fun _ => rfl, (List.append_nil _).symm, rfl, rfl, rfl⟩
    cases k <;> rfl
  obtain ⟨m', hm', done, rest, hnil, hscan⟩ := forEachSafe_spec links (.head .active)
    (fun node m => match node with
      | .tlist timer => some (scanBody cur timer m)
      | .head _ => none)
    (fun nodes m' => ∃ done rest, nodes = rest.map TimerNode.tlist ∧ Scanning m lists cur done rest m')
    (fun {nodes m'} ⟨done, rest, hnodes, hscan⟩ => by
      have hring := hscan.held.rings.ring .active
      rw [scanLists, List.map_append] at hring
      exact ⟨_, hnodes ▸ hring⟩)
    (fun {node nodes m'} ⟨done, rest, hnodes, hscan⟩ => by
      cases rest with
      | nil => exact nomatch hnodes
      | cons a rest =>
        obtain ⟨rfl, rfl⟩ := List.cons.inj hnodes
        exact ⟨_, rfl, done ++ [a], rest, rfl, hscan.round (h.nodup .active)⟩)
    (m.next + 1) ((lists .active).map .tlist) m (h.length_lt .active) ⟨[], lists .active, rfl, hstart⟩
  obtain rfl := List.map_eq_nil_iff.mp hnil.symm
  have hall : done = lists .active := by rw [hscan.split, List.append_nil]
  refine ⟨m', ?_, hall ▸ hscan⟩
  unfold TimerMem.scanDelayTask
  rw [(h.rings.ring .active).next_head]
  exact hm'

/-! ## Runs -/

variable {i : Nat} {s : Option Int × List Int} {past : List TimerAct}

/-- The memory keeps a timer as it is tracked: as long as it waits, a node in `delay_active` holds it. -/
structure Waits (m : TimerMem) (lists : DelayList → List Nat) (i : Nat) (t : VfsTimer) (s : Option Int × List Int) :
    Prop where
  runs : m.runsOf i = s.2
  waits : ∀ next, s.1 = some next → ∃ a ∈ lists .active, m.holds a = some i ∧ (m.timers a).nextTime = next ∧
    (m.timers a).spanTime = t.spanTime ∧ (m.timers a).loop = t.loop
  done : s.1 = none → ∀ a ∈ lists .active, m.holds a ≠ some i

/-- The memory after some calls. -/
structure Sound (m : TimerMem) (lists : DelayList → List Nat) (past : List TimerAct) : Prop where
  held : Held m lists
  added : m.added = addCount past
  fresh : ∀ {a i}, m.holds a = some i → i < m.added
  ran : ∀ {r i}, r ∈ m.runs → r.1 = some i → i < m.added
  alone : ∀ {a b i}, m.holds a = some i → m.holds b = some i → a = b
  timers : ∀ {before t cur after}, past = before ++ .add t cur :: after →
    Waits m lists (addCount before) t (tracked t cur (scanTimes after))

/-- Another timer is added. -/
theorem Waits.add (h : Waits m lists i t s) {t' : VfsTimer} (hadd : Added m lists t' cur a m' lists')
    (hi : i < m.added) : Waits m' lists' i t s where
  runs := by
    unfold runsOf
    rw [hadd.runs]
    exact h.runs
  waits := fun next hnext => by
    obtain ⟨b, hb, hholds, hrest⟩ := h.waits next hnext
    have hne : b ≠ a := fun heq => hadd.notActive (heq ▸ hb)
    rw [hadd.active, hadd.holds, hadd.timers]
    refine ⟨b, List.mem_cons_of_mem _ hb, ?_⟩
    rw [Function.update_of_ne hne, Function.update_of_ne hne]
    exact ⟨hholds, hrest⟩
  done := fun hnone b hb => by
    rw [hadd.holds]
    rw [hadd.active] at hb
    by_cases hne : b = a
    · rw [hne, Function.update_self]
      exact fun heq => Nat.lt_irrefl _ (Option.some.inj heq ▸ hi)
    · rw [Function.update_of_ne hne]
      exact h.done hnone b ((List.mem_cons.mp hb).resolve_left hne)

/-- The runs of a timer in a scan, when one node of `delay_active` holds it. -/
theorem runsOf_scan (h : Scanning m lists cur (lists .active) [] m') :
    m'.runsOf i = m.runsOf i ++
      ((lists .active).filter fun a => m.due cur a && decide (m.holds a = some i)).map fun _ => cur := by
  unfold runsOf
  rw [h.runs, List.filter_append, List.map_append, List.filter_map, List.map_map, List.filter_filter]
  simp only [Function.comp_def, Bool.and_comm]

/-- The timers are scanned. -/
theorem Waits.scan (h : Waits m lists i t s) (hscan : Scanning m lists cur (lists .active) [] m')
    (hnodup : (lists .active).Nodup) (halone : ∀ {a b}, m.holds a = some i → m.holds b = some i → a = b) :
    Waits m' (scanLists m lists cur (lists .active) []) i t (track t s cur) := by
  have hactive : ∀ b, b ∈ scanLists m lists cur (lists .active) [] .active ↔
      b ∈ lists .active ∧ m.ends cur b = false := by
    intro b
    show b ∈ (lists .active).filter (fun a => !m.ends cur a) ++ [] ↔ _
    rw [List.append_nil, List.mem_filter, Bool.not_eq_true']
  cases hwait : s.1 with
  | none =>
    have hnobody : (lists .active).filter (fun a => m.due cur a && decide (m.holds a = some i)) = [] := by
      refine List.filter_eq_nil_iff.mpr fun a ha => ?_
      simp [h.done hwait a ha]
    rw [track, hwait]
    refine ⟨?_, fun next hnext => ?_, fun _ b hb => ?_⟩
    · rw [runsOf_scan hscan, hnobody, List.map_nil, List.append_nil, h.runs]
    · rw [hwait] at hnext
      exact nomatch hnext
    · rw [hscan.holds]
      exact h.done hwait b ((hactive b).mp hb).1
  | some next =>
    obtain ⟨a, ha, hholds, hnext, hspan, hloop⟩ := h.waits next hwait
    have hdue : m.due cur a = decide (next < cur) := by
      unfold due
      rw [hnext]
    have hother : ∀ b, b ≠ a → m.holds b ≠ some i := fun b hba heq => hba (halone heq hholds)
    have hruns : m'.runsOf i = s.2 ++ if next < cur then [cur] else [] := by
      have hwho : (lists .active).filter (fun b => m.due cur b && decide (m.holds b = some i)) =
          if next < cur then [a] else [] := by
        by_cases hlt : next < cur
        · have hsame : ∀ b ∈ lists .active, (m.due cur b && decide (m.holds b = some i)) = (b == a) := by
            intro b hb
            by_cases hba : b = a
            · simp [hba, hholds, hdue, hlt]
            · simp [hba, hother b hba]
          rw [if_pos hlt, List.filter_congr hsame, List.filter_beq, List.count_eq_one_of_mem hnodup ha]
          rfl
        · rw [if_neg hlt]
          refine List.filter_eq_nil_iff.mpr fun b hb => ?_
          by_cases hba : b = a
          · simp [hba, hdue, hlt]
          · simp [hother b hba]
      rw [runsOf_scan hscan, hwho, h.runs]
      split <;> rfl
    have htimer : m'.timers a = afterScan cur (m.timers a) := (hscan.timers a).trans (if_pos ha)
    rw [track, hwait]
    dsimp only
    by_cases hlt : next < cur
    · rw [if_pos hlt] at hruns ⊢
      refine ⟨hruns, fun next' hnext' => ?_, fun hnone b hb => ?_⟩
      · by_cases hl : t.loop ≠ 0
        · rw [if_pos hl] at hnext'
          have hends : m.ends cur a = false := by
            unfold ends
            rw [decide_eq_false (hloop ▸ hl), Bool.and_false]
          refine ⟨a, (hactive a).mpr ⟨ha, hends⟩, hscan.holds ▸ hholds, ?_⟩
          rw [htimer, afterScan, if_pos (hnext ▸ hlt), if_pos (hloop ▸ hl)]
          exact ⟨hspan ▸ Option.some.inj hnext', hspan, hloop⟩
        · rw [if_neg hl] at hnext'
          exact nomatch hnext'
      · by_cases hl : t.loop ≠ 0
        · rw [if_pos hl] at hnone
          exact nomatch hnone
        · rw [hscan.holds]
          intro heq
          obtain rfl := halone heq hholds
          have hends := ((hactive b).mp hb).2
          unfold ends at hends
          rw [hdue, decide_eq_true hlt, hloop, decide_eq_true (not_not.mp hl)] at hends
          exact nomatch hends
    · rw [if_neg hlt, List.append_nil] at hruns
      rw [if_neg hlt]
      refine ⟨hruns, fun next' hnext' => ?_, fun hnone => ?_⟩
      · rw [hwait] at hnext'
        have hends : m.ends cur a = false := by
          unfold ends
          rw [hdue, decide_eq_false hlt, Bool.false_and]
        refine ⟨a, (hactive a).mpr ⟨ha, hends⟩, hscan.holds ▸ hholds, ?_⟩
        rw [htimer, afterScan, if_neg (hnext ▸ hlt)]
        exact ⟨hnext.trans (Option.some.inj hnext'), hspan, hloop⟩
      · rw [hwait] at hnone
        exact nomatch hnone

theorem addCount_append_add (past : List TimerAct) (t : VfsTimer) (cur : Int) :
    addCount (past ++ [.add t cur]) = addCount past + 1 := by
  unfold addCount
  rw [List.countP_append]
  rfl

theorem addCount_append_scan (past : List TimerAct) (cur : Int) : addCount (past ++ [.scan cur]) = addCount past := by
  unfold addCount
  rw [List.countP_append]
  rfl

theorem addCount_lt {before after : List TimerAct} : addCount before < addCount (before ++ .add t cur :: after) := by
  unfold addCount
  rw [List.countP_append, List.countP_cons_of_pos rfl]
  omega

/-- The last of some calls is the addition of a timer, or comes after it. -/
theorem split_last {before after : List TimerAct} {act : TimerAct}
    (h : past ++ [act] = before ++ .add t cur :: after) :
    (after = [] ∧ before = past ∧ act = .add t cur) ∨
      ∃ after', after = after' ++ [act] ∧ past = before ++ .add t cur :: after' := by
  rcases List.eq_nil_or_concat after with rfl | ⟨after', last, rfl⟩
  · obtain ⟨hpast, hact⟩ := List.append_inj' h rfl
    exact .inl ⟨rfl, hpast.symm, List.singleton_inj.mp hact⟩
  · rw [List.concat_eq_append, ← List.cons_append, ← List.append_assoc] at h
    obtain ⟨hpast, hact⟩ := List.append_inj' h rfl
    exact .inr ⟨after', by rw [List.singleton_inj.mp hact, List.concat_eq_append], hpast⟩

theorem runCalls_concat (m : TimerMem) (acts : List TimerAct) (act : TimerAct) :
    m.runCalls (acts ++ [act]) = (m.runCalls acts).bind fun m => m.step act := by
  unfold runCalls
  rw [List.foldlM_append]
  exact congrArg _ (funext fun m => bind_pure (m.step act))

theorem scanTimes_concat (acts : List TimerAct) (last : Int) :
    scanTimes (acts ++ [.scan last]) = scanTimes acts ++ [last] := by
  unfold scanTimes
  rw [List.filterMap_append]
  rfl

/-- **One call.** -/
theorem Sound.step (h : Sound m lists past) (act : TimerAct) :
    ∃ m' lists', m.step act = some m' ∧ Sound m' lists' (past ++ [act]) := by
  cases act with
  | add t cur =>
    obtain ⟨a, m', lists', hm', hadd⟩ := h.held.addToDelayTask t cur
    have hholds {b i : Nat} (hb : m'.holds b = some i) : b = a ∧ i = m.added ∨ b ≠ a ∧ m.holds b = some i := by
      rw [hadd.holds] at hb
      by_cases hne : b = a
      · rw [hne, Function.update_self] at hb
        exact .inl ⟨hne, (Option.some.inj hb).symm⟩
      · rw [Function.update_of_ne hne] at hb
        exact .inr ⟨hne, hb⟩
    refine ⟨m', lists', hm', hadd.held, ?_, fun {b i} hb => ?_, fun {r i} hr heq => ?_, fun {b b' i} hb hb' => ?_,
      fun {before t' cur' after} hsplit => ?_⟩
    · rw [hadd.added, h.added, addCount_append_add]
    · rw [hadd.added]
      rcases hholds hb with ⟨-, rfl⟩ | ⟨-, hold⟩
      · exact Nat.lt_succ_self _
      · exact Nat.lt_succ_of_lt (h.fresh hold)
    · rw [hadd.added]
      rw [hadd.runs] at hr
      exact Nat.lt_succ_of_lt (h.ran hr heq)
    · rcases hholds hb with ⟨rfl, rfl⟩ | ⟨-, hold⟩
      · rcases hholds hb' with ⟨rfl, -⟩ | ⟨-, hold'⟩
        · rfl
        · exact absurd (h.fresh hold') (Nat.lt_irrefl _)
      · rcases hholds hb' with ⟨-, rfl⟩ | ⟨-, hold'⟩
        · exact absurd (h.fresh hold) (Nat.lt_irrefl _)
        · exact h.alone hold hold'
    · rcases split_last hsplit with ⟨rfl, rfl, hact⟩ | ⟨after', rfl, hpast⟩
      · obtain ⟨rfl, rfl⟩ := TimerAct.add.inj hact
        rw [← h.added]
        refine ⟨?_, fun next hnext => ⟨a, ?_, ?_, ?_⟩, fun hnone => nomatch hnone⟩
        · unfold runsOf
          rw [hadd.runs, List.filter_eq_nil_iff.mpr fun r hr heq => ?_]
          · rfl
          · exact Nat.lt_irrefl _ (h.ran hr (of_decide_eq_true heq))
        · rw [hadd.active]
          exact List.mem_cons_self
        · rw [hadd.holds, Function.update_self]
        · rw [hadd.timers, Function.update_self]
          exact ⟨Option.some.inj hnext, rfl, rfl⟩
      · have hscans : scanTimes (after' ++ [.add t cur]) = scanTimes after' := by
          unfold scanTimes
          rw [List.filterMap_append]
          exact List.append_nil _
        rw [hscans]
        refine (h.timers hpast).add hadd ?_
        rw [h.added, hpast]
        exact addCount_lt
  | scan cur =>
    obtain ⟨m', hm', hscan⟩ := h.held.scanDelayTask cur
    refine ⟨m', _, hm', hscan.held, ?_, fun {b i} hb => ?_, fun {r i} hr heq => ?_, fun {b b' i} hb hb' => ?_,
      fun {before t' cur' after} hsplit => ?_⟩
    · rw [hscan.added, h.added, addCount_append_scan]
    · rw [hscan.holds] at hb
      rw [hscan.added]
      exact h.fresh hb
    · rw [hscan.added]
      rw [hscan.runs] at hr
      rcases List.mem_append.mp hr with hr | hr
      · exact h.ran hr heq
      · obtain ⟨a, -, rfl⟩ := List.mem_map.mp hr
        exact h.fresh heq
    · rw [hscan.holds] at hb hb'
      exact h.alone hb hb'
    · rcases split_last hsplit with ⟨-, -, hact⟩ | ⟨after', rfl, hpast⟩
      · exact nomatch hact
      · rw [scanTimes_concat, tracked_append]
        exact (h.timers hpast).scan hscan (h.held.nodup .active) h.alone

/-- **A run.** -/
theorem sound_run (timers : Nat → VfsTimer) (n : Nat) (acts : List TimerAct) :
    ∃ m lists, (delayTaskInit timers n).runCalls acts = some m ∧ Sound m lists acts := by
  induction acts using List.reverseRecOn with
  | nil =>
    obtain ⟨links, lists, hfold, hrings, hmem⟩ := rings_init
      { links := ⟨id, id⟩, timers := timers, next := n, added := 0, holds := fun _ => none, runs := [] } rfl n
    refine ⟨_, lists, rfl, ?_⟩
    unfold delayTaskInit
    rw [hfold]
    refine ⟨⟨hrings, fun a => ?_⟩, rfl, (nomatch ·), (nomatch ·), (nomatch ·), fun h => ?_⟩
    · simp only [hmem, exists_eq_left]
    · exact absurd h.symm (by simp)
  | append_singleton acts act ih =>
    obtain ⟨m, lists, hm, hsound⟩ := ih
    obtain ⟨m', lists', hm', hsound'⟩ := hsound.step act
    refine ⟨m', lists', ?_, hsound'⟩
    rw [runCalls_concat, hm]
    exact hm'

/-- A node that holds a timer which has had all its runs is in `delay_home`. -/
theorem Waits.home (h : Waits m lists i t s) (hheld : Held m lists) (hnone : s.1 = none) (ha : a < m.next)
    (hholds : m.holds a = some i) : a ∈ lists .home := by
  obtain ⟨k, hk⟩ := (hheld.mem a).mpr ha
  cases k with
  | home => exact hk
  | active => exact absurd hholds (h.done hnone a hk)

/-- **Every timer is run when it is due.** After any calls that add timers and scan, each node is in exactly one of the
two lists and every timer that was added is kept as it should be. -/
theorem timers_kept (timers : Nat → VfsTimer) (n : Nat) (acts : List TimerAct) :
    ∃ m lists, (delayTaskInit timers n).runCalls acts = some m ∧ m.Models lists ∧
      ∀ before t cur after, acts = before ++ .add t cur :: after → Kept m lists (addCount before) t cur after := by
  obtain ⟨m, lists, hrun, hsound⟩ := sound_run timers n acts
  refine ⟨m, lists, hrun, hsound.held.models, fun before t cur after hsplit => ?_⟩
  have hwaits := hsound.timers hsplit
  refine ⟨fun honce => ?_, fun honce hnil => ?_, fun honce hran a ha hholds => ?_,
    fun honce earlier last hlast hfirst hlate => ?_, fun hloop => ?_, fun hloop => ?_⟩
  · rw [hwaits.runs, tracked_once honce]
    cases (scanTimes after).find? (cur + t.spanTime < ·) <;> rfl
  · rw [hwaits.runs, tracked_once honce] at hnil
    rw [tracked_once honce] at hwaits
    cases hfind : (scanTimes after).find? (cur + t.spanTime < ·) with
    | none =>
      rw [hfind] at hwaits
      obtain ⟨a, ha, hholds, -⟩ := hwaits.waits _ rfl
      exact ⟨a, ha, hholds⟩
    | some now =>
      rw [hfind] at hnil
      exact nomatch hnil
  · rw [hwaits.runs, tracked_once honce] at hran
    rw [tracked_once honce] at hwaits
    cases hfind : (scanTimes after).find? (cur + t.spanTime < ·) with
    | none =>
      rw [hfind] at hran
      exact absurd rfl hran
    | some now =>
      rw [hfind] at hwaits
      exact hwaits.home hsound.held rfl ha hholds
  · -- before the last scan the timer was waiting, in a node that is still there
    obtain ⟨m₀, lists₀, hrun₀, hsound₀⟩ := sound_run timers n (before ++ .add t cur :: earlier)
    have hacts : acts = (before ++ .add t cur :: earlier) ++ [.scan last] := by
      rw [hsplit, hlast, List.append_assoc, List.cons_append]
    rw [hacts, runCalls_concat, hrun₀] at hrun
    obtain ⟨m₁, hm₁, hscan⟩ := hsound₀.held.scanDelayTask last
    obtain rfl : m₁ = m := Option.some.inj (hm₁.symm.trans hrun)
    have hwaits₀ := hsound₀.timers rfl
    rw [tracked_once honce, hfirst] at hwaits₀
    obtain ⟨a, ha, hholds, -⟩ := hwaits₀.waits _ rfl
    rw [hlast, scanTimes_concat, tracked_append, tracked_once honce, hfirst] at hwaits
    have hdone : (track t (some (cur + t.spanTime), []) last).1 = none := by
      unfold track
      dsimp only
      rw [if_pos hlate, if_neg (not_not.mpr honce)]
    have hlt : a < m₁.next := hscan.next ▸ hsound₀.held.lt ha
    have hstill : m₁.holds a = some (addCount before) := hscan.holds ▸ hholds
    exact ⟨a, hwaits.home hsound.held hdone hlt hstill, hstill⟩
  · obtain ⟨⟨last, -, hwait⟩, -⟩ := tracked_loop hloop cur (scanTimes after)
    obtain ⟨a, ha, hholds, -⟩ := hwaits.waits _ hwait
    exact ⟨a, ha, hholds⟩
  · rw [hwaits.runs]
    exact (tracked_loop hloop cur (scanTimes after)).2

end TimerMem

end VfsOss
