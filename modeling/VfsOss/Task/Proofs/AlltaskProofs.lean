import VfsOss.Task.Alltask
import Mathlib.Data.List.FinRange

/-!
# Proofs: the table of all tasks behaves as one list

Each chain holds the records of the list whose keys hash to it, in the order of the list, so the first match in the
chain of a key is the first match in the list.
-/

namespace VfsOss

open CLib

variable {m m' : AlltaskMem} {s s' : FlatTasks} {fname : Bytes} {idx count : Int}

/-- The key of a record decides its chain. -/
theorem Tasklist.KeyEq.hashIndex {t t' : Tasklist} (h : t.KeyEq t') : t.hashIndex = t'.hashIndex := by
  unfold Tasklist.hashIndex
  rw [h.1, h.2.1, h.2.2]

/-- A record with the key that is searched for is in the chain that is searched. -/
theorem hashIndex_of_sameKey {t : Tasklist} (h : sameKey fname idx count t = true) :
    t.hashIndex = getVfsTaskHash fname idx count := by
  unfold sameKey at h
  simp only [Bool.and_eq_true, decide_eq_true_eq] at h
  unfold Tasklist.hashIndex
  rw [h.1.1, h.1.2, h.2]

namespace AlltaskMem

/-- The records of a list that are in one chain. -/
abbrev chain (s : FlatTasks) (b : Fin 16) : List Nat := s.order.filter fun a => (s.tasks a).hashIndex = b

theorem hlist_ne_head (task : Nat) (b : Fin 16) : HashNode.hlist task ≠ .head b := nofun

theorem map_hlist_erase (l : List Nat) (a : Nat) :
    (l.map HashNode.hlist).erase (.hlist a) = (l.erase a).map .hlist := by
  rw [List.map_erase fun a b h => HashNode.hlist.inj h]

theorem filter_erase {l : List Nat} (h : l.Nodup) (a : Nat) (p : Nat → Bool) :
    (l.erase a).filter p = (l.filter p).erase a := by
  rw [h.erase_eq_filter, (h.filter p).erase_eq_filter, List.filter_comm]

/-- The record a search ends with at a node. -/
def found (m : AlltaskMem) (body : Tasklist → Bool) : HashNode → Option Nat
  | .hlist task0 => if body (m.tasks task0) then some task0 else none
  | .head _ => none

/-- **A search** looks at the records of its chain one after the other. -/
theorem search_ring {b : Fin 16} {body : Tasklist → Bool} {xs : List Nat}
    (hring : Ring m.links (.head b) (xs.map .hlist)) (hlen : (xs.map HashNode.hlist).length < m.records + 1) :
    m.search b body = some (xs.find? fun a => body (m.tasks a)) := by
  have hguard : m.found body ∘ HashNode.hlist = Option.guard fun a => body (m.tasks a) := by
    funext a
    rfl
  unfold AlltaskMem.search
  rw [findSafe_spec (f := m.found body) hring (fun x hx => ?_) hlen, List.findSome?_map, hguard,
    ← List.find?_eq_findSome?_guard]
  obtain ⟨a, -, rfl⟩ := List.mem_map.mp hx
  rfl

theorem models_init (tasks : Nat → Tasklist) (records : Nat) : (init tasks records).Models ⟨[], tasks⟩ where
  rings := rings_empty fun h => HashNode.head.inj h
  tasks := rfl
  nodup := List.nodup_nil
  exist := fun _ h => absurd h List.not_mem_nil

namespace Models

/-- A chain is not longer than there are records. -/
theorem length_chain (h : m.Models s) (b : Fin 16) : ((chain s b).map HashNode.hlist).length < m.records + 1 := by
  rw [List.length_map, Nat.lt_succ_iff]
  exact (List.length_filter_le ..).trans (length_le_of_nodup h.nodup h.exist)

/-! ## Searching -/

/-- **A search** comes to the latest record that matches, when all that match are in the chain. -/
theorem search (h : m.Models s) {b : Fin 16} {body : Tasklist → Bool}
    (hbody : ∀ t, body t = true → t.hashIndex = b) :
    m.search b body = some (s.order.find? fun a => body (s.tasks a)) := by
  have hring : Ring m.links (.head b) ((chain s b).map .hlist) := h.rings.ring b
  rw [search_ring hring (h.length_chain b), h.tasks, List.find?_filter]
  congr 2
  funext a
  by_cases ha : body (s.tasks a) = true
  · simp [ha, hbody _ ha]
  · simp [ha]

theorem search_key (h : m.Models s) :
    m.search (getVfsTaskHash fname idx count) (sameKey fname idx count) = some (s.find fname idx count) :=
  h.search fun _ => hashIndex_of_sameKey

/-! ## The list after a call -/

/-- What other code does to the records does not matter as long as the keys of those in the list stay. -/
theorem change (h : m.Models s) {tasks : Nat → Tasklist} (hkeys : ∀ a ∈ s.order, (tasks a).KeyEq (s.tasks a)) :
    Models { m with tasks := tasks } { s with tasks := tasks } where
  rings := h.rings.congr fun b =>
    congrArg _ (List.filter_congr fun a ha => by rw [(hkeys a ha).hashIndex])
  tasks := rfl
  nodup := h.nodup
  exist := h.exist

/-- A record taken out of the list. -/
theorem del (h : m.Models s) (a : Nat) : (m.del a).Models { s with order := s.order.erase a } where
  rings := (h.rings.listDelInit (hlist_ne_head a)).congr fun b => by
    rw [map_hlist_erase, filter_erase h.nodup]
  tasks := h.tasks
  nodup := h.nodup.erase a
  exist := fun b hb => h.exist b (List.mem_of_mem_erase hb)

/-- **Adding** a record makes it the latest, wherever it was. -/
theorem addTaskToAlltask (h : m.Models s) {task : Nat} (hlt : task < m.records) :
    (m.addTaskToAlltask task).Models { s with order := task :: s.order.erase task } where
  rings := (h.rings.moveHead (m.tasks task).hashIndex (hlist_ne_head task)).congr fun b => by
    rw [h.tasks]
    by_cases hb : b = (s.tasks task).hashIndex
    · subst hb
      rw [Function.update_self, map_hlist_erase, List.filter_cons_of_pos (by simp), filter_erase h.nodup]
      rfl
    · rw [Function.update_of_ne hb, map_hlist_erase, List.filter_cons_of_neg (by simpa using Ne.symm hb),
        filter_erase h.nodup]
  tasks := h.tasks
  nodup := List.nodup_cons.mpr ⟨h.nodup.not_mem_erase, h.nodup.erase task⟩
  exist := fun b hb => by
    rcases List.mem_cons.mp hb with rfl | hb
    · exact hlt
    · exact h.exist b (List.mem_of_mem_erase hb)

end Models

/-! ## The scan for timeouts -/

variable {timeout now : Int} {cb : TimeoutTask} {visited : List Nat} {r r' : AlltaskMem × List Nat}

/-- How far a scan of the list `s` has come: `visited` are the records it has looked at. The callback was called with
those of them that were due; the other records of the list are still there, with the keys and the start times they
had. -/
structure Scanned (s : FlatTasks) (timeout now : Int) (cb : TimeoutTask) (visited : List Nat)
    (r : AlltaskMem × List Nat) : Prop where
  calls : r.2 = (visited.filter fun a => (s.tasks a).due timeout now).reverse
  models : r.1.Models ⟨s.order.filter fun a => a ∉ r.2, FlatTasks.callbacks cb s.tasks r.2⟩
  same : ∀ a ∈ s.order, a ∉ r.2 →
    (r.1.tasks a).KeyEq (s.tasks a) ∧ (r.1.tasks a).base.stime = (s.tasks a).base.stime

namespace Scanned

theorem due_eq (h : Scanned s timeout now cb visited r) {a : Nat} (ha : a ∈ s.order) (hnew : a ∉ r.2) :
    (r.1.tasks a).due timeout now = (s.tasks a).due timeout now := by
  unfold Tasklist.due
  rw [(h.same a ha hnew).2]

theorem notMem_calls (h : Scanned s timeout now cb visited r) {a : Nat} (hnew : a ∉ visited) : a ∉ r.2 := by
  rw [h.calls, List.mem_reverse]
  exact fun hmem => hnew (List.mem_of_mem_filter hmem)

/-- **One round** of the loop, at a record of the list. -/
theorem round (h : Scanned s timeout now cb visited r) (hcb : (AlltaskOp.timeout timeout now cb).Allowed r.1.records s)
    {a : Nat} (ha : a ∈ s.order) (hnew : a ∉ visited) :
    Scanned s timeout now cb (visited ++ [a]) (timeoutBody timeout now cb a r) := by
  have hcalls := h.notMem_calls hnew
  unfold timeoutBody
  rw [h.due_eq ha hcalls]
  by_cases hdue : (s.tasks a).due timeout now = true
  · rw [if_pos hdue]
    have herase : (s.order.filter fun b => b ∉ r.2).erase a = s.order.filter fun b => b ∉ a :: r.2 := by
      rw [h.models.nodup.erase_eq_filter, List.filter_filter]
      refine List.filter_congr fun b _ => ?_
      by_cases hb : b = a
      · simp [hb]
      · simp [hb]
    have htasks : r.1.tasks = FlatTasks.callbacks cb s.tasks r.2 := h.models.tasks
    have hkept : ∀ b ∈ s.order, b ∉ a :: r.2 → (cb (a :: r.2) r.1.tasks b).KeyEq (r.1.tasks b) ∧
        (cb (a :: r.2) r.1.tasks b).base.stime = (r.1.tasks b).base.stime :=
      fun b hb hout => hcb (a :: r.2) r.1.tasks b hb hout
    refine ⟨?_, ?_, fun b hb hout => ?_⟩
    · show a :: r.2 = _
      rw [h.calls, List.filter_append, List.filter_cons_of_pos (p := fun a => (s.tasks a).due timeout now) hdue,
        List.reverse_append]
      rfl
    · show Models _ ⟨s.order.filter fun b => b ∉ a :: r.2, cb (a :: r.2) (FlatTasks.callbacks cb s.tasks r.2)⟩
      rw [← herase, ← htasks]
      refine (h.models.del a).change fun b hb => ?_
      · change b ∈ (s.order.filter fun b => b ∉ r.2).erase a at hb
        rw [herase, List.mem_filter, decide_eq_true_eq] at hb
        rw [← htasks]
        exact (hkept b hb.1 hb.2).1
    · obtain ⟨hkey, hstime⟩ := h.same b hb fun hmem => hout (List.mem_cons_of_mem _ hmem)
      obtain ⟨hkey', hstime'⟩ := hkept b hb hout
      exact ⟨⟨hkey'.1.trans hkey.1, hkey'.2.1.trans hkey.2.1, hkey'.2.2.trans hkey.2.2⟩, hstime'.trans hstime⟩
  · rw [if_neg hdue]
    refine ⟨?_, h.models, h.same⟩
    rw [List.filter_append, List.filter_cons_of_neg (p := fun a => (s.tasks a).due timeout now) hdue,
      List.filter_nil, List.append_nil]
    exact h.calls

/-- What is left of a chain. -/
theorem chain_eq (h : Scanned s timeout now cb visited r) (b : Fin 16) :
    chain ⟨s.order.filter fun a => a ∉ r.2, FlatTasks.callbacks cb s.tasks r.2⟩ b =
      (chain s b).filter fun a => a ∉ r.2 := by
  have htasks : r.1.tasks = FlatTasks.callbacks cb s.tasks r.2 := h.models.tasks
  rw [chain, chain, List.filter_filter, List.filter_filter]
  refine List.filter_congr fun a ha => ?_
  dsimp only
  by_cases hcalled : a ∈ r.2
  · simp [hcalled]
  · rw [← htasks, (h.same a ha hcalled).1.hashIndex, Bool.and_comm]

/-- **A walk** over a chain whose records were not visited before. -/
theorem walk (h : Scanned s timeout now cb visited r) (hs : s.order.Nodup)
    (hcb : (AlltaskOp.timeout timeout now cb).Allowed r.1.records s) {b : Fin 16}
    (hnew : ∀ a ∈ chain s b, a ∉ visited) :
    ∃ r', timeoutChain timeout now cb r b = some r' ∧ Scanned s timeout now cb (visited ++ chain s b) r' := by
  have hchain : (chain s b).Nodup := hs.filter _
  have hring {done todo : List Nat} {r' : AlltaskMem × List Nat} (hsplit : chain s b = done ++ todo)
      (h' : Scanned s timeout now cb (visited ++ done) r') :
      Ring r'.1.links (.head b) ((done.filter fun a => a ∉ r'.2).map .hlist ++ todo.map .hlist) := by
    have hleft : todo.filter (fun a => a ∉ r'.2) = todo := by
      refine List.filter_eq_self.mpr fun a ha => decide_eq_true (h'.notMem_calls fun hmem => ?_)
      rcases List.mem_append.mp hmem with hmem | hmem
      · exact hnew a (hsplit ▸ List.mem_append_right _ ha) hmem
      · exact List.disjoint_of_nodup_append (hsplit ▸ hchain) hmem ha
    have hr := h'.models.rings.ring b
    rw [← List.map_append, ← hleft, ← List.filter_append, ← hsplit, ← h'.chain_eq]
    exact hr
  have hstart : r.1.links.next (.head b) = ((chain s b).map HashNode.hlist).head?.getD (.head b) :=
    (hring (List.nil_append _).symm (by rwa [List.append_nil])).next_head
  have hlen : ((chain s b).map HashNode.hlist).length < r.1.records + 1 := by
    have hle := h.models.length_chain b
    rwa [h.chain_eq, List.filter_eq_self.mpr fun a ha => decide_eq_true (h.notMem_calls (hnew a ha))] at hle
  have hloop : ∀ body : HashNode → AlltaskMem × List Nat → Option (AlltaskMem × List Nat),
      (∀ a r, body (.hlist a) r = some (timeoutBody timeout now cb a r)) →
      ∃ r', forEachSafe (fun r : AlltaskMem × List Nat => r.1.links) (.head b) body (r.1.records + 1)
        (((chain s b).map HashNode.hlist).head?.getD (.head b))
        (r.1.links.next (((chain s b).map HashNode.hlist).head?.getD (.head b))) r = some r' ∧
        Scanned s timeout now cb (visited ++ chain s b) r' := by
    intro body hbody
    obtain ⟨r', hr', done, todo, hsplit, hnil, hscanned⟩ := forEachSafe_spec
      (fun r : AlltaskMem × List Nat => r.1.links) (.head b) body
      (fun rest r' => ∃ done todo, chain s b = done ++ todo ∧ rest = todo.map HashNode.hlist ∧
        Scanned s timeout now cb (visited ++ done) r')
      (by
        rintro rest r' ⟨done, todo, hsplit, hrest, h'⟩
        exact ⟨_, hrest ▸ hring hsplit h'⟩)
      (by
        rintro x rest r' ⟨done, todo, hsplit, hrest, h'⟩
        cases todo with
        | nil => cases hrest
        | cons a todo =>
          obtain ⟨rfl, rfl⟩ := List.cons.inj hrest
          have hmem : a ∈ chain s b := hsplit ▸ List.mem_append_right _ List.mem_cons_self
          refine ⟨_, hbody a r', done ++ [a], todo, by rw [hsplit, List.append_assoc]; rfl, rfl, ?_⟩
          rw [← List.append_assoc]
          refine h'.round hcb (List.mem_of_mem_filter hmem) fun hvisited => ?_
          rcases List.mem_append.mp hvisited with hvisited | hdone
          · exact hnew a hmem hvisited
          · exact List.disjoint_of_nodup_append (hsplit ▸ hchain) hdone List.mem_cons_self)
      (r.1.records + 1) ((chain s b).map .hlist) r hlen ⟨[], chain s b, rfl, rfl, by rwa [List.append_nil]⟩
    obtain rfl := List.map_eq_nil_iff.mp hnil.symm
    rw [List.append_nil] at hsplit
    exact ⟨r', hr', hsplit ▸ hscanned⟩
  unfold timeoutChain
  rw [hstart]
  exact hloop _ fun _ _ => rfl

/-- **The loop over the chains.** -/
theorem chains (hs : s.order.Nodup) (hcb : ∀ n, (AlltaskOp.timeout timeout now cb).Allowed n s) (bs : List (Fin 16))
    (hbs : bs.Nodup) (h : Scanned s timeout now cb visited r) (hnew : ∀ b ∈ bs, ∀ a ∈ chain s b, a ∉ visited) :
    ∃ r', bs.foldlM (timeoutChain timeout now cb) r = some r' ∧
      Scanned s timeout now cb (visited ++ bs.flatMap (chain s)) r' := by
  induction bs generalizing visited r with
  | nil => exact ⟨r, rfl, by rwa [List.flatMap_nil, List.append_nil]⟩
  | cons b bs ih =>
    obtain ⟨hb, hbs⟩ := List.nodup_cons.mp hbs
    obtain ⟨r₁, hr₁, h₁⟩ := h.walk hs (hcb _) (hnew b List.mem_cons_self)
    obtain ⟨r', hr', h'⟩ := ih hbs h₁ fun b' hb' a ha hmem => by
      rcases List.mem_append.mp hmem with hmem | hmem
      · exact hnew b' (List.mem_cons_of_mem _ hb') a ha hmem
      · have heq : b' = b :=
          (of_decide_eq_true (List.mem_filter.mp ha).2).symm.trans (of_decide_eq_true (List.mem_filter.mp hmem).2)
        exact hb (heq ▸ hb')
    refine ⟨r', ?_, by rwa [List.flatMap_cons, ← List.append_assoc]⟩
    rw [List.foldlM_cons, hr₁]
    exact hr'

end Scanned

/-- The chains together hold the list. -/
theorem perm_chains (hs : s.order.Nodup) : ((List.finRange 16).flatMap (chain s)).Perm s.order := by
  have hnodup : ((List.finRange 16).flatMap (chain s)).Nodup := by
    refine List.nodup_flatMap.mpr ⟨fun b _ => hs.filter _, ?_⟩
    refine (List.nodup_finRange 16).imp fun {b b'} hne a ha ha' => hne ?_
    exact (of_decide_eq_true (List.mem_filter.mp ha).2).symm.trans (of_decide_eq_true (List.mem_filter.mp ha').2)
  refine (List.perm_ext_iff_of_nodup hnodup hs).mpr fun a => ?_
  rw [List.mem_flatMap]
  constructor
  · rintro ⟨b, -, ha⟩
    exact List.mem_of_mem_filter ha
  · intro ha
    exact ⟨(s.tasks a).hashIndex, List.mem_finRange _, List.mem_filter.mpr ⟨ha, decide_eq_true rfl⟩⟩

/-- **The scan for timeouts** takes out the records that are due, and calls the callback once for each. -/
theorem Models.getTimeoutTaskFromAlltask (h : m.Models s)
    (hcb : ∀ n, (AlltaskOp.timeout timeout now cb).Allowed n s) :
    ∃ r, m.getTimeoutTaskFromAlltask timeout now cb = some r ∧
      r.2.Perm (s.order.filter fun a => (s.tasks a).due timeout now) ∧
      r.1.Models ⟨s.order.filter fun a => !(s.tasks a).due timeout now, FlatTasks.callbacks cb s.tasks r.2⟩ := by
  have hstart : Scanned s timeout now cb [] (m, []) := by
    refine ⟨rfl, ?_, fun a _ _ => ?_⟩
    · rw [List.filter_eq_self.mpr fun a _ => decide_eq_true List.not_mem_nil]
      exact h
    · rw [h.tasks]
      exact ⟨⟨rfl, rfl, rfl⟩, rfl⟩
  obtain ⟨r, hr, hscanned⟩ := hstart.chains h.nodup hcb (List.finRange 16) (List.nodup_finRange 16)
    fun _ _ _ _ => List.not_mem_nil
  have hperm := perm_chains h.nodup
  have hcalls : r.2.Perm (s.order.filter fun a => (s.tasks a).due timeout now) := by
    rw [hscanned.calls]
    exact (List.reverse_perm _).trans (hperm.filter _)
  have hleft : s.order.filter (fun a => a ∉ r.2) = s.order.filter fun a => !(s.tasks a).due timeout now := by
    refine List.filter_congr fun a ha => ?_
    have hmem : a ∈ r.2 ↔ (s.tasks a).due timeout now = true := by
      rw [hcalls.mem_iff, List.mem_filter]
      exact and_iff_right ha
    by_cases hdue : (s.tasks a).due timeout now = true
    · simp [hmem, hdue]
    · simp [hmem, hdue]
  exact ⟨r, hr, hcalls, hleft ▸ hscanned.models⟩

/-! ## Runs -/

/-- **One call** comes back with what the list gives. -/
theorem Models.step (h : m.Models s) {op : AlltaskOp} (hallowed : op.Allowed m.records s) :
    ∃ r m' s', m.step op = some (r, m') ∧ s.Step op r s' ∧ m'.Models s' := by
  cases op with
  | other change =>
    refine ⟨_, _, _, rfl, .other change, ?_⟩
    rw [h.tasks]
    exact h.change hallowed
  | add task => exact ⟨_, _, _, rfl, .add task, h.addTaskToAlltask hallowed⟩
  | check fname idx count expire =>
    have hsearch : m.search (getVfsTaskHash fname idx count)
        (fun task0 => sameKey fname idx count task0 && task0.base.expire = expire) =
        some (s.order.find? fun a => sameKey fname idx count (s.tasks a) && (s.tasks a).base.expire = expire) :=
      h.search fun t ht => hashIndex_of_sameKey (Bool.and_eq_true_iff.mp ht).1
    cases hfind : s.order.find? fun a => sameKey fname idx count (s.tasks a) && (s.tasks a).base.expire = expire with
    | none =>
      have hnone := List.find?_eq_none.mp hfind
      refine ⟨⟨-1, none, []⟩, m, s, ?_, .checkNone fun a ha hkey hexpire => hnone a ha ?_, h⟩
      · rw [AlltaskMem.step, checkTaskFromAlltask, hsearch, hfind]
        rfl
      · rw [hkey, decide_eq_true hexpire]
        rfl
    | some a =>
      have hmatch : (sameKey fname idx count (s.tasks a) && decide ((s.tasks a).base.expire = expire)) = true :=
        List.find?_some (p := fun a => sameKey fname idx count (s.tasks a) && (s.tasks a).base.expire = expire) hfind
      obtain ⟨hkey, hexpire⟩ := Bool.and_eq_true_iff.mp hmatch
      have hmem := List.mem_of_find?_eq_some hfind
      refine ⟨⟨0, none, []⟩, m, s, ?_, .checkFound hmem hkey (of_decide_eq_true hexpire), h⟩
      rw [AlltaskMem.step, checkTaskFromAlltask, hsearch, hfind]
      rfl
  | set fname idx count expire =>
    cases hfind : s.find fname idx count with
    | none =>
      refine ⟨⟨-1, none, []⟩, m, s, ?_, .setNone hfind, h⟩
      rw [AlltaskMem.step, setTaskFromAlltask, h.search_key, hfind]
      rfl
    | some a =>
      refine ⟨⟨0, none, []⟩, _, _, ?_, .setFound hfind, h.change fun b _ => ?_⟩
      · rw [AlltaskMem.step, setTaskFromAlltask, h.search_key, hfind, ← h.tasks]
        rfl
      · by_cases hb : b = a
        · subst hb
          rw [Function.update_self]
          exact ⟨rfl, rfl, rfl⟩
        · rw [Function.update_of_ne hb]
          exact ⟨rfl, rfl, rfl⟩
  | get filename idx count =>
    cases hfind : s.find filename idx count with
    | none =>
      refine ⟨⟨-1, none, []⟩, m, s, ?_, .getNone hfind, h⟩
      rw [AlltaskMem.step, getTaskFromAlltask, h.search_key, hfind]
      rfl
    | some a =>
      refine ⟨⟨0, some a, []⟩, _, _, ?_, .getFound hfind, h.del a⟩
      rw [AlltaskMem.step, getTaskFromAlltask, h.search_key, hfind]
      rfl
  | timeout timeout now cb =>
    obtain ⟨r, hr, hcalls, hmodels⟩ := h.getTimeoutTaskFromAlltask fun _ => hallowed
    refine ⟨⟨-1, none, r.2⟩, r.1, _, ?_, .timeout hcalls, hmodels⟩
    rw [AlltaskMem.step, hr]
    rfl

/-- The table keeps behaving as the list it holds. -/
theorem Models.behaves (h : m.Models s) (ops : List AlltaskOp) : Behaves m s ops := by
  induction ops generalizing m s with
  | nil => exact h
  | cons op ops ih =>
    refine ⟨h, fun hallowed => ?_⟩
    obtain ⟨r, m', s', hrun, hstep, h'⟩ := h.step hallowed
    exact ⟨r, m', s', hrun, hstep, ih h'⟩

/-- **The sixteen chains behave as one list of records.** -/
theorem alltask_behaves (tasks : Nat → Tasklist) (records : Nat) (ops : List AlltaskOp) :
    Behaves (init tasks records) ⟨[], tasks⟩ ops := (models_init tasks records).behaves ops

end AlltaskMem

end VfsOss
