import Mathlib.Data.List.Count
import VfsOss.Net.Scan
import VfsOss.Net.Proofs.PendProofs

/-!
# Proofs: a scan calls every deferred connection once

The pointers follow the lists: each function does to the rings what its counterpart does to the lists. The calls that a
round makes put off its own connection only, and never into the list that is walked, so the saved next pointer stays
good and the walk comes to what was in the list when it began.
-/

namespace VfsOss

open CLib

variable {maxfds x : Nat} {d : Dir} {t flag : Bool} {m m' m₀ : PendMem} {s s' s₀ : Pend} {rest : List Nat}
variable {send : SendCall} {call : RecvCall} {io : Nat → RecvCall}

/-! ## The pointers follow the lists -/

/-- The heads, as the lists are numbered. -/
abbrev pendHead (k : Dir × Bool) : PendNode := .head k.1 k.2

/-- A slot holds its own descriptor or none. -/
def OwnFd (s : Pend) (x : Nat) : Prop := (s.acon x).fd = x ∨ (s.acon x).fd = -1

theorem link_ne_pendHead (d : Dir) (x : Nat) (k : Dir × Bool) : PendNode.link d x ≠ pendHead k := nofun

/-- The nodes of a list, without those of one connection. -/
theorem map_link_erase (l : List Nat) (d d' : Dir) (x : Nat) :
    (l.map (PendNode.link d')).erase (.link d x) = (if d' = d then l.erase x else l).map (.link d') := by
  by_cases hd : d' = d
  · subst hd
    rw [if_pos rfl, List.map_erase fun a b h => (PendNode.link.inj h).2]
  · rw [if_neg hd]
    refine List.erase_of_not_mem fun hmem => ?_
    obtain ⟨y, -, hy⟩ := List.mem_map.mp hmem
    exact hd (PendNode.link.inj hy).1

/-- What the lists and the descriptors do not show does not matter. -/
theorem PendMem.Models.congr (h : m.Models maxfds s) (hlinks : m'.links = m.links) (hfd : m'.fd = m.fd)
    (hlists : ∀ k, s'.lists k = s.lists k) (hacon : ∀ i, (s'.acon i).fd = (s.acon i).fd) :
    m'.Models maxfds s' := by
  refine ⟨?_, fun i => ?_, fun {d i} hlk => ?_⟩
  · rw [hlinks]
    exact h.rings.congr fun k => by rw [hlists]
  · rw [hfd, hacon]
    exact h.fd i
  · rw [hacon]
    have hpend : s'.pendList d = s.pendList d := hlists (d, false)
    have htmp : s'.tmpList d = s.tmpList d := hlists (d, true)
    refine h.named (d := d) ?_
    unfold Pend.Linked at hlk ⊢
    rwa [← hpend, ← htmp]

theorem linked_iff_lists : s.Linked d x ↔ ∃ t, x ∈ s.lists (d, t) := by
  constructor
  · rintro (h | h)
    · exact ⟨false, h⟩
    · exact ⟨true, h⟩
  · rintro ⟨t, h⟩
    cases t with
    | false => exact .inl h
    | true => exact .inr h

theorem PendMem.Models.nodup (h : m.Models maxfds s) (k : Dir × Bool) : (s.lists k).Nodup :=
  (h.rings.nodup k).of_map _

/-- A slot is in one list of a direction. -/
theorem PendMem.Models.apart (h : m.Models maxfds s) (hx : x ∈ s.pendList d) : x ∉ s.tmpList d := by
  intro hx'
  have hmain : PendNode.link d x ∈ (s.lists (d, false)).map (.link d) := List.mem_map_of_mem hx
  have htmp : PendNode.link d x ∈ (s.lists (d, true)).map (.link d) := List.mem_map_of_mem hx'
  have heq : (d, false) = (d, true) := h.rings.apart hmain htmp
  cases heq

/-- The lists after `add_to_pend`. -/
theorem lists_addToPend (d : Dir) (t : Bool) (x : Nat) (s : Pend) (k : Dir × Bool) :
    (s.addToPend d t x).lists k =
      if k = (d, t) then (s.lists k).erase x ++ [x] else if k.1 = d then (s.lists k).erase x else s.lists k := by
  obtain ⟨d', t'⟩ := k
  by_cases hd : d' = d
  · subst hd
    cases t <;> cases t' <;> simp [Pend.lists, Pend.addToPend]
  · cases t' <;> simp [Pend.lists, Pend.addToPend, hd]

theorem fd_addToPend (d : Dir) (t : Bool) (x : Nat) (s : Pend) (i : Nat) :
    ((s.addToPend d t x).acon i).fd = (s.acon i).fd := by
  by_cases hi : i = x
  · subst hi
    rw [addToPend_acon_self]
  · rw [addToPend_acon_of_ne hi]

theorem linked_addToPend_iff {i : Nat} {d₁ : Dir} :
    (s.addToPend d₁ t x).Linked d i ↔ s.Linked d i ∨ d = d₁ ∧ i = x := by
  refine ⟨linked_addToPend, fun h => linked_iff_lists.mpr ?_⟩
  by_cases hnew : d = d₁ ∧ i = x
  · obtain ⟨rfl, rfl⟩ := hnew
    exact ⟨t, by simp [lists_addToPend]⟩
  · obtain ⟨t', ht'⟩ := linked_iff_lists.mp (h.resolve_right hnew)
    refine ⟨t', ?_⟩
    rw [lists_addToPend]
    split_ifs with hk hd
    · have hne : i ≠ x := fun heq => hnew ⟨congrArg Prod.fst hk, heq⟩
      exact List.mem_append_left _ ((List.mem_erase_of_ne hne).mpr ht')
    · exact (List.mem_erase_of_ne fun heq => hnew ⟨hd, heq⟩).mpr ht'
    · exact ht'

/-- A node goes to the end of a list. -/
theorem PendMem.Models.addToPend (h : m.Models maxfds s) (d : Dir) (t : Bool) (hlt : x < maxfds) (hx : OwnFd s x) :
    (m.addToPend d t x).Models maxfds (s.addToPend d t x) := by
  refine ⟨?_, fun i => ?_, fun {d' i} hlk => ?_⟩
  · refine (h.rings.move (d, t) (link_ne_pendHead d x)).congr fun k => ?_
    rw [lists_addToPend]
    by_cases hk : k = (d, t)
    · subst hk
      rw [Function.update_self, if_pos rfl, map_link_erase, if_pos rfl, List.map_append]
      rfl
    · rw [Function.update_of_ne hk, if_neg hk, map_link_erase]
  · exact (h.fd i).trans (fd_addToPend d t x s i).symm
  · rw [fd_addToPend]
    rcases linked_addToPend hlk with hlk | ⟨-, rfl⟩
    · exact h.named hlk
    · exact ⟨hlt, hx⟩

/-- A node is deleted from the list it is at the front of. -/
theorem PendMem.Models.unlink (h : m.Models maxfds s) (hp : s.pendList d = x :: rest) :
    (m.del d x).Models maxfds (s.unlink d x rest) := by
  have hlists : ∀ k, (s.unlink d x rest).lists k = if k.1 = d then (s.lists k).erase x else s.lists k := by
    rintro ⟨d', t'⟩
    by_cases hd : d' = d
    · subst hd
      rw [if_pos rfl]
      cases t' with
      | false =>
        show Function.update s.pendList d' rest d' = (s.pendList d').erase x
        rw [Function.update_self, hp, List.erase_cons_head]
      | true =>
        have hnot : x ∉ s.tmpList d' := h.apart (hp ▸ List.mem_cons_self ..)
        exact (List.erase_of_not_mem hnot).symm
    · rw [if_neg hd]
      cases t' with
      | false => exact Function.update_of_ne hd ..
      | true => rfl
  refine ⟨(h.rings.listDelInit (link_ne_pendHead d x)).congr fun k => ?_, h.fd,
    fun hlk => h.named (unlink_linked hp hlk)⟩
  rw [hlists, map_link_erase]

theorem lists_doClose (fd : Int) (s : Pend) (k : Dir × Bool) : (s.doClose maxfds fd).lists k = s.lists k := by
  unfold Pend.doClose
  dsimp only
  split <;> [split; skip] <;> rfl

theorem PendMem.Models.doClose (h : m.Models maxfds s) (fd : Int) :
    (m.doClose maxfds fd).Models maxfds (s.doClose maxfds fd) := by
  unfold PendMem.doClose Pend.doClose
  split
  · rw [h.fd]
    dsimp only
    split
    · exact h
    · have hfd : ∀ i, Function.update m.fd fd.toNat (-1) i =
          ((s.setConn fd.toNat { s.acon fd.toNat with fd := -1 }).acon i).fd := by
        intro i
        by_cases hi : i = fd.toNat
        · rw [hi, setConn_self, Function.update_self]
        · rw [setConn_of_ne hi, Function.update_of_ne hi, h.fd]
      refine ⟨h.rings, hfd, fun {d i} hlk => ?_⟩
      obtain ⟨hlt, hnamed⟩ := h.named (linked_setConn.mp hlk)
      refine ⟨hlt, ?_⟩
      by_cases hi : i = fd.toNat
      · rw [hi, setConn_self]
        exact .inr rfl
      · rw [setConn_of_ne hi]
        exact hnamed
  · exact h

/-! ## What a call does -/

/-- What a call of `do_send` or `do_recv` on a slot may do, to the memory and to the lists: nothing, put the slot off
into one of the lists that `P` allows, or close it. -/
inductive CallEffect (maxfds x : Nat) (P : Dir → Bool → Prop) : PendMem × Pend → PendMem × Pend → Prop
  | alone (m₁ : PendMem) (s₁ : Pend) : CallEffect maxfds x P (m₁, s₁) (m₁, s₁)
  | putOff (m₁ : PendMem) (s₁ : Pend) (d₁ : Dir) (t₁ : Bool) (hP : P d₁ t₁) (hx : (s₁.acon x).fd = x) :
      CallEffect maxfds x P (m₁, s₁) (m₁.addToPend d₁ t₁ x, s₁.addToPend d₁ t₁ x)
  | closed (m₁ : PendMem) (s₁ : Pend) :
      CallEffect maxfds x P (m₁, s₁) (m₁.doClose maxfds x, s₁.doClose maxfds x)

theorem doSend_effect (maxfds : Nat) (flag : Bool) (send : SendCall) (hfd : ∀ i, m.fd i = (s.acon i).fd)
    (hx : OwnFd s x) :
    CallEffect maxfds x (fun d t => d = .send ∧ t = flag) (m, s)
      (m.doSend maxfds (s.acon x).fd flag send, s.doSend maxfds (s.acon x).fd flag send) := by
  unfold PendMem.doSend Pend.doSend
  by_cases hneg : (s.acon x).fd < 0
  · rw [if_pos hneg, if_pos hneg]
    exact .alone _ _
  · have hself : (s.acon x).fd = x := hx.resolve_right (by omega)
    rw [if_neg hneg, if_neg hneg]
    have hnat : ¬ (x : Int) < 0 := Int.not_ofNat_neg x
    simp only [hself, Int.toNat_natCast, hfd]
    rw [if_neg hnat, if_neg hnat]
    split
    · exact .putOff _ _ .send flag ⟨rfl, rfl⟩ hself
    · cases send.ret with
      | close => exact .closed _ _
      | addEpollin =>
        dsimp only
        split
        · exact .closed _ _
        · exact .alone _ _
      | addEpollout => exact .alone _ _

/-- A call of `do_recv` may answer, and then what happens is up to `do_send`. -/
theorem doRecv_effect (maxfds : Nat) (flag : Bool) (call : RecvCall) (hfd : ∀ i, m.fd i = (s.acon i).fd)
    (hx : OwnFd s x) :
    CallEffect maxfds x (fun d t => d = .recv ∧ t = flag) (m, s)
      (m.doRecv maxfds (s.acon x).fd flag call, s.doRecv maxfds (s.acon x).fd flag call) ∨
    call.answers ∧ CallEffect maxfds x (fun d t => d = .send ∧ t = false) (m.called .send x false, s)
      (m.doRecv maxfds (s.acon x).fd flag call, s.doRecv maxfds (s.acon x).fd flag call) := by
  unfold PendMem.doRecv Pend.doRecv
  by_cases hneg : (s.acon x).fd < 0
  · rw [if_pos hneg, if_pos hneg]
    exact .inl (.alone _ _)
  · have hself : (s.acon x).fd = x := hx.resolve_right (by omega)
    rw [if_neg hneg, if_neg hneg]
    have hsend := doSend_effect maxfds false call.send (m := m.called .send x false) hfd hx
    have hnat : ¬ (x : Int) < 0 := Int.not_ofNat_neg x
    simp only [hself, Int.toNat_natCast, hfd] at hsend ⊢
    rw [if_neg hnat, if_neg hnat]
    split
    · exact .inl (.putOff _ _ .recv flag ⟨rfl, rfl⟩ hself)
    · rename_i hp
      split
      · exact .inl (.closed _ _)
      · rename_i he
        cases hr : call.svcRecv with
        | send => exact .inr ⟨⟨Bool.eq_false_iff.mpr hp, Bool.eq_false_iff.mpr he, hr⟩, hsend⟩
        | addEpollin => exact .inl (.alone _ _)
        | addEpollout => exact .inl (.alone _ _)
        | addEpollall => exact .inl (.alone _ _)
        | close => exact .inl (.closed _ _)

namespace CallEffect

variable {P : Dir → Bool → Prop}

theorem models (h : CallEffect maxfds x P (m, s) (m', s')) (hm : m.Models maxfds s) (hlt : x < maxfds) :
    m'.Models maxfds s' := by
  cases h with
  | alone => exact hm
  | putOff _ _ d₁ t₁ hP hx => exact hm.addToPend d₁ t₁ hlt (.inl hx)
  | closed => exact hm.doClose x

theorem calls (h : CallEffect maxfds x P (m, s) (m', s')) : m'.calls = m.calls := by
  cases h with
  | alone => rfl
  | putOff _ _ d₁ t₁ hP hx => rfl
  | closed =>
    unfold PendMem.doClose
    split <;> [split; skip] <;> rfl

theorem scan (h : CallEffect maxfds x P (m, s) (m', s')) : s'.scan = s.scan := by
  cases h with
  | alone => rfl
  | putOff _ _ d₁ t₁ hP hx => rfl
  | closed =>
    unfold Pend.doClose
    dsimp only
    split <;> [split; skip] <;> rfl

/-- What was linked stays so, and what is put off is linked. -/
theorem putOff_linked (h : CallEffect maxfds x P (m, s) (m', s')) :
    (∀ d i, s.Linked d i → s'.Linked d i) ∧
      ∃ po : List (Dir × Nat), m'.putOff = m.putOff ++ po ∧
        ∀ p ∈ po, p.2 = x ∧ s'.Linked p.1 p.2 ∧ ∃ t, P p.1 t := by
  cases h with
  | alone => exact ⟨fun _ _ h => h, [], (List.append_nil _).symm, fun p hp => nomatch hp⟩
  | putOff _ _ d₁ t₁ hP hx =>
    refine ⟨fun _ _ h => linked_addToPend_iff.mpr (.inl h), [(d₁, x)], rfl, fun p hp => ?_⟩
    rw [List.mem_singleton.mp hp]
    exact ⟨rfl, linked_addToPend_iff.mpr (.inr ⟨rfl, rfl⟩), t₁, hP⟩
  | closed =>
    refine ⟨fun d i h => ?_, [], ?_, fun p hp => nomatch hp⟩
    · obtain ⟨t, ht⟩ := linked_iff_lists.mp h
      exact linked_iff_lists.mpr ⟨t, (lists_doClose x s (d, t)).symm ▸ ht⟩
    · rw [List.append_nil]
      unfold PendMem.doClose
      split <;> [split; skip] <;> rfl

/-- A list that is walked keeps what is left of it. -/
theorem walked (h : CallEffect maxfds x P (m, s) (m', s')) (hP : ∀ t, P d t → t = true) (hx : x ∉ s.pendList d) :
    s'.pendList d = s.pendList d := by
  cases h with
  | alone => rfl
  | putOff _ _ d₁ t₁ hP₁ hx₁ =>
    by_cases hd : d = d₁
    · subst hd
      rw [hP t₁ hP₁]
      show Function.update s.pendList d ((s.pendList d).erase x) d = s.pendList d
      rw [Function.update_self, List.erase_of_not_mem hx]
    · exact Function.update_of_ne hd ..
  | closed => exact lists_doClose x s (d, false)

/-- The lists of a direction in which nothing is put off stay as they are. -/
theorem lists_other (h : CallEffect maxfds x P (m, s) (m', s')) (hP : ∀ t, ¬ P d t) (t : Bool) :
    s'.lists (d, t) = s.lists (d, t) := by
  cases h with
  | alone => rfl
  | putOff _ _ d₁ t₁ hP₁ hx₁ =>
    have hd : d ≠ d₁ := fun heq => hP t₁ (heq ▸ hP₁)
    rw [lists_addToPend, if_neg fun heq => hd (congrArg Prod.fst heq), if_neg hd]
  | closed => exact lists_doClose x s (d, t)

end CallEffect

/-! ## The walks -/

/-- What is linked stays so when another slot is unlinked. -/
theorem unlink_keeps {p : Dir × Nat} (hp : s.pendList d = x :: rest) (hlk : s.Linked p.1 p.2) (hne : p ≠ (d, x)) :
    (s.unlink d x rest).Linked p.1 p.2 := by
  rcases hlk with hm | hm
  · refine .inl ?_
    by_cases hd : p.1 = d
    · have hpx : p.2 ≠ x := fun heq => hne (Prod.ext hd heq)
      rw [hd, hp] at hm
      rw [hd]
      show p.2 ∈ Function.update s.pendList d rest d
      rw [Function.update_self]
      exact List.mem_of_ne_of_mem hpx hm
    · show p.2 ∈ Function.update s.pendList d rest p.1
      rwa [Function.update_of_ne hd]
  · exact .inr hm

/-- What holds in the walk over a list of the direction `d`: `rest` is left of it, the scan has made the calls `cs`,
those of its own for `ws`, and `po` has been put off. -/
structure PendScanning (maxfds : Nat) (io : Nat → RecvCall) (m₀ : PendMem) (s₀ : Pend) (d : Dir) (ws : List (Dir × Nat))
    (rest : List Nat) (cs : List PendCall) (po : List (Dir × Nat)) (m : PendMem) (s : Pend) : Prop where
  models : m.Models maxfds s
  turn : s.scan = some d
  left : s.pendList d = rest
  steps : ∃ rounds, s = run (fun s call => s.scanNext maxfds call) (s₀.startScan .send) rounds
  calls : m.calls = m₀.calls ++ cs
  byScan : (cs.filter fun c => c.byScan).map (fun c => (c.dir, c.peer)) = ws
  answered : ((cs.filter fun c => !c.byScan).map fun c => (Dir.recv, c.peer)).Sublist ws
  others : ∀ c ∈ cs, c.byScan = false → c.dir = .send ∧
    ∃ k, m₀.calls.length ≤ k ∧ m.calls[k]? = some ⟨.recv, c.peer, true⟩ ∧ (io k).answers
  putOff : m.putOff = m₀.putOff ++ po
  again : ∀ p ∈ po, s.Linked p.1 p.2 ∧ p ∉ rest.map (Prod.mk d) ∧ (d = .send → p.1 = .send)
  other : d = .send → ∀ t, s.lists (.recv, t) = s₀.lists (.recv, t)

namespace PendScanning

variable {ws po : List (Dir × Nat)} {cs : List PendCall} {m₁ : PendMem} {P : Dir → Bool → Prop}

theorem notMem (h : PendScanning maxfds io m₀ s₀ d ws (x :: rest) cs po m s) : x ∉ rest := by
  have hnodup := h.models.nodup (d, false)
  rw [show s.lists (d, false) = x :: rest from h.left] at hnodup
  exact (List.nodup_cons.mp hnodup).1

theorem ownFd (h : PendScanning maxfds io m₀ s₀ d ws (x :: rest) cs po m s) : x < maxfds ∧ OwnFd s x :=
  h.models.named (d := d) (.inl (h.left ▸ List.mem_cons_self ..))

/-- A round takes the first slot of the list, and what its call puts off does not come behind it. -/
theorem round (extra : List PendCall) (h : PendScanning maxfds io m₀ s₀ d ws (x :: rest) cs po m s)
    (hm₁ : m₁.Models maxfds (s.unlink d x rest)) (hcalls : m₁.calls = m.calls ++ ⟨d, x, true⟩ :: extra)
    (hputOff : m₁.putOff = m.putOff) (heff : CallEffect maxfds x P (m₁, s.unlink d x rest) (m', s'))
    (hs' : s' = s.scanNext maxfds call) (hP : ∀ d' t, P d' t → (d' = d → t = true) ∧ (d = .send → d' = .send))
    (hextra : extra = [] ∨ d = .recv ∧ extra = [⟨.send, x, false⟩] ∧ (io m.calls.length).answers) :
    ∃ po', PendScanning maxfds io m₀ s₀ d (ws ++ [(d, x)]) rest (cs ++ ⟨d, x, true⟩ :: extra) po' m' s' := by
  obtain ⟨hkeep, new, hnew, hlinked⟩ := heff.putOff_linked
  have hunlinked : (s.unlink d x rest).pendList d = rest := Function.update_self ..
  have hafter : m'.calls = m.calls ++ ⟨d, x, true⟩ :: extra := heff.calls.trans hcalls
  have hin : ∀ {k c}, m.calls[k]? = some c → m'.calls[k]? = some c := fun {k c} hk => by
    rw [hafter, List.getElem?_append_left (List.getElem?_eq_some_iff.mp hk).1]
    exact hk
  refine ⟨po ++ new, heff.models hm₁ h.ownFd.1, heff.scan.trans h.turn, ?_, ?_, ?_, ?_, ?_, ?_, ?_, ?_, ?_⟩
  · have hnot : x ∉ (s.unlink d x rest).pendList d := by
      rw [hunlinked]
      exact h.notMem
    rw [heff.walked (fun t ht => (hP d t ht).1 rfl) hnot, hunlinked]
  · obtain ⟨rounds, hrounds⟩ := h.steps
    refine ⟨rounds ++ [call], ?_⟩
    rw [run_append, ← hrounds, hs']
    rfl
  · rw [hafter, h.calls, List.append_assoc]
  · rw [List.filter_append, List.map_append, h.byScan]
    rcases hextra with rfl | ⟨-, rfl, -⟩
    · rfl
    · rfl
  · rw [List.filter_append, List.map_append]
    refine h.answered.append ?_
    rcases hextra with rfl | ⟨rfl, rfl, -⟩
    · exact List.nil_sublist _
    · exact List.Sublist.refl _
  · intro c hc hby
    rcases List.mem_append.mp hc with hc | hc
    · obtain ⟨hdir, k, hk, hget, hans⟩ := h.others c hc hby
      exact ⟨hdir, k, hk, hin hget, hans⟩
    · rcases List.mem_cons.mp hc with heq | hce
      · rw [heq] at hby
        cases hby
      · rcases hextra with rfl | ⟨rfl, rfl, hans⟩
        · cases hce
        · obtain rfl := List.mem_singleton.mp hce
          refine ⟨rfl, m.calls.length, ?_, ?_, hans⟩
          · rw [h.calls, List.length_append]
            omega
          · rw [hafter, List.getElem?_append_right (Nat.le_refl _), Nat.sub_self]
            rfl
  · rw [hnew, hputOff, h.putOff, List.append_assoc]
  · intro p hp
    rcases List.mem_append.mp hp with hp | hp
    · obtain ⟨hlk, hnot, hdir⟩ := h.again p hp
      rw [List.map_cons, List.mem_cons, not_or] at hnot
      exact ⟨hkeep _ _ (unlink_keeps h.left hlk hnot.1), hnot.2, hdir⟩
    · obtain ⟨hx, hlk, t, ht⟩ := hlinked p hp
      refine ⟨hlk, fun hmem => ?_, (hP p.1 t ht).2⟩
      obtain ⟨y, hy, rfl⟩ := List.mem_map.mp hmem
      exact h.notMem (hx ▸ hy)
  · rintro rfl t
    have hnone : ∀ t', ¬ P .recv t' := fun t' ht' => nomatch (hP .recv t' ht').2 rfl
    rw [heff.lists_other hnone, ← h.other rfl t]
    cases t <;> rfl

/-- A round of the walk over `send_list`. -/
theorem send_round (h : PendScanning maxfds io m₀ s₀ .send ws (x :: rest) cs po m s) :
    ∃ cs' po' s', PendScanning maxfds io m₀ s₀ .send (ws ++ [(.send, x)]) rest cs' po'
      (m.sendDeferred maxfds io x) s' := by
  obtain ⟨hlt, hown⟩ := h.ownFd
  have hm₁ : ((m.del .send x).called .send x true).Models maxfds (s.unlink .send x rest) :=
    (h.models.unlink h.left).congr rfl rfl (fun _ => rfl) fun _ => rfl
  have heff := doSend_effect maxfds true (io m.calls.length).send hm₁.fd hown
  have hs' : (s.unlink .send x rest).doSend maxfds (s.acon x).fd true (io m.calls.length).send =
      s.scanNext maxfds (io m.calls.length) := by
    unfold Pend.scanNext
    rw [h.turn]
    dsimp only
    rw [h.left]
  obtain ⟨po', h'⟩ := h.round [] hm₁ rfl rfl heff hs' (fun d' t ht => ⟨fun _ => ht.2, fun _ => ht.1⟩)
    (.inl rfl)
  have hbody : m.sendDeferred maxfds io x =
      ((m.del .send x).called .send x true).doSend maxfds (s.acon x).fd true (io m.calls.length).send := by
    unfold PendMem.sendDeferred
    rw [h.models.fd]
  rw [hbody]
  exact ⟨_, po', _, h'⟩

/-- A round of the walk over `recv_list`. -/
theorem recv_round (h : PendScanning maxfds io m₀ s₀ .recv ws (x :: rest) cs po m s) :
    ∃ cs' po' s', PendScanning maxfds io m₀ s₀ .recv (ws ++ [(.recv, x)]) rest cs' po'
      (m.recvDeferred maxfds io x) s' := by
  obtain ⟨hlt, hown⟩ := h.ownFd
  have hm₁ : ((m.del .recv x).called .recv x true).Models maxfds (s.unlink .recv x rest) :=
    (h.models.unlink h.left).congr rfl rfl (fun _ => rfl) fun _ => rfl
  have hs' : (s.unlink .recv x rest).doRecv maxfds (s.acon x).fd true (io m.calls.length) =
      s.scanNext maxfds (io m.calls.length) := by
    unfold Pend.scanNext
    rw [h.turn]
    dsimp only
    rw [h.left]
  have hbody : m.recvDeferred maxfds io x =
      ((m.del .recv x).called .recv x true).doRecv maxfds (s.acon x).fd true (io m.calls.length) := by
    unfold PendMem.recvDeferred
    rw [h.models.fd]
  rw [hbody]
  rcases doRecv_effect maxfds true (io m.calls.length) hm₁.fd hown with
    heff | ⟨hans, heff⟩
  · obtain ⟨po', h'⟩ := h.round [] hm₁ rfl rfl heff hs'
      (fun d' t ht => ⟨fun _ => ht.2, fun hd => nomatch hd⟩) (.inl rfl)
    exact ⟨_, po', _, h'⟩
  · have hm₂ : (((m.del .recv x).called .recv x true).called .send x false).Models maxfds (s.unlink .recv x rest) :=
      hm₁.congr rfl rfl (fun _ => rfl) fun _ => rfl
    obtain ⟨po', h'⟩ := h.round [⟨.send, x, false⟩] hm₂ (List.append_assoc ..) rfl heff hs'
      (fun d' t ht => ⟨fun hd => (nomatch ht.1.symm.trans hd), fun hd => nomatch hd⟩) (.inr ⟨rfl, rfl, hans⟩)
    exact ⟨_, po', _, h'⟩

end PendScanning

/-- **A walk** over one of the lists, for anything that every round keeps and that knows what is left of the list. -/
theorem walk_done (d : Dir) (t : Bool) (body : Nat → PendMem → PendMem) (inv : List Nat → PendMem → Prop)
    (hmodels : ∀ {rest m}, inv rest m → ∃ s : Pend, m.Models maxfds s ∧ s.lists (d, t) = rest)
    (hbody : ∀ {x rest m}, inv (x :: rest) m → inv rest (body x m)) (h : inv rest m) :
    ∃ m', m.walk maxfds d t body = some m' ∧ inv [] m' := by
  have hring : ∀ {rest m}, inv rest m → Ring m.links (.head d t) (rest.map (.link d)) := by
    intro rest m h
    obtain ⟨s, hm, hs⟩ := hmodels h
    have hr := hm.rings.ring (d, t)
    rwa [hs] at hr
  have hlen : (rest.map (PendNode.link d)).length < maxfds + 1 := by
    obtain ⟨s, hm, hs⟩ := hmodels h
    rw [List.length_map, Nat.lt_succ_iff]
    exact length_le_of_nodup (hs ▸ hm.nodup (d, t)) fun x hx =>
      (hm.named (linked_iff_lists.mpr ⟨t, hs ▸ hx⟩)).1
  obtain ⟨m', hm', rest', hnil, hinv⟩ := forEachSafe_spec PendMem.links (.head d t)
    (fun node m => (node.peer d).map fun fd => body fd m)
    (fun nodes m => ∃ rest, nodes = rest.map (.link d) ∧ inv rest m)
    (fun {nodes m} hinv => by
      obtain ⟨rest, rfl, hinv⟩ := hinv
      exact ⟨[], hring hinv⟩)
    (fun {node nodes m} hinv => by
      obtain ⟨rest, hnodes, hinv⟩ := hinv
      cases rest with
      | nil => cases hnodes
      | cons x rest =>
        obtain ⟨rfl, rfl⟩ := List.cons.inj hnodes
        exact ⟨body x m, by simp [PendNode.peer], rest, rfl, hbody hinv⟩)
    (maxfds + 1) (rest.map (.link d)) m hlen ⟨rest, rfl, h⟩
  refine ⟨m', ?_, ?_⟩
  · rw [PendMem.walk, (hring h).next_head]
    exact hm'
  · rwa [List.map_eq_nil_iff.mp hnil.symm] at hinv

/-! ## The scan -/

/-- A part of a temporary list has been moved behind the other list. -/
def Pend.partMoved (s : Pend) (d : Dir) (done rest : List Nat) : Pend :=
  { s with
    pendList := Function.update s.pendList d (s.pendList d ++ done)
    tmpList := Function.update s.tmpList d rest }

theorem moveDeferred_models {done : List Nat} (h : m.Models maxfds (s.partMoved d done (x :: rest))) :
    (m.moveDeferred d x).Models maxfds (s.partMoved d (done ++ [x]) rest) := by
  have htmp : (s.partMoved d done (x :: rest)).tmpList d = x :: rest := Function.update_self ..
  have hpend : (s.partMoved d done (x :: rest)).pendList d = s.pendList d ++ done := Function.update_self ..
  have hmem : x ∈ (s.partMoved d done (x :: rest)).tmpList d := by
    rw [htmp]
    exact List.mem_cons_self
  have hnot : x ∉ s.pendList d ++ done := fun hx => h.apart (hpend.symm ▸ hx) hmem
  obtain ⟨hlt, hown⟩ := h.named (d := d) (.inr hmem)
  refine (h.addToPend d false hlt hown).congr rfl rfl (fun k => ?_) fun i => (fd_addToPend d false x _ i).symm
  rw [lists_addToPend]
  obtain ⟨d', t'⟩ := k
  by_cases hd : d' = d
  · subst hd
    cases t' with
    | false =>
      rw [if_pos rfl]
      show Function.update s.pendList d' _ d' = ((s.partMoved d' done (x :: rest)).pendList d').erase x ++ [x]
      rw [hpend, Function.update_self, List.erase_of_not_mem hnot, List.append_assoc]
    | true =>
      rw [if_neg (by simp), if_pos rfl]
      show Function.update s.tmpList d' rest d' = ((s.partMoved d' done (x :: rest)).tmpList d').erase x
      rw [htmp, Function.update_self, List.erase_cons_head]
  · rw [if_neg fun heq => hd (congrArg Prod.fst heq), if_neg hd]
    cases t' with
    | false =>
      show Function.update s.pendList d _ d' = Function.update s.pendList d _ d'
      rw [Function.update_of_ne hd, Function.update_of_ne hd]
    | true =>
      show Function.update s.tmpList d _ d' = Function.update s.tmpList d _ d'
      rw [Function.update_of_ne hd, Function.update_of_ne hd]

/-- The walk over a temporary list. -/
theorem walk_moveDeferred (h : m.Models maxfds s) (d : Dir) :
    ∃ m', m.walk maxfds d true (PendMem.moveDeferred d) = some m' ∧ m'.Models maxfds (s.startScan d) ∧
      m'.calls = m.calls ∧ m'.putOff = m.putOff := by
  obtain ⟨m', hm', done, hdone, hmod, hcalls, hputOff⟩ := walk_done d true (PendMem.moveDeferred d)
    (fun rest m' => ∃ done, done ++ rest = s.tmpList d ∧ m'.Models maxfds (s.partMoved d done rest) ∧
      m'.calls = m.calls ∧ m'.putOff = m.putOff)
    (fun {rest m'} hinv => by
      obtain ⟨done, -, hmod, -, -⟩ := hinv
      exact ⟨_, hmod, Function.update_self ..⟩)
    (fun {x rest m'} hinv => by
      obtain ⟨done, hdone, hmod, hcalls, hputOff⟩ := hinv
      exact ⟨done ++ [x], by rw [List.append_assoc]; exact hdone, moveDeferred_models hmod, hcalls, hputOff⟩)
    ⟨[], rfl, h.congr rfl rfl (fun k => by
      obtain ⟨d', t'⟩ := k
      cases t' <;> simp [Pend.lists, Pend.partMoved]) fun _ => rfl, rfl, rfl⟩
  rw [List.append_nil] at hdone
  refine ⟨m', hm', hmod.congr rfl rfl (fun k => ?_) fun _ => rfl, hcalls, hputOff⟩
  rw [hdone]
  rfl

theorem linked_startScan_iff {d₁ : Dir} {i : Nat} : (s.startScan d₁).Linked d i ↔ s.Linked d i := by
  refine ⟨startScan_linked, fun h => ?_⟩
  by_cases hd : d = d₁
  · subst hd
    refine .inl ?_
    show i ∈ Function.update s.pendList d (s.pendList d ++ s.tmpList d) d
    rw [Function.update_self]
    exact List.mem_append.mpr h
  · have hsame : (s.startScan d₁).pendList d = s.pendList d ∧ (s.startScan d₁).tmpList d = s.tmpList d :=
      ⟨Function.update_of_ne hd .., Function.update_of_ne hd ..⟩
    unfold Pend.Linked
    rwa [hsame.1, hsame.2]

/-- The slots that are put off in a direction. -/
def Pend.deferred (s : Pend) (d : Dir) : List Nat := s.pendList d ++ s.tmpList d

theorem pendList_startScan (d : Dir) (s : Pend) : (s.startScan d).pendList d = s.deferred d := by
  show Function.update s.pendList d (s.pendList d ++ s.tmpList d) d = s.deferred d
  rw [Function.update_self]
  rfl

theorem linked_iff_deferred : s.Linked d x ↔ x ∈ s.deferred d := List.mem_append.symm

theorem PendMem.Models.nodup_deferred (h : m.Models maxfds s) (d : Dir) : (s.deferred d).Nodup :=
  List.Nodup.append (h.nodup (d, false)) (h.nodup (d, true)) fun _ hx hx' => h.apart hx hx'

namespace PendScanning

variable {ws po : List (Dir × Nat)} {cs : List PendCall}

/-- The walk over the list, from what one round does. -/
theorem walk (body : Nat → PendMem → PendMem)
    (hround : ∀ {ws x rest cs po m s}, PendScanning maxfds io m₀ s₀ d ws (x :: rest) cs po m s →
      ∃ cs' po' s', PendScanning maxfds io m₀ s₀ d (ws ++ [(d, x)]) rest cs' po' (body x m) s')
    (h : PendScanning maxfds io m₀ s₀ d ws rest cs po m s) :
    ∃ m' cs' po' s', m.walk maxfds d false body = some m' ∧
      PendScanning maxfds io m₀ s₀ d (ws ++ rest.map (Prod.mk d)) [] cs' po' m' s' := by
  obtain ⟨m', hm', ws', cs', po', s', hws, h'⟩ := walk_done d false body
    (fun rest' m' => ∃ ws' cs' po' s', ws' ++ rest'.map (Prod.mk d) = ws ++ rest.map (Prod.mk d) ∧
      PendScanning maxfds io m₀ s₀ d ws' rest' cs' po' m' s')
    (fun {rest' m'} hinv => by
      obtain ⟨ws', cs', po', s', -, h'⟩ := hinv
      exact ⟨s', h'.models, h'.left⟩)
    (fun {x rest' m'} hinv => by
      obtain ⟨ws', cs', po', s', hws, h'⟩ := hinv
      obtain ⟨cs₁, po₁, s₁, h₁⟩ := hround h'
      exact ⟨_, cs₁, po₁, s₁, by rw [List.append_assoc]; exact hws, h₁⟩)
    ⟨ws, cs, po, s, rfl, h⟩
  rw [List.map_nil, List.append_nil] at hws
  exact ⟨m', cs', po', s', hm', hws ▸ h'⟩

/-- The scan begins. -/
theorem start (io : Nat → RecvCall) (h : m.Models maxfds s) :
    ∃ m', m.walk maxfds .send true (PendMem.moveDeferred .send) = some m' ∧
      PendScanning maxfds io m s .send [] (s.deferred .send) [] [] m' (s.startScan .send) := by
  obtain ⟨m', hm', hmod, hcalls, hputOff⟩ := walk_moveDeferred h .send
  refine ⟨m', hm', hmod, rfl, pendList_startScan .send s, ⟨[], rfl⟩, ?_, rfl, List.nil_sublist _, ?_, ?_, ?_, ?_⟩
  · rw [hcalls, List.append_nil]
  · exact fun c hc => nomatch hc
  · rw [hputOff, List.append_nil]
  · exact fun p hp => nomatch hp
  · rintro - t
    cases t <;> rfl

/-- The scan goes on from the sends to the receives. -/
theorem next (h : PendScanning maxfds io m₀ s₀ .send ws [] cs po m s) :
    ∃ m', m.walk maxfds .recv true (PendMem.moveDeferred .recv) = some m' ∧
      PendScanning maxfds io m₀ s₀ .recv ws (s₀.deferred .recv) cs po m' (s.startScan .recv) := by
  obtain ⟨m', hm', hmod, hcalls, hputOff⟩ := walk_moveDeferred h.models .recv
  have hpend : s.pendList .recv = s₀.pendList .recv := h.other rfl false
  have htmp : s.tmpList .recv = s₀.tmpList .recv := h.other rfl true
  refine ⟨m', hm', hmod, rfl, ?_, ?_, ?_, h.byScan, h.answered, ?_, ?_, fun p hp => ?_, nofun⟩
  · rw [pendList_startScan, Pend.deferred, Pend.deferred, hpend, htmp]
  · obtain ⟨rounds, hrounds⟩ := h.steps
    refine ⟨rounds ++ [io 0], ?_⟩
    rw [run_append, ← hrounds]
    show s.startScan .recv = s.scanNext maxfds (io 0)
    unfold Pend.scanNext
    rw [h.turn]
    dsimp only
    rw [h.left]
  · rw [hcalls, h.calls]
  · rw [hcalls]
    exact h.others
  · rw [hputOff, h.putOff]
  · obtain ⟨hlk, -, hdir⟩ := h.again p hp
    refine ⟨linked_startScan_iff.mpr hlk, fun hmem => ?_, nofun⟩
    obtain ⟨y, -, rfl⟩ := List.mem_map.mp hmem
    cases hdir rfl

/-- The calls that are made twice for nobody. -/
theorem count_le_one {p : PendCall → Bool} {f : PendCall → Dir × Nat} (hnd : ((cs.filter p).map f).Nodup)
    (c : PendCall) (hc : p c = true) : cs.count c ≤ 1 := by
  rw [← List.count_filter hc]
  exact List.nodup_iff_count_le_one.mp (hnd.of_map f) c

/-- The scan is over. -/
theorem finish (h₀ : m₀.Models maxfds s₀)
    (hws : ws = (s₀.deferred .send).map (Prod.mk .send) ++ (s₀.deferred .recv).map (Prod.mk .recv))
    (h : PendScanning maxfds io m₀ s₀ .recv ws [] cs po m s) : ScanDone maxfds io m₀ s₀ m { s with scan := none } := by
  have hcs : m₀.callsSince m = cs := by
    rw [PendMem.callsSince, h.calls, List.drop_left]
  have hpo : m₀.putOffSince m = po := by
    rw [PendMem.putOffSince, h.putOff, List.drop_left]
  have hmem : ∀ {d i}, (d, i) ∈ ws ↔ s₀.Linked d i := by
    intro d i
    rw [linked_iff_deferred, hws, List.mem_append]
    cases d <;> simp
  have hnodup : ws.Nodup := by
    rw [hws]
    refine List.Nodup.append ?_ ?_ fun p hp hp' => ?_
    · exact (h₀.nodup_deferred .send).map fun _ _ heq => (Prod.mk.inj heq).2
    · exact (h₀.nodup_deferred .recv).map fun _ _ heq => (Prod.mk.inj heq).2
    · obtain ⟨i, -, rfl⟩ := List.mem_map.mp hp
      obtain ⟨j, -, heq⟩ := List.mem_map.mp hp'
      cases heq
  have hby : ((cs.filter fun c => c.byScan).map fun c => (c.dir, c.peer)).Nodup := h.byScan.symm ▸ hnodup
  constructor
  · exact h.models.congr rfl rfl (fun _ => rfl) fun _ => rfl
  · obtain ⟨rounds, hrounds⟩ := h.steps
    refine ⟨rfl, rounds ++ [io 0], ?_⟩
    rw [run_append, ← hrounds]
    show _ = s.scanNext maxfds (io 0)
    unfold Pend.scanNext
    rw [h.turn]
    dsimp only
    rw [h.left]
  · intro d i hlk
    rw [hcs]
    have hin := hmem.mpr hlk
    rw [← h.byScan] at hin
    obtain ⟨⟨d', i', b⟩, hc, heq⟩ := List.mem_map.mp hin
    obtain ⟨hc, rfl⟩ := List.mem_filter.mp hc
    cases heq
    exact Nat.le_antisymm (count_le_one hby _ rfl) (List.count_pos_iff.mpr hc)
  · intro c hc hbyScan
    rw [hcs] at hc
    rw [← hmem, ← h.byScan]
    exact List.mem_map.mpr ⟨c, List.mem_filter.mpr ⟨hc, hbyScan⟩, rfl⟩
  · rw [hcs]
    exact h.others
  · intro i
    rw [hcs]
    exact count_le_one (hnodup.sublist h.answered) _ rfl
  · intro p hp
    rw [hpo] at hp
    rcases (h.again p hp).1 with hpend | htmp
    · exact .inl ⟨hpend, h.models.apart hpend⟩
    · exact .inr ⟨htmp, fun hpend => h.models.apart hpend htmp⟩

end PendScanning

/-- One scan. -/
theorem scanPendList_done (io : Nat → RecvCall) (h : m.Models maxfds s) :
    ∃ m' s', m.scanPendList maxfds io = some m' ∧ ScanDone maxfds io m s m' s' := by
  obtain ⟨m₁, hm₁, h₁⟩ := PendScanning.start io h
  obtain ⟨m₂, cs₂, po₂, s₂, hm₂, h₂⟩ := h₁.walk _ PendScanning.send_round
  obtain ⟨m₃, hm₃, h₃⟩ := h₂.next
  obtain ⟨m₄, cs₄, po₄, s₄, hm₄, h₄⟩ := h₃.walk _ PendScanning.recv_round
  refine ⟨m₄, { s₄ with scan := none }, ?_, h₄.finish h rfl⟩
  unfold PendMem.scanPendList
  simp only [Option.bind_eq_bind, hm₁, Option.bind_some, hm₂, hm₃, hm₄]

/-- **A scan terminates and loses nothing**: from any lists and whatever the calls return, it calls `do_send` and
`do_recv` once for every connection that waits for it, and otherwise only `do_send` for one that `svc_recv` has an
answer for. What is put off again is in one list of its direction, and the next scan calls for it. -/
theorem scan_attempts_once (maxfds : Nat) (io : Nat → RecvCall) (m : PendMem) (s : Pend) (h : m.Models maxfds s) :
    ∃ m' s', m.scanPendList maxfds io = some m' ∧ ScanDone maxfds io m s m' s' ∧
      ∀ io', ∃ m'' s'', m'.scanPendList maxfds io' = some m'' ∧ ScanDone maxfds io' m' s' m'' s'' ∧
        ∀ p ∈ m.putOffSince m', (m'.callsSince m'').count ⟨p.1, p.2, true⟩ = 1 := by
  obtain ⟨m', s', hm', hdone⟩ := scanPendList_done io h
  refine ⟨m', s', hm', hdone, fun io' => ?_⟩
  obtain ⟨m'', s'', hm'', hdone'⟩ := scanPendList_done io' hdone.models
  refine ⟨m'', s'', hm'', hdone', fun p hp => hdone'.once p.1 p.2 ?_⟩
  rcases hdone.again p hp with ⟨hpend, -⟩ | ⟨htmp, -⟩
  · exact .inl hpend
  · exact .inr htmp

/-- The connection of descriptor 5, put off in both directions. -/
def bothPutOff : PendMem :=
  (PendMem.mk ⟨id, id⟩ (fun fd => if fd = 5 then 5 else -1) [] []).addToPend .send false 5 |>.addToPend .recv false 5

/-- The lists with that connection alone in two of them. -/
def bothLists : Pend :=
  (({ Pend.init with acon := fun fd => ⟨if fd = 5 then 5 else -1, 1, fun _ => 0⟩ } : Pend).addToPend .send false
    5).addToPend .recv false 5

theorem bothPutOff_models : bothPutOff.Models 8 bothLists := by
  have hempty : (PendMem.mk ⟨id, id⟩ (fun fd => if fd = 5 then 5 else -1) [] []).Models 8
      { Pend.init with acon := fun fd => ⟨if fd = 5 then 5 else -1, 1, fun _ => 0⟩ } := by
    refine ⟨(rings_empty fun {k k'} heq => ?_).congr fun k => ?_, fun _ => rfl, fun hlk => ?_⟩
    · exact Prod.ext (PendNode.head.inj heq).1 (PendNode.head.inj heq).2
    · obtain ⟨d, t⟩ := k
      cases t <;> rfl
    · rcases hlk with hm | hm <;> cases hm
  exact (hempty.addToPend .send false (by decide) (.inl rfl)).addToPend .recv false (by decide) (.inl rfl)

/-- No call is put off, and `svc_recv` has an answer. -/
def answering : Nat → RecvCall := fun _ => ⟨false, false, .send, ⟨false, .addEpollin, .addEpollin⟩⟩

theorem scan_attempts_once_both :
    ∃ m' s', bothPutOff.scanPendList 8 answering = some m' ∧ ScanDone 8 answering bothPutOff bothLists m' s' ∧
      ∀ io', ∃ m'' s'', m'.scanPendList 8 io' = some m'' ∧ ScanDone 8 io' m' s' m'' s'' ∧
        ∀ p ∈ bothPutOff.putOffSince m', (m'.callsSince m'').count ⟨p.1, p.2, true⟩ = 1 :=
  scan_attempts_once 8 answering bothPutOff bothLists bothPutOff_models

/-- What is put off is sent, then received for, and `svc_recv` has an answer: the scan calls `do_send` twice. -/
theorem answered_sent_twice : bothPutOff.Models 8 bothLists ∧ bothLists.Linked .send 5 ∧
    (bothPutOff.scanPendList 8 answering).map
      (fun m => (bothPutOff.callsSince m).countP fun c => c.dir = .send ∧ c.peer = 5) = some 2 :=
  ⟨bothPutOff_models, .inl (by decide), by decide⟩

end VfsOss
