import VfsOss.Sm.Query
import VfsOss.Task.Proofs.WalkProofs
import VfsOss.CLib.Proofs.DecimalProofs
import VfsOss.CLib.Proofs.TextProofs

/-!
# Proofs: what a query does to the queues

The two loops are walks over queues. On the list of the records the second one lists those of the host, in order, up
to the first one whose text would fill the buffer.
-/

namespace VfsOss

open CLib

variable {cfg : Cfg} {s : TaskStore} {t : Tasklist} {hostname : Bytes}

/-! ## The loops as walks -/

/-- The body of the second loop. -/
def unokBody (hostname : Bytes) : WalkBody (Bytes × List Tasklist) := fun x task =>
  if task.base.hostname ≠ hostname then (.waitTmp, true, x)
  else if (unokText task).length + x.1.length ≥ 10240 then (.waitTmp, false, x)
  else (.home, true, (x.1 ++ snprintf 1024 (unokText task), x.2 ++ [task]))

theorem drainWaitTmp_eq (cfg : Cfg) (n : Nat) (s : TaskStore) :
    drainWaitTmp cfg n s = (walkQueue cfg.mallocOk .waitTmp (drainBody .wait) n () s).2 := by
  induction n generalizing s with
  | zero => rfl
  | succ n ih =>
    rw [drainWaitTmp, walkQueue]
    cases hg : vfsGetTask cfg.mallocOk s .waitTmp with
    | mk r s' =>
      cases r with
      | ok t => exact ih _
      | err => rfl
      | nothing => rfl

theorem unokLoop_eq (cfg : Cfg) (hostname : Bytes) (n : Nat) (buf : Bytes) (out : List Tasklist) (s : TaskStore) :
    unokLoop cfg hostname n buf out s =
      ((walkQueue cfg.mallocOk .wait (unokBody hostname) n (buf, out) s).1.1,
        (walkQueue cfg.mallocOk .wait (unokBody hostname) n (buf, out) s).1.2,
        (walkQueue cfg.mallocOk .wait (unokBody hostname) n (buf, out) s).2) := by
  induction n generalizing buf out s with
  | zero => rfl
  | succ n ih =>
    rw [unokLoop, walkQueue]
    cases hg : vfsGetTask cfg.mallocOk s .wait with
    | mk r s' =>
      cases r with
      | ok t =>
        by_cases hhost : t.base.hostname ≠ hostname
        · simp only [unokBody, if_pos hhost, if_true]
          exact ih _ _ _
        · by_cases hfull : (unokText t).length + buf.length ≥ 10240
          · simp only [unokBody, if_neg hhost, if_pos hfull]
            rfl
          · simp only [unokBody, if_neg hhost, if_neg hfull, if_true]
            exact ih _ _ _
      | err => rfl
      | nothing => rfl

/-! ## The list -/

theorem unokText_length : (unokText t).length =
    t.base.filename.length + 1 + (fmtInt t.sub.idx).length + 1 + (fmtInt t.sub.count).length + 1 := by
  unfold unokText
  simp only [List.length_append]
  rfl

/-- The text of a record fits the buffer it is printed into. -/
theorem Tasklist.Sized.length (h : t.Sized) : (unokText t).length ≤ 280 := by
  have hname := h.filename
  have hidx := fmtInt_int_length h.idx.1 h.idx.2
  have hcount := fmtInt_int_length h.count.1 h.count.2
  rw [unokText_length]
  omega

/-- What the second loop has listed of the records `l`: the first ones `ts` of the host, all of them or as many as the
buffer takes. -/
structure ListedOf (hostname : Bytes) (buf : Bytes) (out l ts : List Tasklist) (w : Walk (Bytes × List Tasklist)) :
    Prop where
  front : ts <+: l.filter fun t => t.base.hostname = hostname
  sent : w.sentTo .home = ts.map Tasklist.popped
  text : w.state = (buf ++ ts.flatMap unokText, out ++ ts.map Tasklist.popped)
  room : buf.length < 10240 → (buf ++ ts.flatMap unokText).length < 10240
  full : ts = (l.filter fun t => t.base.hostname = hostname) ∨
    ∃ u, ts ++ [u] <+: (l.filter fun t => t.base.hostname = hostname) ∧
      10240 ≤ (buf ++ (ts ++ [u]).flatMap unokText).length

theorem walkList_unok (hostname : Bytes) (n : Nat) (buf : Bytes) (out l : List Tasklist) (hl : ∀ t ∈ l, t.Sized) :
    ∃ ts, ListedOf hostname buf out (l.take n) ts (walkList (unokBody hostname) n (buf, out) l) := by
  induction n generalizing buf out l with
  | zero =>
    exact ⟨[], List.nil_prefix, rfl, by rw [walkList, List.flatMap_nil, List.map_nil, List.append_nil, List.append_nil],
      fun h => by rwa [List.flatMap_nil, List.append_nil], Or.inl rfl⟩
  | succ n ih =>
    cases l with
    | nil =>
      exact ⟨[], List.nil_prefix, rfl,
        by rw [walkList, List.flatMap_nil, List.map_nil, List.append_nil, List.append_nil],
        fun h => by rwa [List.flatMap_nil, List.append_nil], Or.inl rfl⟩
    | cons t rest =>
      have hlt := (hl t List.mem_cons_self).length
      have hrest : ∀ u ∈ rest, u.Sized := fun u hu => hl u (List.mem_cons_of_mem _ hu)
      rw [List.take_succ_cons, walkList]
      by_cases hhost : t.base.hostname = hostname
      · have hsame : ¬ t.popped.base.hostname ≠ hostname := not_not.mpr hhost
        have hfilter : ∀ l : List Tasklist, ((t :: l).filter fun t => t.base.hostname = hostname) =
            t :: l.filter fun t => t.base.hostname = hostname := fun l =>
          List.filter_cons_of_pos (decide_eq_true hhost)
        by_cases hfull : (unokText t.popped).length + buf.length ≥ 10240
        · have hbody : unokBody hostname (buf, out) t.popped = (.waitTmp, false, buf, out) := by
            rw [unokBody, if_neg hsame, if_pos hfull]
          rw [hbody]
          refine ⟨[], List.nil_prefix, rfl, ?_, fun h => ?_, Or.inr ⟨t, ?_, ?_⟩⟩
          · rw [List.flatMap_nil, List.map_nil, List.append_nil, List.append_nil]
            rfl
          · rwa [List.flatMap_nil, List.append_nil]
          · rw [hfilter]
            exact List.cons_prefix_cons.mpr ⟨rfl, List.nil_prefix⟩
          · rw [List.nil_append, List.flatMap_singleton, List.length_append, Nat.add_comm]
            exact hfull
        · have hbody : unokBody hostname (buf, out) t.popped =
              (.home, true, buf ++ unokText t, out ++ [t.popped]) := by
            rw [unokBody, if_neg hsame, if_neg hfull]
            exact congrArg (fun b => (TaskStatus.home, true, buf ++ b, out ++ [t.popped]))
              (snprintf_of_le (Nat.lt_of_le_of_lt hlt (by decide)))
          obtain ⟨ts, hts⟩ := ih (buf ++ unokText t) (out ++ [t.popped]) rest hrest
          rw [hbody]
          refine ⟨t :: ts, ?_, ?_, ?_, fun _ => ?_, ?_⟩
          · rw [hfilter]
            exact List.cons_prefix_cons.mpr ⟨rfl, hts.front⟩
          · exact congrArg (t.popped :: ·) hts.sent
          · rw [List.flatMap_cons, List.map_cons, ← List.append_assoc]
            exact hts.text.trans (congrArg (Prod.mk _) (List.append_assoc out [t.popped] _))
          · rw [List.flatMap_cons, ← List.append_assoc]
            refine hts.room ?_
            rw [List.length_append]
            have hroom : ¬ (unokText t).length + buf.length ≥ 10240 := hfull
            omega
          · rw [hfilter]
            rcases hts.full with heq | ⟨u, hu, hlen⟩
            · exact Or.inl (congrArg (t :: ·) heq)
            · refine Or.inr ⟨u, List.cons_prefix_cons.mpr ⟨rfl, hu⟩, ?_⟩
              rw [List.cons_append, List.flatMap_cons, ← List.append_assoc]
              exact hlen
      · have hbody : unokBody hostname (buf, out) t.popped = (.waitTmp, true, buf, out) := by
          rw [unokBody, if_pos (show t.popped.base.hostname ≠ hostname from hhost)]
        obtain ⟨ts, hts⟩ := ih buf out rest hrest
        rw [hbody]
        have hfilter : ((t :: rest.take n).filter fun t => t.base.hostname = hostname) =
            (rest.take n).filter fun t => t.base.hostname = hostname :=
          List.filter_cons_of_neg (by simp [hhost])
        exact ⟨ts, hfilter ▸ hts.front, hts.sent, hts.text, hts.room, hfilter ▸ hts.full⟩

/-! ## The whole query -/

theorem flatMap_popped (ts : List Tasklist) : (ts.map Tasklist.popped).flatMap unokText = ts.flatMap unokText :=
  List.flatMap_map ..

/-- A record that waits keeps its fields when it is moved. -/
theorem sized_moved (hl : ∀ t ∈ missing s, t.Sized) (p : TaskStatus) :
    ∀ t ∈ s.vfstask .wait ++ (s.vfstask .waitTmp).map (Tasklist.inStatus p), t.Sized := by
  intro t ht
  rcases List.mem_append.mp ht with ht | ht
  · exact hl t (List.mem_append_left _ ht)
  · obtain ⟨u, hu, rfl⟩ := List.mem_map.mp ht
    have hsized := hl u (List.mem_append_right _ hu)
    exact ⟨hsized.filename, hsized.idx, hsized.count⟩

/-- The records asked for are the same before and after they have been drained. -/
theorem asked_moved (cfg : Cfg) (s : TaskStore) (hostname : Bytes) (p : TaskStatus) :
    (((s.vfstask .wait ++ (s.vfstask .waitTmp).map (Tasklist.inStatus p)).take (cfg.csMaxTaskRunOnce - 1)).filter
      fun t => t.base.hostname = hostname).map Tasklist.popped = (asked cfg s hostname).map Tasklist.popped := by
  have hpop : ∀ l : List Tasklist, (l.filter fun t => t.base.hostname = hostname).map Tasklist.popped =
      (l.map Tasklist.popped).filter fun t => t.base.hostname = hostname := by
    intro l
    rw [List.filter_map]
    rfl
  rw [asked, hpop, hpop, map_popped_moved]

/-- The queue the second loop walks over. -/
def drainedWait (s : TaskStore) : List Tasklist :=
  s.vfstask .wait ++ (s.vfstask .waitTmp).map (Tasklist.inStatus .wait)

/-- A query as the walks it makes, with the records `ts` it lists. -/
structure Queried (cfg : Cfg) (s : TaskStore) (hostname : Bytes) (w : Walk (Bytes × List Tasklist))
    (ts : List Tasklist) : Prop where
  drained : Drained .waitTmp .wait s (drainWaitTmp cfg (s.vfstask .waitTmp).length s)
  walk : w = walkList (unokBody hostname) (cfg.csMaxTaskRunOnce - 1) ([], [])
    ((drainWaitTmp cfg (s.vfstask .waitTmp).length s).vfstask .wait)
  walked : Walked .wait (drainWaitTmp cfg (s.vfstask .waitTmp).length s) w (w.state, (getTaskUnok cfg s hostname).2.2)
  reply : (getTaskUnok cfg s hostname).1 = SmClient.createHeader (ts.flatMap unokText)
  out : (getTaskUnok cfg s hostname).2.1 = ts.map Tasklist.popped
  listed : ListedOf hostname [] [] ((drainedWait s).take (cfg.csMaxTaskRunOnce - 1)) ts w

theorem unokBody_ne (hostname : Bytes) (x : Bytes × List Tasklist) (t : Tasklist) :
    (unokBody hostname x t).1 = .home ∨ (unokBody hostname x t).1 = .waitTmp := by
  unfold unokBody
  split_ifs <;> simp

theorem getTaskUnok_eq (cfg : Cfg) (s : TaskStore) (hostname : Bytes) :
    let r := walkQueue cfg.mallocOk .wait (unokBody hostname) (cfg.csMaxTaskRunOnce - 1) ([], [])
      (drainWaitTmp cfg (s.vfstask .waitTmp).length s)
    getTaskUnok cfg s hostname = (SmClient.createHeader r.1.1, r.1.2, r.2) := by
  intro r
  rw [getTaskUnok, unokLoop_eq]

theorem getTaskUnok_queried (cfg : Cfg) (hostname : Bytes) (hp : WellPlaced s) (hl : ∀ t ∈ missing s, t.Sized) :
    ∃ w ts, Queried cfg s hostname w ts := by
  have hd : Drained .waitTmp .wait s (drainWaitTmp cfg (s.vfstask .waitTmp).length s) := by
    rw [drainWaitTmp_eq]
    exact walkQueue_drained cfg.mallocOk (by simp) (by simp) (by simp) (by simp) hp _ (Nat.le_refl _)
  have hw := walkQueue_walked cfg.mallocOk (q := .wait) (unokBody hostname) (by simp) (by simp)
    (fun x t => by rcases unokBody_ne hostname x t with h | h <;> simp [h]) (cfg.csMaxTaskRunOnce - 1) ([], []) hd.placed
  obtain ⟨ts, hts⟩ := walkList_unok hostname (cfg.csMaxTaskRunOnce - 1) [] []
    ((drainWaitTmp cfg (s.vfstask .waitTmp).length s).vfstask .wait) (hd.moved ▸ sized_moved hl .wait)
  have hstate := hw.state.trans hts.text
  have heq := getTaskUnok_eq cfg s hostname
  dsimp only at heq
  rw [hstate] at heq
  refine ⟨_, ts, hd, rfl, ?_, by rw [heq]; rfl, by rw [heq]; rfl, hd.moved ▸ hts⟩
  rw [heq]
  exact ⟨rfl, hw.placed, hw.left, hw.sent⟩

/-- **A query conserves the requests**, from any queues, for any host and any bound. -/
theorem query_conserves (cfg : Cfg) (s : TaskStore) (hostname : Bytes) (hp : WellPlaced s)
    (hl : ∀ t ∈ missing s, t.Sized) :
    ∃ examined moved kept, QueryConserves cfg s hostname examined moved kept := by
  obtain ⟨w, ts, hq⟩ := getTaskUnok_queried cfg hostname hp hl
  have hroutes : ∀ r ∈ w.routed, r.2 = .home ∨ r.2 = .waitTmp := by
    rw [hq.walk]
    exact walkList_routes (P := fun q => q = .home ∨ q = .waitTmp) (unokBody_ne hostname) _ _ _
  have hsplit : w.routed.map Prod.fst ++ w.left.map Tasklist.popped = (missing s).map Tasklist.popped := by
    rw [hq.walk, walkList_split, hq.drained.moved]
    have hall := map_popped_moved .wait (s.vfstask .wait) (s.vfstask .waitTmp) (missing s).length
    rwa [List.take_of_length_le (by simp [missing]), List.take_of_length_le (by simp [missing])] at hall
  have hfront : w.routed.map Prod.fst <+: (missing s).map Tasklist.popped := ⟨_, hsplit⟩
  have haddr : ((missing s).map Tasklist.popped).map Tasklist.addr = (missing s).map Tasklist.addr :=
    List.map_map ..
  refine ⟨w.routed.map Prod.fst, w.sentTo .home, w.sentTo .waitTmp, hq.drained.empty, hq.walked.placed, hfront, ?_,
    Walk.perm_sentTo (by simp) hroutes, w.sentTo_sublist _, w.sentTo_sublist _, ?_, ?_, ?_, ?_, ?_, ?_, ?_, ?_⟩
  · rw [List.length_map, hq.walk]
    exact walkList_le _ _ _ _
  · refine (hp.nodup_append (p := .wait) (q := .waitTmp) (by simp)).sublist ?_
    exact haddr ▸ ((w.sentTo_sublist .home).trans hfront.sublist).map Tasklist.addr
  · rw [hq.listed.sent]
    intro t ht
    obtain ⟨u, hu, rfl⟩ := List.mem_map.mp ht
    exact of_decide_eq_true (List.mem_filter.mp (hq.listed.front.subset hu)).2
  · rw [hq.reply, hq.listed.sent, flatMap_popped]
  · rw [hq.walked.sent .home (by simp), hq.drained.other .home (by simp) (by simp)]
  · rw [hq.walked.sent .waitTmp (by simp), hq.drained.empty, List.nil_append]
  · rw [hq.walked.left, hq.walk, walkList_left, List.length_map, hq.drained.moved]
  · intro t ht
    have haddr : t.addr ∈ ((drainWaitTmp cfg (s.vfstask .waitTmp).length s).vfstask .wait).map Tasklist.addr := by
      have hmem : t.addr ∈ (missing s).map Tasklist.addr := List.mem_map_of_mem ht
      rw [hq.drained.moved, List.map_append, List.map_map]
      rwa [missing, List.map_append] at hmem
    obtain ⟨u, hu, hut⟩ := List.mem_map.mp haddr
    have hwalked := hq.walk ▸ hq.walked
    obtain ⟨p, hp', hin⟩ := hwalked.onePlace
      (fun x t => by rcases unokBody_ne hostname x t with h | h <;> simp [h]) hu
    refine ⟨p, ?_, fun q' => hut ▸ hin q'⟩
    rcases hp' with rfl | hr
    · exact Or.inr (Or.inl rfl)
    · rw [← hq.walk] at hr
      exact (hroutes _ hr).imp id Or.inr
  · intro q h1 h2 h3
    have hnone : w.sentTo q = [] := by
      rw [Walk.sentTo, List.filter_eq_nil_iff.mpr, List.map_nil]
      intro r hr hrq
      rcases hroutes r hr with he | he
      · exact h1 (of_decide_eq_true hrq ▸ he)
      · exact h3 (of_decide_eq_true hrq ▸ he)
    rw [hq.walked.sent q h2, hnone, List.map_nil, List.append_nil]
    exact hq.drained.other q h3 h2

/-! ## The room for the reply -/

/-- The reply to a query: it lists the first records `ts` of those asked for, all of them or as many as the buffer of
the list takes. -/
structure RepliesFrom (cfg : Cfg) (s : TaskStore) (hostname : Bytes) (ts : List Tasklist) : Prop where
  front : ts <+: asked cfg s hostname
  reply : (getTaskUnok cfg s hostname).1 = SmClient.createHeader (ts.flatMap unokText)
  out : (getTaskUnok cfg s hostname).2.1 = ts.map Tasklist.popped
  room : (ts.flatMap unokText).length < 10240
  full : ts = asked cfg s hostname ∨
    ∃ us, us <+: asked cfg s hostname ∧ us.length = ts.length + 1 ∧ 10240 ≤ (us.flatMap unokText).length

theorem repliesFrom (cfg : Cfg) (hostname : Bytes) (hp : WellPlaced s) (hl : ∀ t ∈ missing s, t.Sized) :
    ∃ ts, RepliesFrom cfg s hostname ts := by
  obtain ⟨w, us, hq⟩ := getTaskUnok_queried cfg hostname hp hl
  -- the drained records differ from those that waited in their status only
  have hsame := asked_moved cfg s hostname .wait
  have hback : ∀ {l : List Tasklist}, l <+: ((drainedWait s).take (cfg.csMaxTaskRunOnce - 1)).filter
      (fun t => t.base.hostname = hostname) → ∃ l', l' <+: asked cfg s hostname ∧ l.map Tasklist.popped =
        l'.map Tasklist.popped := by
    intro l h
    exact List.prefix_map_iff.mp (hsame ▸ h.map Tasklist.popped)
  have htext : ∀ {l l' : List Tasklist}, l.map Tasklist.popped = l'.map Tasklist.popped →
      l.flatMap unokText = l'.flatMap unokText := by
    intro l l' h
    rw [← flatMap_popped l, h, flatMap_popped]
  have hlength : ∀ {l l' : List Tasklist}, l.map Tasklist.popped = l'.map Tasklist.popped → l.length = l'.length := by
    intro l l' h
    simpa using congrArg List.length h
  obtain ⟨ts, hts, hmap⟩ := hback hq.listed.front
  have hroom := hq.listed.room (show 0 < 10240 by decide)
  refine ⟨ts, hts, htext hmap ▸ hq.reply, hmap ▸ hq.out, htext hmap ▸ hroom, ?_⟩
  rcases hq.listed.full with heq | ⟨u, hu, hlen⟩
  · exact Or.inl (hts.eq_of_length ((hlength hmap).symm.trans (hlength (heq ▸ hsame))))
  · obtain ⟨vs, hvs, hv⟩ := hback hu
    refine Or.inr ⟨vs, hvs, ?_, htext hv ▸ hlen⟩
    rw [← hlength hv, List.length_append, hlength hmap]
    rfl

theorem length_createHeader_reply (list : Bytes) : (SmClient.createHeader list).length = list.length + 58 := by
  unfold SmClient.createHeader
  simp only [List.length_append]
  rw [show (txt "GET /question/19973178 HTTP/1.0\r\n").length = 33 from by decide,
    show (txt "filename: ").length = 10 from by decide, show (txt "\r\n").length = 2 from by decide,
    show (txt "type: 251\r\n\r\n").length = 13 from by decide]
  omega

theorem flatMap_prefix_le {us ts : List Tasklist} (h : us <+: ts) :
    (us.flatMap unokText).length ≤ (ts.flatMap unokText).length := by
  obtain ⟨vs, rfl⟩ := h
  rw [List.flatMap_append, List.length_append]
  exact Nat.le_add_right _ _

/-- A reply that fits leaves room for its lines. -/
theorem leavesRoom_of_replyFits (hp : WellPlaced s) (hl : ∀ t ∈ missing s, t.Sized) (h : ReplyFits cfg s hostname) :
    LeavesRoom cfg s hostname := by
  obtain ⟨ts, hr⟩ := repliesFrom cfg hostname hp hl
  unfold ReplyFits at h
  rw [hr.reply, length_createHeader_reply] at h
  rintro us hus ⟨hlo, hhi⟩
  have hlonger : ¬ us <+: ts := fun hle => by
    have := flatMap_prefix_le hle
    omega
  rcases hr.full with rfl | ⟨vs, hvs, hlen, hbig⟩
  · exact hlonger hus
  · -- `us` is longer than the list, so it holds the record that was one too many
    have hlt : ts.length < us.length := by
      by_contra hle
      exact hlonger (List.prefix_of_prefix_length_le hus hr.front (Nat.le_of_not_lt hle))
    have hvus := List.prefix_of_prefix_length_le hvs hus (by omega)
    have := flatMap_prefix_le hvus
    omega

/-- **The reply fits its buffer**, from any queues, for any host and any bound, exactly if no first records of those
asked for have texts of 10182 to 10239 bytes together. -/
theorem reply_fits_iff (cfg : Cfg) (s : TaskStore) (hostname : Bytes) (hp : WellPlaced s)
    (hl : ∀ t ∈ missing s, t.Sized) : ReplyFits cfg s hostname ↔ LeavesRoom cfg s hostname := by
  constructor
  · exact leavesRoom_of_replyFits hp hl
  · intro h
    obtain ⟨ts, hr⟩ := repliesFrom cfg hostname hp hl
    have hts := h ts hr.front
    have hroom := hr.room
    unfold ReplyFits
    rw [hr.reply, length_createHeader_reply]
    omega

/-! ## Two queues -/

/-- The records of the first `n` blocks of a file, in `TASK_WAIT`. -/
def waitingBlocks (filename : Bytes) (n : Nat) : TaskStore where
  vfstask st := if st = .wait then (List.range n).map fun a =>
    ⟨a, { TaskBase.zero with filename := filename }, ⟨0, 0, 0, a + 1, n⟩, .wait, []⟩ else []
  taskcount _ := 0
  alltask _ := []
  next := n

theorem waitingBlocks_placed (filename : Bytes) (n : Nat) : WellPlaced (waitingBlocks filename n) := by
  refine onlyQueue_placed (q := .wait) ?_ fun t ht => ?_
  · rw [List.map_map]
    show ((List.range n).map fun a => a).Nodup
    rw [List.map_id']
    exact List.nodup_range
  · obtain ⟨a, ha, rfl⟩ := List.mem_map.mp ht
    exact List.mem_range.mp ha

theorem waitingBlocks_sized {filename : Bytes} {n : Nat} (hlen : filename.length ≤ 255) (hn : n < 2 ^ 31) :
    ∀ t ∈ missing (waitingBlocks filename n), t.Sized := by
  intro t ht
  rcases List.mem_append.mp ht with ht | ht
  · obtain ⟨a, ha, rfl⟩ := List.mem_map.mp (show t ∈ (List.range n).map _ from ht)
    have hlt := List.mem_range.mp ha
    exact ⟨hlen, by show _ ≤ (a + 1 : Int) ∧ (a + 1 : Int) < _; omega, by show _ ≤ (n : Int) ∧ (n : Int) < _; omega⟩
  · exact absurd ht List.not_mem_nil

theorem query_conserves_two :
    ∃ examined moved kept, QueryConserves .sample (waitingBlocks (txt "/d/f") 2) [] examined moved kept :=
  query_conserves .sample _ [] (waitingBlocks_placed _ 2) (waitingBlocks_sized (by decide) (by decide))

/-- The texts of two short records leave room. -/
theorem leavesRoom_two : LeavesRoom .sample (waitingBlocks (txt "/d/f") 2) [] := by
  rintro us hus ⟨hlo, -⟩
  have hle := flatMap_prefix_le hus
  have hall : ((asked .sample (waitingBlocks (txt "/d/f") 2) []).flatMap unokText).length = 18 := by decide +kernel
  omega

theorem reply_fits_two : ReplyFits .sample (waitingBlocks (txt "/d/f") 2) [] :=
  (reply_fits_iff .sample _ [] (waitingBlocks_placed _ 2) (waitingBlocks_sized (by decide) (by decide))).mpr
    leavesRoom_two

/-- Forty blocks of a file whose name has 248 bytes: their texts have 10191 bytes, which the buffer of the list takes,
and the reply does not fit the buffer it is put together in. -/
theorem reply_overflows :
    let s := waitingBlocks (List.replicate 248 97) 40
    (WellPlaced s ∧ ∀ t ∈ missing s, t.Sized) ∧ ¬ ReplyFits .sample s [] := by
  intro s
  have hl : ∀ t ∈ missing s, t.Sized :=
    waitingBlocks_sized (by rw [List.length_replicate]; decide) (by decide)
  refine ⟨⟨waitingBlocks_placed _ 40, hl⟩, fun h => ?_⟩
  have hlen : ((asked .sample s []).flatMap unokText).length = 10191 := by decide +kernel
  exact leavesRoom_of_replyFits (waitingBlocks_placed _ 40) hl h _ List.prefix_rfl (by rw [hlen]; decide)

end VfsOss
