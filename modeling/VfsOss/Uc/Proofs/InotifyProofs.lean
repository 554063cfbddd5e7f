import VfsOss.CLib.Run
import VfsOss.Uc.Inotify
import VfsOss.Uc.Proofs.SplitProofs

/-!
# Proofs: events on watched directories

An event's change is queued exactly when the handler can take it; a removal alone never is.
-/

namespace VfsOss

open CLib

variable {cfg : UcCfg} {s s' : Uc} {e : WatchEvent} {ev : InotifyEvent} {io : EventIo}

/-! ## What an event queues -/

/-- The type of the records made for an event. -/
def eventType (ev : InotifyEvent) : UInt8 := if ev.deletes then taskDelfile else taskAddfile

/-- The blocks an event queues. Only an event that writes has a size. -/
def eventPieces (cfg : UcCfg) (s : Uc) (e : WatchEvent) : List Piece :=
  match if e.ev.writes ∧ ¬ e.ev.creates then e.io.stat else none with
  | none => []
  | some (_, st) =>
    let n := toInt32 (blockCount cfg st.size)
    (idxs n).map (pieceAt cfg (eventPath s e.ev) (eventType e.ev) st.size n)

theorem eventPieces_eq (hw : e.ev.writes) (hc : ¬ e.ev.creates) {b : Bool} {st : Stat}
    (hst : e.io.stat = some (b, st)) :
    eventPieces cfg s e = (idxs (toInt32 (blockCount cfg st.size))).map (pieceAt cfg
      (eventPath s e.ev) (eventType e.ev) st.size (toInt32 (blockCount cfg st.size))) := by
  unfold eventPieces
  rw [if_pos ⟨hw, hc⟩, hst]

/-- Something is queued only for an event that writes and creates nothing. -/
theorem of_mem_eventPieces {p : Piece} (h : p ∈ eventPieces cfg s e) :
    ¬ e.ev.creates ∧ e.ev.writes ∧ p.type = eventType e.ev ∧ p.filename = eventPath s e.ev ∧
      ∀ b st, e.io.stat = some (b, st) → 0 < toInt32 (blockCount cfg st.size) := by
  by_cases hwc : e.ev.writes ∧ ¬ e.ev.creates
  · obtain ⟨hw, hc⟩ := hwc
    obtain ⟨b, st, hst⟩ := e.known (Or.inl hw)
    rw [eventPieces_eq hw hc hst] at h
    obtain ⟨i, hi, rfl⟩ := List.mem_map.mp h
    refine ⟨hc, hw, rfl, rfl, fun b' st' h' => ?_⟩
    obtain ⟨-, rfl⟩ := Prod.mk.inj (Option.some.inj (hst.symm.trans h'))
    obtain ⟨h1, h2⟩ := mem_idxs.mp hi
    omega
  · unfold eventPieces at h
    rw [if_neg hwc] at h
    exact absurd h List.not_mem_nil

/-- The task of an event that does not write has no size. -/
theorem eventTask_unwritten (io : EventIo) (hw : ¬ ev.writes) (path : Bytes) :
    ∃ task, eventTask io ev path = some task ∧ task.fsize = 0 := by
  unfold eventTask
  dsimp only
  rw [if_neg hw, Option.map_some]
  split
  · exact ⟨_, rfl, rfl⟩
  · exact ⟨_, rfl, rfl⟩

/-- The task of an event that writes. -/
theorem eventTask_written (hw : ev.writes) {b : Bool} {st : Stat} (hst : io.stat = some (b, st))
    {path : Bytes} (hpath : path.length ≤ 255) :
    ∃ task, eventTask io ev path = some task ∧ task.fsize = st.size ∧ task.filename = path ∧
      task.type = eventType ev := by
  have hcut : snprintf 256 path = path := by
    rw [snprintf, List.take_of_length_le (by omega)]
  unfold eventTask eventType
  dsimp only
  rw [if_pos hw, hst, hcut, Option.map_some, Option.map_some]
  split
  · exact ⟨_, rfl, rfl, rfl, rfl⟩
  · exact ⟨_, rfl, rfl, rfl, rfl⟩

/-- No file, no blocks. -/
theorem blockCount_zero : blockCount cfg 0 = 0 := by
  rw [blockCount_eq (by omega), Int.zero_tmod, if_neg (by simp), Int.zero_tdiv]

/-- The handler is defined for the events that fit, and what it queues. -/
theorem inotifyEventHandler_spec (hm : ∀ n, cfg.mallocOk n = true) (hp : WellPlaced s.store)
    (hl : s.left = none) (e : WatchEvent) :
    ¬ EventFits cfg s e ∧ inotifyEventHandler cfg e.io e.ev s = none ∨
    EventFits cfg s e ∧ ∃ s', inotifyEventHandler cfg e.io e.ev s = some s' ∧
      WellPlaced s'.store ∧ s'.left = none ∧ s'.queued = s.queued ++ eventPieces cfg s e := by
  unfold inotifyEventHandler eventPieces
  dsimp only
  rw [if_neg e.visible]
  by_cases hn : e.ev.wd ≥ 10240
  · rw [if_pos hn]
    exact Or.inl ⟨fun h => absurd h.number (by omega), rfl⟩
  rw [if_neg hn]
  by_cases hpath : (eventPath s e.ev).length > 255
  · rw [if_pos hpath]
    exact Or.inl ⟨fun h => absurd h.path (by omega), rfl⟩
  rw [if_neg hpath]
  by_cases hc : e.ev.creates
  · -- a new directory is watched, a new file waits for its write
    have hfits : EventFits cfg s e := ⟨by omega, by omega, fun h => absurd hc h⟩
    rw [if_pos hc, if_neg (fun h => h.2 hc)]
    refine Or.inr ⟨hfits, ?_⟩
    rw [List.append_nil]
    split
    · exact ⟨_, rfl, hp, hl, rfl⟩
    · exact ⟨_, rfl, hp, hl, rfl⟩
  rw [if_neg hc]
  by_cases hw : e.ev.writes
  · obtain ⟨b, st, hst⟩ := e.known (Or.inl hw)
    obtain ⟨task, htask, hsize, hname, htype⟩ :=
      eventTask_written hw hst (show (eventPath s e.ev).length ≤ 255 by omega)
    rw [htask, if_pos ⟨hw, hc⟩, hst]
    dsimp only
    rw [hsize]
    by_cases ho : countOverflows cfg st.size
    · rw [if_pos ho]
      exact Or.inl ⟨fun h => h.counts hc hw b st hst ho, rfl⟩
    rw [if_neg ho]
    have hfits : EventFits cfg s e := by
      refine ⟨by omega, by omega, fun _ _ b' st' h' => ?_⟩
      obtain ⟨-, rfl⟩ := Prod.mk.inj (Option.some.inj (hst.symm.trans h'))
      exact ho
    obtain ⟨hp', hl', hq'⟩ := splitTask_queued hm e.io.time e.io.stat2 task hp hl
    refine Or.inr ⟨hfits, _, rfl, hp', hl', ?_⟩
    rw [hq', hsize, hname, htype, splicCount_eq_toInt32 (Int.natCast_nonneg _)]
    split
    · next hz =>
      -- an empty file has no blocks
      rw [hz, blockCount_zero]
      rfl
    · rfl
  · obtain ⟨task, htask, hsize⟩ := eventTask_unwritten e.io hw (eventPath s e.ev)
    rw [htask, if_neg (fun h => hw h.1)]
    dsimp only
    have hcount : ¬ countOverflows cfg 0 := by
      rintro (h | h)
      · rw [Int.zero_tdiv] at h
        exact absurd h (by decide)
      · rw [splicCount_eq_toInt32 (by omega), blockCount_zero] at h
        exact absurd h (by decide)
    rw [hsize, if_neg hcount]
    obtain ⟨hp', hl', hq'⟩ := splitTask_queued hm e.io.time e.io.stat2 task hp hl
    rw [hsize, if_pos rfl] at hq'
    exact Or.inr ⟨⟨by omega, by omega, fun _ h => absurd h hw⟩, _, rfl, hp', hl', hq'⟩

/-! ## Every run -/

theorem eventStep_alive (hm : ∀ n, cfg.mallocOk n = true) (h : WellPlaced s.store ∧ s.left = none)
    (e : WatchEvent) : WellPlaced (eventStep cfg s e).store ∧ (eventStep cfg s e).left = none := by
  unfold eventStep
  rcases inotifyEventHandler_spec hm h.1 h.2 e with ⟨-, hnone⟩ | ⟨-, s', hs', hp, hl, -⟩
  · rw [hnone, Option.getD_none]
    exact h
  · rw [hs', Option.getD_some]
    exact ⟨hp, hl⟩

/-- One event's change is queued exactly when it is one that the handler can take. -/
theorem changeQueued_iff (hm : ∀ n, cfg.mallocOk n = true) (hp : WellPlaced s.store) (hl : s.left = none)
    (e : WatchEvent) : ChangeQueued cfg s e ↔ ChangeHandled cfg s e := by
  rcases inotifyEventHandler_spec hm hp hl e with ⟨hfit, hnone⟩ | ⟨hfit, s', hs', -, -, hq⟩
  · constructor
    · rintro ⟨s', hs', -⟩
      rw [hnone] at hs'
      contradiction
    · exact fun h => absurd h.toEventFits hfit
  have hnew : ChangeQueued cfg s e ↔
      (e.ev.deletes → ∃ p ∈ eventPieces cfg s e, p.type = taskDelfile ∧ p.filename = eventPath s e.ev) ∧
      (e.ev.writes → ∀ st, e.io.stat = some (false, st) → 0 < st.size →
        eventPieces cfg s e = pieces cfg (eventPath s e.ev) taskAddfile st.size) := by
    constructor
    · rintro ⟨s'', hs'', new, hq', h⟩
      obtain rfl := Option.some.inj (hs'.symm.trans hs'')
      obtain rfl := List.append_cancel_left (hq.symm.trans hq')
      exact h
    · exact fun h => ⟨s', hs', _, hq, h⟩
  rw [hnew]
  constructor
  · rintro ⟨hdel, hwri⟩
    refine { toEventFits := hfit, removed := fun hd => ?_, written := fun hw st hst hpos => ?_ }
    · obtain ⟨p, hp', -⟩ := hdel hd
      obtain ⟨hc, hw, -, -, hcount⟩ := of_mem_eventPieces hp'
      exact ⟨hc, hw, hcount⟩
    · have heq := hwri hw st hst hpos
      have hcount := blockCount_pos cfg (show (0 : Int) < st.size by omega)
      have hfirst : pieceAt cfg (eventPath s e.ev) taskAddfile st.size (blockCount cfg st.size) 1 ∈
          eventPieces cfg s e := by
        rw [heq]
        exact List.mem_map_of_mem (mem_idxs.mpr ⟨by omega, by omega⟩)
      obtain ⟨hc, -, htype, -, hpos'⟩ := of_mem_eventPieces hfirst
      refine ⟨hc, fun hd => ?_, ?_⟩
      · rw [eventType, if_pos hd] at htype
        exact absurd htype (show taskAddfile ≠ taskDelfile by decide)
      · -- the lists have the same length
        have hlen := congrArg List.length heq
        rw [eventPieces_eq hw hc hst, pieces, List.length_map, List.length_map, idxs, idxs,
          List.length_map, List.length_map, List.length_range, List.length_range] at hlen
        have hlt : toInt32 (blockCount cfg st.size) < 2 ^ 31 := Int.bmod_lt (by decide)
        have hne := hfit.counts hc hw false st hst
        rw [countOverflows, splicCount_eq_toInt32 (Int.natCast_nonneg _), not_or] at hne
        have := hpos' false st hst
        omega
  · intro h
    refine ⟨fun hd => ?_, fun hw st hst hpos => ?_⟩
    · obtain ⟨hc, hw, hcount⟩ := h.removed hd
      obtain ⟨b, st, hst⟩ := e.known (Or.inl hw)
      rw [eventPieces_eq hw hc hst, eventType, if_pos hd]
      refine ⟨_, List.mem_map_of_mem (mem_idxs.mpr ⟨le_refl 1, hcount b st hst⟩), rfl, rfl⟩
    · obtain ⟨hc, hd, hlt⟩ := h.written hw st hst hpos
      have hcount := blockCount_pos cfg (show (0 : Int) < st.size by omega)
      rw [eventPieces_eq hw hc hst, toInt32_of_range (by omega) (by omega), eventType, if_neg hd]
      rfl

/-- **Every change is queued, for the events that the handler can take.** In a run of the process with
memory for its records, every event's change is queued exactly when every event is one of these. -/
theorem changes_queued_iff (hm : ∀ n, cfg.mallocOk n = true) (hp : WellPlaced s.store)
    (hl : s.left = none) (evs : List WatchEvent) :
    RunOk (eventStep cfg) (ChangeQueued cfg) s evs ↔ RunOk (eventStep cfg) (ChangeHandled cfg) s evs := by
  refine RunOk.iff_of_invariant (fun s => WellPlaced s.store ∧ s.left = none) ?_ ?_ ⟨hp, hl⟩ evs
  · exact fun s e h => eventStep_alive hm h e
  · exact fun s e h => changeQueued_iff hm h.1 h.2 e

/-- A process that watches one directory. -/
def Uc.watching : Uc :=
  { Uc.init 2048 (fun _ => none) none with watchDirs := fun _ => txt "/flvdata" }

/-- An event about the file `f` there. -/
def watchedEvent (mask : Nat) : WatchEvent where
  ev := ⟨1, mask, txt "f"⟩
  io := ⟨some (false, ⟨2, 5, []⟩), some ⟨2, 5, []⟩, fun _ => 7, .done, fun _ => none⟩
  visible := by show (txt "f").head? ≠ some 46; decide
  known _ := ⟨false, ⟨2, 5, []⟩, rfl⟩

theorem watching_placed : WellPlaced Uc.watching.store := initTaskInfo_placed 2048

/-- A file of two blocks is written. -/
theorem changes_queued_written :
    RunOk (eventStep .sample) (ChangeQueued .sample) Uc.watching [watchedEvent 0x8] := by
  refine (changes_queued_iff (fun _ => rfl) watching_placed rfl _).mpr ⟨?_, trivial⟩
  refine ⟨⟨by decide, by decide, fun _ _ b st hst => ?_⟩, fun h => absurd h (by decide),
    fun _ st hst _ => ?_⟩
  all_goals
    obtain ⟨-, rfl⟩ := Prod.mk.inj (Option.some.inj hst)
    decide

/-- A file is removed, and nothing is queued. -/
theorem delete_not_queued :
    ¬ RunOk (eventStep .sample) (ChangeQueued .sample) Uc.watching [watchedEvent 0x200] := by
  rintro ⟨h, -⟩
  have hhandled := (changeQueued_iff (fun _ => rfl) watching_placed rfl _).mp h
  exact absurd (hhandled.removed (by decide)).2.1 (by decide)

end VfsOss
