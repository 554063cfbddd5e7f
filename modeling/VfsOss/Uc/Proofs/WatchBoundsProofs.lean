import VfsOss.Uc.WatchBounds

/-!
# Proofs: when events are handled within bounds

Every watch descriptor below `MAX_WATCH` that the kernel has handed out has its directory noted, over
any walk of a directory tree and any run of events. With that, an event is handled within bounds
exactly when it has a name, its watch descriptor fits the array and the path fits its buffer.
-/

namespace VfsOss

open CLib

/-! ## The path -/

theorem cstr_zeros (n : Nat) : cstr (List.replicate n 0) = [] := by
  cases n with
  | zero => rfl
  | succ n => simp [cstr, List.replicate_succ]

/-- The path is put together exactly when it fits. -/
theorem buildPath_ok_iff {dir name : Bytes} : (∃ path, buildPath dir name = .ok path) ↔
    (cstr dir).length + (cstr name).length ≤ 254 := by
  have hempty : strcpy (List.replicate 256 0) 0 (cstr dir) = strcat (List.replicate 256 0) (cstr dir) := by
    rw [strcat, cstr_zeros]
    rfl
  have hslash : (0 : UInt8) ∉ txt "/" := by decide
  have hslashLen : (txt "/").length = 1 := rfl
  unfold buildPath
  rw [hempty]
  constructor
  · rintro ⟨path, hpath⟩
    cases hdir : strcat (List.replicate 256 0) (cstr dir) with
    | error e =>
      rw [hdir] at hpath
      exact nomatch hpath
    | ok p₁ =>
      rw [hdir] at hpath
      obtain ⟨hc₁, hl₁⟩ := strcat_spec (zero_not_mem_cstr dir) hdir
      change (strcat p₁ (txt "/") >>= _) = _ at hpath
      cases hs : strcat p₁ (txt "/") with
      | error e =>
        rw [hs] at hpath
        exact nomatch hpath
      | ok p₂ =>
        rw [hs] at hpath
        obtain ⟨hc₂, hl₂⟩ := strcat_spec hslash hs
        have hfit := strcat_ok_iff.mp ⟨path, hpath⟩
        rw [hc₂, hc₁, cstr_zeros, hl₂, hl₁, List.length_replicate] at hfit
        simp only [List.nil_append, List.length_append, hslashLen] at hfit
        omega
  · intro hle
    obtain ⟨p₁, h₁⟩ : ∃ p₁, strcat (List.replicate 256 0) (cstr dir) = .ok p₁ := strcat_ok_iff.mpr (by
      rw [cstr_zeros, List.length_replicate]
      change 0 + _ + 1 ≤ 256
      omega)
    obtain ⟨hc₁, hl₁⟩ := strcat_spec (zero_not_mem_cstr dir) h₁
    rw [cstr_zeros, List.nil_append] at hc₁
    rw [List.length_replicate] at hl₁
    obtain ⟨p₂, h₂⟩ : ∃ p₂, strcat p₁ (txt "/") = .ok p₂ := strcat_ok_iff.mpr (by
      rw [hc₁, hl₁, hslashLen]
      omega)
    obtain ⟨hc₂, hl₂⟩ := strcat_spec hslash h₂
    rw [h₁]
    change ∃ path, (strcat p₁ (txt "/") >>= _) = _
    rw [h₂]
    refine strcat_ok_iff.mpr ?_
    rw [hc₂, hc₁, hl₂, hl₁, List.length_append, hslashLen]
    omega

/-! ## The entries that are filled -/

namespace Watches

variable {w : Watches} {io : WatchIo} {ev : KernelEvent}

/-- What the kernel has handed out and fits the array is noted. -/
def Noted (w : Watches) : Prop := ∀ n ∈ w.kernel, n < maxWatch → w.dirs n ≠ none

theorem noted_init : Noted init := fun _ h => nomatch h

theorem Noted.note (h : w.Noted) (io : WatchIo) (indir : Bytes) : (note io indir w).2.Noted := by
  unfold Watches.note
  split
  · exact h
  next wd heq =>
  dsimp only
  split
  · next hmax =>
    intro n hn hlt
    obtain rfl | hn := List.mem_cons.mp hn
    · omega
    · exact h n hn hlt
  · intro n hn hlt
    by_cases hnw : n = wd
    · subst hnw
      simp
    · obtain hn | hn := List.mem_cons.mp hn
      · exact absurd hn hnw
      · simpa [hnw] using h n hn hlt

theorem Noted.walk (l : Listing) (indir : Bytes) (h : w.Noted) : (walk io indir l w).2.Noted := by
  induction l generalizing indir w with
  | done => exact h
  | file name st rest ih => exact ih indir h
  | dir name sub rest ihSub ihRest =>
    rw [Watches.walk]
    split
    · exact ihRest indir h
    · have hnote := h.note io (entryPath indir name)
      dsimp only
      split
      · have hsub := ihSub (entryPath indir name) hnote
        split
        · exact ihRest indir hsub
        · exact hsub
      · exact hnote

theorem Noted.addWatch (h : w.Noted) (io : WatchIo) (indir : Bytes) :
    (addWatch io indir w).2.Noted := by
  unfold Watches.addWatch
  dsimp only
  split
  · exact (h.note io indir).walk io.listing indir
  · exact h.note io indir

/-- An event that is handled leaves every handed out descriptor noted. -/
theorem Noted.handle (h : w.Noted) {w' : Watches} (hw : handle io ev w = .ok w') : w'.Noted := by
  unfold Watches.handle at hw
  split at hw
  · exact nomatch hw
  split at hw
  · obtain rfl := Except.ok.inj hw
    exact h
  split at hw
  · exact nomatch hw
  split at hw
  · exact nomatch hw
  split at hw
  · obtain rfl := Except.ok.inj hw
    exact h.addWatch io _
  · obtain rfl := Except.ok.inj hw
    exact h

/-! ## Events -/

/-- The entry that an event of the kernel is about is in the array exactly when its number is. -/
theorem Noted.dirAt (h : w.Noted) {n : Nat} (hn : n ∈ w.kernel) :
    w.dirAt n = if n < maxWatch then some ((w.dirs n).getD []) else none := by
  unfold Watches.dirAt
  by_cases hlt : n < maxWatch
  · rw [if_pos (by omega), if_pos hlt, Int.toNat_natCast]
    obtain ⟨dir, hdir⟩ := Option.ne_none_iff_exists'.mp (h n hn hlt)
    rw [hdir]
    rfl
  · rw [if_neg (by omega), if_neg hlt]

/-- One event is handled within bounds exactly when it is as `Handled` says. -/
theorem Noted.handle_iff (h : w.Noted) (hev : MayDeliver w ev) :
    (∃ w', Watches.handle io ev w = .ok w') ↔ Handled w ev := by
  unfold Watches.handle Handled
  cases hname : ev.name with
  | none => simp
  | some name =>
    obtain ⟨-, -, hzero⟩ := hev.name name hname
    have hcstr : cstr name = name := by
      have := cstr_append_of_not_mem hzero []
      simpa [cstr] using this
    -- the queue overflow carries no name
    obtain ⟨-, -, hnone⟩ | ⟨n, hn, hwd⟩ := hev.wd
    · rw [hname] at hnone
      cases hnone
    dsimp only
    by_cases hhidden : name.head? = some 46
    · rw [if_pos hhidden]
      exact iff_of_true ⟨w, rfl⟩ ⟨name, rfl, .inl hhidden⟩
    rw [if_neg hhidden, hwd, h.dirAt hn, Int.toNat_natCast]
    by_cases hlt : n < maxWatch
    · rw [if_pos hlt]
      have hpath : (∃ path, buildPath ((w.dirs n).getD []) name = .ok path) ↔ _ := buildPath_ok_iff
      rw [hcstr] at hpath
      have hhandled : (∃ name', some name = some name' ∧ (name'.head? = some 46 ∨
          ((n : Int) < maxWatch ∧ (cstr ((w.dirs n).getD [])).length + name'.length ≤ 254))) ↔
          (cstr ((w.dirs n).getD [])).length + name.length ≤ 254 := by
        constructor
        · rintro ⟨name', heq, hrest⟩
          obtain rfl := Option.some.inj heq
          exact (hrest.resolve_left hhidden).2
        · exact fun hle => ⟨name, rfl, .inr ⟨by omega, hle⟩⟩
      rw [hhandled, ← hpath]
      dsimp only
      cases buildPath ((w.dirs n).getD []) name with
      | error e => simp
      | ok path =>
        refine iff_of_true ?_ ⟨path, rfl⟩
        dsimp only
        split
        · exact ⟨_, rfl⟩
        · exact ⟨_, rfl⟩
    · rw [if_neg hlt]
      refine iff_of_false ?_ ?_
      · rintro ⟨_, hw⟩
        cases hw
      rintro ⟨name', heq, hrest⟩
      obtain rfl := Option.some.inj heq
      have := (hrest.resolve_left hhidden).1
      omega

theorem Noted.run_iff (events : List (WatchIo × KernelEvent)) (h : w.Noted) (hd : Delivers w events) :
    (∃ w', w.run events = .ok w') ↔ AllHandled w events := by
  induction events generalizing w with
  | nil => exact iff_of_true ⟨w, rfl⟩ trivial
  | cons e events ih =>
    have hstep : (∃ w', Watches.handle e.1 e.2 w = .ok w') ↔ Handled w e.2 := h.handle_iff hd.1
    have hcons : w.run (e :: events) = Watches.handle e.1 e.2 w >>= fun w => w.run events :=
      List.foldlM_cons
    rw [hcons]
    cases hw : Watches.handle e.1 e.2 w with
    | error fault =>
      rw [hw] at hstep
      refine iff_of_false (fun ⟨_, hok⟩ => nomatch hok) fun hall => ?_
      obtain ⟨w', hok⟩ := hstep.mpr hall.1
      exact nomatch hok
    | ok w' =>
      change (∃ w'', w'.run events = .ok w'') ↔ _
      rw [ih (h.handle hw) (hd.2 w' hw)]
      constructor
      · intro hall
        refine ⟨hstep.mp ⟨w', hw⟩, fun w'' hw'' => ?_⟩
        obtain rfl := Except.ok.inj (hw.symm.trans hw'')
        exact hall
      · exact fun hall => hall.2 w' hw

end Watches

/-- The events of a run are handled within bounds, whatever directory tree was walked before them, if
and only if each of them has a name and, unless that is hidden, a watch descriptor below `MAX_WATCH`
and a path that fits. -/
theorem events_in_bounds_iff (io : WatchIo) (flvdir : Bytes) {events : List (WatchIo × KernelEvent)}
    (hd : Watches.Delivers (Watches.addWatch io flvdir .init).2 events) :
    (∃ w, (Watches.addWatch io flvdir .init).2.run events = .ok w) ↔
      Watches.AllHandled (Watches.addWatch io flvdir .init).2 events :=
  (Watches.noted_init.addWatch io flvdir).run_iff events hd

/-- One watched directory, with watch descriptor 1. -/
def WatchIo.one : WatchIo := ⟨none, .done, fun _ => some 1, fun _ => true⟩

/-- A file in it has been written. -/
def KernelEvent.written : KernelEvent := ⟨1, 0x8, some (txt "a.flv")⟩

/-- The queue of events has overflowed. -/
def KernelEvent.overflow : KernelEvent := ⟨-1, 0x4000, none⟩

theorem delivers_written : Watches.Delivers (Watches.addWatch .one (txt "/flvdata") .init).2
    [(.one, .written)] := by
  refine ⟨⟨.inr ⟨1, by decide, rfl⟩, ?_⟩, fun _ _ => trivial⟩
  intro name hname
  obtain rfl := Option.some.inj hname
  decide

theorem events_in_bounds_iff_written :
    ∃ w, (Watches.addWatch .one (txt "/flvdata") .init).2.run [(.one, .written)] = .ok w :=
  (events_in_bounds_iff .one (txt "/flvdata") delivers_written).mpr
    ⟨⟨txt "a.flv", rfl, .inr ⟨by decide, by decide⟩⟩, fun _ _ => trivial⟩

/-- The event of an overflow has no name, and the handler reads it all the same. -/
theorem overflow_out_of_bounds :
    Watches.Delivers (Watches.addWatch .one (txt "/flvdata") .init).2 [(.one, .overflow)] ∧
      (Watches.addWatch .one (txt "/flvdata") .init).2.run [(.one, .overflow)] = .error .noName :=
  ⟨⟨⟨.inl ⟨rfl, rfl, rfl⟩, fun _ h => nomatch h⟩, fun _ _ => trivial⟩, rfl⟩

end VfsOss
