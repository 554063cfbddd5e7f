import VfsOss.Uc.DirSync
import VfsOss.Uc.Blocks

/-!
# Events on watched directories

`vfs_data_inotify.c`: what the process does with an event. The kernel gives every watched directory a
number; `watch_dirs` says which directory it is.
-/

namespace VfsOss

open CLib

/-- `struct inotify_event`, for an event that has a name. -/
structure InotifyEvent where
  wd : Nat
  mask : Nat
  name : Bytes

/-- What the system calls made for one event return: `stat`, with whether the file is a directory; the
second `stat`, in `update_sync_time`; `time`; and for a new directory what is in it and the numbers it
and its subdirectories get. -/
structure EventIo where
  stat : Option (Bool × Stat)
  stat2 : Option Stat
  time : Int → Int
  listing : Listing
  wd : Bytes → Option Nat

/-- `IN_CLOSE_WRITE` or `IN_MOVED_TO` is in the mask. -/
def InotifyEvent.writes (ev : InotifyEvent) : Prop := ev.mask &&& 0x8 ≠ 0 ∨ ev.mask &&& 0x80 ≠ 0

/-- `IN_DELETE` or `IN_MOVED_FROM` is in the mask. -/
def InotifyEvent.deletes (ev : InotifyEvent) : Prop := ev.mask &&& 0x200 ≠ 0 ∨ ev.mask &&& 0x40 ≠ 0

/-- `IN_CREATE` is in the mask. -/
def InotifyEvent.creates (ev : InotifyEvent) : Prop := ev.mask &&& 0x100 ≠ 0

instance (ev : InotifyEvent) : Decidable ev.writes := inferInstanceAs (Decidable (_ ∨ _))

instance (ev : InotifyEvent) : Decidable ev.deletes := inferInstanceAs (Decidable (_ ∨ _))

instance (ev : InotifyEvent) : Decidable ev.creates := inferInstanceAs (Decidable (_ ≠ _))

/-- The number of a directory noted; there is room for `MAX_WATCH`. -/
def noteWatch (wd : Bytes → Option Nat) (indir : Bytes) (dirs : Nat → Bytes) : Option (Nat → Bytes) :=
  match wd indir with
  | none => none
  | some n => if n ≥ 10240 then none else some (Function.update dirs n (snprintf 256 indir))

/-- The loop of `add_watch`; false for -1. -/
def addWatchLoop (wd : Bytes → Option Nat) (indir : Bytes) :
    Listing → (Nat → Bytes) → Bool × (Nat → Bytes)
  | .done, dirs => (true, dirs)
  | .file _ _ rest, dirs => addWatchLoop wd indir rest dirs
  | .dir name sub rest, dirs =>
    if name.head? = some 46 then addWatchLoop wd indir rest dirs
    else
      let file := entryPath indir name
      match noteWatch wd file dirs with
      | none => (false, dirs)
      | some dirs =>
        let r := addWatchLoop wd file sub dirs
        if r.1 then addWatchLoop wd indir rest r.2 else r

/-- `add_watch`. -/
def addWatch (wd : Bytes → Option Nat) (indir : Bytes) (l : Listing) (dirs : Nat → Bytes) :
    Nat → Bytes :=
  match noteWatch wd indir dirs with
  | none => dirs
  | some dirs => (addWatchLoop wd indir l dirs).2

/-- The path an event is about, as `strcpy` and `strcat` put it together. -/
def eventPath (s : Uc) (ev : InotifyEvent) : Bytes := s.watchDirs ev.wd ++ txt "/" ++ ev.name

/-- The task made for an event: nothing when `stat` fails. -/
def eventTask (io : EventIo) (ev : InotifyEvent) (path : Bytes) : Option TaskBase :=
  let task := { TaskBase.zero with filename := snprintf 256 path }
  let task :=
    if ev.writes then
      io.stat.map fun st => { getLocalfileStat st.2 task with type := taskAddfile }
    else some task
  task.map fun task => if ev.deletes then { task with type := taskDelfile } else task

/-- An `int` overflows while the blocks of a file are counted: in `splic_count++`, or in the `idx++`
that should end the loop. -/
def countOverflows (cfg : UcCfg) (fsize : Int) : Prop :=
  toInt32 (fsize.tdiv cfg.splicMinSize) = 2 ^ 31 - 1 ∨ splicCount cfg fsize = 2 ^ 31 - 1

instance (cfg : UcCfg) (fsize : Int) : Decidable (countOverflows cfg fsize) :=
  inferInstanceAs (Decidable (_ ∨ _))

/-- `inotify_event_handler`. Nothing stands for undefined behaviour: a number behind the end of
`watch_dirs`, a path of more than 255 bytes, a count of blocks that overflows. -/
def inotifyEventHandler (cfg : UcCfg) (io : EventIo) (ev : InotifyEvent) (s : Uc) : Option Uc :=
  if ev.name.head? = some 46 then some s
  else if ev.wd ≥ 10240 then none
  else
    let path := eventPath s ev
    if path.length > 255 then none
    else if ev.creates then
      match io.stat with
      | some (true, _) => some { s with watchDirs := addWatch io.wd path io.listing s.watchDirs }
      | _ => some s
    else
      match eventTask io ev path with
      | none => some s
      | some task =>
        if countOverflows cfg task.fsize then none
        else some (splitTask cfg io.time io.stat2 task s)

/-- An event of a run: its name is not hidden, and when `stat` is called for it, it succeeds. -/
structure WatchEvent where
  ev : InotifyEvent
  io : EventIo
  visible : ev.name.head? ≠ some 46
  known : ev.writes ∨ ev.creates → ∃ b st, io.stat = some (b, st)

/-- The process takes one event; behind undefined behaviour nothing is known. -/
def eventStep (cfg : UcCfg) (s : Uc) (e : WatchEvent) : Uc :=
  (inotifyEventHandler cfg e.io e.ev s).getD s

/-- What an event asks for: a removed file gets a record of type `TASK_DELFILE`, and a regular file that
has been written or moved here and is not empty gets exactly its blocks. -/
def ChangeQueued (cfg : UcCfg) (s : Uc) (e : WatchEvent) : Prop :=
  ∃ s', inotifyEventHandler cfg e.io e.ev s = some s' ∧ ∃ new, s'.queued = s.queued ++ new ∧
    (e.ev.deletes → ∃ p ∈ new, p.type = taskDelfile ∧ p.filename = eventPath s e.ev) ∧
    (e.ev.writes → ∀ st, e.io.stat = some (false, st) → 0 < st.size →
      new = pieces cfg (eventPath s e.ev) taskAddfile st.size)

/-- An event whose handling is defined: its number and its path fit, and when its blocks are counted no
`int` overflows. -/
structure EventFits (cfg : UcCfg) (s : Uc) (e : WatchEvent) : Prop where
  number : e.ev.wd < 10240
  path : (eventPath s e.ev).length ≤ 255
  counts : ¬ e.ev.creates → e.ev.writes → ∀ b st, e.io.stat = some (b, st) →
    ¬ countOverflows cfg st.size

/-- When the program does what an event asks for: a removal comes together with a write, of something
with a number of blocks that is positive as an `int`; a write of a regular file comes without a removal
or a creation, and an `int` holds the number of its blocks. -/
structure ChangeHandled (cfg : UcCfg) (s : Uc) (e : WatchEvent) : Prop extends EventFits cfg s e where
  removed : e.ev.deletes → ¬ e.ev.creates ∧ e.ev.writes ∧
    ∀ b st, e.io.stat = some (b, st) → 0 < toInt32 (blockCount cfg st.size)
  written : e.ev.writes → ∀ st, e.io.stat = some (false, st) → 0 < st.size →
    ¬ e.ev.creates ∧ ¬ e.ev.deletes ∧ blockCount cfg st.size < 2 ^ 31 - 1

end VfsOss
