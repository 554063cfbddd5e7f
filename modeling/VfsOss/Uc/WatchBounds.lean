import VfsOss.CLib.Memory
import VfsOss.Uc.Inotify

/-!
# The array of watched directories

What `add_watch` and `inotify_event_handler` do with memory: which entries of `watch_dirs` are filled
and read, the name behind an event, and the path that `strcpy` and `strcat` put together. The kernel
keeps the watch descriptors it has handed out, and may deliver an event for any of them; it also sends
events that carry no name, which no mask asks for.
-/

namespace VfsOss

open CLib

/-- `MAX_WATCH`. -/
def maxWatch : Nat := 10240

/-- The entries of `watch_dirs` that were filled, and the watch descriptors that
`inotify_add_watch` has returned. -/
structure Watches where
  dirs : Nat → Option Bytes
  kernel : List Nat

/-- `struct inotify_event`; nothing stands for a name of length 0, an event that carries none. -/
structure KernelEvent where
  wd : Int
  mask : Nat
  name : Option Bytes

/-- What the system calls made for one event return: whether `stat` finds a directory, what is in it,
and for each directory the result of `inotify_add_watch` and whether `opendir` succeeds. -/
structure WatchIo where
  isDir : Option Bool
  listing : Listing
  wd : Bytes → Option Nat
  opens : Bytes → Bool

/-- Where an event makes the handler leave its memory. -/
inductive EventFault where
  | noName
  | badIndex
  | pathOverflow
  deriving DecidableEq

/-- `path[256]` with a directory, a slash and a name in it. -/
def buildPath (dir name : Bytes) : Except MemFault Bytes := do
  let path ← strcpy (List.replicate 256 0) 0 (cstr dir)
  let path ← strcat path (txt "/")
  strcat path (cstr name)

namespace Watches

/-- Before the first directory is added: `watch_dirs` is zeroed. -/
def init : Watches := ⟨fun _ => none, []⟩

/-- The start of `add_watch`, up to `opendir`; false for -1. -/
def note (io : WatchIo) (indir : Bytes) (w : Watches) : Bool × Watches :=
  match io.wd indir with
  | none => (false, w)
  | some wd =>
    let w := { w with kernel := wd :: w.kernel }
    if wd ≥ maxWatch then (false, w)
    else (io.opens indir, { w with dirs := Function.update w.dirs wd (some (snprintf 256 indir)) })

/-- The loop of `add_watch`. -/
def walk (io : WatchIo) (indir : Bytes) : Listing → Watches → Bool × Watches
  | .done, w => (true, w)
  | .file _ _ rest, w => walk io indir rest w
  | .dir name sub rest, w =>
    if name.head? = some 46 then walk io indir rest w
    else
      let file := entryPath indir name
      let r := note io file w
      if r.1 then
        let r := walk io file sub r.2
        if r.1 then walk io indir rest r.2 else r
      else r

/-- `add_watch`. -/
def addWatch (io : WatchIo) (indir : Bytes) (w : Watches) : Bool × Watches :=
  let r := note io indir w
  if r.1 then walk io indir io.listing r.2 else r

/-- `watch_dirs[wd]`: nothing outside the array and where no directory was noted. -/
def dirAt (w : Watches) (wd : Int) : Option Bytes :=
  if 0 ≤ wd ∧ wd < maxWatch then w.dirs wd.toNat else none

/-- `inotify_event_handler`, as far as it works on `watch_dirs` and the path. -/
def handle (io : WatchIo) (ev : KernelEvent) (w : Watches) : Except EventFault Watches :=
  -- `event->name` is an array, never the null pointer: its first byte is read in any case
  match ev.name with
  | none => .error .noName
  | some filename =>
    if filename.head? = some 46 then .ok w
    else
      match w.dirAt ev.wd with
      | none => .error .badIndex
      | some dir =>
        match buildPath dir filename with
        | .error _ => .error .pathOverflow
        | .ok path =>
          if ev.mask &&& 0x100 ≠ 0 ∧ io.isDir = some true then .ok (addWatch io (cstr path) w).2
          else .ok w

/-- The loop of `start_inotify_thread` on a number of events. -/
def run (w : Watches) (events : List (WatchIo × KernelEvent)) : Except EventFault Watches :=
  events.foldlM (fun w e => handle e.1 e.2 w) w

/-- The kernel may deliver the event: the queue has overflowed, or it is for a watch descriptor that
it has handed out. A name that comes with it is a file name of at most 255 bytes. -/
structure MayDeliver (w : Watches) (ev : KernelEvent) : Prop where
  wd : (ev.wd = -1 ∧ ev.mask = 0x4000 ∧ ev.name = none) ∨ ∃ n ∈ w.kernel, ev.wd = n
  name : ∀ name, ev.name = some name → name ≠ [] ∧ name.length ≤ 255 ∧ (0 : UInt8) ∉ name

/-- The kernel may deliver the events one after the other, for as long as they are handled. -/
def Delivers : Watches → List (WatchIo × KernelEvent) → Prop
  | _, [] => True
  | w, e :: events => MayDeliver w e.2 ∧ ∀ w', handle e.1 e.2 w = .ok w' → Delivers w' events

/-- The event has a name, and unless that is hidden, its watch descriptor is below `MAX_WATCH` and the
directory, a slash and the name fit the path. -/
def Handled (w : Watches) (ev : KernelEvent) : Prop :=
  ∃ name, ev.name = some name ∧ (name.head? = some 46 ∨
    (ev.wd < maxWatch ∧ (cstr ((w.dirs ev.wd.toNat).getD [])).length + name.length ≤ 254))

/-- All events are such. -/
def AllHandled : Watches → List (WatchIo × KernelEvent) → Prop
  | _, [] => True
  | w, e :: events => Handled w e.2 ∧ ∀ w', handle e.1 e.2 w = .ok w' → AllHandled w' events

end Watches

end VfsOss
