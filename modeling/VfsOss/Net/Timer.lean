import VfsOss.CLib.Rings

/-!
# The timer list

`vfs_timer.c` in memory: the nodes of the timers, linked into `delay_home` while they are free and into `delay_active`
while they hold a timer. The mutex is taken to be acquired and `malloc` to return a node; the pointers of a node are
initialised before they are read, so that memory starts with every node a ring of its own. Times are integers.
-/

namespace VfsOss

open CLib

/-- `delay_home` and `delay_active`. -/
inductive DelayList where
  | home
  | active
  deriving DecidableEq

/-- Every `list_head_t`: the two heads, and `tlist` in the node with a given address. -/
inductive TimerNode where
  | head (k : DelayList)
  | tlist (timer : Nat)
  deriving DecidableEq

/-- `t_vfs_timer`; a callback may change the arguments it is given. -/
structure VfsTimer where
  cb : Bytes → Bytes
  args : Bytes
  nextTime : Int
  spanTime : Int
  loop : Int

/-- The memory: the pointers, the timers by the address of their node, and the address the next `malloc` returns.
The other fields are histories: the number of timers added, which of them a node was last filled with, and the
callbacks that were run, each with the number of its timer and the time. -/
structure TimerMem where
  links : ListHeads TimerNode
  timers : Nat → VfsTimer
  next : Nat
  added : Nat
  holds : Nat → Option Nat
  runs : List (Option Nat × Int)

namespace TimerMem

/-- `list_del_init` of a node. -/
def del (m : TimerMem) (timer : Nat) : TimerMem := { m with links := listDelInit m.links (.tlist timer) }

/-- `INIT_LIST_HEAD` of a node. -/
def initNode (m : TimerMem) (timer : Nat) : TimerMem := { m with links := initListHead m.links (.tlist timer) }

/-- `list_add_head` of a node. -/
def addHead (m : TimerMem) (timer : Nat) (k : DelayList) : TimerMem :=
  { m with links := listAddHead m.links (.tlist timer) (.head k) }

/-- `delay_task_init`, with `n` nodes (`default_max`, 1024 in the source). -/
def delayTaskInit (timers : Nat → VfsTimer) (n : Nat) : TimerMem :=
  (List.range n).foldl (fun m timer => (m.initNode timer).addHead timer .home)
    { links := ⟨id, id⟩, timers := timers, next := n, added := 0, holds := fun _ => none, runs := [] }

/-- The node that `add_to_delay_task` fills, and the memory without it in `delay_home`. Nothing is returned for
undefined behaviour, or when the loop does not come back to the head within as many steps as there are nodes. -/
def takeNode (m : TimerMem) : Option (Nat × TimerMem) := do
  let r ← findSafe m.links (.head .home)
    (fun node => match node with
      | .tlist timer => some (some timer)
      | .head _ => none)
    (m.next + 1) (m.links.next (.head .home)) (m.links.next (m.links.next (.head .home)))
  match r with
  | some timer => return (timer, m.del timer)
  | none => return (m.next, { m with next := m.next + 1 })

/-- `add_to_delay_task`, where `time` returns `cur`. -/
def addToDelayTask (vfsTimer : VfsTimer) (cur : Int) (m : TimerMem) : Option TimerMem := do
  let (timer, m) ← m.takeNode
  let m := m.initNode timer
  let vfsTimer := { vfsTimer with nextTime := cur + vfsTimer.spanTime }
  let m := { m with
    timers := Function.update m.timers timer vfsTimer
    added := m.added + 1
    holds := Function.update m.holds timer (some m.added) }
  return m.addHead timer .active

/-- The callback of a timer is run. -/
def callback (m : TimerMem) (timer : Nat) (cur : Int) : TimerMem :=
  let t := m.timers timer
  { m with
    timers := Function.update m.timers timer { t with args := t.cb t.args }
    runs := m.runs ++ [(m.holds timer, cur)] }

/-- The body of the loop in `scan_delay_task`. -/
def scanBody (cur : Int) (timer : Nat) (m : TimerMem) : TimerMem :=
  if cur > (m.timers timer).nextTime then
    let m := m.callback timer cur
    let t := m.timers timer
    if t.loop ≠ 0 then
      { m with timers := Function.update m.timers timer { t with nextTime := cur + t.spanTime } }
    else (m.del timer).addHead timer .home
  else m

/-- `scan_delay_task`, where `time` returns `cur`. -/
def scanDelayTask (cur : Int) (m : TimerMem) : Option TimerMem :=
  forEachSafe links (.head .active)
    (fun node m => match node with
      | .tlist timer => some (scanBody cur timer m)
      | .head _ => none)
    (m.next + 1) (m.links.next (.head .active)) (m.links.next (m.links.next (.head .active))) m

end TimerMem

/-- A call of one of the functions, with the time it finds. -/
inductive TimerAct where
  | add (vfsTimer : VfsTimer) (cur : Int)
  | scan (cur : Int)

namespace TimerMem

/-- One call. -/
def step (m : TimerMem) : TimerAct → Option TimerMem
  | .add vfsTimer cur => m.addToDelayTask vfsTimer cur
  | .scan cur => m.scanDelayTask cur

/-- A number of calls. -/
def runCalls (m : TimerMem) (acts : List TimerAct) : Option TimerMem := acts.foldlM step m

/-! ## What is expected of it -/

/-- The times of the scans among some calls. -/
def scanTimes (acts : List TimerAct) : List Int :=
  acts.filterMap fun
    | .scan cur => some cur
    | .add _ _ => none

/-- The number of timers that some calls add, which is the number of the next one. -/
def addCount (acts : List TimerAct) : Nat :=
  acts.countP fun
    | .add _ _ => true
    | .scan _ => false

/-- The times at which the callback of a timer was run. -/
def runsOf (m : TimerMem) (i : Nat) : List Int := (m.runs.filter (·.1 = some i)).map (·.2)

/-- The memory holds the two lists, and each of the nodes there are is in exactly one of them. -/
structure Models (m : TimerMem) (lists : DelayList → List Nat) : Prop where
  rings : Rings m.links TimerNode.head fun k => (lists k).map TimerNode.tlist
  one : ∀ a, a < m.next → ∃! k, a ∈ lists k
  exist : ∀ k, ∀ a ∈ lists k, a < m.next

/-- What is expected of a timer with the number `i` that was added at the time `cur`, the calls `after` later. A timer
that is to run once has run in the first scan later than its span, and not otherwise; until then a node in
`delay_active` holds it, and after that scan the node is in `delay_home`, for as long as no other timer is put into it.
A timer that is to run for ever stays in `delay_active`, and more than its span lies before every run of it. -/
structure Kept (m : TimerMem) (lists : DelayList → List Nat) (i : Nat) (t : VfsTimer) (cur : Int)
    (after : List TimerAct) : Prop where
  once : t.loop = 0 → m.runsOf i = ((scanTimes after).find? (cur + t.spanTime < ·)).toList
  waits : t.loop = 0 → m.runsOf i = [] → ∃ a ∈ lists .active, m.holds a = some i
  done : t.loop = 0 → m.runsOf i ≠ [] → ∀ a < m.next, m.holds a = some i → a ∈ lists .home
  freed : t.loop = 0 → ∀ before last, after = before ++ [.scan last] →
    (scanTimes before).find? (cur + t.spanTime < ·) = none → cur + t.spanTime < last →
    ∃ a ∈ lists .home, m.holds a = some i
  stays : t.loop ≠ 0 → ∃ a ∈ lists .active, m.holds a = some i
  apart : t.loop ≠ 0 → (cur :: m.runsOf i).IsChain fun earlier later => earlier + t.spanTime < later

end TimerMem

end VfsOss
