import VfsOss.Task.Placement

/-!
# Taking records off the front of a queue

The loops of the plugins over a status queue: a record is taken from its front and put at the end of another
queue, which the body of the loop chooses. `walkQueue` is such a loop on the store, `walkList` what it comes to on
the list of the records alone.
-/

namespace VfsOss

variable {T : Type}

/-- A record as it is when it has been taken out of a queue. -/
def Tasklist.popped (t : Tasklist) : Tasklist := { t with status := .unknown }

/-- A record as it is in a queue. -/
def Tasklist.inStatus (q : TaskStatus) (t : Tasklist) : Tasklist := { t with status := q }

/-- The body of a loop: from its state and a record, the queue the record goes to, whether the loop goes on, and the
next state. -/
abbrev WalkBody (T : Type) := T → Tasklist → TaskStatus × Bool × T

/-- The loop over the queue `q`, at most `n` rounds of it. -/
def walkQueue (mallocOk : Nat → Bool) (q : TaskStatus) (body : WalkBody T) : Nat → T → TaskStore → T × TaskStore
  | 0, x, s => (x, s)
  | n + 1, x, s =>
    match vfsGetTask mallocOk s q with
    | (.ok task, s') =>
      let r := body x task
      let s' := vfsSetTask s' task r.1
      if r.2.1 then walkQueue mallocOk q body n r.2.2 s' else (r.2.2, s')
    | (_, s') => (x, s')

/-- What a walk over a list of records has done: its state, the records it has looked at with the queue each has
gone to, and the records it has not looked at. -/
structure Walk (T : Type) where
  state : T
  routed : List (Tasklist × TaskStatus)
  left : List Tasklist

/-- The loop on the list of the records in the queue. -/
def walkList (body : WalkBody T) : Nat → T → List Tasklist → Walk T
  | 0, x, l => ⟨x, [], l⟩
  | _ + 1, x, [] => ⟨x, [], []⟩
  | n + 1, x, t :: rest =>
    let r := body x t.popped
    if r.2.1 then
      let w := walkList body n r.2.2 rest
      { w with routed := (t.popped, r.1) :: w.routed }
    else ⟨r.2.2, [(t.popped, r.1)], rest⟩

/-- The body of a loop that moves every record to the queue `p`. -/
def drainBody (p : TaskStatus) : WalkBody Unit := fun _ _ => (p, true, ())

/-- A loop that moves every record of a queue to another one. It ends when the queue is empty, so the length of the
queue bounds the rounds. -/
def drainQueue (mallocOk : Nat → Bool) (q p : TaskStatus) (s : TaskStore) : TaskStore :=
  (walkQueue mallocOk q (drainBody p) (s.vfstask q).length () s).2

/-- The records that have gone to the queue `p`, in order. -/
def Walk.sentTo (w : Walk T) (p : TaskStatus) : List Tasklist :=
  (w.routed.filter fun r => r.2 = p).map Prod.fst

/-- The store in which only the queue `q` has records, with addresses below `n`. -/
def onlyQueue (q : TaskStatus) (l : List Tasklist) (n : Nat) : TaskStore where
  vfstask st := if st = q then l else []
  taskcount _ := 0
  alltask _ := []
  next := n

end VfsOss
