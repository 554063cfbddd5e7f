import VfsOss.Task.Store

/-!
# Where every record is

A record is in at most one list at a time: in one queue, in one chain of the hash table, held by a
connection or by the code that took it from a list, or not allocated yet. A placement gives every
address its one place; the store agrees with it.
-/

namespace VfsOss

/-- The places a record can be in. -/
inductive Loc where
  | queue (status : TaskStatus)
  | chain (index : Fin 16)
  | conn (fd : Nat)
  | held
  | unborn
  deriving DecidableEq

/-- The store agrees with a placement. -/
structure Placed (s : TaskStore) (loc : Nat → Loc) : Prop where
  queue : ∀ {st t}, t ∈ s.vfstask st → loc t.addr = .queue st
  chain : ∀ {b t}, t ∈ s.alltask b → loc t.addr = .chain b
  nodupQueue : ∀ st, ((s.vfstask st).map Tasklist.addr).Nodup
  nodupChain : ∀ b, ((s.alltask b).map Tasklist.addr).Nodup
  unborn : ∀ {a}, s.next ≤ a → loc a = .unborn
  hash : ∀ {b t}, t ∈ s.alltask b → b = getVfsTaskHash t.base.filename t.sub.idx t.sub.count

/-- No record is in two lists. -/
def WellPlaced (s : TaskStore) : Prop := ∃ loc, Placed s loc

/-- A record with the address is in a queue. -/
def InQueue (st : TaskStore) (q : TaskStatus) (a : Nat) : Prop := ∃ t ∈ st.vfstask q, t.addr = a

end VfsOss
