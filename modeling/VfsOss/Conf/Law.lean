import VfsOss.Conf.Store

/-!
# What the configuration store is for

A store is a log of the values that were put under each key and not deleted since. The first half of the
module says what the readers of a store owe to that log, and for which calls the code keeps to it; the
second half what a reader of integers owes to an update.
-/

namespace VfsOss

open CLib

/-- A call that changes the store, with what `malloc` returns in it. -/
inductive ConfOp where
  | put (heap : Option (CharArray valRoom)) (pre key val : CText)
  | delete (pre key : CText)

/-- The values that were put and not deleted, oldest first, each with the form its name was stored in. -/
abbrev ConfLog := List (Bytes × Bytes)

/-- The values that survive under a key. -/
def ConfLog.surviving (log : ConfLog) (key : Bytes) : List Bytes := (log.filter (·.1 = key)).map (·.2)

namespace ConfOp

/-- A call to `myconfig_put_value` or `myconfig_delete_value`. -/
def run (c : ConfStore) : ConfOp → Except MemFault ConfStore
  | .put heap pre key val => Prod.snd <$> myconfigPutValue heap pre key val c
  | .delete pre key => Prod.snd <$> myconfigDeleteValue pre key c

/-- The log after a call. A put that finds no memory returns -1 and puts nothing. -/
def log (log : ConfLog) : ConfOp → ConfLog
  | .put none _ _ _ => log
  | .put (some _) pre key val => log ++ [(putKey (pre ++ key), val.1)]
  | .delete pre key => log.filter (·.1 ≠ putKey (pre ++ key))

/-- The calls the code is up to: a value with its NUL fits into `val` and a prefix into `pre`, where one
is stored; what a delete is to remove is stored under the name as the delete spells it, and is linked to
the list of a prefix. -/
def Fits (c : ConfStore) : ConfOp → Prop
  | .put none _ _ _ => True
  | .put (some _) pre _ val =>
    val.1.length < valRoom ∧ (pre.1.length ≤ 20 ∨ ∀ plist ∈ c.prelist, plist.used ∧ ¬ plist.hasPre pre)
  | .delete pre key =>
    ∀ mc ∈ c.hlist (putKey (pre ++ key)), mc.key = putKey (pre ++ key) →
      deleteKey (pre ++ key) = putKey (pre ++ key) ∧ mc.preList ≠ none

end ConfOp

namespace ConfStore

/-- The readers return what survives in the log. -/
structure Lawful (c : ConfStore) (log : ConfLog) : Prop where
  value : ∀ s, myconfigGetValue c (putKey s) = .ok (log.surviving (putKey s)).getLast?
  multivalue : ∀ s (i : Nat), myconfigGetMultivalue c (putKey s) i = .ok (log.surviving (putKey s))[i]?

/-- Every call of a run comes back, and the law holds before and after it. -/
def KeepsLaw : ConfStore → ConfLog → List ConfOp → Prop
  | c, log, [] => Lawful c log
  | c, log, op :: ops => Lawful c log ∧ ∃ c', op.run c = .ok c' ∧ KeepsLaw c' (op.log log) ops

/-- Every call of a run is one the code is up to, for as long as the calls come back. -/
def FitRun : ConfStore → List ConfOp → Prop
  | _, [] => True
  | c, op :: ops => op.Fits c ∧ ∀ c', op.run c = .ok c' → FitRun c' ops

/-- After an update the value is read as it was given, and as the integer it stands for. -/
def Updated (c : ConfStore) (key value : Bytes) : Prop :=
  myconfigGetValue c key = .ok (some value) ∧
    ∀ dflt, Prod.fst <$> myconfigGetIntval c key dflt = .ok ((intReading value).getD dflt)

/-- The updates that readers of integers see. Over an entry that is there, a NUL is behind the value, from the `memset`
or because it stood there, and the entry has kept no integer or has kept the right one. For a new entry there is
memory, the value fits with its NUL, and the two halves of its key fit into the arrays they are taken apart in. -/
def UpdateFits (heap : Option (CharArray valRoom)) (key value : Bytes) (c : ConfStore) : Prop :=
  match (c.hlist key).find? (·.hasKey key) with
  | some mc =>
    (value.length < valMaxLen ∨ mc.val.1[value.length]? = some 0) ∧
      (mc.intval = -1 ∨ intReading value = some mc.intval)
  | none =>
    heap ≠ none ∧ value.length < valRoom ∧
      ∀ p, strchr key 95 = some p → p ≤ 18 ∧ (key.drop (p + 1)).length ≤ 29

end ConfStore

end VfsOss
