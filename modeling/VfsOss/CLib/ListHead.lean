import VfsOss.CLib.Text
import Mathlib.Logic.Function.Basic

/-!
# Doubly linked lists

The circular lists of `list.h`, over any type of nodes. A list is a ring of nodes through its head; a
node that is in no list is a ring of its own.
-/

namespace CLib

/-- The two pointers of every `struct list_head`. -/
structure ListHeads (N : Type) where
  next : N → N
  prev : N → N

section Functions

variable {N : Type} [DecidableEq N]

/-- `p->next = q`. -/
def ListHeads.setNext (l : ListHeads N) (p q : N) : ListHeads N :=
  { l with next := Function.update l.next p q }

/-- `p->prev = q`. -/
def ListHeads.setPrev (l : ListHeads N) (p q : N) : ListHeads N :=
  { l with prev := Function.update l.prev p q }

/-- `INIT_LIST_HEAD`. -/
def initListHead (l : ListHeads N) (p : N) : ListHeads N := (l.setNext p p).setPrev p p

/-- `__list_add`. -/
def listAdd (l : ListHeads N) (new prev next : N) : ListHeads N :=
  (((l.setPrev next new).setNext new next).setPrev new prev).setNext prev new

/-- `list_add_head`. -/
def listAddHead (l : ListHeads N) (new head : N) : ListHeads N := listAdd l new head (l.next head)

/-- `list_add_tail`. -/
def listAddTail (l : ListHeads N) (new head : N) : ListHeads N := listAdd l new (l.prev head) head

/-- `__list_del`. -/
def listDel (l : ListHeads N) (prev next : N) : ListHeads N := (l.setPrev next prev).setNext prev next

/-- `list_del_init`. -/
def listDelInit (l : ListHeads N) (entry : N) : ListHeads N :=
  initListHead (listDel l (l.prev entry) (l.next entry)) entry

/-- The loop of `list_for_each_entry_safe_l`: at `pos`, with the node `n` behind it, in memory `s`;
`links` finds the pointers in the memory. The body gives no memory when its behaviour is undefined; the
loop gives none when it has not come back to `head` after `fuel` nodes. -/
def forEachSafe {S : Type} (links : S → ListHeads N) (head : N) (body : N → S → Option S) :
    Nat → N → N → S → Option S
  | 0, _, _, _ => none
  | fuel + 1, pos, n, s =>
    if pos = head then some s
    else
      match body pos s with
      | none => none
      | some s => forEachSafe links head body fuel n ((links s).next n) s

end Functions

section Rings

variable {N : Type}

/-- The nodes `xs` lead from `a` to `b`, in both directions. -/
def Linked (l : ListHeads N) : N → List N → N → Prop
  | a, [], b => l.next a = b ∧ l.prev b = a
  | a, x :: xs, b => (l.next a = x ∧ l.prev x = a) ∧ Linked l x xs b

/-- The list with this head holds these nodes, in order. -/
structure Ring (l : ListHeads N) (head : N) (xs : List N) : Prop where
  nodup : (head :: xs).Nodup
  linked : Linked l head xs head

end Rings

end CLib
