import VfsOss.CLib.Memory
import VfsOss.CLib.Chain
import VfsOss.Task.Store
import Mathlib.Data.Vector.Defs

/-!
# The configuration store

The entries of `myconfig.c` in their 256 hash chains, and the list of prefixes they are also linked to.
Copies that leave an array and pointers that were never set are faults. The lists of the prefixes
themselves, which only `myconfig_dump_to_file` reads, are left out: an entry has the number of the one it
is in.
-/

namespace VfsOss

open CLib

/-- A text that a `char *` points to. -/
abbrev CText := { s : Bytes // (0 : UInt8) ∉ s }

/-- A `char` array of a fixed size. -/
abbrev CharArray (n : Nat) := List.Vector UInt8 n

namespace CharArray

variable {n : Nat}

/-- An array set to zero. -/
def zero (n : Nat) : CharArray n := ⟨List.replicate n 0, List.length_replicate⟩

/-- Some bytes copied to the start of an array. -/
def copy (a : CharArray n) (src : Bytes) : Except MemFault (CharArray n) :=
  if h : src.length ≤ n then
    .ok ⟨src ++ a.1.drop src.length, by rw [List.length_append, List.length_drop, a.2]; omega⟩
  else .error .outOfBounds

/-- `memset` of the first bytes of an array to zero. -/
def clear (a : CharArray n) (k : Nat) : CharArray n :=
  ⟨List.replicate (min k n) 0 ++ a.1.drop k, by
    rw [List.length_append, List.length_replicate, List.length_drop, a.2]
    omega⟩

/-- One byte stored at an index. -/
def store (a : CharArray n) (i : Nat) (c : UInt8) : Except MemFault (CharArray n) :=
  if i < n then .ok ⟨a.1.set i c, by rw [List.length_set, a.2]⟩ else .error .outOfBounds

/-- The text in an array, which has to end inside it. -/
def text (a : CharArray n) : Except MemFault Bytes :=
  if 0 ∈ a.1 then .ok (cstr a.1) else .error .outOfBounds

end CharArray

/-- `VAL_MAX_LEN`. -/
abbrev valMaxLen : Nat := 1024

/-- The bytes from `val` to the end of the block it is in. The key stands at offset 52 of `struct myconfig`, in its
padding: `sizeof(struct myconfig)` is 56. -/
abbrev valRoom : Nat := valMaxLen + 4

/-- `struct myconfig`; `preList` is nothing when `pre_list` was left as `malloc` gave it. -/
structure Myconfig where
  preList : Option Nat
  hash : Int
  val : CharArray valRoom
  intval : Int
  key : Bytes

/-- `struct prehash`. -/
structure Prehash where
  pre : CharArray 20
  used : Bool

/-- `myhash` and `prelist`. -/
structure ConfStore where
  myhash : Fin 256 → List Myconfig
  prelist : List Prehash

/-- `sep`. -/
def isSep (b : UInt8) : Bool := b = 32 || b = 46 || b = 45 || b = 95

/-- A separator made an underscore. -/
def sepByte (b : UInt8) : UInt8 := if isSep b then 95 else b

/-- An upper-case letter made lower-case. -/
def lowerByte (b : UInt8) : UInt8 := if 65 ≤ b && b ≤ 90 then b + 32 else b

/-- The key under which `myconfig_delete_value` looks for a name. -/
def deleteKey (s : Bytes) : Bytes := s.map sepByte

/-- The key under which `myconfig_put_value` stores a name. -/
def putKey (s : Bytes) : Bytes := s.map fun b => lowerByte (sepByte b)

/-- The comparison all the searches in `myhash` make. -/
def Myconfig.hasKey (key : Bytes) (mc : Myconfig) : Bool := r5hash key = mc.hash && key = mc.key

/-- `hash & 0xff` for the hash of a key. -/
def confIndex (key : Bytes) : Fin 256 := Fin.ofNat 256 (r5hash key).toNat

/-- `!strncmp(plist->pre, pre, strlen(pre))`: behind a text that fills the array stands `used`. -/
def Prehash.hasPre (pre : Bytes) (plist : Prehash) : Bool := pre <+: cstr (plist.pre.1 ++ [1, 0, 0, 0])

namespace ConfStore

/-- What `myconfig_init` starts from. -/
def init : ConfStore := ⟨fun _ => [], List.replicate 256 ⟨.zero 20, false⟩⟩

/-- The chain in which a key is looked for. -/
def hlist (c : ConfStore) (key : Bytes) : List Myconfig := c.myhash (confIndex key)

/-- The chain of a key replaced. -/
def setHlist (c : ConfStore) (key : Bytes) (l : List Myconfig) : ConfStore :=
  { c with myhash := Function.update c.myhash (confIndex key) l }

end ConfStore

/-- The loop of `myconfig_put_value` over `prelist`, from number `icount` on: the number of the prefix, if
there is one, and the list after it was taken into use. -/
def usePrefix (pre : Bytes) : Nat → List Prehash → Except MemFault (Option Nat × List Prehash)
  | _, [] => .ok (none, [])
  | icount, plist :: rest =>
    if !plist.used || plist.hasPre pre then do
      let text ← plist.pre.copy pre
      return (some icount, ⟨text, true⟩ :: rest)
    else do
      let r ← usePrefix pre (icount + 1) rest
      return (r.1, plist :: r.2)

/-- `myconfig_put_value`; `heap` is what the memory that `malloc` returns for the value holds, nothing when
it returns a null pointer. -/
def myconfigPutValue (heap : Option (CharArray valRoom)) (pre key0 val : Bytes) (c : ConfStore) :
    Except MemFault (Int × ConfStore) :=
  match heap with
  | none => .ok (-1, c)
  | some heap => do
    let key := putKey (pre ++ key0)
    let val ← heap.copy (val ++ [0])
    let r ← usePrefix pre 0 c.prelist
    let mc : Myconfig := ⟨r.1, r5hash key, val, -1, key⟩
    return (if r.1 = none then 0 else 1, { c.setHlist key (mc :: c.hlist key) with prelist := r.2 })

/-- The loop of `myconfig_delete_value`. -/
def deleteLoop (str : Bytes) : List Myconfig → Except MemFault (List Myconfig)
  | [] => .ok []
  | m :: rest =>
    if m.hasKey str then
      -- `list_del_init(&m->pre_list)` writes through both pointers
      if m.preList = none then .error .outOfBounds else deleteLoop str rest
    else do
      let rest ← deleteLoop str rest
      return m :: rest

/-- `myconfig_delete_value`. -/
def myconfigDeleteValue (pre key : Bytes) (c : ConfStore) : Except MemFault (Int × ConfStore) := do
  let str := deleteKey (pre ++ key)
  let l ← deleteLoop str (c.hlist str)
  return (1, c.setHlist str l)

/-- `myconfig_get_value`: the text the result points to. -/
def myconfigGetValue (c : ConfStore) (key : Bytes) : Except MemFault (Option Bytes) :=
  match (c.hlist key).find? (·.hasKey key) with
  | none => .ok none
  | some mc => some <$> mc.val.text

/-- The loop of `myconfig_get_multivalue`. -/
def multivalueLoop (key : Bytes) : List Myconfig → Int → Except MemFault (Option Bytes)
  | [], _ => .ok none
  | mc :: rest, index =>
    if mc.hasKey key then
      if index = 0 then some <$> mc.val.text else multivalueLoop key rest (index - 1)
    else multivalueLoop key rest index

/-- `myconfig_get_multivalue`: the text the result points to. The oldest entry is last in its chain. -/
def myconfigGetMultivalue (c : ConfStore) (key : Bytes) (index : Int) : Except MemFault (Option Bytes) :=
  multivalueLoop key (c.hlist key).reverse index

/-- `!strcasecmp`. -/
def strcaseEq (a b : Bytes) : Bool := a.map lowerByte = b.map lowerByte

/-- The integer a value stands for. -/
def intReading (val : Bytes) : Option Int :=
  if (val.head?.any isDigit) || (val.head? = some 45 && val.tail.head?.any isDigit) then some (atoi val)
  else if strcaseEq val (txt "On") then some 1
  else if strcaseEq val (txt "Off") then some 0
  else if strcaseEq val (txt "Yes") then some 1
  else if strcaseEq val (txt "No") then some 0
  else if strcaseEq val (txt "True") then some 1
  else if strcaseEq val (txt "False") then some 0
  else if strcaseEq val (txt "enable") then some 1
  else if strcaseEq val (txt "disable") then some 0
  else if strcaseEq val (txt "enabled") then some 1
  else if strcaseEq val (txt "disabled") then some 0
  else none

/-- `myconfig_get_intval`, and the store with the integer it keeps. -/
def myconfigGetIntval (c : ConfStore) (key : Bytes) (dflt : Int) : Except MemFault (Int × ConfStore) :=
  match (c.hlist key).find? (·.hasKey key) with
  | none => .ok (dflt, c)
  | some mc =>
    if mc.intval = -1 then do
      let val ← mc.val.text
      match intReading val with
      | none => return (dflt, c)
      | some n =>
        return (n, c.setHlist key (updFirst (·.hasKey key) ({ · with intval := n }) (c.hlist key)))
    else .ok (mc.intval, c)

/-- `myconfig_update_value`. -/
def myconfigUpdateValue (heap : Option (CharArray valRoom)) (key value : Bytes) (c : ConfStore) :
    Except MemFault (Int × ConfStore) :=
  match (c.hlist key).find? (·.hasKey key) with
  | some mc => do
    let val ← (mc.val.clear valMaxLen).copy value
    return (1, c.setHlist key (updFirst (·.hasKey key) ({ · with val := val }) (c.hlist key)))
  | none =>
    match strchr key 95 with
    | some p => do
      let pre ← (CharArray.zero 20).copy (key.take p)
      let pre ← pre.store p 45
      let key0 ← (CharArray.zero 30).copy (key.drop (p + 1) ++ [0])
      let pre ← pre.text
      let key0 ← key0.text
      myconfigPutValue heap pre key0 value c
    | none => myconfigPutValue heap [] key value c

end VfsOss
