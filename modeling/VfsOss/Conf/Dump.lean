import VfsOss.Conf.Load

/-!
# Writing the configuration

`myconfig_dump_to_file` of `myconfig.c`, which writes the entries prefix by prefix, and what a file that was written
owes to the store it was written from.
-/

namespace VfsOss

open CLib

/-- The text of `pre`; behind an array that is full stands `used`. -/
def Prehash.preText (plist : Prehash) : Bytes := cstr (plist.pre.1 ++ [1, 0, 0, 0])

/-- The comment at the start of the file. -/
def dumpComment : Bytes :=
  [10, 35, 35, 197, 228, 214, 195, 206, 196, 188, 254, 178, 187, 199, 248, 183, 214, 180, 243, 208, 161, 208, 180, 33,
    10, 10]

/-- The line behind a section. -/
def dumpRule : Bytes := List.replicate 61 45

/-- `fprintf(fp, "[ %s ]\n", pre)`, where `pre` is the prefix without its last byte. -/
def dumpSection (plist : Prehash) : Except MemFault Bytes :=
  -- the length of an empty text less one is the greatest `size_t`
  if plist.preText = [] then .error .outOfBounds
  else do
    let pre ← (CharArray.zero 20).copy plist.preText.dropLast
    let text ← pre.text
    return txt "[ " ++ text ++ txt " ]\n"

/-- `fprintf(fp, "\t%s = %s\n", p, mc->val)`; behind the key in its block stands the value. -/
def dumpEntry (pre : Bytes) (mc : Myconfig) : Except MemFault Bytes := do
  let key ← if pre = txt "nopre" then pure mc.key else textAt (mc.key ++ 0 :: mc.val.1) pre.length
  let val ← mc.val.text
  return 9 :: key ++ txt " = " ++ val ++ [10]

/-- The entries of a list. -/
def dumpEntries (pre : Bytes) : List Myconfig → Except MemFault Bytes
  | [] => .ok []
  | mc :: l => do
    let text ← dumpEntry pre mc
    let rest ← dumpEntries pre l
    return text ++ rest

/-- The loop of `myconfig_dump_to_file` from number `hash` on. -/
def dumpLoop (lists : Nat → List Myconfig) : Nat → List Prehash → Except MemFault Bytes
  | _, [] => .ok []
  | hash, plist :: rest =>
    if !plist.used then .ok []
    else do
      let sect ← if hash > 0 then dumpSection plist else pure []
      let text ← dumpEntries plist.preText (lists hash)
      let rest ← dumpLoop lists (hash + 1) rest
      return sect ++ text ++ dumpRule ++ [10] ++ rest

/-- `myconfig_dump_to_file`; nothing is written when the file cannot be opened. -/
def myconfigDumpToFile (fopen : Bool) (c : ConfLists) : Except MemFault (Int × Option Bytes) :=
  if fopen then do
    let text ← dumpLoop c.lists 0 c.conf.prelist
    return (0, some (dumpComment ++ text))
  else .ok (-1, none)

/-! ## What is expected of it -/

/-- Every reader sees the same in two stores. -/
def SameValues (c c' : ConfStore) : Prop :=
  ∀ key, myconfigGetValue c' key = myconfigGetValue c key ∧
    ∀ i : Nat, myconfigGetMultivalue c' key i = myconfigGetMultivalue c key i

/-- A first load that finds memory for everything and reads a text of a size. -/
structure LoadEnv.Works (env : LoadEnv) (size : Nat) : Prop where
  first : env.inited = false
  mmap : env.mmap = true
  read : ∃ got, env.read = some got ∧ size ≤ got
  malloc : ∀ n, env.malloc n ≠ none

/-- The entries that a load has put. -/
def builtFrom (env : LoadEnv) (content : Bytes) : List ConfEntry :=
  storedEntries env.malloc 0 (fileEntries (filePart content))

/-- A store is written, and a store that is loaded from the text gives the same values. -/
def DumpsBack (c : ConfLists) : Prop :=
  ∃ text, myconfigDumpToFile true c = .ok (0, some text) ∧ ∀ env : LoadEnv, env.Works text.length →
    ∃ c', myconfigLoadfile0 env (some text) .init = .ok (0, c') ∧ SameValues c.conf c'.conf

/-! ## When it is met -/

/-- A prefix and what its list holds, names and values, the latest first. -/
structure Slot where
  pre : Bytes
  entries : List (Bytes × Bytes)

/-- An entry goes to the first prefix that starts with its own, or to a new one. -/
def addSlot (pre name val : Bytes) : List Slot → List Slot
  | [] => [⟨pre, [(name, val)]⟩]
  | s :: slots =>
    if pre <+: s.pre then ⟨s.pre, (name, val) :: s.entries⟩ :: slots else s :: addSlot pre name val slots

/-- The prefixes after some entries were put, as long as there are lists for them. -/
def slotsOf (es : List ConfEntry) : List Slot := es.foldl (fun slots e => addSlot e.pre e.name e.val slots) []

/-- What is written for a prefix, line by line; the first prefix has no line of its own. -/
def slotLines (first : Bool) (s : Slot) : List Bytes :=
  (if first then [] else [txt "[ " ++ s.pre.dropLast ++ txt " ]"]) ++
    s.entries.map (fun e => 9 :: e.1.drop s.pre.length ++ txt " = " ++ e.2) ++ [dumpRule]

/-- The lines of the file behind the comment. -/
def dumpLines : List Slot → List Bytes
  | [] => []
  | s :: slots => slotLines true s ++ slots.flatMap (slotLines false)

/-- The file that is written for some slots. -/
def dumpText (slots : List Slot) : Bytes := dumpComment ++ (dumpLines slots).flatMap (· ++ [10])

/-- Every entry has a list, under a prefix that fits into its array with a NUL; the first prefix is the empty one; what
a name has behind the prefix of its list starts with an alphanumeric character, and stands behind that prefix; an `int`
counts the bytes of the file. -/
structure Dumpable (slots : List Slot) : Prop where
  room : slots.length ≤ 256
  short : ∀ s ∈ slots, s.pre.length < 20
  first : ∀ s ∈ slots.head?, s.pre = []
  below : ∀ s ∈ slots, ∀ e ∈ s.entries, ∃ key, e.1 = putKey s.pre ++ key ∧ key.head?.any isAlnum
  size : (dumpText slots).length < 2 ^ 31 - 1

/-- For every name the values come prefix by prefix, the latest first, in the order they were put in. -/
def DumpsInOrder (es : List ConfEntry) : Prop :=
  ∀ name, (((slotsOf es).flatMap (·.entries)).filter (·.1 = name)).map (·.2) =
    (es.filter (·.name = name)).map (·.val)

end VfsOss
