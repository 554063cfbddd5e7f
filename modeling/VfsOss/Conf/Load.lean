import VfsOss.CLib.Pointers
import VfsOss.CLib.Splitting
import VfsOss.Conf.Store
import Mathlib.Data.List.DropRight

/-!
# Loading a configuration file

`myconfig_loadfile0` of `myconfig.c`, which takes the file apart in the block it was read to, and what the lines of
a file say. A load puts and deletes entries but changes none, so the lists of the prefixes hold the entries as
they are in the hash chains.
-/

namespace VfsOss

open CLib

/-- The store with the lists of its prefixes, the latest entry first in each. -/
structure ConfLists where
  conf : ConfStore
  lists : Nat → List Myconfig

/-- The lists that `myconfig_init` starts from. -/
def ConfLists.init : ConfLists := ⟨.init, fun _ => []⟩

/-- `list_add_head(&mc->pre_list, &(plist->list))`. -/
def addPreList (lists : Nat → List Myconfig) (mc : Myconfig) : Nat → List Myconfig :=
  fun icount => if mc.preList = some icount then mc :: lists icount else lists icount

/-- `myconfig_put_value` with the lists: the new entry is the first of its chain. -/
def putListed (heap : Option (CharArray valRoom)) (pre key0 val : Bytes) (c : ConfLists) :
    Except MemFault ConfLists := do
  let r ← myconfigPutValue heap pre key0 val c.conf
  let lists := if r.1 = 1 then (r.2.hlist (putKey (pre ++ key0))).head?.elim c.lists (addPreList c.lists) else c.lists
  return ⟨r.2, lists⟩

/-- `myconfig_delete_value` with the lists. -/
def deleteListed (pre key : Bytes) (c : ConfLists) : Except MemFault ConfLists := do
  let r ← myconfigDeleteValue pre key c.conf
  return ⟨r.2, fun icount => (c.lists icount).filter fun mc => !mc.hasKey (deleteKey (pre ++ key))⟩

/-- What a load meets: `inited` and the keys in `reload_key`; whether `mmap` finds memory; how many bytes `read` can
read, nothing when it fails; what `malloc` returns for each entry of the file. -/
structure LoadEnv where
  inited : Bool
  reloadKey : List Bytes
  mmap : Bool
  read : Option Nat
  malloc : Nat → Option (CharArray valRoom)

/-- A key and a value under a section. -/
structure ConfEntry where
  pre : Bytes
  key : Bytes
  val : Bytes
  deriving DecidableEq

/-- What the loader does with an entry. -/
def putEntry (env : LoadEnv) (n : Nat) (e : ConfEntry) (c : ConfLists) : Except MemFault ConfLists :=
  if !env.inited then putListed (env.malloc n) e.pre e.key e.val c
  else if env.reloadKey.contains e.key then do
    let c ← deleteListed e.pre e.key c
    putListed (env.malloc n) e.pre e.key e.val c
  else .ok c

/-- `" \t\r"`. -/
def isBlank (b : UInt8) : Bool := b = 32 || b = 9 || b = 13

/-- `isalnum`. -/
def isAlnum (b : UInt8) : Bool := isDigit b || (97 ≤ b && b ≤ 122) || (65 ≤ b && b ≤ 90)

/-- What `strcspn(p, " \t\r=")` goes over. -/
def isKeyByte (b : UInt8) : Bool := !isBlank b && b ≠ 61

/-- `while(SEP(q, -1)) q--`. -/
def backSeps (buf : Bytes) : Nat → Except MemFault Nat
  | 0 => .error .outOfBounds
  | q + 1 => do
    let b ← readByte buf q
    if isSep b then backSeps buf q else return q + 1

/-- `while(*p == ' ' || *p == '\t' || *p == '\r') *p-- = '\0'`, where `p` is one before the given index. -/
def stripBlanks : Nat → Bytes → Except MemFault Bytes
  | 0, _ => .error .outOfBounds
  | p + 1, buf => do
    let b ← readByte buf p
    if isBlank b then stripBlanks p (buf.set p 0) else return buf

/-- A line that starts with a bracket, which `p` is behind: the block, and `section`, nothing for `""`. -/
def readSection (buf : Bytes) (p : Nat) (sect : Option Nat) : Except MemFault (Bytes × Option Nat) := do
  let text ← textAt buf p
  match strchr text 93 with
  | none => return (buf, sect)
  | some k => do
    let q ← backSeps buf (p + k)
    let buf ← writeByte buf q 45
    let buf ← writeByte buf (q + 1) 0
    let p ← skipBytes isSep buf p
    let b ← readByte buf p
    return (buf, if b = 0 then none else some p)

/-- `if(*p == '=') while(*++p == '=') n++`. -/
def skipEquals (buf : Bytes) (p : Nat) : Except MemFault Nat := do
  let b ← readByte buf p
  if b = 61 then skipBytes (· = 61) buf (p + 1) else return p

/-- A line with a key at `k`: the block, and the key and the value if they are put. -/
def readEntry (buf : Bytes) (k : Nat) (pn : Option Nat) : Except MemFault (Bytes × Option (Bytes × Bytes)) := do
  let v ← skipBytes isKeyByte buf k
  let p ← skipBytes isBlank buf v
  let p ← skipEquals buf p
  let buf ← writeByte buf v 0
  let v ← skipBytes isBlank buf p
  let text ← textAt buf p
  let buf ← stripBlanks (match pn with | some pn => pn - 1 | none => p + text.length) buf
  let b ← readByte buf k
  let d ← readByte buf v
  if isAlnum b && d ≠ 0 then do
    let key ← textAt buf k
    let val ← textAt buf v
    return (buf, some (key, val))
  else return (buf, none)

/-- The text of `section`. -/
def sectionAt (buf : Bytes) : Option Nat → Except MemFault Bytes
  | none => .ok []
  | some q => textAt buf q

/-- The variables of the loop; `n` is the number of entries read. -/
structure LoadState where
  buf : Bytes
  sect : Option Nat
  n : Nat
  c : ConfLists

/-- The body of the loop for the line at `p`, behind the search for its end. -/
def loadLine (env : LoadEnv) (p : Nat) (pn : Option Nat) (s : LoadState) : Except MemFault LoadState := do
  let p ← skipBytes isBlank s.buf p
  let b ← readByte s.buf p
  if b = 91 then do
    let (buf, sect) ← readSection s.buf (p + 1) s.sect
    return { s with buf, sect }
  else if b ≠ 0 ∧ b ≠ 35 ∧ b ≠ 59 then do
    let (buf, entry) ← readEntry s.buf p pn
    match entry with
    | none => return { s with buf }
    | some (key, val) => do
      let pre ← sectionAt buf s.sect
      let c ← putEntry env s.n ⟨pre, key, val⟩ s.c
      return { s with buf, n := s.n + 1, c }
  else return s

/-- The loop of `myconfig_loadfile0`. -/
def loadLoop (env : LoadEnv) (len p : Nat) (s : LoadState) : Except MemFault ConfLists :=
  if p < len then do
    let text ← textAt s.buf p
    match strchr text 10 with
    | none => do
      let _ ← loadLine env p none s
      -- `p` is a null pointer now; that is below `buf + len`, and `strchr` reads from it
      .error .outOfBounds
    | some k => do
      let buf ← writeByte s.buf (p + k) 0
      let s ← loadLine env p (some (p + k + 1)) { s with buf }
      loadLoop env len (p + k + 1) s
  else .ok s.c
termination_by len - p

/-- `myconfig_loadfile0`; `file` is what the file holds, nothing when it cannot be opened. -/
def myconfigLoadfile0 (env : LoadEnv) (file : Option Bytes) (c : ConfLists) : Except MemFault (Int × ConfLists) :=
  match file with
  | none => .ok (-1, c)
  | some content =>
    let len := toInt32 content.length
    if !env.mmap || toInt32 (len + 1) ≤ 0 then .ok (-1, c)
    else
      match env.read with
      | none => .ok (-1, c)
      | some got => do
        let buf := (content.take (min got len.toNat)).rightpad (len.toNat + 1) 0
        let c ← loadLoop env len.toNat 0 ⟨buf, none, 0, c⟩
        return (0, c)

/-! ## What is expected of it -/

/-- What stands between two brackets as a section: without the separators around it, and with a dash. -/
def sectionText (s : Bytes) : Bytes :=
  let name := (s.rdropWhile isSep).dropWhile isSep
  if name = [] then [] else name ++ [45]

/-- The value behind a key: after blanks and equals signs, without the blanks around it. -/
def valueText (s : Bytes) : Bytes := (((s.dropWhile isBlank).dropWhile (· = 61)).dropWhile isBlank).rdropWhile isBlank

/-- The key and the value of a line, when the key starts with an alphanumeric character and there is a value. -/
def entryOf (s : Bytes) : Option (Bytes × Bytes) :=
  let val := valueText (s.dropWhile isKeyByte)
  if s.head?.any isAlnum && val ≠ [] then some (s.takeWhile isKeyByte, val) else none

/-- What a line says. -/
inductive ConfLine where
  | other
  | sect (pre : Bytes)
  | entry (key val : Bytes)

/-- A line read: without the blanks before it, a section that is closed, or a key and a value. -/
def confLine (line : Bytes) : ConfLine :=
  match line.dropWhile isBlank with
  | [] => .other
  | b :: s =>
    if b = 91 then if 93 ∈ s then .sect (sectionText (s.takeWhile (· ≠ 93))) else .other
    else if b = 35 || b = 59 then .other
    else
      match entryOf (b :: s) with
      | some (key, val) => .entry key val
      | none => .other

/-- The section behind a line. -/
def sectionBelow (pre line : Bytes) : Bytes :=
  match confLine line with
  | .sect pre => pre
  | _ => pre

/-- The entry of a line below a section, if it has one. -/
def lineEntries (pre line : Bytes) : List ConfEntry :=
  match confLine line with
  | .entry key val => [⟨pre, key, val⟩]
  | _ => []

/-- The entries of some lines below a section. -/
def entriesBelow (pre : Bytes) : List Bytes → List ConfEntry
  | [] => []
  | line :: lines => lineEntries pre line ++ entriesBelow (sectionBelow pre line) lines

/-- The entries of a file. -/
def fileEntries (content : Bytes) : List ConfEntry := entriesBelow [] (content.splitOn 10)

/-- The name under which an entry is stored. -/
def ConfEntry.name (e : ConfEntry) : Bytes := putKey (e.pre ++ e.key)

/-- One entry for each of a list was put in front of its chain, the latest first. -/
def PutsExactly (entries : List ConfEntry) (c c' : ConfStore) : Prop :=
  ∀ b, ∃ new, c'.myhash b = new ++ c.myhash b ∧
    new.reverse.map (fun mc => (mc.hash, mc.key, mc.val.text)) =
      (entries.filter (confIndex ·.name = b)).map fun e => (r5hash e.name, e.name, .ok e.val)

/-- The loader comes back from a file, and on the first load it has put its entries. -/
def LoadsAll (env : LoadEnv) (content : Bytes) (c : ConfLists) : Prop :=
  ∃ r c', myconfigLoadfile0 env (some content) c = .ok (r, c') ∧
    (env.inited = false → PutsExactly (fileEntries content) c.conf c'.conf)

/-! ## When it is met -/

/-- Nothing is there, or lines that all end, without a NUL. -/
def Ended (text : Bytes) : Prop := text = [] ∨ (0 ∉ text ∧ text.getLast? = some 10)

/-- A value and a prefix that `myconfig_put_value` has room for. -/
def PutFits (pre val : Bytes) (prelist : List Prehash) : Prop :=
  val.length < valRoom ∧ (pre.length ≤ 20 ∨ ∀ plist ∈ prelist, plist.used ∧ ¬ plist.hasPre pre)

/-- An entry that the store is up to. On a later load what it replaces is linked to the list of a prefix. -/
def EntryFits (env : LoadEnv) (n : Nat) (e : ConfEntry) (c : ConfStore) : Prop :=
  if env.inited then
    e.key ∈ env.reloadKey →
      (∀ mc ∈ c.hlist (deleteKey (e.pre ++ e.key)), mc.hasKey (deleteKey (e.pre ++ e.key)) → mc.preList ≠ none) ∧
        (env.malloc n ≠ none → PutFits e.pre e.val c.prelist)
  else env.malloc n ≠ none ∧ PutFits e.pre e.val c.prelist

/-- The entries of a list put one after the other. -/
def putEntries (env : LoadEnv) : Nat → List ConfEntry → ConfLists → Except MemFault ConfLists
  | _, [], c => .ok c
  | n, e :: es, c => do
    let c ← putEntry env n e c
    putEntries env (n + 1) es c

/-- The entries that memory was found for. -/
def storedEntries (malloc : Nat → Option (CharArray valRoom)) : Nat → List ConfEntry → List ConfEntry
  | _, [] => []
  | n, e :: es => if (malloc n).isSome then e :: storedEntries malloc (n + 1) es else storedEntries malloc (n + 1) es

/-- Every entry of a list is one that the store is up to. -/
def EntriesFit (env : LoadEnv) : Nat → List ConfEntry → ConfLists → Prop
  | _, [], _ => True
  | n, e :: es, c => EntryFits env n e c.conf ∧ ∀ c', putEntry env n e c = .ok c' → EntriesFit env (n + 1) es c'

/-- How many bytes of a file an `int` counts. -/
def countedLen (content : Bytes) : Nat := (toInt32 content.length).toNat

/-- The bytes of a file that an `int` counts. -/
def filePart (content : Bytes) : Bytes := content.take (countedLen content)

/-- The bytes behind them. -/
def fileRest (content : Bytes) : Bytes := content.drop (countedLen content)

/-- A load that returns -1: there is no memory for a file of this size, or it cannot be read. -/
def Refused (env : LoadEnv) (size : Nat) : Prop :=
  env.mmap = false ∨ toInt32 (toInt32 size + 1) ≤ 0 ∨ env.read = none

/-- A part of a file is read, which consists of lines that all end and of entries that the store is up to; on the first
load there are no entries in the rest. -/
structure ReadFits (env : LoadEnv) (part rest : Bytes) (c : ConfLists) : Prop where
  read : ∃ got, env.read = some got ∧ part.length ≤ got
  ended : Ended part
  fits : EntriesFit env 0 (fileEntries part) c
  rest : env.inited = false → fileEntries rest = []

/-- What a load is up to: a file without entries when it is refused on the first load, and what is read otherwise. -/
structure LoadFits (env : LoadEnv) (content : Bytes) (c : ConfLists) : Prop where
  refused : Refused env content.length → env.inited = false → fileEntries content = []
  read : ¬ Refused env content.length → ReadFits env (filePart content) (fileRest content) c

end VfsOss
