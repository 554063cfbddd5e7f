import VfsOss.Para.Codec

/-!
# Commands of the maintenance port

The five functions of `vfs_maintain.c` that go through the pairs of a command and cut each value off at its line end
before they use it. What they do with a pair afterwards is a parameter, and so is the cutting, so that the loop of the
code can be compared with one that does what it is for.
-/

namespace VfsOss

open CLib

/-- `*p == '\r' || *p == '\n'`. -/
def isLineEnd (c : UInt8) : Bool := c = 13 || c = 10

/-- `while(--n)`, from byte `p` on: where a NUL is stored, if anywhere. Nothing but the end of the memory stops an `n`
that is below zero. -/
def trimLoop (n : Int) (p : Nat) : Bytes → Except MemFault (Option Nat)
  | [] => if n - 1 = 0 then .ok none else .error .outOfBounds
  | c :: mem =>
    if n - 1 = 0 then .ok none
    else if isLineEnd c then .ok (some p)
    else trimLoop (n - 1) (p + 1) mem

/-- How a value is cut off. -/
abbrev Trim : Type := CharArray maxValueLen → Except MemFault (CharArray maxValueLen)

/-- The value of a pair after the loop; `n` is `strlen` at first. -/
def trimValue : Trim := fun sSecond => do
  let val ← sSecond.text
  let p ← trimLoop val.length 0 sSecond.1
  match p with
  | none => return sSecond
  | some p => sSecond.store p 0

/-- What a function does with a pair whose value was cut off: whether it goes on, the pair and its own state. -/
abbrev PairHandler (σ : Type) : Type := StringPair → σ → Except MemFault (Bool × StringPair × σ)

/-- A loop over the first pairs of a list. -/
def eachPair {σ : Type} (trim : Trim) (skip : Bytes → Bool) (handle : PairHandler σ) :
    Nat → List StringPair → σ → Except MemFault (List StringPair × σ)
  | 0, pairs, s => .ok (pairs, s)
  | _ + 1, [], _ => .error .outOfBounds
  | iLast + 1, pair :: pairs, s => do
    let key ← pair.sFirst.text
    if skip key then do
      let r ← eachPair trim skip handle iLast pairs s
      return (pair :: r.1, r.2)
    else do
      let sSecond ← trim pair.sSecond
      let (goesOn, pair, s) ← handle { pair with sSecond } s
      if !goesOn then return (pair :: pairs, s)
      else
        let r ← eachPair trim skip handle iLast pairs s
        return (pair :: r.1, r.2)

/-- `strcasecmp(key, "vfs_cmd") == 0`. -/
def isVfsCmd (key : Bytes) : Bool := strcaseEq key (txt "vfs_cmd")

/-- `validcmd`. -/
def validcmd : List Bytes :=
  [txt "cs_preday", txt "fcs_max_connects", txt "cs_max_connects", txt "cs_max_task_run_once", txt "vfs_test",
    txt "real_rm_time", txt "task_timeout", txt "fcs_max_task", txt "cs_sync_dir", txt "data_calcu_md5",
    txt "continue_flag", txt "sync_dir_count"]

/-- `isvalid`, which is 0 for the keys that are valid. -/
def isvalid (key : Bytes) : Bool := !validcmd.any (strcaseEq key)

section Functions

variable {σ : Type} (trim : Trim) (handle : PairHandler σ) (pairlist : StringPairList) (s : σ)

/-- `do_confupda`. -/
def doConfupda : Except MemFault (List StringPair × σ) :=
  eachPair trim (fun key => isVfsCmd key || isvalid key) handle pairlist.iLast pairlist.pStrPairList s

/-- `voss_sync_file`; `cs` is `self_ipinfo.role == ROLE_CS`. -/
def vossSyncFile (cs : Bool) : Except MemFault (List StringPair × σ) :=
  if !cs then .ok (pairlist.pStrPairList, s)
  else eachPair trim isVfsCmd handle pairlist.iLast pairlist.pStrPairList s

/-- `voss_del_file`. -/
def vossDelFile (cs : Bool) : Except MemFault (List StringPair × σ) :=
  if !cs then .ok (pairlist.pStrPairList, s)
  else eachPair trim isVfsCmd handle pairlist.iLast pairlist.pStrPairList s

/-- `voss_sync_dir`. -/
def vossSyncDir (cs : Bool) : Except MemFault (List StringPair × σ) :=
  if !cs then .ok (pairlist.pStrPairList, s)
  else eachPair trim isVfsCmd handle pairlist.iLast pairlist.pStrPairList s

/-- `voss_off_on_line`. -/
def vossOffOnLine : Except MemFault (List StringPair × σ) :=
  eachPair trim isVfsCmd handle pairlist.iLast pairlist.pStrPairList s

end Functions

/-- The functions with the loop. -/
inductive MaintainCmd where
  | confupda | syncFile | delFile | syncDir | offOnLine
  deriving DecidableEq

namespace MaintainCmd

/-- The function that a command is given to. -/
def run {σ : Type} (cmd : MaintainCmd) (trim : Trim) (handle : PairHandler σ) (pairlist : StringPairList) (s : σ)
    (cs : Bool) : Except MemFault (List StringPair × σ) :=
  match cmd with
  | .confupda => doConfupda trim handle pairlist s
  | .syncFile => vossSyncFile trim handle pairlist s cs
  | .delFile => vossDelFile trim handle pairlist s cs
  | .syncDir => vossSyncDir trim handle pairlist s cs
  | .offOnLine => vossOffOnLine trim handle pairlist s

/-- The keys whose values a function does not look at. -/
def skips : MaintainCmd → Bytes → Bool
  | .confupda, key => isVfsCmd key || isvalid key
  | .syncFile, key => isVfsCmd key
  | .delFile, key => isVfsCmd key
  | .syncDir, key => isVfsCmd key
  | .offOnLine, key => isVfsCmd key

end MaintainCmd

/-! ## What is expected of them -/

/-- A value without its first line end and what follows it: a NUL is stored there, and nothing else is written. -/
def cutLine : Trim := fun sSecond => do
  let val ← sSecond.text
  match val.findIdx? isLineEnd with
  | none => return sSecond
  | some p => sSecond.store p 0

/-- A key and a value as they are in a command. -/
structure CmdPair where
  key : CText
  val : CText
  key_fits : key.1.length < maxNameLen
  val_fits : val.1.length < maxValueLen

/-- The first pairs of a list hold the pairs of a command. -/
def HoldCmd (cmdPairs : List CmdPair) (pairs : List StringPair) : Prop :=
  List.Forall₂ (fun c (pair : StringPair) => pair.sFirst.text = .ok c.key.1 ∧ pair.sSecond.text = .ok c.val.1)
    cmdPairs (pairs.take cmdPairs.length)

/-- A function works on the values of a command as if each of them were cut off at its first line end and no byte
outside of it looked at: whatever the memory holds elsewhere, and whatever it does with the pairs. -/
def MaintainCmd.TrimsValues (cmd : MaintainCmd) (cmdPairs : List CmdPair) : Prop :=
  ∀ (σ : Type) (handle : PairHandler σ) (s : σ) (cs : Bool) (pairs : List StringPair), HoldCmd cmdPairs pairs →
    cmd.run trimValue handle ⟨cmdPairs.length, pairs⟩ s cs = cmd.run cutLine handle ⟨cmdPairs.length, pairs⟩ s cs

/-- The values that the loop is up to: they are not empty, and a line end that is their last byte is not their first
one. -/
def Trimmable (val : Bytes) : Prop :=
  val ≠ [] ∧ ∀ last ∈ val.getLast?, isLineEnd last → ∃ c ∈ val.dropLast, isLineEnd c

end VfsOss
