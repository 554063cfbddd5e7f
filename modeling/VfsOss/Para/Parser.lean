import VfsOss.CLib.Splitting
import VfsOss.Conf.Store

/-!
# The parser of parameter lists

`parsepara` of `parsepara.c`, what a text of parameters consists of, and what the parser owes to its caller. A copy
or a store that leaves its array is a fault, also where it would land in the next pair.
-/

namespace VfsOss

open CLib

/-- `MAX_NAME_LEN`. -/
abbrev maxNameLen : Nat := 200

/-- `MAX_VALUE_LEN`. -/
abbrev maxValueLen : Nat := 4096

/-- `StringPair`. -/
structure StringPair where
  sFirst : CharArray maxNameLen
  sSecond : CharArray maxValueLen

namespace CharArray

variable {n : Nat}

/-- `strncpy(a, src, k)`. -/
def strncpy (a : CharArray n) (src : Bytes) (k : Nat) : Except MemFault (CharArray n) :=
  a.copy (((cstr src).take k).rightpad k 0)

/-- `strncpy(a, src, k)` and a NUL stored at `i`. -/
def setText (a : CharArray n) (src : Bytes) (k i : Nat) : Except MemFault (CharArray n) := do
  let a ← a.strncpy src k
  a.store i 0

end CharArray

/-- A write to the pair that `pParaArr` points to. -/
def writePair (pairs : List StringPair) (i : Nat) (write : StringPair → Except MemFault StringPair) :
    Except MemFault (List StringPair) :=
  match pairs[i]? with
  | none => .error .outOfBounds
  | some pair => do
    let pair ← write pair
    return pairs.set i pair

namespace StringPair

/-- `strncpy(sName, src, k); sName[k] = 0`. -/
def setName (src : Bytes) (k : Nat) (pair : StringPair) : Except MemFault StringPair := do
  let sFirst ← pair.sFirst.setText src k k
  return { pair with sFirst }

/-- `strncpy(sValue, src, k); sValue[k] = 0`. -/
def setValue (src : Bytes) (k : Nat) (pair : StringPair) : Except MemFault StringPair := do
  let sSecond ← pair.sSecond.setText src k k
  return { pair with sSecond }

/-- The pair that ends the list: both texts are empty. -/
def setEnd (pair : StringPair) : Except MemFault StringPair := do
  let sFirst ← pair.sFirst.store 0 0
  let sSecond ← pair.sSecond.store 0 0
  return { sFirst, sSecond }

end StringPair

/-- The variables of `parsepara` in its loop; `pParaArr` points to the pair number `iParaNum`. -/
structure ParseState where
  pairs : List StringPair
  sBuffer : CharArray (maxNameLen + maxValueLen)
  iCounter : Nat
  iParaNum : Nat
  chFlag : Bool

/-- The loop of `parsepara`: whether the function goes on behind it, and the state it is left in. Otherwise the
function has returned -1. -/
def parseLoop (ch1 ch2 : UInt8) : Bytes → ParseState → Except MemFault (Bool × ParseState)
  | [], s => .ok (true, s)
  | ch :: rest, s =>
    if ch1 = ch then do
      let iCounter := if s.iCounter ≥ maxNameLen then maxNameLen - 1 else s.iCounter
      let pairs ← writePair s.pairs s.iParaNum (StringPair.setName s.sBuffer.1 iCounter)
      parseLoop ch1 ch2 rest { s with pairs, iCounter := 0, chFlag := true }
    else if ch2 = ch ∨ 0 = ch then do
      let iCounter := if s.iCounter ≥ maxValueLen then maxValueLen - 1 else s.iCounter
      let pairs ← writePair s.pairs s.iParaNum (StringPair.setValue s.sBuffer.1 iCounter)
      if !s.chFlag then return (false, { s with pairs, iCounter := 0 })
      else
        let s := { s with pairs, iCounter := 0, iParaNum := s.iParaNum + 1 }
        -- `pParaArr >= pMax`, where `pMax` is two before the end; the flag stays set
        if (s.iParaNum : Int) ≥ (pairs.length : Int) - 2 then return (true, s)
        else parseLoop ch1 ch2 rest { s with chFlag := false }
    else do
      let sBuffer ← s.sBuffer.store s.iCounter ch
      parseLoop ch1 ch2 rest { s with sBuffer, iCounter := s.iCounter + 1 }

/-- What follows the loop of `parsepara`. -/
def parseEnd : Bool × ParseState → Except MemFault (Int × List StringPair)
  | (behind, s) =>
    if !behind || !s.chFlag then .ok (-1, s.pairs)
    else do
      let pairs ← writePair s.pairs s.iParaNum (StringPair.setValue s.sBuffer.1 s.iCounter)
      let pairs ← writePair pairs (s.iParaNum + 1) StringPair.setEnd
      return (s.iParaNum + 1, pairs)

/-- `ch1` as it is used. -/
def nameSplitter (ch1 : UInt8) : UInt8 := if ch1 = 0 then 61 else ch1

/-- `ch2` as it is used. -/
def pairSplitter (ch2 : UInt8) : UInt8 := if ch2 = 0 then 38 else ch2

/-- The text that `parsepara` is given. -/
def textRead (sParaStr : Nat → UInt8) (iStrLen : Int) : Bytes := (List.range iStrLen.toNat).map sParaStr

/-- `parsepara`; `sBuffer` is what the memory of its buffer holds before. -/
def parsepara (sBuffer : CharArray (maxNameLen + maxValueLen)) (sParaStr : Nat → UInt8) (iStrLen : Int)
    (pParaArr : List StringPair) (ch1 ch2 : UInt8) : Except MemFault (Int × List StringPair) :=
  if iStrLen = 0 then .ok (0, pParaArr)
  else
    parseLoop (nameSplitter ch1) (pairSplitter ch2) (textRead sParaStr iStrLen) ⟨pParaArr, sBuffer, 0, 0, false⟩
      >>= parseEnd

/-! ## What is expected of it -/

/-- The bytes that end a pair. -/
def endsPair (ch1 ch2 ch : UInt8) : Bool := ch ≠ ch1 && (ch = ch2 || ch = 0)

/-- A text cut where a pair ends. -/
def items (ch1 ch2 : UInt8) (text : Bytes) : List Bytes := text.splitOnP (endsPair ch1 ch2)

/-- What stands before the last `ch1` of an item, back to the one before it. -/
def itemName (ch1 : UInt8) (item : Bytes) : Bytes := (item.splitOn ch1).dropLast.getLastD []

/-- What stands behind the last `ch1` of an item. -/
def itemValue (ch1 : UInt8) (item : Bytes) : Bytes := (item.splitOn ch1).getLastD []

/-- Both texts of a pair are those of an item, as far as they fit. -/
def StringPair.SetFrom (ch1 : UInt8) (item : Bytes) (pair : StringPair) : Prop :=
  pair.sFirst.text = .ok ((itemName ch1 item).take (maxNameLen - 1)) ∧
    pair.sSecond.text = .ok ((itemValue ch1 item).take (maxValueLen - 1))

/-- The parser comes back, and every pair it counts has both texts set from the item of its number. -/
def SetsPairs (ch1 : UInt8) (items : List Bytes) (r : Except MemFault (Int × List StringPair)) : Prop :=
  ∃ ret pairs, r = .ok (ret, pairs) ∧ ∀ k : Nat, k < ret →
    ∃ item pair, items[k]? = some item ∧ pairs[k]? = some pair ∧ ch1 ∈ item ∧ pair.SetFrom ch1 item

/-- `parsepara` sets its pairs in `iPairLen` pairs, whatever these and the buffer hold before. -/
def StaysInBounds (sParaStr : Nat → UInt8) (iStrLen : Int) (iPairLen : Nat) (ch1 ch2 : UInt8) : Prop :=
  ∀ (sBuffer : CharArray (maxNameLen + maxValueLen)) (pParaArr : List StringPair), pParaArr.length = iPairLen →
    SetsPairs (nameSplitter ch1) (items (nameSplitter ch1) (pairSplitter ch2) (textRead sParaStr iStrLen))
      (parsepara sBuffer sParaStr iStrLen pParaArr ch1 ch2)

/-! ## When it is met -/

/-- The items before the first one without `ch1`. -/
def namedItems (ch1 : UInt8) (items : List Bytes) : List Bytes := items.takeWhile (ch1 ∈ ·)

/-- The parts of the items fit into the buffer, up to the first item without `ch1`. When there is such an item, there
is room for one more than the items before it; when there is none, there is room for all of them, and the last
value fits with its NUL. -/
structure ItemsFit (ch1 : UInt8) (room : Nat) (items : List Bytes) : Prop where
  parts : ∀ item ∈ items.take ((namedItems ch1 items).length + 1), ∀ part ∈ item.splitOn ch1,
    part.length ≤ maxNameLen + maxValueLen
  stopped : (namedItems ch1 items).length < items.length → (namedItems ch1 items).length < room
  ended : (namedItems ch1 items).length = items.length →
    items.length ≤ room ∧ ∀ item ∈ items.getLast?, (itemValue ch1 item).length < maxValueLen

/-- The items fit into `iPairLen` pairs: into all but two of them, the first one always; behind the last one there
is a pair. -/
def ParaFits (ch1 : UInt8) (iPairLen : Nat) (items : List Bytes) : Prop :=
  ItemsFit ch1 (max 1 (iPairLen - 2)) items ∧ ((∀ item ∈ items, ch1 ∈ item) → 2 ≤ iPairLen)

end VfsOss
