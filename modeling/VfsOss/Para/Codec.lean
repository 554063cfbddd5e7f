import VfsOss.Para.Parser
import VfsOss.CLib.Decimal

/-!
# Parameter lists as texts

A list of parameters is filled, written as one text, read from the text into another list and searched there.
`parsepara.c` writes the values with three bytes escaped; the names are written as they are.
-/

namespace VfsOss

open CLib

/-- `ENCODE_TABLE`. -/
def encodeTable : Bytes := txt "=&%"

/-- `shouldencode`. -/
def shouldencode (ch : UInt8) : Bool := encodeTable.contains ch

/-- `sHexTable`. -/
def sHexTable : Bytes := txt "0123456789ABCDEF"

/-- What `encode_string` writes for one byte. -/
def encodeByte (ch : UInt8) : Bytes :=
  if shouldencode ch then [37, sHexTable.getD (ch.toNat / 16) 0, sHexTable.getD (ch.toNat % 16) 0] else [ch]

/-- `encode_string`: what is written, without the NUL. -/
def encodeString (s : Bytes) : Bytes := s.flatMap encodeByte

/-- `toupper`. -/
def upperByte (b : UInt8) : UInt8 := if 97 ≤ b && b ≤ 122 then b - 32 else b

/-- `get_index`. -/
def getIndex (ch : UInt8) : Int :=
  match sHexTable.idxOf? (upperByte ch) with
  | some i => i
  | none => -1

/-- The loop of `decode_string` from byte `i` on, with what was written before: what is returned, and what is written
in all. -/
def decodeLoop (s : Bytes) (n i : Nat) (out : Bytes) : Int × Bytes :=
  if i < s.length then
    if s.getD i 0 = 37 then
      -- `len-2` is made unsigned; of a text of one byte the NUL is taken for a digit
      if i ≥ (s.length + 2 ^ 32 - 2) % 2 ^ 32 then (-1, out)
      else
        let j := getIndex (s.getD (i + 1) 0)
        let k := getIndex (s.getD (i + 2) 0)
        if j < 0 ∨ k < 0 then (-2, out)
        else if out.length ≥ n - 1 then (0, out ++ [0])
        else decodeLoop s n (i + 3) (out ++ [UInt8.ofNat (j * 16 + k).toNat])
    else if out.length ≥ n - 1 then (0, out ++ [0])
    else decodeLoop s n (i + 1) (out ++ [s.getD i 0])
  else (0, out ++ [0])
termination_by s.length - i

/-- `decode_string`. -/
def decodeString (s sDecoded : Bytes) (n : Nat) : Except MemFault (Int × Bytes) := do
  let r := decodeLoop s n 0 []
  let sDecoded ← memcpy sDecoded 0 r.2
  return (r.1, sDecoded)

/-- `StringPairList`; `iMaxPairNum` is the number of its pairs. -/
structure StringPairList where
  iLast : Nat
  pStrPairList : List StringPair

/-- `!strcasecmp(s, mem)` for a text and a `char` array. -/
def strcaseEqMem : Bytes → Bytes → Except MemFault Bool
  | _, [] => .error .outOfBounds
  | [], c :: _ => .ok (c = 0)
  | b :: s, c :: mem => if lowerByte b = lowerByte c then strcaseEqMem s mem else .ok false

/-- The search of `GetParaValue` through the first pairs. -/
def findPair (sName : Bytes) : Nat → List StringPair → Except MemFault (Option StringPair)
  | 0, _ => .ok none
  | _ + 1, [] => .error .outOfBounds
  | iLast + 1, pair :: pairs => do
    let same ← strcaseEqMem sName pair.sFirst.1
    if same then return some pair else findPair sName iLast pairs

/-- `GetParaValue`: whether it does not return NULL, and what is in `sValue`. -/
def getParaValue (pPairList : StringPairList) (sName sValue : Bytes) (n : Nat) : Except MemFault (Bool × Bytes) := do
  let found ← findPair sName pPairList.iLast pPairList.pStrPairList
  match found with
  | none => do
    let sValue ← strcpy sValue 0 []
    return (false, sValue)
  | some pair => do
    let sSecond ← pair.sSecond.text
    let r ← decodeString sSecond sValue n
    return (true, r.2)

/-- The copies of `SetParaValue`. -/
def StringPair.setBoth (sName sEncodedValue : Bytes) (pair : StringPair) : Except MemFault StringPair := do
  let sFirst ← pair.sFirst.setText sName maxNameLen (maxNameLen - 1)
  let sSecond ← pair.sSecond.setText sEncodedValue maxValueLen (maxValueLen - 1)
  return { sFirst, sSecond }

/-- `SetParaValue`. -/
def setParaValue (pPairList : StringPairList) (sName sValue : Bytes) : Except MemFault (Int × StringPairList) :=
  if pPairList.iLast ≥ pPairList.pStrPairList.length then .ok (-1, pPairList)
  else
    let sEncodedValue := encodeString sValue
    -- the array on the stack
    if sEncodedValue.length + 1 > maxValueLen * 2 then .error .outOfBounds
    else do
      let pairs ← writePair pPairList.pStrPairList pPairList.iLast (StringPair.setBoth sName sEncodedValue)
      return (0, ⟨pPairList.iLast + 1, pairs⟩)

/-- The loop of `EncodePara` over the first pairs: what is written at `sData`, without the NUL behind it. -/
def encodeLoop (dataLen : Nat) : Nat → List StringPair → Bytes → Except MemFault Bytes
  | 0, _, out => .ok out
  | _ + 1, [], _ => .error .outOfBounds
  | iLast + 1, pair :: pairs, out => do
    let sFirst ← pair.sFirst.text
    let sSecond ← pair.sSecond.text
    if out.length + sFirst.length + sSecond.length + 2 ≥ dataLen then return out
    else encodeLoop dataLen iLast pairs (out ++ (sFirst ++ 61 :: (sSecond ++ [38])))

/-- `EncodePara`: the length in `*pDataLen`, and what is in `sData`. -/
def encodePara (pPairList : StringPairList) (sData : Bytes) (dataLen : Nat) : Except MemFault (Nat × Bytes) := do
  let out ← encodeLoop dataLen pPairList.iLast pPairList.pStrPairList []
  if out = [] then return (0, sData)
  else
    let sData ← strcpy sData 0 out
    return (out.length - 1, sData.set (out.length - 1) 0)

/-- `DecodePara`; `sBuffer` is what the buffer of `parsepara` holds before. -/
def decodePara (sBuffer : CharArray (maxNameLen + maxValueLen)) (sRequest : Bytes) (iReqLen : Int)
    (pPairList : StringPairList) : Except MemFault (Int × StringPairList) := do
  let (iRet, pairs) ← parsepara sBuffer (sRequest.getD · 0) iReqLen pPairList.pStrPairList 61 38
  if iRet ≥ 0 then return (0, ⟨iRet.toNat, pairs⟩) else return (-1, ⟨pPairList.iLast, pairs⟩)

/-! ## What is expected of them -/

/-- A name and a value that a list has room for. -/
structure Para where
  name : CText
  value : CText
  nonempty : name.1 ≠ []
  short : name.1.length < maxNameLen
  plain : ∀ ch ∈ name.1, ch ≠ 61 ∧ ch ≠ 38
  fits : (encodeString value.1).length < maxValueLen

/-- `SetParaValue` for one pair after the other. -/
def setParas : List Para → StringPairList → Except MemFault StringPairList
  | [], list => .ok list
  | para :: paras, list => do
    let r ← setParaValue list para.name.1 para.value.1
    setParas paras r.2

/-- A pair as it is written. -/
def Para.item (para : Para) : Bytes := para.name.1 ++ 61 :: encodeString para.value.1

/-- How many bytes the pairs are written in, the byte behind each of them included. -/
def encodedSize (paras : List Para) : Nat := (paras.map (·.item.length + 1)).sum

/-- The value of the first pair with a name. -/
def valueOf (paras : List Para) (name : Bytes) : Option Bytes :=
  (paras.find? (strcaseEq name ·.name.1)).map (·.value.1)

/-- A search finds the value of the first pair with the name, for every buffer with room for it. -/
def FindsAll (list : StringPairList) (paras : List Para) : Prop :=
  ∀ (name : CText) (sValue : Bytes) (n : Nat), ((valueOf paras name.1).getD []).length < n → n ≤ sValue.length →
    ∃ rest, getParaValue list name.1 sValue n =
      .ok ((valueOf paras name.1).isSome, (valueOf paras name.1).getD [] ++ 0 :: rest)

/-- The pairs are set in a list with room for `capacity`, written to a buffer with room for all of them, read into
another list of that capacity and found there, whatever the lists and the buffers hold before. -/
def ComesBack (capacity : Nat) (paras : List Para) : Prop :=
  ∀ (mem mem' : List StringPair) (sBuffer : CharArray (maxNameLen + maxValueLen)) (sData : Bytes) (dataLen : Nat),
    mem.length = capacity → mem'.length = capacity → encodedSize paras < dataLen → dataLen ≤ sData.length →
    ∃ list len data ret list', setParas paras ⟨0, mem⟩ = .ok list ∧ encodePara list sData dataLen = .ok (len, data) ∧
      decodePara sBuffer data (toInt32 len) ⟨0, mem'⟩ = .ok (ret, list') ∧ list'.iLast = paras.length ∧
      FindsAll list' paras

/-- The pairs fit: all but two, or one, of the pairs of the list hold them, and an `int` holds the length of the
text. -/
def ParasFit (capacity : Nat) (paras : List Para) : Prop :=
  paras = [] ∨ (2 ≤ capacity ∧ paras.length ≤ max 1 (capacity - 2) ∧ encodedSize paras ≤ 2 ^ 31)

end VfsOss
