import VfsOss.Sm.Query

/-!
# The list of missing blocks, built and taken apart

`sm_client` names the blocks it misses in the `filename` line of its reply, one behind the other, each ended by
a colon; `uc_http` parses the reply, splits the line at the colons and takes each piece apart with `sscanf`.
-/

namespace VfsOss

open CLib

/-- A block that is named: its file, its index and the number of blocks. -/
structure LackItem where
  filename : Bytes
  idx : Int
  count : Int
  deriving DecidableEq

/-- The block of a record. -/
def Tasklist.item (task : Tasklist) : LackItem := ⟨task.base.filename, task.sub.idx, task.sub.count⟩

/-- `%[^ ]` of `sscanf`: the bytes before the next blank, of which there must be some, and what is left. -/
def scanWord (s : Bytes) : Option (Bytes × Bytes) :=
  if s.takeWhile (· ≠ 32) = [] then none else some (s.takeWhile (· ≠ 32), s.dropWhile (· ≠ 32))

/-- `sscanf(s, "%[^ ] %[^ ] %[^ ]", ..)` when it returns 3: the three words. A blank of the format skips any
white space. -/
def scanThree (s : Bytes) : Option (Bytes × Bytes × Bytes) :=
  (scanWord s).bind fun a =>
  (scanWord (a.2.dropWhile isSpace)).bind fun b =>
  (scanWord (b.2.dropWhile isSpace)).map fun c => (a.1, b.1, c.1)

namespace UcHttp

/-- The loop of `do_req`: the calls of `process_lack`, in order. Every round ends behind a colon, so the
length of the text bounds the rounds. -/
def doReqLoop : Nat → Bytes → List LackItem
  | 0, _ => []
  | n + 1, s =>
    match strchr s 58 with
    | none => []
    | some t =>
      match scanThree (s.take t) with
      | some rect => ⟨rect.1, atoi rect.2.1, atoi rect.2.2⟩ :: doReqLoop n (s.drop (t + 1))
      | none => doReqLoop n (s.drop (t + 1))

/-- `do_req`. -/
def doReq (fname : Bytes) : List LackItem := doReqLoop fname.length fname

/-- `check_request` for the text at the start of the buffer: what it returns, the header, and the calls of
`process_lack`. -/
def checkRequest (h : HttpHeader) (data : Bytes) (len : Nat) : Int × HttpHeader × List LackItem :=
  if len < 14 then (0, h, [])
  else if ¬ txt "GET /" <+: data then (-1, h, [])
  else
    match strstr (data.drop 5) (crlf ++ crlf) with
    | none => (0, h, [])
    | some p =>
      match strstr (data.drop 5) (txt " HTTP/") with
      | none => (-2, h, [])
      | some q =>
        if q < 1023 then
          let r := parseHeader h data
          if r.1 then (p + 9, r.2.1, doReq r.2.1.filename) else (-1, r.2.1, [])
        else (-2, h, [])

end UcHttp

/-- A record as its C types hold it, with a file name that the list can carry. -/
structure Tasklist.Listable (task : Tasklist) : Prop where
  filename : task.base.filename.length ≤ 255 ∧
    ∀ b ∈ task.base.filename, b ≠ 0 ∧ b ≠ 32 ∧ b ≠ 58 ∧ b ≠ 13 ∧ b ≠ 10
  idx : -2 ^ 31 ≤ task.sub.idx ∧ task.sub.idx < 2 ^ 31
  count : -2 ^ 31 ≤ task.sub.count ∧ task.sub.count < 2 ^ 31

/-- What is expected of a query: whatever stood in the buffer and the header of `uc_http` before, the calls of
`process_lack` for the reply are for exactly the records that went to `TASK_HOME`, in order. -/
def LackRoundTrips (cfg : Cfg) (s : TaskStore) (hostname : Bytes) : Prop :=
  ∀ (h : HttpHeader) (stale : Bytes),
    (UcHttp.checkRequest h (cstr ((getTaskUnok cfg s hostname).1 ++ stale))
      (getTaskUnok cfg s hostname).1.length).2.2 = (getTaskUnok cfg s hostname).2.1.map Tasklist.item

/-- The condition: the texts of these records fit the `filename` field of the header, and every one of them has
a file name. -/
structure FitsReply (cfg : Cfg) (s : TaskStore) (hostname : Bytes) : Prop where
  length : ((asked cfg s hostname).flatMap unokText).length ≤ 254
  named : ∀ task ∈ asked cfg s hostname, task.base.filename ≠ []

end VfsOss
