import VfsOss.CLib.FileSystem
import VfsOss.Net.Send
import VfsOss.Proto.Header

/-!
# Serving segments of files

`src_http`: a request names a file and the first and last byte that are wanted; the answer is a header with
the length, and the bytes of that segment. A segment that ends behind the file is cut to it.
-/

namespace VfsOss

open CLib

namespace SrcHttp

/-- The fields of `src_http`'s `parse_header`. -/
def fields : List Field :=
  [fieldFilename, fieldType, fieldDatalen, fieldStart, fieldEnd, fieldFilemd5]

/-- `src_http`'s `parse_header`. -/
def parseHeader (h : HttpHeader) (data : Bytes) : Bool × HttpHeader × Bytes :=
  parseFields fields h data

/-- The header of an answer without a body. -/
def emptyAnswer (status : String) : Bytes :=
  txt "HTTP/1.1 " ++ txt status ++ txt "\r\nContent-Type: video/x-flv\r\nContent-Length: 0\r\n\r\n"

/-- The header in front of a segment. -/
def segmentAnswer (len : Int) : Bytes :=
  txt "HTTP/1.1 200 OK\r\nContent-Type: video/x-flv\r\nContent-Length: " ++ fmtInt len ++ txt "\r\n\r\n"

/-- `http_peer` and the part of `struct conn` it goes with. `badSeg` tells that the segment that was given to
`set_client_fd` begins before the file: `sendfile64` fails on it. -/
structure Conn where
  header : HttpHeader
  recvBuff : Mybuff
  out : Sender
  badSeg : Bool

/-- `set_client_data`. -/
def Conn.say (initBuffSize : Nat) (mem : Nat → UInt8) (c : Conn) (text : Bytes) : Conn :=
  { c with out := { c.out with buf := { c.out.buf with data := mybuffSetdata initBuffSize mem c.out.buf.data text } } }

/-- `set_client_fd` for a segment of the open file. -/
def Conn.attach (c : Conn) (f : FileSeg) : Conn :=
  { c with out := { c.out with buf := { c.out.buf with file := some f } } }

theorem lastByte_le (content : Bytes) (end_ : Int) :
    (if end_ > (content.length : Int) - 1 then (content.length : Int) - 1 else end_) ≤ content.length - 1 := by
  split
  · exact le_refl _
  · omega

theorem segment_within {size : Nat} {start last : Int} (hneg : ¬ start < 0) (hlast : last ≤ size - 1)
    (hstart : ¬ start > (size : Int) - 1) : start.toNat + (last - start + 1).toNat ≤ size := by
  omega

/-- `do_req`, for the header of the connection. The branch that answers a header of type 5 also writes the time
of the file to `.sync_time`. -/
def doReq (initBuffSize : Nat) (mem : Nat → UInt8) (fs : FileSystem Bytes) (c : Conn) : Conn :=
  let header := c.header
  if header.type ≥ 5 then c.say initBuffSize mem (emptyAnswer "200 OK")
  else
    match fs.content header.filename with
    | none => c.say initBuffSize mem (emptyAnswer "404 NOTFOUND")
    | some content =>
      if h : header.start > (content.length : Int) - 1 ∨ header.start > header.end_ then
        c.say initBuffSize mem (emptyAnswer "416 RANGEERROR")
      else
        let end_ := if header.end_ > (content.length : Int) - 1 then (content.length : Int) - 1 else header.end_
        let len := toInt64 (end_ - header.start + 1)
        let c := { c with header := { header with end_ := end_ } }.say initBuffSize mem (segmentAnswer len)
        if hs : header.start < 0 then { c with badSeg := true }
        else
          c.attach ⟨content, header.start.toNat, (end_ - header.start + 1).toNat,
            segment_within hs (lastByte_le content header.end_) (not_or.mp h).1⟩

/-- `check_request`, with its result: the length of the request that has been answered, 0 when the request is
not complete, and a negative number when it is none. -/
def checkRequest (initBuffSize : Nat) (mem : Nat → UInt8) (fs : FileSystem Bytes) (c : Conn) (data : Bytes)
    (len : Nat) : Int × Conn :=
  if len < 14 then (0, c)
  else if data.take 5 = txt "GET /" then
    match strstr (data.drop 5) (crlf ++ crlf) with
    | none => (0, c)
    | some p =>
      match strstr (data.drop 5) (txt " HTTP/") with
      | none => (-2, c)
      | some q =>
        if q < 1023 then
          let r := parseHeader c.header data
          let c := { c with header := r.2.1, recvBuff := c.recvBuff.store r.2.2 }
          if r.1 then (5 + p + 4, doReq initBuffSize mem fs c) else (-1, c)
        else (-2, c)
  else (-1, c)

/-- What `svc_recv` returns. -/
inductive RecvRet where
  | addEpollin | send | close
  deriving DecidableEq, Repr

/-- `svc_recv`, which is `check_req`. The request is looked for in the whole block of the buffer, up to its first
NUL. -/
def svcRecv (initBuffSize : Nat) (mem : Nat → UInt8) (fs : FileSystem Bytes) (c : Conn) : RecvRet × Conn :=
  match mybuffGetdata c.recvBuff with
  | none => (.addEpollin, c)
  | some (data, datalen) =>
    let r := checkRequest initBuffSize mem fs c (cstr data) datalen
    if r.1 < 0 then (.close, r.2)
    else if r.1 = 0 then (.addEpollin, r.2)
    else (.send, { r.2 with recvBuff := mybuffSkipdata r.2.recvBuff r.1.toNat })

/-- `do_recv` for the bytes of one call. After `RECV_SEND` it calls `do_send`, which is a step of its own
here. -/
def doRecv (initBuffSize : Nat) (mem : Nat → UInt8) (fs : FileSystem Bytes) (chunk : Bytes) (c : Conn) : Conn :=
  if c.out.isOpen then
    let r := svcRecv initBuffSize mem fs
      { c with recvBuff := mybuffSetdata initBuffSize mem c.recvBuff chunk }
    if r.1 = .close then { r.2 with out := { r.2.out with isOpen := false } } else r.2
  else c

/-- `do_send`. `svc_send` never closes the connection. -/
def doSend (io : SendIo) (c : Conn) : Conn :=
  { c with out := doSendBuff c.out { io with svcClose := c.badSeg } }

/-- A connection that has been accepted. -/
def Conn.fresh (initBuffSize : Nat) (mem : Nat → UInt8) (recvBuff sendBuff : Mybuff) : Conn where
  header := .zero
  recvBuff := mybuffReinit initBuffSize mem recvBuff
  out := Sender.start ⟨mybuffReinit initBuffSize mem sendBuff, none⟩
  badSeg := false

/-! ## What is asked for -/

/-- The bytes of a file from `start` to `end_`, both included, as far as the file reaches; nothing when the
file is not there, ends before `start`, or the range is empty. -/
def segmentOf (files : FileSystem Bytes) (filename : Bytes) (start end_ : Int) : Option Bytes :=
  (files.content filename).bind fun content =>
    if start > (content.length : Int) - 1 ∨ start > end_ then none
    else some ((content.drop start.toNat).take (end_ - start + 1).toNat)

/-- The header in front of what is asked for. -/
def answerHead (files : FileSystem Bytes) (filename : Bytes) (start end_ : Int) : Bytes :=
  match segmentOf files filename start end_ with
  | some bytes => segmentAnswer bytes.length
  | none => emptyAnswer (if files.content filename = none then "404 NOTFOUND" else "416 RANGEERROR")

/-- The whole answer. -/
def answer (files : FileSystem Bytes) (filename : Bytes) (start end_ : Int) : Bytes :=
  answerHead files filename start end_ ++ (segmentOf files filename start end_).getD []

/-- A request for the bytes of a file: `check_request` finds its end where it ends, and the parser finds the
fields in it. -/
structure RequestText (text filename : Bytes) (start end_ : Int) : Prop where
  noNul : (0 : UInt8) ∉ text
  long : 14 ≤ text.length
  get : text.take 5 = txt "GET /"
  ends : (strstr (text.drop 5) (crlf ++ crlf)).map (5 + · + 4) = some text.length
  url : ∃ q, strstr (text.drop 5) (txt " HTTP/") = some q ∧ q < 1023
  parsed : ∀ h, ∃ h' r, parseHeader h text = (true, h', r) ∧ h'.filename = filename ∧ h'.type < 5 ∧
    h'.start = start ∧ h'.end_ = end_

end SrcHttp

end VfsOss
