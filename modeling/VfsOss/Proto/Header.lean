import VfsOss.Task.Types

/-!
# Request headers

The headers the plugins exchange: `t_uc_oss_http_header`, the field parser every plugin has a copy
of, and the texts the `create_header` functions build.

The parser works in place on a C string: it looks for the item's name, takes the bytes up to the end
of the line as the value and overwrites the carriage return with a NUL. `parseItem` returns the value,
the text it has passed with that NUL in it, and what is left.
-/

namespace VfsOss

open CLib

/-- `t_uc_oss_http_header`, without the two fields nothing in the model reads (`action_type`,
`retcode`). -/
structure HttpHeader where
  type : UInt8
  filename : Bytes
  hostname : Bytes
  filemd5 : Bytes
  srcip : Bytes
  datalen : Nat
  start : Int
  end_ : Int
  idx : Int
  count : Int
  deriving DecidableEq

/-- A zeroed header. -/
def HttpHeader.zero : HttpHeader := ⟨0, [], [], [], [], 0, 0, 0, 0, 0⟩

/-- `parse_item`. -/
def parseItem (src item : Bytes) : Option (Bytes × Bytes × Bytes) :=
  match strstr src item with
  | none => none
  | some p =>
    let v := src.drop (p + item.length)
    match strstr v crlf with
    | none => none
    | some e => some (v.take e, src.take (p + item.length + e) ++ [0, 10], v.drop (e + 2))

/-- A field of a header: the name that is searched for, and the assignment made with its value. -/
structure Field where
  item : Bytes
  store : HttpHeader → Bytes → HttpHeader

/-- The body the `parse_header` functions share: the fields are parsed one after the other, each from
where the one before ended. Returns whether all were found, the header, and the text as rewritten. -/
def parseFields : List Field → HttpHeader → Bytes → Bool × HttpHeader × Bytes
  | [], h, src => (true, h, src)
  | field :: fields, h, src =>
    match parseItem src field.item with
    | none => (false, h, src)
    | some (v, passed, rest) =>
      let r := parseFields fields (field.store h v) rest
      (r.1, r.2.1, passed ++ r.2.2)

/-- `"filename: "` into `filename[255]`. -/
def fieldFilename : Field := ⟨txt "filename: ", fun h v => { h with filename := snprintf 255 v }⟩

/-- `"type: "` into a `uint8_t`. -/
def fieldType : Field := ⟨txt "type: ", fun h v => { h with type := UInt8.ofInt (atoi v) }⟩

/-- `"datalen: "` into a `uint64_t`. -/
def fieldDatalen : Field :=
  ⟨txt "datalen: ", fun h v => { h with datalen := (atol v % 2 ^ 64).toNat }⟩

/-- `"start: "` into an `off_t`. -/
def fieldStart : Field := ⟨txt "start: ", fun h v => { h with start := atol v }⟩

/-- `"end: "` into an `off_t`. -/
def fieldEnd : Field := ⟨txt "end: ", fun h v => { h with end_ := atol v }⟩

/-- `"filemd5: "` into `filemd5[36]`. -/
def fieldFilemd5 : Field := ⟨txt "filemd5: ", fun h v => { h with filemd5 := snprintf 36 v }⟩

/-- `"idx: "` into an `int`. -/
def fieldIdx : Field := ⟨txt "idx: ", fun h v => { h with idx := toInt32 (atol v) }⟩

/-- `"count: "` into an `int`. -/
def fieldCount : Field := ⟨txt "count: ", fun h v => { h with count := toInt32 (atol v) }⟩

/-- `"hostname: "` into `hostname[128]`. -/
def fieldHostname : Field := ⟨txt "hostname: ", fun h v => { h with hostname := snprintf 128 v }⟩

namespace SmClient

/-- The fields of `sm_client`'s `parse_header`. -/
def fields : List Field :=
  [fieldFilename, fieldType, fieldDatalen, fieldStart, fieldEnd, fieldFilemd5, fieldIdx, fieldCount,
    fieldHostname]

/-- `sm_client`'s `parse_header`. -/
def parseHeader (h : HttpHeader) (data : Bytes) : Bool × HttpHeader × Bytes :=
  parseFields fields h data

/-- `sm_client`'s `create_header`: the reply to a lack query. -/
def createHeader (data : Bytes) : Bytes :=
  txt "GET /question/19973178 HTTP/1.0\r\n" ++ txt "filename: " ++ data ++ txt "\r\n" ++
    txt "type: 251\r\n\r\n"

end SmClient

namespace UcHttp

/-- The fields of `uc_http`'s `parse_header`. -/
def fields : List Field := [fieldFilename, fieldType]

/-- `uc_http`'s `parse_header`. -/
def parseHeader (h : HttpHeader) (data : Bytes) : Bool × HttpHeader × Bytes :=
  parseFields fields h data

end UcHttp

/-- A header line put together in `sbuf[64]`. -/
def sbuf (line : Bytes) : Bytes := snprintf 64 line

namespace UcClient

/-- `uc_client`'s `create_header`: the header of an upload. The length of the block is 64-bit
arithmetic. -/
def createHeader (base : TaskBase) (sub : TaskSub) : Bytes :=
  txt "POST /us_oss HTTP/1.1\r\n" ++
  (txt "filename: " ++ base.filename ++ txt "\r\n") ++
  sbuf (txt "type: " ++ fmtInt base.type.toNat ++ txt "\r\n") ++
  sbuf (txt "datalen: " ++ fmtInt base.fsize ++ txt "\r\n") ++
  sbuf (txt "Content-Length: " ++ fmtInt (toInt64 (sub.end_ - sub.start + 1)) ++ txt "\r\n") ++
  sbuf (txt "start: " ++ fmtInt sub.start ++ txt "\r\n") ++
  sbuf (txt "end: " ++ fmtInt sub.end_ ++ txt "\r\n") ++
  sbuf (txt "filemd5: " ++ base.filemd5 ++ txt "\r\n") ++
  sbuf (txt "filectime: " ++ fmtInt base.fileCtime ++ txt "\r\n") ++
  sbuf (txt "idx: " ++ fmtInt sub.idx ++ txt "\r\n") ++
  sbuf (txt "count: " ++ fmtInt sub.count ++ txt "\r\n") ++
  sbuf (txt "hostname: " ++ base.hostname ++ txt "\r\n\r\n")

end UcClient

/-- A text that carries the given items with the given values: the items stand in this order, each
one where it occurs first behind the line of the one before, and each value ends at the first end of
line. -/
inductive Carries : List Bytes → List Bytes → Bytes → Prop
  | nil (rest : Bytes) : Carries [] [] rest
  | cons {items values : List Bytes} {rest : Bytes} (gap item value : Bytes)
      (first : strstr (gap ++ item) item = some gap.length) (line : strstr (value ++ crlf) crlf = some value.length)
      (h : Carries items values rest) :
      Carries (item :: items) (value :: values) (gap ++ item ++ value ++ crlf ++ rest)

namespace UcHttp

/-- `uc_http`'s `create_header`, for a task without a file: the request for the list of missing blocks
has type 250. -/
def createHeader (type : UInt8) (hostname : Bytes) : Bytes :=
  txt "GET /us_oss HTTP/1.1\r\n" ++ txt "filename: \r\n" ++
  sbuf (txt "type: " ++ fmtInt type.toNat ++ txt "\r\n") ++ sbuf (txt "datalen: 0\r\n") ++
  sbuf (txt "start: 0\r\n") ++ sbuf (txt "end: -1\r\n") ++ sbuf (txt "filemd5: \r\n") ++
  txt "idx: 1\r\n" ++ txt "count: 10\r\n" ++
  sbuf (txt "hostname: " ++ hostname ++ txt "\r\n") ++ sbuf (txt "action_type: 0\r\n\r\n")

end UcHttp

end VfsOss
