import VfsOss.Sm.Conservation
import VfsOss.Sm.Stability

/-!
# Descriptors of blocks

The header of an upload says in decimal numbers which block of the file follows. This file says which
headers describe a block, and what is expected of the records that are made from them.
-/

namespace VfsOss

open CLib

/-- The values of a header's lines, as texts. -/
structure HeaderLines where
  filename : Bytes
  type : Bytes
  datalen : Bytes
  start : Bytes
  end_ : Bytes
  filemd5 : Bytes
  idx : Bytes
  count : Bytes
  hostname : Bytes

/-- The values in the order of `SmClient.fields`. -/
def HeaderLines.values (l : HeaderLines) : List Bytes :=
  [l.filename, l.type, l.datalen, l.start, l.end_, l.filemd5, l.idx, l.count, l.hostname]

/-- The lines describe a block: one of the `count` blocks of a file, from a first byte to a last one,
of a length that an `off_t` holds. -/
structure HeaderLines.Describe (l : HeaderLines) : Prop where
  first : 1 ≤ toInt32 (atol l.idx)
  last : toInt32 (atol l.idx) ≤ toInt32 (atol l.count)
  start : 0 ≤ atol l.start
  end_ : atol l.start ≤ atol l.end_
  length : atol l.end_ - atol l.start + 1 < 2 ^ 63

/-- The memory starts with a complete header that has the lines, and it is not the query of type 250. -/
structure HeaderAt (mem : Bytes) (l : HeaderLines) : Prop where
  complete : (strstr (cstr mem) (crlf ++ crlf)).isSome
  lines : Carries (SmClient.fields.map Field.item) l.values (cstr mem)
  block : UInt8.ofInt (atoi l.type) ≠ 250

/-- A call of `do_recv` finds a header with the lines: the connection is open and receives no block,
there are bytes in its buffer and the header stands at its start, and there is a record for the block. -/
structure Requests (cfg : Cfg) (s : Sm) (fd : Nat) (chunk : Bytes) (io : RecvIo) (l : HeaderLines) :
    Prop where
  isOpen : (s.acon fd).isOpen = true
  idle : ∃ p, (s.acon fd).user = some p ∧ p.sockStat ≠ .recvBodyIng
  bytes : 0 < (s.acon fd).recvBuff.len + chunk.length
  header : HeaderAt
    (mybuffSetdata cfg.initBuffSize io.mem (s.acon fd).recvBuff chunk).data l
  record : ∃ t, (vfsGetTask cfg.mallocOk s.store .home).1 = .ok t

/-- The header that is found in a step describes a block. -/
def StepDescribes (cfg : Cfg) (s : Sm) : SmAct → Prop
  | .recv fd chunk io => ∀ l, Requests cfg s fd chunk io l → l.Describe
  | _ => True

/-- The fields of a record describe a block. -/
structure Tasklist.WellFormed (t : Tasklist) : Prop where
  first : 1 ≤ t.sub.idx
  last : t.sub.idx ≤ t.sub.count
  start : 0 ≤ t.sub.start
  end_ : t.sub.start ≤ t.sub.end_

/-- What is expected of a step: a record that `check_req` makes is well formed and the length that is
stored in its `fsize` is positive, every block being received has the length it was announced with, and
every block that is `OVER_OK` has as many bytes. -/
structure StepAccepts (cfg : Cfg) (s : Sm) (a : SmAct) : Prop where
  posts : ∀ t, .post t ∈ s.since (smStep cfg s a) →
    t.WellFormed ∧ 0 < (prepared cfg t).base.fsize
  expects : ∀ {fd t f}, (smStep cfg s a).recv fd = some (t, f) →
    t.base.fsize = t.len ∧ 0 < t.base.fsize
  bytes : ∀ t ∈ (smStep cfg s a).store.vfstask .fin, t.base.overstatus = .ok →
    (t.got.length : Int) = t.len

/-- `write` takes at most `0x7ffff000` bytes at once, as its manual page says. -/
def RecvIo.WritesShort (io : RecvIo) : Prop := ∀ n k, io.write n = some k → k ≤ 0x7ffff000

/-- The same for the writes of a step. -/
def SmAct.WritesShort : SmAct → Prop
  | .recv _ _ io => io.WritesShort
  | _ => True

/-- Every call succeeds; a `write` takes what it can. -/
def RecvIo.full : RecvIo := ⟨true, fun n => some (min n 0x7ffff000), fun _ => 0⟩

/-- A new connection on which a header arrives with some bytes behind it. -/
def SmAct.describe (fd : Nat) (idx count start end_ : Int) (body : Bytes) : List SmAct :=
  [.accept fd 0 fun _ => 0,
    .recv fd (UcClient.createHeader
      { TaskBase.zero with hostname := txt "h", filename := txt "f" }
      { TaskSub.zero with idx := idx, count := count, start := start, end_ := end_ } ++ body) .full]

instance (t : Tasklist) : Decidable t.WellFormed :=
  decidable_of_iff (1 ≤ t.sub.idx ∧ t.sub.idx ≤ t.sub.count ∧ 0 ≤ t.sub.start ∧ t.sub.start ≤ t.sub.end_)
    ⟨fun ⟨h1, h2, h3, h4⟩ => ⟨h1, h2, h3, h4⟩, fun ⟨h1, h2, h3, h4⟩ => ⟨h1, h2, h3, h4⟩⟩

end VfsOss
