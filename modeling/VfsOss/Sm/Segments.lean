import VfsOss.Sm.Arrays

/-!
# An upload in pieces

The bytes of an upload arrive in pieces of any size: the header may come in several, and the piece that ends
it may hold the first bytes of the block. What `sm_client` makes of them is compared with the bytes alone.
-/

namespace VfsOss

open CLib

/-- The text of a header: it ends at its only double end of line, it has the lines, and it is not the query
of type 250. -/
structure HeaderText (text : Bytes) (l : HeaderLines) : Prop where
  noNul : (0 : UInt8) ∉ text
  ends : (strstr text (crlf ++ crlf)).map (· + 4) = some text.length
  lines : Carries (SmClient.fields.map Field.item) l.values text
  block : UInt8.ofInt (atoi l.type) ≠ 250

/-- The length of the block that the lines describe. -/
def HeaderLines.len (l : HeaderLines) : Int := atol l.end_ - atol l.start + 1

/-- A connection that has received nothing yet. -/
structure Conn.Fresh (c : Conn) : Prop where
  isOpen : c.isOpen = true
  idle : ∃ p, c.user = some p ∧ p.sockStat ≠ .recvBodyIng
  empty : c.recvBuff.live = []

/-- The bytes of some pieces. -/
def arrived (chunks : List (RecvIo × Bytes)) : Bytes := (chunks.map Prod.snd).flatten

/-- The temporary file can be opened and `write` takes all it is given. -/
def FullCalls (chunks : List (RecvIo × Bytes)) : Prop :=
  ∀ c ∈ chunks, c.1.opens = true ∧ c.1.write = some

/-- A call of `do_recv` for each piece, with the header looked for in the live bytes. Once `svc_recv` has
returned `RECV_CLOSE` the connection is closed, and nothing more is received. -/
def recvChunks (cfg : Cfg) (fd : Nat) (s : Sm) (chunks : List (RecvIo × Bytes)) : Except MemFault Sm :=
  chunks.foldlM (fun s c => do
    let r ← doRecvInto Mybuff.live cfg c.1 fd c.2 s
    .ok r.2) s

/-- What becomes of an upload: its record in `TASK_FIN`, and the store and the files then. -/
structure Receipt where
  task : Tasklist
  store : TaskStore
  fs : FileSystem Bytes

/-- The record of the block is the one that has been appended to `TASK_FIN`, `OVER_OK` if all bytes of the
block have come, and its temporary file holds them. -/
structure Receipt.Exact (r : Receipt) (s : Sm) (l : HeaderLines) (body : Bytes) : Prop where
  sub : r.task.sub = ⟨0, atol l.start, atol l.end_, toInt32 (atol l.idx), toInt32 (atol l.count)⟩
  overstatus : r.task.base.overstatus = if l.len ≤ body.length then .ok else .peererr
  fin : r.store.vfstask .fin = s.store.vfstask .fin ++ [r.task]
  file : r.fs.content r.task.base.tmpfile = some (body.take l.len.toNat)

/-- What is expected of the pieces: nothing is in `TASK_FIN` before the last byte of the block has come, the
upload is done in the call that brings it, and it is done at the latest when the peer closes. -/
structure Receipt.From (r : Receipt) (cfg : Cfg) (fd : Nat) (s : Sm) (text : Bytes) (l : HeaderLines)
    (chunks : List (RecvIo × Bytes)) : Prop where
  before : ∀ n, ((arrived (chunks.take n)).length : Int) < text.length + l.len →
    ∃ s', recvChunks cfg fd s (chunks.take n) = .ok s' ∧ (s'.acon fd).isOpen = true ∧
      s'.store.vfstask .fin = s.store.vfstask .fin
  done : ∀ n, text.length + l.len ≤ ((arrived (chunks.take n)).length : Int) →
    ∃ s', recvChunks cfg fd s (chunks.take n) = .ok s' ∧ (s'.acon fd).isOpen = false ∧
      s'.store = r.store ∧ s'.fs = r.fs
  closed : ∃ s', recvChunks cfg fd s chunks = .ok s' ∧
    (doClose fd s').store = r.store ∧ (doClose fd s').fs = r.fs

/-- **Exactness, whatever the pieces.** The outcome depends on the bytes of the block only. -/
def ReceivesExactly (cfg : Cfg) (fd : Nat) (s : Sm) (text : Bytes) (l : HeaderLines) (body : Bytes) : Prop :=
  ∃ r : Receipt, r.Exact s l body ∧
    ∀ chunks, FullCalls chunks → arrived chunks = text ++ body → r.From cfg fd s text l chunks

end VfsOss
