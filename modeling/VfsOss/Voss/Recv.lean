import VfsOss.CLib.Decimal
import VfsOss.Sm.Localfile
import VfsOss.Voss.Types

/-!
# Receiving from a peer

`check_req` and `svc_recv` of `vfs_voss.c` and what they call of `vfs_voss_sub.c`. Every `open` succeeds
and every `write` takes all it is given. A function returns nothing where the behaviour of the program is
undefined or it does not return.
-/

namespace VfsOss

open CLib

/-- What `check_req` and `sub_recv` return: -1, 0, `RECV_CLOSE`, `RECV_ADD_EPOLLIN` or
`RECV_ADD_EPOLLOUT`. -/
inductive VossRet where
  | noData | again | close | addEpollin | addEpollout
  deriving DecidableEq

/-- `s_server_stat`. -/
def sServerStat : List Bytes :=
  [txt "UNKOWN_STAT", txt "WAIT_SYNC", txt "SYNCING", txt "ON_LINE", txt "OFFLINE"]

/-- `iprole`. -/
def iprole : List Bytes :=
  [txt "unkown", txt "uc", txt "sm", txt "tracker", txt "voss_master", txt "self_ip"]

/-- `"%0wd"` of a number that is not negative. -/
def fmtPadded (w n : Nat) : Bytes := List.replicate (w - (dec n).length) 48 ++ dec n

/-- `get_strtime`. -/
def getStrtime (t : Tm) : Bytes :=
  fmtPadded 4 t.year ++ fmtPadded 2 (t.mon + 1) ++ fmtPadded 2 t.mday ++ fmtPadded 2 t.hour ++
    fmtPadded 2 t.min ++ fmtPadded 2 t.sec

/-- `time(NULL)`. -/
def Voss.time (cfg : VossCfg) (s : Voss) : Int × Voss :=
  (cfg.clock s.ticks, { s with ticks := s.ticks + 1 })

/-- `check_close_local`: a work file that has been open long enough is closed, linked and renamed. -/
def checkCloseLocal (cfg : VossCfg) (s : Voss) : Voss :=
  let (now, s) := s.time cfg
  match s.peer.localInFd with
  | none => s
  | some (fd, file) =>
    if fd > 0 ∧ now - s.peer.opentime ≥ cfg.vossInterval.toNat then
      let moved (dir : Bytes) :=
        snprintf 256 (cfg.path ++ txt "/" ++ dir ++ txt "/" ++ basename file.name)
      { s with
        peer := { s.peer with localInFd := none }
        done := s.done ++ [⟨file, moved (txt "syncdir"), moved (txt "outdir")⟩] }
    else s

/-- `consume_client_data`. -/
def Voss.consume (n : Nat) (s : Voss) : Voss :=
  { s with peer := { s.peer with recv := mybuffSkipdata s.peer.recv n } }

/-- The part of `sub_recv` behind its `write`, which has returned `n`. -/
def subWritten (cfg : VossCfg) (n : Int) (s : Voss) : VossRet × Voss :=
  if n < 0 then (.close, s)
  else
    let s := s.consume n.toNat
    let s := { s with peer := { s.peer with recvlen := s.peer.recvlen + n } }
    if s.peer.recvlen ≥ s.peer.datalen then
      (.addEpollout, checkCloseLocal cfg { s with peer := { s.peer with sockStat := .idle } })
    else (.addEpollin, s)

/-- `sub_recv`: bytes of the body go to the work file. The number of bytes still to come is an `int`
that is compared with a `size_t`, and the number written is stored in an `int`. -/
def subRecv (cfg : VossCfg) (s : Voss) : VossRet × Voss :=
  let (now, s) := s.time cfg
  let s := { s with peer := { s.peer with hbtime := now } }
  if s.peer.sockStat = .prepareSyncfile ∨ s.peer.sockStat = .syncfileing then
    match mybuffGetdata s.peer.recv with
    | none => (.addEpollin, s)
    | some (data, datalen) =>
      let remainlen := (toInt32 (s.peer.datalen - s.peer.recvlen) % 2 ^ 64).toNat
      let datalen := if datalen ≤ remainlen then datalen else remainlen
      match s.peer.localInFd with
      | none => (.close, s)
      | some (fd, file) =>
        let file := { file with data := file.data ++ data.take datalen }
        subWritten cfg (toInt32 datalen) { s with peer := { s.peer with localInFd := some (fd, file) } }
  else (.addEpollin, s)

/-- The work file `process_data_req` opens when there is none. -/
def openLocal (cfg : VossCfg) (s : Voss) : Voss :=
  match s.peer.localInFd with
  | some _ => s
  | none =>
    let (now, s) := s.time cfg
    let filename := snprintf 256 (cfg.path ++ txt "/workdir/" ++ iprole.getD s.peer.role [] ++
      txt "_voss_" ++ s.peer.ip ++ txt "_" ++ getStrtime (cfg.localtime now) ++ txt ".master")
    let fd := cfg.openFd s.opens
    let (now, s) := s.time cfg
    { s with
      peer := { s.peer with localInFd := some (fd, ⟨filename, []⟩), opentime := now }
      opens := s.opens + 1 }

/-- `process_data_req`. -/
def processDataReq (cfg : VossCfg) (h : HeadInfo) (s : Voss) : VossRet × Voss :=
  let s := openLocal cfg s
  let datalen := toInt32 ((h.totallen : Int) - headsize)
  let s := { s with peer := { s.peer with sockStat := .syncfileing, datalen := datalen, recvlen := 0 } }
  subRecv cfg (s.consume headsize)

/-- The record of a heartbeat or a response in the status file: time, address, text. -/
def statRecord (day ip text : Bytes) : Bytes := day ++ txt "|" ++ ip ++ txt "|" ++ text ++ txt "\n"

/-- A record is written, when the status file is open. -/
def writeStat (cfg : VossCfg) (text : Bytes) (s : Voss) : Voss :=
  match s.cStat with
  | none => s
  | some written =>
    let (now, s) := s.time cfg
    { s with cStat := some (written ++ statRecord (getStrtime (cfg.localtime now)) s.peer.ip text) }

/-- What `check_req` does with a message that is complete and not a `REQ_SUBMIT`. `init_cfg_connect`
returns at once; `sip` has room for 128 bytes. A head that says the message is shorter than a head makes
the number of bytes to copy or write wrap around. -/
def checkMsg (cfg : VossCfg) (data : Bytes) (h : HeadInfo) (s : Voss) : Option Voss :=
  if h.cmdid = reqAuth then
    if h.totallen < headsize ∨ h.totallen - headsize > 128 then none else some s
  else if s.cStat = none then some s
  else if h.cmdid = reqHeartbeat then
    match data.drop headsize with
    | [] => none
    | b :: _ =>
      let s := { s with peer := { s.peer with serverStat := b } }
      some (writeStat cfg (sServerStat.getD (b.toNat % 5) []) s)
  else if h.totallen < headsize then none
  else some (writeStat cfg ((data.drop headsize).take (h.totallen - headsize)) s)

/-- The part of `check_req` behind `parse_msg`, which has found the head `h`, or not enough bytes. -/
def checkHead (cfg : VossCfg) (data : Bytes) (datalen : Nat) (s : Voss) :
    Option HeadInfo → Option (VossRet × Voss)
  | none => some (.noData, s)
  | some h =>
    if h.cmdid = reqHeartbeat ∨ rspVfsCmd = h.cmdid ∨ reqAuth = h.cmdid then
      if datalen < h.totallen then some (.noData, s)
      else (checkMsg cfg data h s).map fun s => (.again, s.consume h.totallen)
    else if h.cmdid = reqSubmit then some (processDataReq cfg h s)
    else some (.close, s)

/-- `check_req`. -/
def vossCheckReq (cfg : VossCfg) (s : Voss) : Option (VossRet × Voss) :=
  match mybuffGetdata s.peer.recv with
  | none => some (.noData, s)
  | some (data, datalen) => checkHead cfg data datalen s (parseMsg data (toInt32 datalen))

/-- The loop of `svc_recv`. A step that goes on consumes bytes, or it is the same for ever: `fuel` is a
number of steps that is more than there are bytes. -/
def recvLoop (cfg : VossCfg) : Nat → Voss → Option (VossRet × Voss)
  | 0, _ => none
  | fuel + 1, s =>
    match vossCheckReq cfg s with
    | none => none
    | some (.noData, s) => some (.addEpollin, s)
    | some (.close, s) => some (.close, s)
    | some (.addEpollin, s) => some (.addEpollin, s)
    | some (_, s) => recvLoop cfg fuel s

/-- `svc_recv`. -/
def vossSvcRecv (cfg : VossCfg) (s : Voss) : Option (VossRet × Voss) :=
  let (now, s) := s.time cfg
  let s := { s with peer := { s.peer with hbtime := now } }
  if s.peer.sockStat = .prepareSyncfile ∨ s.peer.sockStat = .syncfileing then
    match subRecv cfg s with
    | (.addEpollin, s) => some (.addEpollin, s)
    | (.close, s) => some (.close, s)
    | (_, s) => recvLoop cfg (s.peer.recv.len + 1) s
  else recvLoop cfg (s.peer.recv.len + 1) s

/-- Bytes arrive and `svc_recv` is called. -/
def vossDeliver (cfg : VossCfg) (s : Voss) (chunk : Bytes) : Option (VossRet × Voss) :=
  vossSvcRecv cfg
    { s with peer := { s.peer with recv := mybuffSetdata cfg.initBuffSize cfg.mem s.peer.recv chunk } }

/-- The step of a run: behind a call that does not return nothing is known. -/
def vossStep (cfg : VossCfg) (s : Voss) (chunk : Bytes) : Voss :=
  match vossDeliver cfg s chunk with
  | none => s
  | some (_, s) => s

end VfsOss
