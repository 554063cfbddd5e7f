import VfsOss.Net.Mybuff
import VfsOss.Proto.Voss

/-!
# The state of the VOSS

What `vfs_voss.c` keeps for one peer, with the files it writes what the peer sends to.
-/

namespace VfsOss

open CLib

/-- `struct tm`: what `localtime_r` makes of a clock value. A clock ends long before the year 10000. -/
structure Tm where
  year : Fin 10000
  mon : Fin 12
  mday : Fin 32
  hour : Fin 24
  min : Fin 60
  sec : Fin 61

/-- The configuration, and what is not in the repository: the `n`-th value of the clock, the library's
time zone, the number the `n`-th `open` returns, and what fresh memory holds. -/
structure VossCfg where
  path : Bytes
  vossInterval : UInt16
  clock : Nat → Int
  localtime : Int → Tm
  openFd : Nat → Nat
  initBuffSize : Nat
  mem : Nat → UInt8

/-- A configuration in which it is always the first second of the year 2014. -/
def VossCfg.sample : VossCfg where
  path := txt "/vfs"
  vossInterval := 300
  clock n := n
  localtime _ := ⟨2014, 0, 1, 0, 0, 0⟩
  openFd _ := 7
  initBuffSize := 64
  mem _ := 0

/-- `enum SOCK_STAT` of `vfs_voss.h`. -/
inductive VossSockStat where
  | logout | connected | login | hbSend | hbRsp | idle | recvLast | sendLast | prepareSyncfile
  | syncfileing | syncfilePost | syncfileOk | prepareSendfile | sendfileing | sendfileOk
  deriving DecidableEq

/-- A work file: its name and what has been written to it. -/
structure WorkFile where
  name : Bytes
  data : Bytes

/-- A work file that has been closed, with the names it was linked and renamed to. -/
structure DoneFile extends WorkFile where
  syncfile : Bytes
  outfile : Bytes

/-- `vfs_voss_peer` without its lists and `t_voss_data_info`, with the peer's receive buffer.
`localInFd` is the descriptor with the file it is open on; nothing stands for -1. -/
structure VossPeer where
  ip : Bytes
  role : Nat
  recv : Mybuff
  sockStat : VossSockStat
  serverStat : UInt8
  hbtime : Int
  localInFd : Option (Nat × WorkFile)
  recvlen : Int
  datalen : Int
  opentime : Int

/-- The state: the peer, what has been written to the status file when that is open, the work files
that have been closed, and how often the clock has been read and a file been opened. -/
structure Voss where
  peer : VossPeer
  cStat : Option Bytes
  done : List DoneFile
  ticks : Nat
  opens : Nat

/-- `svc_initconn`: a new peer, with an empty receive buffer. -/
def vossSvcInitconn (cfg : VossCfg) (ip : Bytes) (recv : Mybuff) (s : Voss) : Voss where
  peer := ⟨ip, 0, recv, .connected, 0, cfg.clock s.ticks, none, 0, 0, 0⟩
  cStat := s.cStat
  done := []
  ticks := s.ticks + 1
  opens := s.opens

end VfsOss
