import VfsOss.CLib.Decimal

/-!
# The traffic throttle

`moni.c`: every round the byte counters of one interface are read twice, `INTVAL_SEC` seconds apart,
and `cal_limit` moves the pass ratio of either direction after them. The senders and receivers of
`vfs_so.c` let a call through when a random byte does not exceed the ratio.

The counters and all that is computed from them are `uint64_t`; the integer constants are converted
to that type wherever the source compares or multiplies them with such a value.
-/

namespace VfsOss

open CLib

/-- `INTVAL_SEC`. -/
def intvalSec : UInt64 := 5

/-- `max_pend_value`. -/
def maxPendValue : Int := 0xFF

/-- `pass_step`. -/
def passStep : Int := 3

/-- `pass_up_value`. -/
def passUpValue : UInt64 := 240

/-- `max_pass_up_value`. -/
def maxPassUpValue : UInt64 := 300

/-- `max_pass_up_value_2`. -/
def maxPassUpValue2 : UInt64 := 400

/-- `pass_down_value`. -/
def passDownValue : UInt64 := 160

/-- `min_pass_size`. -/
def minPassSize : UInt64 := 1024

/-- `cur_speed` of `cal_limit`. -/
def curSpeed (two one : UInt64) : UInt64 := 8 * (two - one) / intvalSec

/-- `cur_pass_ratio` of `cal_limit`. -/
def curPassRatio (two one : UInt64) (intLimit : Int) : UInt64 :=
  UInt64.ofInt maxPendValue * curSpeed two one / UInt64.ofInt intLimit

/-- The load that `cur_pass_ratio` stands for, for `d` bytes in an interval: `max_pend_value` times
the speed over the limit, as numbers. -/
def measuredLoad (d : Nat) (intLimit : Int) : Nat :=
  maxPendValue.toNat * (8 * d / intvalSec.toNat) / intLimit.toNat

/-- Two samples of a counter that grew by `d`, few enough for the products to stay below `2^64`. -/
structure Sampled (two one : UInt64) (d : Nat) : Prop where
  two_eq : two.toNat = one.toNat + d
  small : 8 * 255 * d < 2 ^ 64

/-- `cal_limit`: the value left in `*result`. -/
def calLimit (result : Int) (two one : UInt64) (intLimit : Int) : Int :=
  if two - one < minPassSize then
    let result := result * 2
    let result := if result > maxPendValue then maxPendValue else result
    if result < 5 then 5 else result
  else
    let ratio := curPassRatio two one intLimit
    if ratio ≤ passDownValue then
      let result := result + passStep
      if result > maxPendValue then maxPendValue else result
    else if ratio ≤ passUpValue then
      result
    else
      let result :=
        if ratio ≤ maxPassUpValue then result - passStep
        else if ratio ≤ maxPassUpValue2 then result - passStep * 2
        else result >>> (1 : Nat)
      if result < 5 then 5 else result

/-- The variables of `moni.c` that change. -/
structure Moni where
  tcFaceName : Option Bytes
  recvLimit : Int
  sendLimit : Int
  recvPassRatio : Int
  sendPassRatio : Int

/-- `init_tc`; `faceName` is what the configuration has for `tc_face_name`, the two limits are read
only when it has something. -/
def initTc (m : Moni) (faceName : Option Bytes) (recvLimit sendLimit : Int) : Moni :=
  let m := { m with sendPassRatio := maxPendValue, recvPassRatio := maxPendValue,
                    tcFaceName := faceName }
  match faceName with
  | none => m
  | some _ => { m with recvLimit := recvLimit, sendLimit := sendLimit }

/-- `get_tc_recv_send`: `out` is what the pipe delivered, nothing when it could not be opened. A
failure sets both ratios back. -/
def getTcRecvSend (m : Moni) (out : Option Bytes) : Moni × Option (UInt64 × UInt64) :=
  let failed := { m with sendPassRatio := maxPendValue, recvPassRatio := maxPendValue }
  match out with
  | none => (failed, none)
  | some out =>
    let buf := cstr (out.take 256)
    match strchr buf 32 with
    | none => (failed, none)
    | some p => (m, some (UInt64.ofInt (atol (buf.take p)), UInt64.ofInt (atol (buf.drop (p + 1)))))

/-- `check_tc`; `out₁` and `out₂` are what the two readings of the counters get from the pipe. -/
def checkTc (m : Moni) (out₁ out₂ : Option Bytes) : Moni :=
  match m.tcFaceName with
  | none => m
  | some _ =>
    match getTcRecvSend m out₁ with
    | (m, none) => m
    | (m, some (recvBytes, sendBytes)) =>
      match getTcRecvSend m out₂ with
      | (m, none) => m
      | (m, some (recvBytes2, sendBytes2)) =>
        let m := if m.sendLimit > 0 then
            { m with sendPassRatio := calLimit m.sendPassRatio sendBytes2 sendBytes m.sendLimit }
          else m
        if m.recvLimit > 0 then
          { m with recvPassRatio := calLimit m.recvPassRatio recvBytes2 recvBytes m.recvLimit }
        else m

end VfsOss
