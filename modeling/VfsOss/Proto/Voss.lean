import VfsOss.CLib.Endian

/-!
# Messages to the VOSS

`pro_voss.c`: a message is a head of three numbers in network byte order and a body.
-/

namespace VfsOss

open CLib

/-- `HEADSIZE`. -/
def headsize : Nat := 12

/-- `REQ_AUTH`. -/
def reqAuth : Nat := 0x1

/-- `REQ_SUBMIT`. -/
def reqSubmit : Nat := 0x2

/-- `REQ_HEARTBEAT`. -/
def reqHeartbeat : Nat := 0x5

/-- `RSP_VFS_CMD`. -/
def rspVfsCmd : Nat := 0x80000008

/-- `t_head_info`, of `unsigned int`s. -/
structure HeadInfo where
  totallen : Nat
  cmdid : Nat
  seq : Nat

/-- `parse_msg`; nothing is returned for `E_NOT_SUFFIC`. -/
def parseMsg (inbuf : Bytes) (inlen : Int) : Option HeadInfo :=
  if inlen < headsize then none
  else some ⟨ofBe32 inbuf, ofBe32 (inbuf.drop 4), ofBe32 (inbuf.drop 8)⟩

/-- `create_voss_head`, with the number `getseq` returns. -/
def createVossHead (seq cmdid datalen : Nat) : Bytes :=
  be32 (headsize + datalen) ++ be32 cmdid ++ be32 seq

@[simp] theorem length_createVossHead (seq cmdid datalen : Nat) :
    (createVossHead seq cmdid datalen).length = headsize := rfl

/-- A head that has been made is parsed, whatever comes behind it. -/
theorem parseMsg_createVossHead {seq cmdid datalen : Nat} (hlen : headsize + datalen < 2 ^ 32)
    (hcmd : cmdid < 2 ^ 32) {inlen : Int} (hin : headsize ≤ inlen) (rest : Bytes) :
    parseMsg (createVossHead seq cmdid datalen ++ rest) inlen =
      some ⟨headsize + datalen, cmdid, seq % 2 ^ 32⟩ := by
  unfold parseMsg createVossHead
  rw [if_neg (by omega)]
  have h4 : (be32 (headsize + datalen) ++ be32 cmdid ++ be32 seq ++ rest).drop 4 =
      be32 cmdid ++ (be32 seq ++ rest) := rfl
  have h8 : (be32 (headsize + datalen) ++ be32 cmdid ++ be32 seq ++ rest).drop 8 =
      be32 seq ++ rest := rfl
  rw [h4, h8, ofBe32_be32, ofBe32_be32, List.append_assoc, List.append_assoc, ofBe32_be32,
    Nat.mod_eq_of_lt hlen, Nat.mod_eq_of_lt hcmd]

end VfsOss
