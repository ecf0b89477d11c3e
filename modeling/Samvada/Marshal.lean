import Samvada.Lib.Octets

/- dbus_marshal.cyr: the encoder. The buffer is the list of the bytes written,
   so `_dbm_at` is its length; a string argument is the bytes at its pointer
   and a length the caller chose. The writers' own results (0 or -22) are not
   modelled: no caller reads them, `_dbm_bad` carries the failure. The buffer's
   one-time allocation is taken as made. -/
namespace Samvada
open Octets

def dbusMarshalCap : Nat := 4096

def dbusMarshalTypeCall : Nat := 1
def dbusMarshalTypeReturn : Nat := 2
def dbusMarshalTypeError : Nat := 3

def dbusMarshalFPath : Nat := 1
def dbusMarshalFInterface : Nat := 2
def dbusMarshalFMember : Nat := 3
def dbusMarshalFErrname : Nat := 4
def dbusMarshalFReplyser : Nat := 5
def dbusMarshalFDest : Nat := 6
def dbusMarshalFSignature : Nat := 8
def dbusMarshalFUnixfds : Nat := 9

/-- The file-scope state of the encoder. -/
structure Marshal where
  /-- `_dbm_buf[0 .. _dbm_at)` -/
  buf : Bytes := []
  /-- `_dbm_fend`: where the header-field array ended -/
  fend : Nat := 0
  bad : Bool := false
  deriving DecidableEq, Repr

def dbusMarshalLen (m : Marshal) : Nat := m.buf.length

/-- Is there room for `n` more bytes? If not the message is poisoned. -/
def dbmRoom (m : Marshal) (n : Int) : Marshal × Bool :=
  if m.bad then (m, false)
  else if n < 0 then ({ m with bad := true }, false)
  else if int64 m.buf.length < 0 then ({ m with bad := true }, false)
  -- the sum is a 64-bit word: a length near 2^63 makes it negative
  else if dbusMarshalCap < int64 (m.buf.length + n) then ({ m with bad := true }, false)
  else (m, true)

/-- Write `bs` if there is room. -/
def dbmWrite (m : Marshal) (n : Int) (bs : Bytes) : Marshal :=
  let (m, ok) := dbmRoom m n
  if ok then { m with buf := m.buf ++ bs } else m

def dbmPadTo (m : Marshal) (a : Nat) : Marshal :=
  let pad := align m.buf.length a - m.buf.length
  dbmWrite m pad (List.replicate pad 0)

def dbmU8 (m : Marshal) (v : Int) : Marshal := dbmWrite m 1 [low8 v]
def dbmU32 (m : Marshal) (v : Int) : Marshal := dbmWrite m 4 (le32 v)
def dbmBytes (m : Marshal) (p : Bytes) (n : Int) : Marshal := dbmWrite m n (loadN p 0 n.toNat)

/-- Overwrite four bytes of the header. -/
def dbmBackfill (m : Marshal) (i : Nat) (v : Int) : Marshal :=
  { m with buf := (((m.buf.set i (low8 v)).set (i + 1) (low8 (v / 256))).set (i + 2)
      (low8 (v / 65536))).set (i + 3) (low8 (v / 16777216)) }

def dbusMarshalBegin (mtype flags serial : Int) : Marshal :=
  let m : Marshal := {}
  let m := dbmU8 m 108
  let m := dbmU8 m mtype
  let m := dbmU8 m flags
  let m := dbmU8 m 1
  let m := dbmU32 m 0
  let m := dbmU32 m serial
  dbmU32 m 0

/-- A header field carrying `s` or `o`. -/
def dbusMarshalFieldStr (m : Marshal) (code sigch : Int) (str : Bytes) (len : Int) : Marshal :=
  let m := dbmPadTo m 8
  let m := dbmU8 m code
  let m := dbmU8 m 1
  let m := dbmU8 m sigch
  let m := dbmU8 m 0
  let m := dbmPadTo m 4
  let m := dbmU32 m len
  let m := dbmBytes m str len
  dbmU8 m 0

def dbusMarshalFieldU32 (m : Marshal) (code val : Int) : Marshal :=
  let m := dbmPadTo m 8
  let m := dbmU8 m code
  let m := dbmU8 m 1
  let m := dbmU8 m 117
  let m := dbmU8 m 0
  let m := dbmPadTo m 4
  dbmU32 m val

def dbusMarshalFieldSig (m : Marshal) (code : Int) (sig : Bytes) (len : Int) : Marshal :=
  if 255 < len then { m with bad := true }
  else
    let m := dbmPadTo m 8
    let m := dbmU8 m code
    let m := dbmU8 m 1
    let m := dbmU8 m 103
    let m := dbmU8 m 0
    let m := dbmU8 m len
    let m := dbmBytes m sig len
    dbmU8 m 0

/-- Close the field array: its length excludes the padding that follows. -/
def dbusMarshalEndFields (m : Marshal) : Marshal :=
  let m := { m with fend := m.buf.length }
  let m := dbmBackfill m 12 ((m.buf.length : Int) - 16)
  dbmPadTo m 8

def dbusMarshalBodyU32 (m : Marshal) (v : Int) : Marshal := dbmU32 (dbmPadTo m 4) v

def dbusMarshalBodyBool (m : Marshal) (v : Int) : Marshal :=
  dbmU32 (dbmPadTo m 4) (if v ≠ 0 then 1 else 0)

def dbusMarshalBodyStr (m : Marshal) (str : Bytes) (len : Int) : Marshal :=
  let m := dbmPadTo m 4
  let m := dbmU32 m len
  let m := dbmBytes m str len
  dbmU8 m 0

/-- Backfill the body's length and answer the total. -/
def dbusMarshalFinish (m : Marshal) : Nat × Marshal :=
  let blen : Int := (m.buf.length : Int) - align m.fend 8
  (m.buf.length, dbmBackfill m 4 (if blen < 0 then 0 else blen))

end Samvada
