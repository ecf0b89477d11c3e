import Samvada.Lib.Octets

/- dbus_frame.cyr: one receive buffer, split into whole D-Bus messages, and the
   descriptors that arrived with the message at its head. The buffer is the
   list of its valid bytes, so `_dbf_have` is its length and `_dbf_fdn` the
   length of the descriptor queue; positions and lengths are naturals. A
   function that calls `sys_close` answers with the descriptors it closed, in
   order. The one-time allocations of the module are taken as made. -/
namespace Samvada
open Octets

/-- What `dbus_frame_next` and `dbus_frame_total` answer: a length, or a status code. -/
inductive FrameStatus where
  | msg (total : Nat)
  | needMore
  | eof
  | truncated
  | badendian
  | badproto
  | toolong
  deriving DecidableEq, Repr

/-- The file-scope state of the framer. -/
structure Frame where
  /-- `_dbf_buf[0 .. _dbf_have)` -/
  buf : Bytes := []
  /-- `_dbf_off`: the first unconsumed byte -/
  off : Nat := 0
  /-- `_dbf_skip`: bytes still to discard of an over-cap message -/
  skip : Nat := 0
  eof : Bool := false
  /-- `_dbf_fdq[0 .. _dbf_fdn)` -/
  fdq : List Int := []
  fdtot : Nat := 0
  fdbad : Bool := false
  /-- `_dbf_abs0`: the stream position of `_dbf_buf[0]` -/
  abs0 : Nat := 0
  moved : Nat := 0
  deriving DecidableEq, Repr

def dbusFrameHdrSize : Nat := 16
def dbusFrameEndianLe : Nat := 108
def dbusFrameEndianBe : Nat := 66
def dbusFrameCap : Nat := 8192
def dbusFrameMsgMax : Nat := 134217728
def dbusFrameFdqCap : Nat := 8

/-- The length a header declares, 16 bytes of it read in the endianness of the first. -/
def dbusFrameTotal (p : Bytes) (avail : Nat) : FrameStatus :=
  if avail < dbusFrameHdrSize then .needMore
  else
    let e := load8 p 0
    if e = dbusFrameEndianLe then
      if load8 p 3 ≠ 1 then .badproto
      else .msg (align (dbusFrameHdrSize + load32 p 12) 8 + load32 p 4)
    else if e = dbusFrameEndianBe then
      if load8 p 3 ≠ 1 then .badproto
      else .msg (align (dbusFrameHdrSize + load32be p 12) 8 + load32be p 4)
    else .badendian

/-- Close every queued descriptor and forget the head message's count. -/
def dbusFrameCloseFds (f : Frame) : Frame × List Int :=
  ({ f with fdq := [], fdtot := 0, fdbad := false }, f.fdq.filter (0 ≤ ·))

def dbusFrameInit (f : Frame) : Frame × List Int :=
  let (f, closed) := dbusFrameCloseFds f
  ({ f with buf := [], off := 0, skip := 0, eof := false, moved := 0, abs0 := 0 }, closed)

def dbusFrameSpace (f : Frame) : Nat := dbusFrameCap - f.buf.length
def dbusFrameHave (f : Frame) : Nat := f.buf.length - f.off
/-- The bytes from `dbus_frame_base()` on. -/
def dbusFrameBase (f : Frame) : Bytes := f.buf.drop f.off

/-- The bytes a read put at `dbus_frame_tail()`, committed. -/
def dbusFrameCommit (f : Frame) (d : Bytes) : Frame := { f with buf := f.buf ++ d }

def dbusFrameConsume (f : Frame) (n : Nat) : Frame := { f with off := min (f.off + n) f.buf.length }

def dbusFrameSetEof (f : Frame) : Frame := { f with eof := true }
def dbusFramePos (f : Frame) : Nat := f.abs0 + f.off
def dbusFrameReceived (f : Frame) : Nat := f.abs0 + f.buf.length

/-- Slide the unconsumed bytes to the front. -/
def dbusFrameCompact (f : Frame) : Frame :=
  if f.off = 0 then f
  else
    { f with
      buf := dbusFrameBase f
      off := 0
      moved := f.moved + dbusFrameHave f
      abs0 := f.abs0 + f.off }

/-- A descriptor that arrived with the head message; while an over-cap message
is drained, or past the queue's end, it is closed. -/
def dbusFramePushFd (f : Frame) (fd : Int) : Frame × List Int :=
  if fd < 0 then (f, [])
  else if 0 < f.skip then (f, [fd])
  else if dbusFrameFdqCap ≤ f.fdq.length then ({ f with fdtot := f.fdtot + 1 }, [fd])
  else ({ f with fdtot := f.fdtot + 1, fdq := f.fdq ++ [fd] }, [])

def dbusFrameFdsIncomplete (f : Frame) : Frame :=
  if 0 < f.skip then f else { f with fdbad := true }

/-- Hand descriptor `i` to the caller; -1 if there is none. -/
def dbusFrameClaimFd (f : Frame) (i : Int) : Int × Frame :=
  if i < 0 then (-1, f)
  else if (f.fdq.length : Int) ≤ i then (-1, f)
  else (f.fdq.getD i.toNat (-1), { f with fdq := f.fdq.eraseIdx i.toNat })

/-- How far the next read may go without leaving the head message. -/
def dbusFrameWant (f : Frame) : Nat :=
  let avail := dbusFrameHave f
  if 0 < f.skip then f.skip - avail
  else if avail < dbusFrameHdrSize then dbusFrameHdrSize - avail
  else match dbusFrameTotal (dbusFrameBase f) avail with
    | .msg total => if dbusFrameCap < total then 0 else total - avail
    | _ => 0

/-- Make room for a read of `want` bytes; how many it may take. -/
def dbusFramePrepare (f : Frame) (want : Nat) : Nat × Frame :=
  if want = 0 then (0, f)
  else
    let f := if dbusFrameSpace f < want then dbusFrameCompact f else f
    (min want (dbusFrameSpace f), f)

/-- Discard what is buffered of an over-cap message. -/
def dbusFrameDrain (f : Frame) : Frame :=
  let take := min f.skip (dbusFrameHave f)
  { f with off := f.off + take, skip := f.skip - take }

/-- No message yet: `eof` or `truncated` once the peer has closed. -/
def dbusFrameShort (f : Frame) (atEof : FrameStatus) : FrameStatus :=
  if f.eof then atEof else .needMore

/-- The framer: the next complete message. The recursion is the source's own,
after an over-cap header; `n` bounds its depth. -/
def dbusFrameNextN : Nat → Frame → FrameStatus × Frame × List Int
  | 0, f => (.needMore, f, [])
  | n + 1, f =>
    let f0 := dbusFrameDrain f
    if 0 < f0.skip then (dbusFrameShort f0 .truncated, f0, [])
    else
      let (f1, closed) := if 0 < f.skip then dbusFrameCloseFds f0 else (f0, [])
      let avail := dbusFrameHave f1
      if avail = 0 then (dbusFrameShort f1 .eof, f1, closed)
      else if avail < dbusFrameHdrSize then (dbusFrameShort f1 .truncated, f1, closed)
      else match dbusFrameTotal (dbusFrameBase f1) avail with
        | .msg total =>
          if dbusFrameMsgMax ≤ total then (.toolong, f1, closed)
          else if dbusFrameCap < total then
            let (f2, closed') := dbusFrameCloseFds f1
            let (r, f3, closed'') := dbusFrameNextN n { f2 with skip := total }
            (r, f3, closed ++ closed' ++ closed'')
          else if avail < total then (dbusFrameShort f1 .truncated, f1, closed)
          else (.msg total, f1, closed)
        | bad => (bad, f1, closed)

/-- `dbus_frame_next`: each level of the recursion discards a header at least. -/
def dbusFrameNext (f : Frame) : FrameStatus × Frame × List Int :=
  dbusFrameNextN (dbusFrameHave f + 2) f

/-- Consume the head message; the descriptors nobody claimed are closed with it. -/
def dbusFrameAdvance (f : Frame) (n : Nat) : Frame × List Int :=
  if n = 0 then (f, [])
  else dbusFrameCloseFds { f with off := min (f.off + n) f.buf.length }

end Samvada
