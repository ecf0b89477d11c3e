import Samvada.Kernel
import Samvada.Unmarshal
import Samvada.Errno

/- dbus_session.cyr, without its FFI-shaped half: the connection's state, one
   receive, the bounded write, the call and its reply, and the handshake. A
   pointer and a length are the bytes from the pointer on and the length. -/
namespace Samvada
open Octets Resumable

/-! ## The connection's state -/

def dbusSessionMaxSerial : Nat := 4294967295

def dbusSessionSetUnique (p : Bytes) (n : Int) : M Int :=
  if n ≤ 0 then pure (-22)
  else if 255 < n then pure (-22)
  else do
    if ← allocOnce .uniq then
      Prog.modify fun w => { w with dbs := { w.dbs with uniq := loadN p 0 n.toNat } }
      pure 0
    else pure (-12)

def dbusSessionWrapSerial (n : Nat) : Nat :=
  if dbusSessionMaxSerial < n then 1 else if n = 0 then 1 else n

theorem wrapSerial_range (n : Nat) : 0 < dbusSessionWrapSerial n ∧
    dbusSessionWrapSerial n < 4294967296 := by
  unfold dbusSessionWrapSerial dbusSessionMaxSerial
  split
  · omega
  · split <;> omega

def dbusSessionNextSerial : M Nat := Prog.modifyGet fun w =>
  let s := dbusSessionWrapSerial (w.dbs.serial + 1)
  (s, { w with dbs := { w.dbs with serial := s } })

def dbusSessionReset : M Unit := Prog.modify fun w => { w with dbs := {} }

/-- The errnos of a send, poll or receive that mean the connection has gone. -/
def dbusSessionIsDisconnect (e : Int) : Bool :=
  [-103, -111, -104, -112, -113, -100, -102, -101, -64, -92, -107, -32, -71, -108, -110].contains e

/-- The connection just went: remember it, and answer -ECONNRESET. -/
def dbsLost : M Int := do
  Prog.modify fun w => { w with dbs := { w.dbs with closed := true } }
  pure (-104)

def dbsIoFail (e : Int) : M Int := if dbusSessionIsDisconnect e then dbsLost else pure e

/-- The errno for a framer fault, or 0. -/
def dbsFrameFault : FrameStatus → M Int
  | .eof => dbsLost
  | .truncated => dbsLost
  | .badendian => pure (-71)
  | .badproto => pure (-71)
  | .toolong => pure (-105)
  | .msg _ => pure 0
  | .needMore => pure 0

/-! ## The clock -/

/-- Monotonic milliseconds, or a negative errno; `_dbs_clock_fail` makes it fail. -/
def dbusSessionNowMs : M Int := do
  let fail ← Prog.gets (·.dbs.clockFail)
  if fail = 1 then pure (-14)
  else do
    Prog.modify fun w =>
      { w with dbs := { w.dbs with clockFail := if 1 < fail then fail - 1 else fail } }
    sysClock

def dbusSessionTimeoutMaxMs : Int := 86400000

def dbusSessionSetTimeoutMs (ms : Int) : M Int :=
  if ms < 0 then pure (-22)
  else if dbusSessionTimeoutMaxMs < ms then pure (-22)
  else do
    Prog.modify fun w => { w with dbs := { w.dbs with timeoutMs := ms } }
    pure 0

/-! ## What a message says -/

/-- Is this reply addressed to us? Yes if no name is known, or none is given. -/
def dbusSessionDestOk (uniq : Bytes) (limit : Nat) (p : Bytes) : Bool :=
  if uniq = [] then true
  else match dbusUnmarshalFindField limit p dbusMarshalFDest with
    | .error .notfound => true
    | .error .malformed => false
    | .ok (off, _) => match dbusUnmarshalStrAt limit p off with
      | .error _ => false
      | .ok (at_, n) => loadN p at_ n == uniq

/-- A session path: not null, and a valid object path. -/
def dbusSessionSessOk (sess : Option Bytes) : Bool :=
  match sess with
  | none => false
  | some p => dbusUnmarshalPathOk p (strlen p)

def dbusSessionDevnumOk (v : Int) : Bool := 0 ≤ v && v ≤ 4294967295

/-- Does the message carry the body signature `s`? -/
def dbsBodySigIs (limit : Nat) (p : Bytes) (s : String) : Bool :=
  match dbusUnmarshalFindField limit p dbusMarshalFSignature with
  | .error .notfound => (lit s).isEmpty
  | .error .malformed => false
  | .ok (off, _) => match dbusUnmarshalSigAt limit p off with
    | .error _ => false
    | .ok (at_, n) => dbsNameIs (p.drop at_) n s

/-! ## What a message says, over the decoder's state -/

namespace Decode

def dbusSessionDestOk (uniq p : Bytes) : Decode Bool := do
  if uniq = [] then pure true
  else match ← dbusUnmarshalFindField p dbusMarshalFDest with
    | .error .notfound => pure true
    | .error .malformed => pure false
    | .ok (off, _) => do
      let n ← dbusUnmarshalStrAt p off .dest
      let q ← load .dest
      pure (if n < 0 then false else loadN q 0 n.toNat == uniq)

def dbsBodySigIs (p : Bytes) (s : String) : Decode Bool := do
  match ← dbusUnmarshalFindField p dbusMarshalFSignature with
  | .error .notfound => pure (lit s).isEmpty
  | .error .malformed => pure false
  | .ok (off, _) => do
    let n ← dbusUnmarshalSigAt p off .bodysig
    let q ← load .bodysig
    pure (dbsNameIs q n s)

end Decode

/-! ## One receive -/

/-- `dbus_socket_above_stdio`: never on a stdio number. -/
def dbusSocketAboveStdio (fd : Int) : M Int :=
  if 2 < fd then pure fd
  else do
    let nfd ← sysDupfd fd
    sysClose fd
    pure nfd

/-- Queue what a receive brought, each moved above stdio; answers what was queued. -/
def dbsQueueFds : List Int → M (List Int)
  | [] => pure []
  | fd :: rest => do
    let rfd ← dbusSocketAboveStdio fd
    framePushFd rfd
    let moved ← dbsQueueFds rest
    pure (rfd :: moved)

def framePrepare : M Nat := Prog.modifyGet fun w =>
  let (n, f) := dbusFramePrepare w.fr (dbusFrameWant w.fr)
  (n, { w with fr := f })

def frameSetEof : M Unit := Prog.modify fun w => { w with fr := dbusFrameSetEof w.fr }
def frameCommit (d : Bytes) : M Unit := Prog.modify fun w => { w with fr := dbusFrameCommit w.fr d }

/-- One receive, bounded to the message at the head, its descriptors queued as
that message's: the bytes received, 0 at a close, or the receive's errno. -/
def dbsRecv (fd : Int) (flags : Nat) : M Int := do
  let want ← framePrepare
  if want = 0 then do
    frameSetEof
    pure 0
  else do
    let (got, d) ← dbusSysRecv fd want flags
    if got < 0 then pure got
    else if got = 0 then do
      frameSetEof
      pure 0
    else do
      let pos ← Prog.gets (dbusFrameReceived ·.fr)
      frameCommit d
      let rx ← Prog.gets (·.rx)
      let moved ← dbsQueueFds rx
      let trunc ← Prog.gets (·.rxtrunc)
      Prog.modify fun w => { w with fr := if trunc then dbusFrameFdsIncomplete w.fr else w.fr }
      emit [.received pos d.length moved trunc]
      pure got

/-! ## The bounded write -/

def dbusSocketMsgNosignal : Nat := 16384
def dbusSessionEagain : Int := -11

/-- A send that stops part-way latches the connection closed. -/
def dbsCut (sent : Nat) (err : Int) : M Int := do
  Prog.modify fun w => { w with dbs := { w.dbs with closed := w.dbs.closed || 0 < sent } }
  pure err

/-- The send buffer is full: 0 to try again, or the errno to stop with. -/
def dbsWriteFull (fd deadline : Int) : M Int :=
  if deadline ≤ 0 then pure (-110)
  else do
    let now ← dbusSessionNowMs
    if now < 0 then pure (-110)
    else if deadline ≤ now then pure (-110)
    else do
      let ready ← sysPoll fd true (deadline - now)
      if ready = 0 then pure (-110)
      else if ready < 0 ∧ ready ≠ -4 then pure ready
      else pure 0

def dbsWriteRound (fd : Int) (buf : Bytes) (deadline : Int) (sent : Nat) : M (Nat ⊕ Int) :=
  if buf.length ≤ sent then pure (.inr sent)
  else do
    let flags :=
      if 0 < deadline then dbusSocketMsgNosignal + dbusSysMsgDontwait else dbusSocketMsgNosignal
    let n ← sysSendto fd (buf.drop sent) flags
    if n = -4 then pure (.inl sent)
    else if n = dbusSessionEagain then do
      let stop ← dbsWriteFull fd deadline
      if stop = 0 then pure (.inl sent) else .inr <$> dbsCut sent stop
    else if n < 0 then .inr <$> dbsCut sent n
    else if n = 0 then .inr <$> dbsCut sent (-32)
    else pure (.inl (sent + n.toNat))

/-- Write all of `buf`, or give up at `deadline` (0: no clock). -/
def dbsWrite (fd : Int) (buf : Bytes) (deadline : Int) : M Int :=
  Prog.loop (·.k.send.length) (dbsWriteRound fd buf deadline) 0

/-! ## The call and its reply -/

/-- How the wait for readability ends. -/
inductive Wait where
  | ready
  | again
  | timedOut
  | failed (e : Int)
  deriving DecidableEq, Repr

/-- Wait for input until `deadline`. -/
def dbsWaitReadable (fd deadline : Int) : M Wait := do
  let now ← dbusSessionNowMs
  if now < 0 then pure .timedOut
  else if deadline ≤ now then pure .timedOut
  else do
    let ready ← sysPoll fd false (deadline - now)
    if ready = 0 then pure .timedOut
    else if ready = -4 then pure .again
    else if ready < 0 then pure (.failed ready)
    else pure .ready

/-- What the message at the head, `r` bytes at `p` from stream position `pos`, is
to the call with `serial` whose request was written after `wm` bytes. -/
inductive Verdict where
  /-- the METHOD_RETURN: left at the base -/
  | success
  /-- the ERROR reply, as an errno -/
  | failure (rc : Int)
  | other
  deriving DecidableEq, Repr

/-- The four filters: a valid field array, our serial, not older than the
request, addressed to us. -/
def dbusSessionMine (uniq : Bytes) (serial wm pos r : Nat) (p : Bytes) : Bool :=
  dbusUnmarshalValidate r p &&
    (match dbusUnmarshalFindField r p dbusMarshalFReplyser with
      | .ok (off, _) => load32 p off == serial
      | .error _ => false) &&
    !decide (pos < wm) && dbusSessionDestOk uniq r p

/-- The errno of an ERROR reply's name, -EIO without one. -/
def dbusSessionErrorOf (r : Nat) (p : Bytes) : Int :=
  match dbusUnmarshalFindField r p dbusMarshalFErrname with
  | .error _ => -5
  | .ok (off, _) => match dbusUnmarshalStrAt r p off with
    | .ok (at_, n) => dbusSessionMapError (p.drop at_) n
    | .error _ => dbusSessionMapError [] (-1)

def dbusSessionVerdict (uniq : Bytes) (serial wm pos r : Nat) (p : Bytes) : Verdict :=
  if dbusSessionMine uniq serial wm pos r p then
    if dbusUnmarshalType p = dbusMarshalTypeReturn then .success
    else if dbusUnmarshalType p = dbusMarshalTypeError then .failure (dbusSessionErrorOf r p)
    else .other
  else .other

namespace Decode

/-- The four filters, each asked only while the ones before it hold. -/
def dbusSessionMine (uniq : Bytes) (serial wm pos : Nat) (p : Bytes) : Decode Bool := do
  if ← dbusUnmarshalValidate p then
    match ← dbusUnmarshalFindField p dbusMarshalFReplyser with
    | .error _ => pure false
    | .ok (off, _) =>
      if load32 p off ≠ serial then pure false
      else if pos < wm then pure false
      else dbusSessionDestOk uniq p
  else pure false

def dbusSessionErrorOf (p : Bytes) : Decode Int := do
  match ← dbusUnmarshalFindField p dbusMarshalFErrname with
  | .error _ => pure (-5)
  | .ok (off, _) => do
    let n ← dbusUnmarshalStrAt p off .errname
    let q ← load .errname
    pure (dbusSessionMapError q n)

/-- What the message of `r` bytes at `p` is to the call. -/
def dbusSessionVerdict (uniq : Bytes) (serial wm pos r : Nat) (p : Bytes) : Decode Verdict := do
  dbusUnmarshalSetLimit r
  if ← dbusSessionMine uniq serial wm pos p then
    if dbusUnmarshalType p = dbusMarshalTypeReturn then pure .success
    else if dbusUnmarshalType p = dbusMarshalTypeError then do
      let rc ← dbusSessionErrorOf p
      pure (.failure rc)
    else pure .other
  else pure .other

end Decode

/-- The inner loop's end: the call is answered, or there is no message yet. -/
inductive Scan where
  | answered (rc : Int)
  | stopped (r : FrameStatus)
  deriving DecidableEq, Repr

def dbsScanRound (serial wm : Nat) : Unit → M (Unit ⊕ Scan) := fun _ => do
  let s ← frameNext
  match s with
  | .msg r => do
    let v ← decode fun w =>
      Decode.dbusSessionVerdict w.dbs.uniq serial wm (dbusFramePos w.fr) r (dbusFrameBase w.fr)
    let pos ← Prog.gets (dbusFramePos ·.fr)
    match v with
    | .success => do
      emit [.answered serial pos 0]
      pure (.inr (.answered 0))
    | .failure rc => do
      emit [.answered serial pos rc]
      frameAdvance r
      pure (.inr (.answered rc))
    | .other => do
      frameAdvance r
      pure (.inl ())
  | _ => pure (.inr (.stopped s))

/-- Read the messages buffered until one answers the call. -/
def dbsScan (serial wm : Nat) : M Scan :=
  Prog.loop (dbusFrameHave ·.fr) (dbsScanRound serial wm) ()

/-- Reads a call may make when the clock has failed. -/
def dbusSessionReadBackstop : Nat := 65536

/-- The receive of a round, and whether to go on. -/
def dbsReceive (fd : Int) (flags : Nat) (deadline : Int) (reads : Nat) : M (Nat ⊕ Int) := do
  let got ← dbsRecv fd flags
  if got = -4 then pure (.inl reads)
  else if got = dbusSessionEagain then
    if 0 < deadline then pure (.inl reads) else pure (.inr (-110))
  else if got < 0 then .inr <$> dbsIoFail got
  else pure (.inl reads)

def dbsAwaitRound (fd : Int) (serial wm : Nat) (deadline : Int) (reads : Nat) : M (Nat ⊕ Int) := do
  match ← dbsScan serial wm with
  | .answered rc => pure (.inr rc)
  | .stopped r => do
    let fault ← dbsFrameFault r
    if fault < 0 then pure (.inr fault)
    else if 0 < deadline then do
      match ← dbsWaitReadable fd deadline with
      | .timedOut => pure (.inr (-110))
      | .again => pure (.inl reads)
      | .failed e => .inr <$> dbsIoFail e
      | .ready => dbsReceive fd dbusSysMsgDontwait deadline reads
    else if dbusSessionReadBackstop < reads + 1 then pure (.inr (-110))
    else dbsReceive fd 0 deadline (reads + 1)

/-- Read until the reply whose REPLY_SERIAL is `serial`. -/
def dbsAwait (fd : Int) (serial wm : Nat) (deadline : Int) : M Int :=
  Prog.loop World.fuel (dbsAwaitRound fd serial wm deadline) 0

/-- Send whatever the marshaller has built, then read until its reply: 0 on a
METHOD_RETURN, which is left at the frame base, or a negative errno. -/
def dbusSessionCall (fd : Int) (serial : Nat) : M Int := do
  let m ← Prog.gets (·.dbm)
  let closed ← Prog.gets (·.dbs.closed)
  if m.bad then pure (-22)
  else if closed then pure (-107)
  else do
    let lost ← frameNext
    let lf ← dbsFrameFault lost
    if lf < 0 then pure lf
    else do
      let wm ← Prog.gets (dbusFrameReceived ·.fr)
      let t0 ← dbusSessionNowMs
      let timeout ← Prog.gets (·.dbs.timeoutMs)
      let deadline := if 0 ≤ t0 then int64 (t0 + timeout) else 0
      let n ← dbsWrite fd m.buf deadline
      if n = -110 then pure (-110)
      else if n < 0 then dbsIoFail n
      else dbsAwait fd serial wm deadline

/-- Consume the reply a call left at the frame base. -/
def dbusSessionDone : M Unit := do
  match ← frameNext with
  | .msg r => frameAdvance r
  | _ => pure ()

/-- Build a logind method call, up to the header fields every one has. -/
def dbusSessionBeginCall (path : Bytes) (plen : Int) (member : String) (onMgr : Bool)
    (serial : Nat) : Marshal :=
  let m := dbusMarshalBegin dbusMarshalTypeCall 0 serial
  let m := dbusMarshalFieldStr m dbusMarshalFPath 111 path plen
  let m := dbusMarshalFieldStr m dbusMarshalFMember 115 (lit member) (lit member).length
  let itf :=
    if onMgr then lit "org.freedesktop.login1.Manager" else lit "org.freedesktop.login1.Session"
  let m := dbusMarshalFieldStr m dbusMarshalFInterface 115 itf itf.length
  let dst := lit "org.freedesktop.login1"
  dbusMarshalFieldStr m dbusMarshalFDest 115 dst dst.length

/-- The message the marshaller holds now. -/
def setMarshal (m : Marshal) : M Unit := Prog.modify fun w => { w with dbm := m }

/-! ## The handshake -/

/-- Reads the SASL handshake may make when the clock has failed. -/
def dbusSessionSaslBackstop : Nat := 4096

/-- A descriptor received during the handshake belongs to no message. -/
def dbsCloseRx : M Unit := do
  let rx ← Prog.gets (·.rx)
  emit (rx.map Event.close)

def frameDrainLines : M AuthStatus := Prog.modifyGet fun w =>
  let (s, f, a) := dbusAuthDrainLines w.fr w.auth
  (s, { w with fr := f, auth := a })

def dbsSaslReceive (fd : Int) (space flags : Nat) (deadline : Int) (reads : Nat) :
    M (Nat ⊕ Int) := do
  let (got, d) ← dbusSysRecv fd space flags
  dbsCloseRx
  if got = -4 then pure (.inl reads)
  else if got = dbusSessionEagain then
    if 0 < deadline then pure (.inl reads) else pure (.inr (-110))
  else if got < 0 then pure (.inr got)
  else if got = 0 then pure (.inr (-104))
  else do
    frameCommit d
    match ← frameDrainLines with
    | .ok => pure (.inr 0)
    | .needMore => pure (.inl reads)
    | _ => pure (.inr (-13))

def dbsSaslRound (fd deadline : Int) (reads : Nat) : M (Nat ⊕ Int) := do
  let space ← Prog.gets (dbusFrameSpace ·.fr)
  if space = 0 then pure (.inr (-71))
  else if 0 < deadline then do
    match ← dbsWaitReadable fd deadline with
    | .timedOut => pure (.inr (-110))
    | .again => pure (.inl reads)
    | .failed e => pure (.inr e)
    | .ready => dbsSaslReceive fd space dbusSysMsgDontwait deadline reads
  else if dbusSessionSaslBackstop < reads + 1 then pure (.inr (-110))
  else dbsSaslReceive fd space 0 deadline (reads + 1)

/-- The SASL EXTERNAL exchange on a connected socket. -/
def dbusSessionSasl (fd : Int) : M Int := do
  if ← allocOnce .blob then
    let t0 ← dbusSessionNowMs
    let timeout ← Prog.gets (·.dbs.timeoutMs)
    let deadline := if 0 ≤ t0 then int64 (t0 + timeout) else 0
    let n ← dbsWrite fd dbusAuthBlob deadline
    if n < 0 then pure n
    else Prog.loop (·.k.size) (dbsSaslRound fd deadline) 0
  else pure (-12)

/-- The Hello request. -/
def dbsHelloCall (serial : Nat) : Marshal :=
  let path := lit "/org/freedesktop/DBus"
  let member := lit "Hello"
  let bus := lit "org.freedesktop.DBus"
  let m := dbusMarshalBegin dbusMarshalTypeCall 0 serial
  let m := dbusMarshalFieldStr m dbusMarshalFPath 111 path path.length
  let m := dbusMarshalFieldStr m dbusMarshalFMember 115 member member.length
  let m := dbusMarshalFieldStr m dbusMarshalFInterface 115 bus bus.length
  let m := dbusMarshalFieldStr m dbusMarshalFDest 115 bus bus.length
  (dbusMarshalFinish (dbusMarshalEndFields m)).2

/-- The unique name a Hello reply of `limit` bytes carries: an `s` body that
starts with a colon and has no NUL inside. -/
def dbsHelloName (limit : Nat) (p : Bytes) : Option (Bytes × Nat) :=
  match (dbusUnmarshalNextStr (dbusUnmarshalBodyBegin limit p)).1 with
  | .error _ => none
  | .ok (at_, n) =>
    if dbsBodySigIs limit p "s" && decide (2 ≤ n) && load8 p at_ == 58 &&
        dbuNoNul (p.drop at_) n then
      some (p.drop at_, n)
    else none

/-- The same over the decoder's state: the signature is asked first. -/
def Decode.dbsHelloName (hlen : Nat) (p : Bytes) : Decode (Option (Bytes × Nat)) := do
  dbusUnmarshalSetLimit hlen
  let ok ← dbsBodySigIs p "s"
  dbusUnmarshalBodyBegin p
  let n ← dbusUnmarshalNextStr .bodystr
  let q ← load .bodystr
  pure
    (if ok && decide (2 ≤ n) && load8 q 0 == 58 && dbuNoNul q n.toNat then some (q, n.toNat)
    else none)

/-- The length `dbus_frame_next` answered, 0 for a status. -/
def FrameStatus.len : FrameStatus → Nat
  | .msg n => n
  | _ => 0

def dbsHello (fd : Int) : M Int := do
  let serial ← dbusSessionNextSerial
  setMarshal (dbsHelloCall serial)
  let rc ← dbusSessionCall fd serial
  if rc < 0 then pure rc
  else do
    let hlen := (← frameNext).len
    let p ← Prog.gets (dbusFrameBase ·.fr)
    match ← decode fun _ => Decode.dbsHelloName hlen p with
    | none => do
      frameAdvance hlen
      pure (-71)
    | some (name, n) => do
      let su ← dbusSessionSetUnique name n
      frameAdvance hlen
      if su < 0 then pure su else pure 0

/-- Hello; a failure closes whatever descriptors it left queued. -/
def dbusSessionHello (fd : Int) : M Int := do
  let rc ← dbsHello fd
  if rc < 0 then do
    frameCloseFds
    pure rc
  else pure rc

def dbusSessionHandshake (fd : Int) : M Int := do
  let sr ← dbusSessionSasl fd
  if sr < 0 then pure sr else dbusSessionHello fd

end Samvada
