import Samvada.Session

/- The FFI-shaped half of dbus_session.cyr: opening the bus, the logind calls,
   pumping and closing. `bus` is the connected socket. A C string argument is
   its bytes, none for a null pointer; an out-parameter is part of the result,
   none where it is not written. -/
namespace Samvada
open Octets Resumable

/-- `dbus_socket_connect`: a close-on-exec socket above stdio, its timeouts armed. -/
def dbusSocketConnect : M Int := do
  let fd0 ← sysSocket
  if fd0 < 0 then pure fd0
  else do
    let fd ← dbusSocketAboveStdio fd0
    if fd < 0 then pure fd
    else do
      let rc ← sysConnect fd
      if rc < 0 then do
        sysClose fd
        pure rc
      else do
        emit [.setsockopt fd 20, .setsockopt fd 21]
        pure fd

def authReset : M Unit := Prog.modify fun w => { w with auth := {} }

/-- Connect, authenticate and say Hello: the socket, or a negative errno. -/
def dbusNativeOpenSystemBus : M (Int × Option Int) := do
  frameInit
  authReset
  dbusSessionReset
  if ← allocOnce .sa then
    let fd ← dbusSocketConnect
    if fd < 0 then pure (fd, none)
    else do
      let rc ← dbusSessionHandshake fd
      if rc < 0 then do
        sysClose fd
        pure (rc, none)
      else pure (0, some fd)
  else pure (-12, none)

/-! ## The logind calls -/

/-- What GetSessionByPID's request is, for any `pid`: its low 32 bits are written. -/
def dbsSessionPathCall (pid : Int) (serial : Nat) : Marshal :=
  let path := lit "/org/freedesktop/login1"
  let m := dbusSessionBeginCall path path.length "GetSessionByPID" true serial
  let m := dbusMarshalFieldSig m dbusMarshalFSignature (lit "u") 1
  let m := dbusMarshalBodyU32 (dbusMarshalEndFields m) pid
  (dbusMarshalFinish m).2

/-- The session path of a GetSessionByPID reply: an `o` body holding one. -/
def dbsSessionPath (limit : Nat) (p : Bytes) : Option (Bytes × Nat) :=
  match (dbusUnmarshalNextStr (dbusUnmarshalBodyBegin limit p)).1 with
  | .error _ => none
  | .ok (at_, n) =>
    if dbsBodySigIs limit p "o" && dbusUnmarshalPathOk (p.drop at_) n then some (p.drop at_, n)
    else none

/-- The same over the decoder's state. -/
def Decode.dbsSessionPath (limit : Nat) (p : Bytes) : Decode (Option (Bytes × Nat)) := do
  dbusUnmarshalSetLimit limit
  let sigOk ← dbsBodySigIs p "o"
  dbusUnmarshalBodyBegin p
  let n ← dbusUnmarshalNextStr .bodystr
  let q ← load .bodystr
  pure (if n < 0 then none
    else if sigOk && dbusUnmarshalPathOk q n then some (q, n.toNat) else none)

/-- The caller's session path, into the `out` bytes of a buffer (none: null). -/
def dbusNativeGetSessionPath (bus pid : Int) (out : Option Int) : M (Int × Option Bytes) :=
  match out with
  | none => pure (-22, none)
  | some outLen =>
    if outLen ≤ 0 then pure (-22, none)
    else do
      let serial ← dbusSessionNextSerial
      setMarshal (dbsSessionPathCall pid serial)
      let rc ← dbusSessionCall bus serial
      if rc < 0 then pure (rc, none)
      else do
        let p ← Prog.gets (dbusFrameBase ·.fr)
        let limit := (← frameNext).len
        match ← decode fun _ => Decode.dbsSessionPath limit p with
        | none => do
          dbusSessionDone
          pure (-71, none)
        | some (path, n) =>
          if outLen < n + 1 then do
            dbusSessionDone
            pure (-105, none)
          else do
            dbusSessionDone
            pure (0, some (loadN path 0 n ++ [0]))

def dbsTakeControlCall (sess : Bytes) (serial : Nat) : Marshal :=
  let m := dbusSessionBeginCall sess (strlen sess) "TakeControl" false serial
  let m := dbusMarshalFieldSig m dbusMarshalFSignature (lit "b") 1
  let m := dbusMarshalBodyBool (dbusMarshalEndFields m) 0
  (dbusMarshalFinish m).2

def dbsReleaseControlCall (sess : Bytes) (serial : Nat) : Marshal :=
  let m := dbusSessionBeginCall sess (strlen sess) "ReleaseControl" false serial
  (dbusMarshalFinish (dbusMarshalEndFields m)).2

/-- A call about one device. -/
def dbsDeviceCall (member : String) (sess : Bytes) (major minor : Int) (serial : Nat) : Marshal :=
  let m := dbusSessionBeginCall sess (strlen sess) member false serial
  let m := dbusMarshalFieldSig m dbusMarshalFSignature (lit "uu") 2
  let m := dbusMarshalEndFields m
  let m := dbusMarshalBodyU32 m major
  let m := dbusMarshalBodyU32 m minor
  (dbusMarshalFinish m).2

/-- Send a request and consume its reply: what the calls whose reply carries
nothing share. -/
def dbsCallAndDone (bus : Int) (request : Nat → Marshal) : M Int := do
  let serial ← dbusSessionNextSerial
  setMarshal (request serial)
  let rc ← dbusSessionCall bus serial
  if rc = 0 then do
    dbusSessionDone
    pure rc
  else pure rc

def dbusNativeTakeControl (bus : Int) (sess : Option Bytes) : M Int :=
  if dbusSessionSessOk sess then dbsCallAndDone bus (dbsTakeControlCall (sess.getD []))
  else pure (-22)

def dbusNativeReleaseControl (bus : Int) (sess : Option Bytes) : M Int :=
  if dbusSessionSessOk sess then dbsCallAndDone bus (dbsReleaseControlCall (sess.getD []))
  else pure (-22)

def dbusNativeReleaseDevice (bus : Int) (sess : Option Bytes) (major minor : Int) : M Int :=
  if dbusSessionSessOk sess then
    if dbusSessionDevnumOk major && dbusSessionDevnumOk minor then
      dbsCallAndDone bus (dbsDeviceCall "ReleaseDevice" (sess.getD []) major minor)
    else pure (-22)
  else pure (-22)

/-- Is this descriptor the character device asked for, open read-write? -/
def dbusSessionFdIsDevice (fd major minor : Int) : M Bool := do
  let ready ← Prog.gets fun w => decide (Scratch.stx ∈ w.scratch)
  if ready = false then pure false
  else do
    let fl ← sysGetfl fd
    if fl < 0 then pure false
    else if fl % 4 ≠ 2 then pure false
    else do
      let st ← sysStatx fd
      if st.rc < 0 then pure false
      else if st.mode / 4096 % 16 ≠ 2 then pure false
      else pure (decide ((st.rdevMajor : Int) = major) && decide ((st.rdevMinor : Int) = minor))

/-- What a TakeDevice reply says, given what arrived with it: the index of its
descriptor if the reply is the one logind sends, and the `inactive` it stores. -/
def dbsTakeReply (limit : Nat) (p : Bytes) (f : Frame) : Option Nat × Nat :=
  let sigOk := match dbusUnmarshalFindField limit p dbusMarshalFSignature with
    | .error _ => false
    | .ok (off, _) => match dbusUnmarshalSigAt limit p off with
      | .error _ => false
      | .ok (at_, n) => dbsNameIs (p.drop at_) n "hb"
  let declared := match dbusUnmarshalFindField limit p dbusMarshalFUnixfds with
    | .ok (off, _) => some (load32 p off)
    | .error .notfound => some 0
    | .error .malformed => none
  let (idx, b) := dbusUnmarshalNextFdIndex (dbusUnmarshalBodyBegin limit p)
  match idx, (dbusUnmarshalNextBool b).1 with
  | .ok i, .ok inactive =>
    (if sigOk && declared == some f.fdtot && !f.fdbad then some i else none, inactive)
  | .error _, .ok inactive => (none, inactive)
  | _, .error _ => (none, 0)

/-- Is a TakeDevice reply's signature `hb`? -/
def Decode.dbsTakeSig (p : Bytes) : Decode Bool := do
  match ← dbusUnmarshalFindField p dbusMarshalFSignature with
  | .error _ => pure false
  | .ok (off, _) => do
    let n ← dbusUnmarshalSigAt p off .bodysig
    let q ← load .bodysig
    pure (dbsNameIs q n "hb")

/-- The same over the decoder's state. -/
def Decode.dbsTakeReply (limit : Nat) (p : Bytes) (f : Frame) : Decode (Option Nat × Nat) := do
  dbusUnmarshalSetLimit limit
  let sigOk ← dbsTakeSig p
  let declared := match ← dbusUnmarshalFindField p dbusMarshalFUnixfds with
    | .ok (off, _) => some (load32 p off)
    | .error .notfound => some 0
    | .error .malformed => none
  dbusUnmarshalBodyBegin p
  let idx ← dbusUnmarshalNextFdIndex
  let inactive ← dbusUnmarshalNextBool
  pure (match idx, inactive with
    | .ok i, .ok inactive =>
      (if sigOk && declared == some f.fdtot && !f.fdbad then some i else none, inactive)
    | .error _, .ok inactive => (none, inactive)
    | _, .error _ => (none, 0))

/-- The descriptor handed out, or -9, with what is stored at `fd_out` and
`active_out` where they are written. -/
def dbusNativeTakeDevice (bus : Int) (sess : Option Bytes) (major minor : Int) :
    M (Int × Option (Int × Nat)) := do
  if ← allocOnce .stx then
    if dbusSessionSessOk sess = false then pure (-22, none)
    else if dbusSessionDevnumOk major = false then pure (-22, none)
    else if dbusSessionDevnumOk minor = false then pure (-22, none)
    else do
      let serial ← dbusSessionNextSerial
      setMarshal (dbsDeviceCall "TakeDevice" (sess.getD []) major minor serial)
      let rc ← dbusSessionCall bus serial
      if rc < 0 then pure (rc, none)
      else do
        let p ← Prog.gets (dbusFrameBase ·.fr)
        let r := (← frameNext).len
        let (index, inactive) ← decode fun w => Decode.dbsTakeReply r p w.fr
        let fd ← match index with
          | none => pure (-1)
          | some i => frameClaimFd i
        if 0 ≤ fd then do
          if ← dbusSessionFdIsDevice fd major minor then
            frameAdvance r
            emit [.handed fd]
            pure (0, some (fd, inactive))
          else
            sysClose fd
            frameAdvance r
            pure (-9, some (-1, inactive))
        else do
          frameAdvance r
          pure (-9, some (fd, inactive))
  else pure (-12, none)

/-! ## Pumping and closing -/

/-- The inner loop of a pump: consume what is buffered, up to 256 messages in
all, and say where it stopped. -/
def dbsDrainRound (drained : Nat) : M (Nat ⊕ (Nat × FrameStatus)) := do
  let s ← frameNext
  match s with
  | .msg r => do
    frameAdvance r
    if 256 ≤ drained + 1 then pure (.inr (drained + 1, s)) else pure (.inl (drained + 1))
  | _ => pure (.inr (drained, s))

def dbsDrain (drained : Nat) : M (Nat × FrameStatus) :=
  Prog.loop (dbusFrameHave ·.fr) dbsDrainRound drained

/-- A pump's result: events first, then the fault the framer stopped at, then
the receive's errno, then the closed state. -/
def dbsPumpResult (drained : Nat) (r : FrameStatus) (io : Int) : M Int :=
  if 0 < drained then pure drained
  else do
    let fault ← dbsFrameFault r
    if fault < 0 then pure fault
    else if io < 0 then pure io
    else do
      let closed ← Prog.gets (·.dbs.closed)
      if closed then pure (-104) else pure 0

/-- One round of a pump, from what was drained and the receives made so far. -/
def dbsPumpRound (bus : Int) (c : Nat × Nat) : M ((Nat × Nat) ⊕ Int) := do
  let (drained, r) ← dbsDrain c.1
  if 256 ≤ drained then pure (.inr drained)
  else if r = .needMore ∧ 2 < bus ∧ c.2 < 1024 then do
    let got ← dbsRecv bus dbusSysMsgDontwait
    if 0 ≤ got then pure (.inl (drained, c.2 + 1))
    else if got = dbusSessionEagain ∨ got = -4 then .inr <$> dbsPumpResult drained r 0
    else do
      let io ← dbsIoFail got
      .inr <$> dbsPumpResult drained r io
  else .inr <$> dbsPumpResult drained r 0

/-- Drain whatever is readable without blocking: how many messages went past,
or a negative errno. -/
def dbusNativePumpSignals (bus : Int) : M Int :=
  Prog.loop World.fuel (dbsPumpRound bus) (0, 0)

def dbusNativeCloseBus (bus : Int) : M Int := do
  frameCloseFds
  if 2 < bus then do
    sysClose bus
    pure 0
  else pure 0

end Samvada
