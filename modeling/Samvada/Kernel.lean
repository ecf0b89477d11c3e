import Samvada.Lib.Resumable
import Samvada.Auth
import Samvada.Marshal
import Samvada.Decoder

/- The state of the native modules, the kernel they run against, and the system
   calls (dbus_sys.cyr, and the calls of dbus_socket.cyr and dbus_session.cyr).
   The kernel is a script: what it will answer to each kind of call, in order,
   and the inbound byte stream its receives deliver pieces of. A call whose
   script is used up waits; the calls the kernel answers at once (fcntl, statx,
   socket and its options, the allocator) then fail instead. Every call is
   recorded with its answer, and so is what the session layer does with the
   framer, so a run's trace says in order what was sent, received, queued,
   closed and handed out. -/
namespace Samvada
open Octets Resumable

/-- clock_gettime's answer. -/
structure ClockAnswer where
  rc : Int := 0
  sec : Int := 0
  nsec : Int := 0
  deriving DecidableEq, Repr

/-- The reading in milliseconds, or clock_gettime's errno. -/
def ClockAnswer.ms (a : ClockAnswer) : Int := if a.rc < 0 then a.rc
else int64 (a.sec * 1000 + a.nsec.tdiv 1000000)

/-- A descriptor number, as the kernel installs it: a non-negative int. -/
abbrev FdNum := Fin 2147483648

instance fdNum_neZero : @NeZero Nat Zero.ofOfNat0 2147483648 := ⟨by decide⟩

/-- One control message of a receive: descriptors, a pidfd, or credentials. -/
inductive Cmsg where
  | rights (fds : List FdNum)
  | pidfd (fd : FdNum)
  | creds (data : Bytes)
  deriving DecidableEq, Repr

def Cmsg.type : Cmsg → Nat
  | .rights _ => 1
  | .creds _ => 2
  | .pidfd _ => 4

def Cmsg.data : Cmsg → Bytes
  | .rights fds => fds.flatMap fun fd => le32 fd.val
  | .creds data => data
  | .pidfd fd => le32 fd.val

def Cmsg.fds : Cmsg → List FdNum
  | .rights fds => fds
  | .creds _ => []
  | .pidfd fd => [fd]

/-- A control message as the kernel lays it out: a 16-byte header of level
SOL_SOCKET, the data, and padding to eight bytes. -/
def Cmsg.bytes (c : Cmsg) : Bytes :=
  let n := 16 + c.data.length
  le32 n ++ le32 (n / 4294967296) ++ le32 1 ++ le32 c.type ++ c.data ++ List.replicate
    (align n 8 - n) 0

/-- The ancillary data of a receive, no longer than the buffer it was given. -/
structure Ancillary where
  cmsgs : List Cmsg := []
  fits : (cmsgs.flatMap Cmsg.bytes).length ≤ 1032 := by decide
  deriving DecidableEq, Repr

/-- No ancillary data. -/
def Ancillary.none : Ancillary := {}

def Ancillary.bytes (a : Ancillary) : Bytes := a.cmsgs.flatMap Cmsg.bytes

/-- The descriptors a receive installs. -/
def Ancillary.fds (a : Ancillary) : List FdNum := a.cmsgs.flatMap Cmsg.fds

/-- recvmsg's answer: an errno, 0 at a close, or how many bytes at most; with
it the ancillary data, and whether that was truncated. -/
structure RecvAnswer where
  ret : Int
  anc : Ancillary := .none
  ctrunc : Bool := false
  deriving DecidableEq, Repr

/-- statx's answer, of the fields read. -/
structure StatxAnswer where
  rc : Int := 0
  mode : Nat := 0
  rdevMajor : Nat := 0
  rdevMinor : Nat := 0
  deriving DecidableEq, Repr

/-- What the kernel has yet to answer. -/
structure Kernel where
  /-- the inbound stream not yet received -/
  inbox : Bytes := []
  clock : List ClockAnswer := []
  poll : List Int := []
  send : List Int := []
  recv : List RecvAnswer := []
  fcntl : List Int := []
  statx : List StatxAnswer := []
  socket : List Int := []
  connect : List Int := []
  alloc : List Bool := []
  deriving DecidableEq, Repr

/-- The answers a run can still wait for. -/
def Kernel.size (k : Kernel) : Nat := k.clock.length + k.poll.length + k.send.length + k.recv.length

/-- What a run does, in order. -/
inductive Event where
  | clock (ms : Int)
  | poll (fd : Int) (forWrite : Bool) (ms : Int) (ready : Int)
  | send (fd : Int) (offered : Bytes) (flags : Nat) (n : Int)
  | recv (fd : Int) (want flags : Nat) (n : Int) (data : Bytes) (anc : Ancillary) (ctrunc : Bool)
  | dupfd (fd new : Int)
  | getfl (fd fl : Int)
  | statx (fd : Int) (a : StatxAnswer)
  | socket (fd : Int)
  | connect (fd rc : Int)
  | setsockopt (fd opt : Int)
  | close (fd : Int)
  /-- `dbus_frame_next` answered `r` and left the framer as `f` -/
  | next (r : FrameStatus) (f : Frame)
  /-- bytes `[pos, pos + n)` committed, with their descriptors after the move above stdio -/
  | received (pos n : Nat) (fds : List Int) (ctrunc : Bool)
  | queued (fd : Int)
  | claimed (fd : Int)
  | handed (fd : Int)
  /-- the consumer closed a descriptor it was handed -/
  | returned (fd : Int)
  /-- `n` bytes consumed at stream position `pos` -/
  | advanced (pos n : Nat)
  /-- the call with this serial ended on the reply at the head, at stream position `pos` -/
  | answered (serial pos : Nat) (rc : Int)
  deriving DecidableEq, Repr

/-- The file-scope state of dbus_session.cyr. -/
structure Session where
  serial : Nat := 0
  closed : Bool := false
  /-- `_dbs_uniq[0 .. _dbs_uniqn)` -/
  uniq : Bytes := []
  timeoutMs : Int := 25000
  clockFail : Int := 0
  deriving DecidableEq, Repr

/-- The scratch blocks allocated on first use whose failure the code answers. -/
inductive Scratch where
  | uniq
  | sa
  | blob
  | stx
  deriving DecidableEq, Repr

/-- Every module's state, the kernel, and the trace so far. -/
structure World where
  fr : Frame := {}
  dbm : Marshal := {}
  /-- the last receive's descriptors, and whether its set was truncated -/
  rx : List Int := []
  rxtrunc : Bool := false
  auth : Auth := {}
  dbs : Session := {}
  scratch : List Scratch := []
  /-- the decoder, as the last message left it -/
  dbu : Decoder := {}
  k : Kernel := {}
  trace : List Event := []

/-- A native function. -/
abbrev M := Prog World

def World.emit (w : World) (es : List Event) : World := { w with trace := w.trace ++ es }

def emit (es : List Event) : M Unit := Prog.modify (·.emit es)

/-- A function of the decoder, of what the world holds. -/
def decode {α : Type} (x : World → Decode α) : M α := Prog.modifyGet fun w =>
  let (a, d) := x w w.dbu
  (a, { w with dbu := d })

/-- The answers a run can still wait for, and the end of input still to be met. -/
def World.fuel (w : World) : Nat := w.k.size + if w.fr.eof then 0 else 1

/-! ## System calls -/

def sysClose (fd : Int) : M Unit := emit [.close fd]

/-- One reading of CLOCK_MONOTONIC, in milliseconds. -/
def sysClock : M Int := Prog.query fun w =>
  match w.k.clock with
  | [] => none
  | a :: rest => some (a.ms, { w with k := { w.k with clock := rest } }.emit [.clock a.ms])

/-- `fd_wait_ready`: positive when ready, 0 when `ms` passed, or an errno. -/
def sysPoll (fd : Int) (forWrite : Bool) (ms : Int) : M Int := Prog.query fun w =>
  match w.k.poll with
  | [] => none
  | a :: rest => some (a, { w with k := { w.k with poll := rest } }.emit [.poll fd forWrite ms a])

/-- sendto: how many of the offered bytes were accepted, never more than offered. -/
def sysSendto (fd : Int) (offered : Bytes) (flags : Nat) : M Int := Prog.query fun w =>
  match w.k.send with
  | [] => none
  | a :: rest =>
    let n := min a offered.length
    some (n, { w with k := { w.k with send := rest } }.emit [.send fd offered flags n])

/-- recvmsg: a piece of the inbound stream, at most `want` bytes, or an errno, or
0; and the ancillary data. -/
def sysRecvmsg (fd : Int) (want flags : Nat) : M (Int × Bytes × Bytes × Bool) := Prog.query fun w =>
  match w.k.recv with
  | [] => none
  | a :: rest =>
    if a.ret ≤ 0 then
      some ((a.ret, [], a.anc.bytes, a.ctrunc), { w with k := { w.k with recv := rest } }.emit
        [.recv fd want flags a.ret [] a.anc a.ctrunc])
    else if w.k.inbox = [] then none
    else
      let d := w.k.inbox.take (min a.ret.toNat want)
      some ((d.length, d, a.anc.bytes, a.ctrunc),
        { w with
          k := { w.k with recv := rest, inbox := w.k.inbox.drop (min a.ret.toNat want) } }.emit
          [.recv fd want flags d.length d a.anc a.ctrunc])

/-- fcntl(F_DUPFD_CLOEXEC, 3). -/
def sysDupfd (fd : Int) : M Int := Prog.modifyGet fun w =>
  let a := w.k.fcntl.headD (-9)
  (a, { w with k := { w.k with fcntl := w.k.fcntl.tail } }.emit [.dupfd fd a])

/-- fcntl(F_GETFL). -/
def sysGetfl (fd : Int) : M Int := Prog.modifyGet fun w =>
  let a := w.k.fcntl.headD (-9)
  (a, { w with k := { w.k with fcntl := w.k.fcntl.tail } }.emit [.getfl fd a])

def sysStatx (fd : Int) : M StatxAnswer := Prog.modifyGet fun w =>
  let a := w.k.statx.headD { rc := -9 }
  (a, { w with k := { w.k with statx := w.k.statx.tail } }.emit [.statx fd a])

def sysSocket : M Int := Prog.modifyGet fun w =>
  let a := w.k.socket.headD (-24)
  (a, { w with k := { w.k with socket := w.k.socket.tail } }.emit [.socket a])

def sysConnect (fd : Int) : M Int := Prog.modifyGet fun w =>
  let a := w.k.connect.headD (-111)
  (a, { w with k := { w.k with connect := w.k.connect.tail } }.emit [.connect fd a])

/-- Allocate a scratch block on first use; may the caller go on? -/
def allocOnce (s : Scratch) : M Bool := Prog.modifyGet fun w =>
  if s ∈ w.scratch then (true, w)
  else if w.k.alloc.headD false then
    (true, { w with scratch := s :: w.scratch, k := { w.k with alloc := w.k.alloc.tail } })
  else (false, { w with k := { w.k with alloc := w.k.alloc.tail } })

/-! ## dbus_sys.cyr: one receive and its descriptors -/

def dbusSysCmsghdrSize : Nat := 16
def dbusSysSolSocket : Nat := 1
def dbusSysScmRights : Nat := 1
def dbusSysScmPidfd : Nat := 4
def dbusSysMsgDontwait : Nat := 64
def dbusSysFdMax : Nat := 253
def dbusSysCtrlSize : Nat := 1032

def load64 (p : Bytes) (i : Nat) : Nat := load32 p i + 4294967296 * load32 p (i + 4)

/-- The descriptors the control buffer names from `at_` on, in order, each with
whether it is a right (collected) or a pidfd (closed). `n` bounds the headers. -/
def dbusSysCmsgs (ctrl : Bytes) : Nat → Nat → List (Bool × Int)
  | 0, _ => []
  | n + 1, at_ =>
    if ctrl.length < at_ + dbusSysCmsghdrSize then []
    else
      let clen := load64 ctrl at_
      if clen < dbusSysCmsghdrSize ∨ ctrl.length - at_ < clen then []
      else
        let level := load32 ctrl (at_ + 8)
        let ctype := load32 ctrl (at_ + 12)
        let words := (List.range ((clen - 16) / 4)).map fun i => load32 ctrl (at_ + 16 + 4 * i)
        let fds := (words.filter (· < 2147483648)).map Int.ofNat
        let here :=
          if level = dbusSysSolSocket ∧ ctype = dbusSysScmRights then fds.map (true, ·)
          else if level = dbusSysSolSocket ∧ ctype = dbusSysScmPidfd then fds.map (false, ·)
          else []
        here ++ dbusSysCmsgs ctrl n (at_ + align clen 8)

/-- `_dbus_rx_add`, and the close of a pidfd: the array so far and what was closed. -/
def dbusRxAdd (s : List Int × List Int) (e : Bool × Int) : List Int × List Int :=
  if e.1 ∧ s.1.length < dbusSysFdMax then (s.1 ++ [e.2], s.2) else (s.1, s.2 ++ [e.2])

/-- Collect every SCM_RIGHTS descriptor of a control buffer: the receive array,
and the descriptors closed because it was full or because they were pidfds. -/
def dbusSysParseRights (ctrl : Bytes) : List Int × List Int :=
  (dbusSysCmsgs ctrl (ctrl.length + 1) 0).foldl dbusRxAdd ([], [])

/-- Receive up to `want` bytes with every descriptor that accompanies them. -/
def dbusSysRecv (fd : Int) (want flags : Nat) : M (Int × Bytes) := do
  Prog.modify fun w => { w with rx := [], rxtrunc := false }
  let (n, d, ctrl, ctrunc) ← sysRecvmsg fd want flags
  if n < 0 then pure (n, d)
  else
    let (rx, closed) := dbusSysParseRights (ctrl.take dbusSysCtrlSize)
    Prog.modify fun w => { w with rx := rx, rxtrunc := ctrunc }.emit (closed.map Event.close)
    pure (n, d)

/-! ## The framer, seen by the session layer -/

def frameNext : M FrameStatus := Prog.modifyGet fun w =>
  let (r, f, closed) := dbusFrameNext w.fr
  (r, { w with fr := f }.emit (closed.map Event.close ++ [Event.next r f]))

def frameAdvance (n : Nat) : M Unit := Prog.modify fun w =>
  let (f, closed) := dbusFrameAdvance w.fr n
  { w with fr := f }.emit (.advanced (dbusFramePos w.fr) n :: closed.map Event.close)

def frameCloseFds : M Unit := Prog.modify fun w =>
  let (f, closed) := dbusFrameCloseFds w.fr
  { w with fr := f }.emit (closed.map Event.close)

def frameInit : M Unit := Prog.modify fun w =>
  let (f, closed) := dbusFrameInit w.fr
  { w with fr := f }.emit (closed.map Event.close)

def framePushFd (fd : Int) : M Unit := Prog.modify fun w =>
  let (f, closed) := dbusFramePushFd w.fr fd
  { w with fr := f }.emit
    ((if w.fr.fdq.length < f.fdq.length then [Event.queued fd] else []) ++ closed.map Event.close)

def frameClaimFd (i : Int) : M Int := Prog.modifyGet fun w =>
  let (fd, f) := dbusFrameClaimFd w.fr i
  (fd, { w with fr := f }.emit (if 0 ≤ fd then [Event.claimed fd] else []))

end Samvada
