import Samvada.Logind
import Samvada.Reconnect
import Samvada.Wire

/- What samvada remembers of session control. Its connection to logind is a line that can
   go down: latched closed, or with an inbound stream that can no longer be framed. A call
   on a line that stays up ends as `Fate` says, and the line keeps a record of which call
   ended how. Where no TakeControl that was written ends unanswered with another errno than
   the deadline's, and no ReleaseControl ends with NotInControl's errno without having been
   written, a control flag that is down means that logind does not have samvada as its
   controller, or has its ReleaseControl still to process. -/
namespace Samvada
open Octets Resumable Resumable.Prog

/-! ## The line -/

/-- logind, the line to it, and what becomes of the calls to come. -/
structure Line where
  peer : Peer := {}
  /-- latched closed, or its stream can no longer be framed -/
  down : Bool := false
  /-- for each call to come, whether it takes the line down: with which errno, and was
  its request written? -/
  cuts : List (Option (Bool × Nat)) := []
  /-- the calls made on a line that stayed up, and how each ended -/
  made : List (Request × Fate) := []

namespace Line

/-- What goes on at logind's end alone. -/
def atPeer {α : Type} (x : Prog Peer α) : Prog Line α := fun s =>
  match x s.peer with
  | .done a p => .done a { s with peer := p }
  | .waiting p => .waiting { s with peer := p }

/-- A call while the line is down: nothing is written. -/
def dead : Prog Line Int := Prog.modifyGet fun s =>
  (-((((s.cuts.headD none).getD (false, 106)).2 : Int) + 1), { s with cuts := s.cuts.tail })

/-- A call that takes the line down. -/
def cut (r : Request) (written : Bool) (errno : Nat) : Prog Line Int := Prog.modifyGet fun s =>
  (-((errno : Int) + 1),
    { s with
      cuts := s.cuts.tail
      down := true
      peer := if written then { s.peer with backlog := s.peer.backlog ++ [r] } else s.peer })

/-- A call on a line that stays up. -/
def through (r : Request) : Prog Line Int := do
  Prog.modify fun s =>
    { s with
      cuts := s.cuts.tail
      made := s.made ++ [(r, (s.peer.turns.headD {}).fate)] }
  atPeer (Peer.call r)

def call (r : Request) : Prog Line Int := do
  if ← Prog.gets Line.down then dead
  else match ← Prog.gets fun s => s.cuts.headD none with
    | some (written, errno) => cut r written errno
    | none => through r

/-- A TakeDevice call: a descriptor with success. -/
def takeDevice (d : Device) : Prog Line (Int × Option Int × Option Int) := do
  let rc ← call (.takeDevice d)
  let fd ← Prog.gets fun s => s.peer.fd
  pure (if rc = 0 then (0, some (fd.val : Int), some 0) else (rc, none, none))

/-- A new connection is a new line. -/
def openSystemBus : Prog Line (Int × Option Int) := do
  let (rc, bus) ← atPeer Peer.openSystemBus
  if rc < 0 then pure (rc, none)
  else do
    Prog.modify fun s => { s with down := false }
    pure (rc, bus)

/-- The session path, where the call for it succeeds. -/
def getSessionPath : Prog Line (Int × Option Bytes) := do
  let rc ← atPeer Peer.result
  pure (rc, if rc < 0 then none else some (lit "/org/freedesktop/login1/session/_31"))

end Line

/-- A backend with such a line to logind. -/
def lineTable : Table Line where
  kind := samvadaBackendKindPureCyrius
  openSystemBus := some Line.openSystemBus
  getSessionPath := some fun _ _ _ => Line.getSessionPath
  takeDevice := some fun _ _ major minor => Line.takeDevice (major, minor)
  releaseDevice := some fun _ _ major minor => Line.call (.releaseDevice (major, minor))
  pumpSignals := some fun _ => Line.atPeer Peer.result
  closeBus := some fun _ => Line.atPeer Peer.closeBus
  takeControl := some fun _ _ => Line.call .takeControl
  releaseControl := some fun _ _ => Line.call .releaseControl

/-- An error of logind's own maps to none of the errnos that mean something to the control
flag, and an errno that says the connection is gone takes the line down. -/
def Fate.Plain : Fate → Prop
  | .denied errno => errno + 1 ≠ 22 ∧ errno + 1 ≠ 104 ∧ errno + 1 ≠ 107
  | .late errno => errno + 1 ≠ 104 ∧ errno + 1 ≠ 107
  | .unsent errno => errno + 1 ≠ 104 ∧ errno + 1 ≠ 107
  | _ => True

/-- A TakeControl that was written and not answered ended at the deadline, and a
ReleaseControl that was not written did not end with NotInControl's errno. -/
def EndsWell : Request → Fate → Prop
  | .takeControl, .late errno => errno + 1 = 110
  | .releaseControl, .unsent errno => errno + 1 ≠ 22
  | _, _ => True

instance (f : Fate) : Decidable f.Plain := by
  cases f <;> unfold Fate.Plain <;> infer_instance

instance (r : Request) (f : Fate) : Decidable (EndsWell r f) := by
  cases r <;> cases f <;> unfold EndsWell <;> infer_instance

/-! ## Whether logind will have samvada as its controller -/

/-- The controller bit after a request. -/
def Request.control (c : Bool) : Request → Bool
  | .takeControl => true
  | .releaseControl => false
  | _ => c

namespace Peer

end Peer

/-! ## Calls over the line -/

namespace Line

/-- Every call on the line so far ended plainly and well. -/
def Well (s : Line) : Prop := ∀ c ∈ s.made, c.2.Plain ∧ EndsWell c.1 c.2

/-- On a line that is up and went well, logind will not have samvada as its controller. -/
def Free (s : Line) : Prop := s.Well → s.down = false → s.peer.settled.controller = false

/-- What went well before the call. -/
theorem Well.before {s s' : Line} {c : Request × Fate} (h : s'.Well)
    (made : s'.made = s.made ++ [c]) : s.Well ∧ c.2.Plain ∧ EndsWell c.1 c.2 := by
  refine ⟨fun x hx => h x ?_, h c ?_⟩
  · rw [made]
    exact List.mem_append_left _ hx
  · rw [made]
    exact List.mem_append_right _ List.mem_cons_self

end Line

/-! ## The API over the line -/

/-- The control flag does not forget: while it is down, logind will not have samvada as its
controller. -/
structure Mindful (h : Host Line) : Prop where
  table : h.pub.table = some lineTable
  free : h.pub.control = .no → h.back.Free

section
variable {α : Type}

theorem Mindful.of_pub {h : Host Line} {p : Public Line} (hm : Mindful h)
    (table : p.table = h.pub.table) (control : p.control = .no → h.pub.control = .no) :
    Mindful { h with pub := p } :=
  ⟨table.trans hm.table, fun no => hm.free (control no)⟩

end

end Samvada
