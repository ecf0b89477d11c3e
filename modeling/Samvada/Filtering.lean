import Samvada.Mailbox

/- Calls that nothing cuts short. The kernel may interrupt a call, answer that it
   would block, wake it with nothing to read and bring the stream in any pieces,
   so long as its clock stays before the deadline. Such a call is the filter over
   the messages of the stream: it answers the first of ours, or still waits for
   one, unless the stream itself ends or cannot be read on. -/
namespace Samvada
open Octets Framing Resumable Resumable.Prog

/-! ## The kernel -/

/-- Answers that cut no call short before `deadline`. -/
structure Lenient (deadline : Int) (k : Kernel) : Prop where
  clock : ∀ c ∈ k.clock, 0 ≤ c.ms ∧ c.ms < deadline
  poll : ∀ n ∈ k.poll, 0 < n ∨ n = -4
  send : ∀ n ∈ k.send, 0 < n ∨ n = -4 ∨ n = dbusSessionEagain
  recv : ∀ a ∈ k.recv, 0 ≤ a.ret ∨ a.ret = -4 ∨ a.ret = dbusSessionEagain

/-- The peer closed the stream: before `w₀`, or with the last receive up to `w`. -/
def PeerClosed (w₀ w : World) : Prop :=
  w₀.fr.eof = true ∨ ∃ used a, w₀.k.recv = used ++ a :: w.k.recv ∧ a.ret = 0

/-- A call that began in `w₀` is in `w`, before its deadline. -/
structure Underway (w₀ : World) (deadline : Int) (w : World) : Prop where
  works : w.dbs.clockFail = 0
  lenient : Lenient deadline w.k
  used : ∃ used, w₀.k.recv = used ++ w.k.recv
  closed : w.fr.eof = true → PeerClosed w₀ w

/-- What `Unhurried` and `Underway` are about. -/
def World.answers (w : World) :
    List ClockAnswer × List Int × List Int × List RecvAnswer × Int × Int × Bool :=
  (w.k.clock, w.k.poll, w.k.send, w.k.recv, w.dbs.clockFail, w.dbs.timeoutMs, w.fr.eof)

section
variable {w₀ : World} {deadline : Int}

theorem Underway.congr {w w' : World} (h : Underway w₀ deadline w) (e : w'.answers = w.answers) :
    Underway w₀ deadline w' := by
  simp only [World.answers, Prod.mk.injEq] at e
  obtain ⟨clock, poll, send, recv, fail, -, eof⟩ := e
  refine ⟨fail.trans h.works, ⟨?_, ?_, ?_, ?_⟩, ?_, fun he => ?_⟩
  · rw [clock]
    exact h.lenient.clock
  · rw [poll]
    exact h.lenient.poll
  · rw [send]
    exact h.lenient.send
  · rw [recv]
    exact h.lenient.recv
  · rw [recv]
    exact h.used
  · have closed := h.closed (eof.symm.trans he)
    rwa [PeerClosed, ← recv] at closed

/-- What leaves the answers alone keeps a call under way. -/
theorem Underway.kept {α : Type} {x : M α} (h : Fixes World.answers x) :
    Spec (Underway w₀ deadline) x (fun _ => Underway w₀ deadline) fun _ => True :=
  (h.keeps fun _ _ e way => way.congr e).waits fun _ _ => trivial

/-! ## One answer of the kernel -/

end

/-! ## The filter -/

section
variable {uniq : Bytes} {serial wm : Nat} {ms : List (Nat × Bytes)} {w₀ : World} {deadline : Int}

end

/-! ## The call -/

end Samvada
