import Samvada.Requests
import Samvada.Counting

/- What a run puts on the wire, and what a connection does once it is dead. The
   requests sent are whole and in the order of the operations that asked; only
   the last one can be torn, and then the connection is latched closed or the
   write is still waiting. A connection latched closed stays so: a call answers
   at once and touches nothing, and a pump always has something to report. -/
namespace Samvada
open Octets Framing Resumable Resumable.Prog Relation

/-! ## What a move keeps -/

/-- A move takes no serial and opens nothing. -/
theorem Step.session {s : Nat} {w w' : World} (h : Step s w w') :
    w'.dbs.serial = w.dbs.serial ∧ (w.dbs.closed = true → w'.dbs.closed = true) := by
  cases h with
  | quiet hq => exact ⟨hq.serial, fun h => hq.closed.trans h⟩
  | lost => exact ⟨rfl, fun _ => rfl⟩
  | recvNone anc trunc hn hfr hdbm hdbs hin ht =>
    rw [hdbs]
    exact ⟨rfl, id⟩
  | receive fd want flags trunc rest hd hwithin hroom hin hq hfr hdbm hdbs ht =>
    rw [hdbs]
    exact ⟨rfl, id⟩
  | take ok rest hc h0 hq he =>
    rw [he]
    exact ⟨hq.serial, fun h => hq.closed.trans h⟩
  | _ => exact ⟨rfl, id⟩

theorem moves_session {s : Nat} {w w' : World} (h : ReflTransGen (Step s) w w') :
    w'.dbs.serial = w.dbs.serial ∧ (w.dbs.closed = true → w'.dbs.closed = true) := by
  induction h with
  | refl => exact ⟨rfl, id⟩
  | tail _ last ih =>
    obtain ⟨serial, closed⟩ := last.session
    exact ⟨serial.trans ih.1, fun h => closed (ih.2 h)⟩

/-- Moves that end on an open connection began on one. -/
theorem moves_open {s : Nat} {w w' : World} (h : ReflTransGen (Step s) w w')
    (ho : w'.dbs.closed = false) : w.dbs.closed = false := by
  by_contra hc
  have := (moves_session h).2 (by simpa using hc)
  rw [ho] at this
  cases this

/-! ## Whole requests, in order -/

/-- A request, and the serial it goes under. -/
structure Asked where
  op : BusOp
  serial : Nat

def Asked.bytes (a : Asked) : Bytes := (a.op.request a.serial).buf

/-- Requests of operations of `past`, in their order, each one whole message. -/
structure InOrder (past : List BusOp) (asked : List Asked) : Prop where
  sub : (asked.map Asked.op).Sublist past
  whole : ∀ a ∈ asked, Whole a.op a.serial a.bytes

/-- `out` is whole requests of operations of `past`, and then perhaps a proper
beginning of one more, which leaves things `shut`. -/
inductive Wired (past : List BusOp) (shut : Prop) : Bytes → Prop where
  | whole (asked : List Asked) (h : InOrder past asked) :
      Wired past shut (asked.flatMap Asked.bytes)
  | torn (asked : List Asked) (last : Asked) (n : Nat) (h : InOrder past (asked ++ [last]))
      (h0 : 0 < n)
    (hn : n < last.bytes.length) (hs : shut) :
    Wired past shut (asked.flatMap Asked.bytes ++ last.bytes.take n)

theorem InOrder.mono {past past' : List BusOp} {asked : List Asked} (h : InOrder past asked)
    (hp : past.Sublist past') : InOrder past' asked := ⟨h.sub.trans hp, h.whole⟩

theorem InOrder.snoc {past : List BusOp} {asked : List Asked} {a : Asked} (h : InOrder past asked)
    (ha : Whole a.op a.serial a.bytes) : InOrder (past ++ [a.op]) (asked ++ [a]) where
  sub := by
    rw [List.map_append]
    exact h.sub.append (List.Sublist.refl _)
  whole b hb := by
    rcases List.mem_append.mp hb with hb | hb
    · exact h.whole b hb
    · rw [List.mem_singleton.mp hb]
      exact ha

theorem Wired.mono {past past' : List BusOp} {shut shut' : Prop} {out : Bytes}
    (h : Wired past shut out) (hp : past.Sublist past') (hs : shut → shut') :
    Wired past' shut' out := by
  cases h with
  | whole asked h => exact .whole asked (h.mono hp)
  | torn asked last n h h0 hn hc => exact .torn asked last n (h.mono hp) h0 hn (hs hc)

/-- Nothing is torn where nothing is shut. -/
theorem Wired.asked {past : List BusOp} {shut : Prop} {out : Bytes} (h : Wired past shut out)
    (hs : ¬ shut) : ∃ asked, InOrder past asked ∧ out = asked.flatMap Asked.bytes := by
  cases h with
  | whole asked h => exact ⟨asked, h, rfl⟩
  | torn asked last n h h0 hn hc => exact absurd hc hs

/-- One more request went out, `n` bytes of it. -/
theorem Wired.sent {past : List BusOp} {asked : List Asked} {a : Asked} {shut : Prop} {n : Nat}
    (h : InOrder past asked)
    (ha : Whole a.op a.serial a.bytes) (hn : n ≤ a.bytes.length)
    (hs : 0 < n → n < a.bytes.length → shut) : Wired (past ++ [a.op]) shut
    (asked.flatMap Asked.bytes ++ a.bytes.take n) := by
  by_cases h0 : n = 0
  · rw [h0, List.take_zero, List.append_nil]
    exact .whole asked (h.mono (List.sublist_append_left _ _))
  · by_cases hl : n < a.bytes.length
    · exact .torn asked a n (h.snoc ha) (by omega) hl (hs (by omega) hl)
    · have e : asked.flatMap Asked.bytes ++ a.bytes.take n = (asked ++ [a]).flatMap
        Asked.bytes := by
        rw [List.take_of_length_le (by omega), List.flatMap_append, List.flatMap_singleton]
      rw [e]
      exact .whole _ (h.snoc ha)

namespace BusOp

/-- Any operation but a call of a message the caller built. -/
def native : BusOp → Bool
  | call _ _ => false
  | _ => true

/-- Is it a native operation whose session string fits in memory? -/
def usable (op : BusOp) : Bool := op.native && op.inMemory

/-- What has a request that is not poisoned asks. -/
theorem asks_of_request {op : BusOp} {s : Nat} (hn : op.native = true)
    (hb : (op.request s).bad = false) : op.asks = true := by
  cases op with
  | call m s => cases hn
  | done => cases hb
  | pump => cases hb
  | _ => rfl

theorem serial_native {op : BusOp} (hn : op.native = true) (w : World) :
    op.serial w = dbusSessionWrapSerial (w.dbs.serial + 1) := by
  cases op with
  | call m s => cases hn
  | _ => rfl

end BusOp

/-- The request of a usable operation that is not poisoned is whole. -/
theorem usable_whole {op : BusOp} (hu : op.usable = true) (ok : op.accepts = true) (w : World)
    (hb : (op.request (op.serial w)).bad = false) :
    Whole op (op.serial w) (op.request (op.serial w)).buf := by
  obtain ⟨hn, hm⟩ := (Bool.and_eq_true _ _).mp hu
  obtain ⟨h0, hlt⟩ := wrapSerial_range (w.dbs.serial + 1)
  rw [← BusOp.serial_native hn] at h0 hlt
  exact request_whole (BusOp.asks_of_request hn hb) ok (BusOp.path_fits hm) h0 hlt hb

/-! ## A run's output -/

/-- What went out since `w₀` is wired, if every operation so far is usable; `shut`
is read off the state. -/
def WiredSince (w₀ : World) (shut : World → Prop) (past : List BusOp) (w : World) : Prop :=
  (∀ op ∈ past, op.usable = true) → ∃ es, w.trace = w₀.trace ++ es ∧ Wired past (shut w) (wire es)

/-- The connection is latched closed. -/
def Latched (w : World) : Prop := w.dbs.closed = true

section
variable {w₀ w w₁ w' : World} {past : List BusOp} {op : BusOp} {s : Nat} {m : Marshal}

/-- A run that moved on without sending. -/
theorem WiredSince.quiet {es : List Event} {shut shut' : World → Prop}
    (h : WiredSince w₀ shut past w) (ht : w'.trace = w.trace ++ es) (hw : wire es = [])
    (hs : shut w → shut' w') : WiredSince w₀ shut' (past ++ [op]) w' := by
  intro hu
  obtain ⟨es₀, ht₀, hw₀⟩ := h fun o ho => hu o (List.mem_append_left _ ho)
  refine ⟨es₀ ++ es, by rw [ht, ht₀, List.append_assoc], ?_⟩
  rw [wire_append, hw, List.append_nil]
  exact hw₀.mono (List.sublist_append_left _ _) hs

theorem WiredSince.moves {shut' : World → Prop} (h : WiredSince w₀ Latched past w)
    (hm : ReflTransGen (Step s) w w') (hs : Latched w' → shut' w') :
    WiredSince w₀ shut' (past ++ [op]) w' := by
  obtain ⟨es, ht, hw⟩ := moves_wire hm
  exact h.quiet ht hw fun hc => hs ((moves_session hm).2 hc)

/-- `n` bytes of the request of `op` went out from `w₁`, on an open connection. -/
theorem WiredSince.sent {shut' : World → Prop} {es es₁ : List Event} {n : Nat}
    (h : WiredSince w₀ Latched past w) (ok : op.accepts = true) (ht : w₁.trace = w.trace ++ es)
    (hw : wire es = []) (ho : w.dbs.closed = false) (hb : (op.request (op.serial w)).bad = false)
    (hs : Sent (op.request (op.serial w)).buf n w₁ w' es₁)
    (hc : 0 < n → n < (op.request (op.serial w)).buf.length → shut' w') :
    WiredSince w₀ shut' (past ++ [op]) w' := by
  intro hu
  obtain ⟨es₀, ht₀, hw₀⟩ := h fun o ho => hu o (List.mem_append_left _ ho)
  have open_w : ¬ Latched w := fun hl => by
    rw [Latched, ho] at hl
    cases hl
  obtain ⟨asked, inOrder, hout⟩ := hw₀.asked open_w
  have whole := usable_whole (hu op (List.mem_append_right _ (List.mem_singleton.mpr rfl))) ok w hb
  refine ⟨es₀ ++ (es ++ es₁), by rw [hs.trace, ht, ht₀, List.append_assoc, List.append_assoc], ?_⟩
  rw [wire_append, wire_append, hw, List.nil_append, hs.wire, hout]
  exact Wired.sent (a := ⟨op, op.serial w⟩) inOrder whole hs.le hc

/-- An operation that asked: its request is whole, or torn and the connection closed. -/
theorem WiredSince.calls {w₂ : World} {es : List Event} (h : WiredSince w₀ Latched past w)
    (ok : op.accepts = true) (ht : w₁.trace = w.trace ++ es) (hw : wire es = [])
    (hcl : w₁.dbs.closed = w.dbs.closed) (hc : Calls s (op.request (op.serial w)) w₁ w₂) :
    WiredSince w₀ Latched (past ++ [op]) w₂ := by
  cases hc with
  | unsent hm =>
    obtain ⟨es', ht', hw'⟩ := moves_wire hm
    have on : w₂.trace = w.trace ++ (es ++ es') := by rw [ht', ht, List.append_assoc]
    refine h.quiet on (by rw [wire_append, hw, hw', List.nil_append]) fun hl =>
      (moves_session hm).2 ?_
    rw [hcl]
    exact hl
  | @sent u v rc before hbad hopen hwrote after =>
    obtain ⟨es', ht', hw'⟩ := moves_wire before
    have ho : w.dbs.closed = false := hcl ▸ moves_open before hopen
    have htᵤ : u.trace = w.trace ++ (es ++ es') := by rw [ht', ht, List.append_assoc]
    have hwᵤ : wire (es ++ es') = [] := by rw [wire_append, hw, hw', List.nil_append]
    -- the moves after the write send nothing more
    have on {v' : World} (hv : WiredSince w₀ Latched (past ++ [op]) v')
      (hm : ReflTransGen (Step s) v' w₂) :
        WiredSince w₀ Latched (past ++ [op]) w₂ := by
      intro hu
      obtain ⟨es₀, ht₀, hw₀⟩ := hv hu
      obtain ⟨es₁, ht₁, hw₁⟩ := moves_wire hm
      refine ⟨es₀ ++ es₁, by rw [ht₁, ht₀, List.append_assoc], ?_⟩
      rw [wire_append, hw₁, List.append_nil]
      exact hw₀.mono (List.Sublist.refl _) (moves_session hm).2
    cases hwrote with
    | all hs =>
      exact on (h.sent ok htᵤ hwᵤ ho hbad hs fun _ hlt => absurd hlt (Nat.lt_irrefl _)) after
    | @stopped v es₁ n rc hs hlt =>
      refine on ?_ after
      have sent : WiredSince w₀ (fun _ => 0 < n) (past ++ [op]) v :=
        h.sent ok htᵤ hwᵤ ho hbad hs fun h0 _ => h0
      intro hu
      obtain ⟨es₂, ht₂, hw₂⟩ := sent hu
      refine ⟨es₂, ht₂, hw₂.mono (List.Sublist.refl _) fun h0 => ?_⟩
      show (v.dbs.closed || decide (0 < n)) = true
      rw [decide_eq_true h0, Bool.or_true]

end

/-- Taking the serial and building the request. -/
theorem Unmoved.asking {w v : World} {es : List Event} (h : Unmoved w v es) (s : Nat)
    (m : Marshal) :
    (v.asking s m).trace = w.trace ++ es ∧ wire es = [] ∧
    (v.asking s m).dbs.closed = w.dbs.closed :=
  ⟨h.trace, wire_quiet h.quiet, h.closed⟩

/-- **An operation's output**, done or waiting. -/
theorem wired_ran {w₀ w w' : World} {past : List BusOp} {op : BusOp}
    (h : WiredSince w₀ Latched past w) (hr : Ran op (op.serial w) w w') :
    WiredSince w₀ Latched (past ++ [op]) w' := by
  cases hr with
  | moved hm => exact h.moves hm id
  | asked ok hq hc =>
    obtain ⟨ht, hw, hcl⟩ := hq.asking (op.serial w) (op.request (op.serial w))
    exact h.calls ok ht hw hcl hc
  | @called m hop hc =>
    intro hu
    have := hu op (List.mem_append_right _ (List.mem_singleton.mpr rfl))
    rw [hop] at this
    cases this

theorem wired_ranPart {w₀ w w' : World} {past : List BusOp} {op : BusOp}
    (h : WiredSince w₀ Latched past w) (hr : RanPart op (op.serial w) w w') :
    WiredSince w₀ (fun _ => True) (past ++ [op]) w' := by
  have part {past' : List BusOp} {v : World} (hv : WiredSince w₀ Latched past' v) :
    WiredSince w₀ (fun _ => True) past' v :=
    fun hu => (hv hu).imp fun _ ⟨ht, hw⟩ => ⟨ht, hw.mono (List.Sublist.refl _) fun _ => trivial⟩
  cases hr with
  | moved hm => exact part (h.moves hm id)
  | asked ok hq hc =>
    obtain ⟨ht, hw, hcl⟩ := hq.asking (op.serial w) (op.request (op.serial w))
    cases hc with
    | between hc => exact part (h.calls ok ht hw hcl hc)
    | @sending u n es before hbad hopen hs hlt =>
      obtain ⟨es', ht', hw'⟩ := moves_wire before
      have ho : w.dbs.closed = false := hcl ▸ moves_open before hopen
      exact h.sent ok (by rw [ht', ht, List.append_assoc])
        (by rw [wire_append, hw, hw', List.nil_append]) ho hbad hs fun _ _ => trivial
  | @called m hop hc =>
    intro hu
    have := hu op (List.mem_append_right _ (List.mem_singleton.mpr rfl))
    rw [hop] at this
    cases this

/-- **What goes out is whole requests.** Over any native operations, with any
arguments and any answers of the kernel, the bytes it accepted are complete
messages, one for each operation that asked and in their order, each carrying
what its operation was given; at most the last is torn, and then either the
connection is latched closed or the run still waits for the kernel. -/
theorem wire_whole (bus : Int) (ops : List BusOp) (hu : ∀ op ∈ ops, op.usable = true) (w : World)
    (hg : w.fr.Good) : ∃ es, (runOps bus ops w).state.trace = w.trace ++ es ∧
      Wired ops ((runOps bus ops w).state.dbs.closed = true ∨ (runOps bus ops w).value = none)
      (wire es) := by
  have start : WiredSince w Latched [] w := fun _ =>
    ⟨[], (List.append_nil _).symm, .whole [] ⟨List.Sublist.refl _, by simp⟩⟩
  have run := runOps_along bus (I := WiredSince w Latched) (J := WiredSince w fun _ => True)
    (K := WiredSince w Latched) (fun _ _ h => h)
    (fun past v h hp => by
      obtain ⟨es, ht, hw⟩ := h hp
      refine ⟨es ++ (dbusFrameCloseFds v.fr).2.map Event.close, ?_, ?_⟩
      · show v.trace ++ _ = _
        rw [ht, List.append_assoc]
      · rw [wire_append, wire_closes, List.append_nil]
        exact hw)
    (fun past op v v' _ h hr => wired_ran h hr) (fun past op v v' _ h hr => wired_ranPart h hr) ops
    [] w ⟨hg, start⟩
  have usable {past' : List BusOp} (hp : past' <+: [] ++ ops) : past'.Sublist ops ∧ ∀ op ∈ past',
    op.usable = true :=
    ⟨hp.sublist, fun op ho => hu op (hp.subset ho)⟩
  cases e : runOps bus ops w with
  | done rcs w' =>
    rw [e] at run
    obtain ⟨past', hp, h⟩ := run
    obtain ⟨es, ht, hw⟩ := h (usable hp).2
    exact ⟨es, ht, hw.mono (usable hp).1 .inl⟩
  | waiting w' =>
    rw [e] at run
    obtain ⟨past', hp, h⟩ := run
    obtain ⟨es, ht, hw⟩ := h (usable hp).2
    exact ⟨es, ht, hw.mono (usable hp).1 fun _ => .inr rfl⟩

/-- A call that times out, then one whose request is cut off after ten bytes. -/
def cutShort : World where
  k := { clock := [{}, { sec := 30 }, {}], send := [1000, 10, -32] }

/-- The second request is torn, and a third operation sends nothing. -/
theorem wire_whole_cut :
    let ops : List BusOp :=
      [.takeControl (some (lit "/s")), .releaseControl (some (lit "/s")), .takeControl
      (some (lit "/s"))]
    (runOps 5 ops cutShort).value = some [-110, -104, -107] ∧
      ∃ es, (runOps 5 ops cutShort).state.trace = es ∧
        Wired ops ((runOps 5 ops cutShort).state.dbs.closed = true ∨
        (runOps 5 ops cutShort).value = none) (wire es) := by
  intro ops
  have usable : ∀ op ∈ ops, op.usable = true := by decide
  have good : cutShort.fr.Good := ⟨⟨Nat.le_refl 0, Nat.zero_le _⟩, by simp [cutShort]⟩
  obtain ⟨es, ht, hw⟩ := wire_whole 5 ops usable cutShort good
  exact ⟨by decide +kernel, es, ht, hw⟩

/-! ## A dead connection -/

/-- The errno of a call on a connection latched closed. -/
def deadErrno (m : Marshal) : Int := if m.bad then -22 else -107

/-- An operation that needs an answer, from a state the handshake has left. -/
def BusOp.calls : BusOp → Bool
  | .hello => false
  | .done => false
  | .pump => false
  | _ => true

/-- An operation turned away with `rc`: it was not a call at all, could not be
made, or met the dead connection. It sent, received and consumed nothing. -/
structure Rebuffed (op : BusOp) (w : World) (rc : Int) (w' : World) : Prop where
  closed : Latched w'
  fr : w'.fr = w.fr
  inbox : w'.k.inbox = w.k.inbox
  trace : w'.trace = w.trace
  answer : rc = -107 ∨ rc = -22 ∧ (op.accepts = false ∨ (op.request (op.serial w)).bad = true) ∨
    rc = -12 ∧ ∃ sess major minor, op = .takeDevice sess major minor

/-- One that asked. -/
theorem Rebuffed.asked {op : BusOp} {w v : World} (hq : Unmoved w v [])
    (hc : Latched w) {m : Marshal} (hm : m = op.request (op.serial w)) (s : Nat) :
    Rebuffed op w (deadErrno m) (v.asking s m) where
  closed := hq.closed.trans hc
  fr := hq.fr
  inbox := hq.inbox
  trace := hq.trace.trans (List.append_nil _)
  answer := by
    unfold deadErrno
    split
    · next hb => exact .inr (.inl ⟨rfl, .inr (hm ▸ hb)⟩)
    · exact .inl rfl

theorem Rebuffed.refused {op : BusOp} {w : World} (hc : Latched w) (h : op.accepts = false) :
    Rebuffed op w (-22) w where
  closed := hc
  fr := rfl
  inbox := rfl
  trace := rfl
  answer := .inr (.inl ⟨rfl, .inl h⟩)

/-- Asking for a scratch block leaves no trace. -/
theorem allocOnce_still (b : Scratch) (w : World) : ∃ ok v, allocOnce b w = .done ok v ∧
    Unmoved w v [] := by
  refine ⟨_, _, rfl, ?_⟩
  by_cases hb : b ∈ w.scratch
  · simp only [hb, if_true]
    exact Unmoved.refl w
  · by_cases ha : w.k.alloc.headD false = true
    · simp only [hb, ha, if_true, if_false]
      exact {}
    · simp only [hb, ha, if_false]
      exact {}

/-- The header at the head cannot be read. -/
def FrameStatus.unreadable (r : FrameStatus) : Prop := r = .badendian ∨ r = .badproto ∨ r = .toolong

/-- The last thing done since `base` is a receive on `fd` that failed with `e`. -/
def FailedReceive (base : List Event) (fd e : Int) (w : World) : Prop :=
  ∃ es want flags anc trunc, w.trace = base ++ (es ++ [.recv fd want flags e [] anc trunc])

/-- What a pump on a dead connection answers: a count, -ECONNRESET, the fault of the
header it stopped at, or the errno of its last receive, which failed and not for
want of bytes or of a connection. -/
inductive Reported (base : List Event) (bus n : Int) (w : World) : Prop where
  | count (h : 0 < n)
  | lost (h : n = -104)
  | unreadable {r : FrameStatus} (rest : AtRest w.fr r) (hr : r.unreadable) (h : n = faultErrno r)
  | failed (neg : n < 0) (loud : n ≠ dbusSessionEagain ∧ n ≠ -4)
      (foreign : dbusSessionIsDisconnect n = false) (last : FailedReceive base bus n w)

theorem latched_eq {w : World} (hw : Latched w) :
    { w with dbs := { w.dbs with closed := true } } = w := by
  have closed : w.dbs.closed = true := hw
  rw [← closed]

/-- A fault of the framer changes nothing that is latched. -/
theorem frameFault_latched (r : FrameStatus) {w : World} (hw : Latched w) :
    dbsFrameFault r w = .done (faultErrno r) w := by
  have lost : dbsLost w = .done (-104) w := congrArg (Outcome.done (-104)) (latched_eq hw)
  cases r with
  | eof => exact lost
  | truncated => exact lost
  | _ => rfl

theorem ioFail_latched (e : Int) {w : World} (hw : Latched w) :
    dbsIoFail e w = .done (if dbusSessionIsDisconnect e then -104 else e) w := by
  unfold dbsIoFail
  by_cases hd : dbusSessionIsDisconnect e = true
  · rw [if_pos hd, if_pos hd]
    exact congrArg (Outcome.done (-104)) (latched_eq hw)
  · rw [if_neg hd, if_neg hd]
    rfl

/-- What a pump that drained `drained` messages and stopped at `r` answers, `io` being
what its last receive left. -/
def deadAnswer (drained : Nat) (r : FrameStatus) (io : Int) : Int :=
  if 0 < drained then drained
  else if faultErrno r < 0 then faultErrno r
  else if io < 0 then io
  else -104

theorem pumpResult_latched (drained : Nat) (r : FrameStatus) (io : Int) {w : World}
    (hw : Latched w) : dbsPumpResult drained r io w = .done (deadAnswer drained r io) w := by
  unfold dbsPumpResult deadAnswer
  by_cases hd : 0 < drained
  · rw [if_pos hd, if_pos hd]
    rfl
  rw [if_neg hd, if_neg hd, bind_done (frameFault_latched r hw)]
  by_cases hf : faultErrno r < 0
  · rw [if_pos hf, if_pos hf]
    rfl
  rw [if_neg hf, if_neg hf]
  by_cases hi : io < 0
  · rw [if_pos hi, if_pos hi]
    rfl
  · -- nothing met: the closed state is the answer
    rw [if_neg hi, if_neg hi]
    show (if w.dbs.closed = true then pure (-104) else pure 0 : M Int) w = _
    rw [if_pos (show w.dbs.closed = true from hw)]
    rfl

/-- What a receive left to be answered. -/
inductive LeftBy (base : List Event) (bus : Int) (w : World) : Int → Prop where
  | quiet : LeftBy base bus w 0
  | lost : LeftBy base bus w (-104)
  | failed {e : Int} (loud : e ≠ dbusSessionEagain ∧ e ≠ -4)
      (foreign : dbusSessionIsDisconnect e = false) (last : FailedReceive base bus e w) :
      LeftBy base bus w e

theorem LeftBy.reported {base : List Event} {bus io : Int} {w : World} (h : LeftBy base bus w io)
    (drained : Nat) {r : FrameStatus} (rest : faultErrno r < 0 → AtRest w.fr r) :
    Reported base bus (deadAnswer drained r io) w := by
  unfold deadAnswer
  split_ifs with hd hf hi
  · exact .count (by omega)
  · cases r with
    | msg t => exact absurd hf (by simp [faultErrno])
    | needMore => exact absurd hf (by simp [faultErrno])
    | eof => exact .lost rfl
    | truncated => exact .lost rfl
    | badendian => exact .unreadable (rest hf) (.inl rfl) rfl
    | badproto => exact .unreadable (rest hf) (.inr (.inl rfl)) rfl
    | toolong => exact .unreadable (rest hf) (.inr (.inr rfl)) rfl
  · cases h with
    | quiet => exact absurd hi (by decide)
    | lost => exact .lost rfl
    | failed loud foreign last => exact .failed hi loud foreign last
  · exact .lost rfl

/-- A receive that fails is the last thing done. -/
theorem recv_failed (base : List Event) (fd : Int) (flags : Nat) :
    Spec (fun w => base <+: w.trace) (dbsRecv fd flags)
      (fun got w => got < 0 → FailedReceive base fd got w) fun _ => True := by
  have ended {P : World → Prop} {got : Int} (hgot : ¬ got < 0) : Spec P (do
      frameSetEof
      pure got : M Int) (fun got w => got < 0 → FailedReceive base fd got w) fun _ => True :=
    Spec.bind (Q := fun _ _ => True) (Spec.modify fun _ _ => trivial) fun _ =>
      Spec.pure fun _ _ h => absurd h hgot
  refine Spec.bind (Q := fun _ w => base <+: w.trace) (Spec.modifyGet fun w hw => hw) fun want =>
    Spec.ite (fun _ => ended (by decide)) fun hwant => ?_
  refine Spec.bind (Q := fun r w => r.1 < 0 → FailedReceive base fd r.1 w) ?_ fun r =>
    Spec.ite (fun _ => Spec.pure fun _ h => h) fun hneg => Spec.ite (fun _ => ended (by decide))
      fun _ => ?_
  · rintro w ⟨es, ht⟩
    rcases sysRecv_run (Nat.pos_of_ne_zero hwant) fd flags w with h | ⟨n, d, anc, trunc, v, h, got⟩
    · rw [h]
      trivial
    · rw [h]
      intro hneg
      have hneg : n < 0 := hneg
      refine ⟨es, want, flags, anc, trunc, ?_⟩
      rw [got.trace, got.none (by omega), if_neg (by omega), ← ht, List.append_assoc]
  · -- bytes came: the answer is their number
    have go {α β : Type} {x : M α} {f : α → M β} {Q : β → World → Prop}
        (hf : ∀ a, Spec (fun _ => True) (f a) Q fun _ => True) :
        Spec (fun _ => True) (x >>= f) Q fun _ => True := Spec.bind Spec.any hf
    refine Spec.mono (A := fun _ => True) ?_ (fun _ _ => trivial) (fun _ _ h => h) fun _ h => h
    exact go fun _ => go fun _ => go fun _ => go fun _ => go fun _ => go fun _ => go fun _ =>
      Spec.pure fun _ _ h => absurd h hneg

/-- The connection is latched closed, and the trace has grown from `base`. -/
def Dead (base : List Event) (w : World) : Prop := Latched w ∧ base <+: w.trace

theorem moves_dead {α : Type} {P : Frame → Prop} {x : M α} {Q : α → Frame → Prop}
    (base : List Event) (h : Moves 0 P x Q) : Spec (fun w => P w.fr ∧ Dead base w) x
      (fun a w => Q a w.fr ∧ Dead base w) (Dead base) := by
  refine h.inv (fun w w' hs hd => ⟨hs.session.2 hd.1, ?_⟩) fun _ _ e hd => e ▸ hd
  obtain ⟨es, ht, -⟩ := hs.wire
  rw [ht]
  exact hd.2.trans (List.prefix_append _ _)

/-- Where a pump on a dead connection stands, and how it ends. -/
def DeadRound (base : List Event) (bus : Int) : (Nat × Nat) ⊕ Int → World → Prop
  | .inl _ => fun w => w.fr.Good ∧ Dead base w
  | .inr n => fun w => Reported base bus n w ∧ Dead base w

theorem pumpRound_dead (base : List Event) (bus : Int) (c : Nat × Nat) :
    Spec (fun w => w.fr.Good ∧ Dead base w) (dbsPumpRound bus c) (DeadRound base bus)
      (Dead base) := by
  refine Spec.bind (moves_dead base (dbsDrain_moves c.1)) fun x => ?_
  obtain ⟨drained, r⟩ := x
  have report {io : Int} : Spec (fun w => (faultErrno r < 0 → AtRest w.fr r) ∧
      LeftBy base bus w io ∧ Dead base w) (.inr <$> dbsPumpResult drained r io :
        M ((Nat × Nat) ⊕ Int)) (DeadRound base bus) (Dead base) := by
    refine Spec.map fun w hw => ?_
    rw [pumpResult_latched drained r io hw.2.2.1]
    exact ⟨hw.2.1.reported drained hw.1, hw.2.2⟩
  have fault (hf : faultErrno r < 0) (t : Nat) : r ≠ .msg t := by
    rintro rfl
    exact absurd hf (by simp [faultErrno])
  refine Spec.ite (fun hcap => Spec.pure fun w hw => ⟨.count (by omega), hw.2⟩) fun _ =>
    Spec.ite (fun hgo => ?_) fun _ => report.mono
      (fun w hw => ⟨fun hf => hw.1.2 (fault hf), .quiet, hw.2⟩) (fun _ _ h => h) fun _ h => h
  -- the framer wants more, so what is reported is the receive
  have none {w : World} (hf : faultErrno r < 0) : AtRest w.fr r := by
    rw [show r = .needMore from hgo.1] at hf
    exact absurd hf (by decide)
  refine Spec.bind (((moves_dead base (dbsRecv_moves bus dbusSysMsgDontwait)).and
    ((recv_failed base bus dbusSysMsgDontwait).mono (fun w hw => hw.2.2) (fun _ _ h => h)
      fun _ _ => trivial)).mono (fun w hw => ⟨⟨hw.1.1, wants_more hw.1.2 hgo.1⟩, hw.2⟩)
        (fun _ _ h => h) fun _ h => h) fun got => ?_
  refine Spec.ite (fun _ => Spec.pure fun w hw => hw.1) fun hneg => Spec.ite (fun _ => ?_)
    fun loud => ?_
  · exact report.mono (fun w hw => ⟨none, .quiet, hw.1.2⟩) (fun _ _ h => h) fun _ h => h
  · intro w hw
    rw [bind_done (ioFail_latched got hw.1.2.1)]
    refine report w ⟨none, ?_, hw.1.2⟩
    split_ifs with hd
    · exact .lost
    · exact .failed (not_or.mp loud) (Bool.eq_false_iff.mpr hd) (hw.2 (by omega))

/-- **A pump on a dead connection reports.** -/
theorem pump_dead (base : List Event) (bus : Int) :
    Spec (fun w => w.fr.Good ∧ Dead base w) (dbusNativePumpSignals bus)
      (fun n w => Reported base bus n w ∧ Dead base w) (Dead base) :=
  Spec.loop (I := fun _ w => w.fr.Good ∧ Dead base w)
    (Q := fun n w => Reported base bus n w ∧ Dead base w) (dbsPump_lowers bus)
    (fun c => (pumpRound_dead base bus c).mono (fun _ h => h) (fun r _ h => by cases r <;> exact h)
      fun _ h => h) (0, 0)

/-! ## Runs -/

/-- What a pump from `w` to `w'` did: it sent nothing, and a count is of the
messages it consumed. -/
structure Pumped (bus : Int) (w : World) (n : Int) (w' : World) : Prop where
  closed : Latched w'
  report : Reported w.trace bus n w'
  sent : ∃ es, w'.trace = w.trace ++ es ∧ wire es = [] ∧ (consumed es).length = n.toNat

/-- Operations on a dead connection, one after the other, and what each returned. -/
inductive DeadRun (bus : Int) : World → List BusOp → List Int → World → Prop where
  | nil (w : World) : DeadRun bus w [] [] w
  | call {w v w' : World} {op : BusOp} {ops : List BusOp} {rc : Int} {rcs : List Int}
      (ho : op.calls = true)
    (h : Rebuffed op w rc v) (rest : DeadRun bus v ops rcs w') :
    DeadRun bus w (op :: ops) (rc :: rcs) w'
  | pump {w v w' : World} {ops : List BusOp} {n : Int} {rcs : List Int} (h : Pumped bus w n v)
    (rest : DeadRun bus v ops rcs w') : DeadRun bus w (.pump :: ops) (n :: rcs) w'

/-- Nothing was sent since `w`, and the connection is still closed. -/
def Mute (w w' : World) : Prop := Latched w' ∧ ∃ es, w'.trace = w.trace ++ es ∧ wire es = []

theorem Mute.trans {w v w' : World} (h : Mute w v) (h' : Mute v w') : Mute w w' := by
  obtain ⟨-, es, ht, hw⟩ := h
  obtain ⟨hl, es', ht', hw'⟩ := h'
  exact ⟨hl, es ++ es', by rw [ht', ht, List.append_assoc], by rw [wire_append, hw, hw',
    List.append_nil]⟩

/-- How a pump on a dead connection ends. -/
inductive PumpedTo (bus : Int) (w : World) : Outcome World Int → Prop where
  | done {n : Int} {w' : World} (h : Pumped bus w n w') (hg : w'.fr.Good) :
    PumpedTo bus w (.done n w')
  | waiting {w' : World} (h : Mute w w') : PumpedTo bus w (.waiting w')

theorem pumped (bus : Int) {w : World} (hg : w.fr.Good) (hc : Latched w) :
    PumpedTo bus w (dbusNativePumpSignals bus w) := by
  have moved := pump_moves (s := 0) bus w hg
  have dead := pump_dead w.trace bus w ⟨hg, hc, List.prefix_refl _⟩
  have count := @pump_since bus w
  cases hp : dbusNativePumpSignals bus w with
  | done n w' =>
    rw [hp] at moved dead count
    obtain ⟨es, ht, hw⟩ := moves_wire moved.1
    exact .done ⟨dead.2.1, dead.1, es, ht, hw, (count ht).2.2 n w' rfl⟩ moved.2
  | waiting w' =>
    rw [hp] at moved dead
    obtain ⟨_, hm, rfl⟩ := moved
    obtain ⟨es, ht, hw⟩ := moves_wire hm
    exact .waiting ⟨dead.1, es, ht, hw⟩

/-- How a run on a dead connection ends. -/
inductive DeadTo (bus : Int) (w : World) (ops : List BusOp) : Outcome World (List Int) → Prop where
  | done {rcs : List Int} {w' : World} (h : DeadRun bus w ops rcs w') (hm : Mute w w') :
      DeadTo bus w ops (.done rcs w')
  | waiting {w' : World} (hm : Mute w w') : DeadTo bus w ops (.waiting w')

/-- One more operation before a run. -/
theorem DeadTo.cons {bus : Int} {w v : World} {op : BusOp} {ops : List BusOp} {rc : Int}
    {o : Outcome World (List Int)} (hne : op ≠ .hello) (hop : op.run bus w = .done rc v)
    (hm : Mute w v)
    (hr : ∀ {rcs w'}, DeadRun bus v ops rcs w' → DeadRun bus w (op :: ops) (rc :: rcs) w')
    (ho : runOps bus ops v = o) (rest : DeadTo bus v ops o) :
    DeadTo bus w (op :: ops) (runOps bus (op :: ops) w) := by
  have run :
    runOps bus (op :: ops) w = (runOps bus ops >>= fun rcs => pure (rc :: rcs) : M (List Int))
    v := by
    rw [runOps, bind_done hop, if_neg fun h => hne h.1]
  rw [run, bind_run, ho]
  cases rest with
  | done h hm' => exact .done (hr h) (hm.trans hm')
  | waiting hm' => exact .waiting (hm.trans hm')

end Samvada
