import Samvada.Replies

/- What each operation of a run puts on the wire: nothing, or its own request as
   one whole message. One of them may be cut off by a write that fails or still
   waits; nothing is written after it. -/
namespace Samvada
open Octets Framing Resumable Resumable.Prog Relation

/-! ## What a call writes -/

section
variable {s : Nat} {m : Marshal} {w w' : World}

/-- What a call writes, all of its message unless the connection is closed at the end. -/
theorem Calls.output (h : Calls s m w w') : ∃ es, w'.trace = w.trace ++ es ∧
    (w.dbs.closed = true → w'.dbs.closed = true ∧ wire es = []) ∧
    (wire es = [] ∨ m.bad = false ∧ wire es <+: m.buf ∧
      (wire es = m.buf ∨ w'.dbs.closed = true)) := by
  cases h with
  | unsent h =>
    obtain ⟨es, ht, hw⟩ := moves_wire h
    exact ⟨es, ht, fun hc => ⟨(moves_session h).2 hc, hw⟩, .inl hw⟩
  | @sent w₁ w₂ rc before hbad hopen hwrote after =>
    obtain ⟨es, ht, hw⟩ := moves_wire before
    obtain ⟨es', ht', hw'⟩ := moves_wire after
    have dead : ¬ w.dbs.closed = true := by
      rw [moves_open before hopen]
      decide
    cases hwrote with
    | @all v es₁ hs =>
      refine ⟨es ++ (es₁ ++ es'), by rw [ht', hs.trace, ht, List.append_assoc, List.append_assoc],
        fun hc => absurd hc dead, .inr ⟨hbad, ?_⟩⟩
      rw [wire_append, wire_append, hw, hw', hs.wire, List.nil_append, List.append_nil,
        List.take_length]
      exact ⟨List.prefix_rfl, .inl rfl⟩
    | @stopped v es₁ n rc hs hlt =>
      have trace : v.trace = w₁.trace ++ es₁ := hs.trace
      refine ⟨es ++ (es₁ ++ es'), by rw [ht', trace, ht, List.append_assoc, List.append_assoc],
        fun hc => absurd hc dead, ?_⟩
      rw [wire_append, wire_append, hw, hw', hs.wire, List.nil_append, List.append_nil]
      by_cases h0 : n = 0
      · rw [h0, List.take_zero]
        exact .inl rfl
      · -- some of it is out: the latch is set, and stays
        have latched : (v.dbs.closed || decide (0 < n)) = true := by
          rw [decide_eq_true (Nat.pos_of_ne_zero h0), Bool.or_true]
        exact .inr ⟨hbad, List.take_prefix _ _, .inr ((moves_session after).2 latched)⟩

theorem CallsPart.output (h : CallsPart s m w w') : ∃ es, w'.trace = w.trace ++ es ∧
    (w.dbs.closed = true → wire es = []) ∧
    (wire es = [] ∨ m.bad = false ∧ wire es <+: m.buf) := by
  cases h with
  | between h =>
    obtain ⟨es, ht, dead, sent⟩ := h.output
    exact ⟨es, ht, fun hc => (dead hc).2, sent.imp_right fun h => ⟨h.1, h.2.1⟩⟩
  | @sending w₁ n es₁ before hbad hopen hs hlt =>
    obtain ⟨es, ht, hw⟩ := moves_wire before
    refine ⟨es ++ es₁, by rw [hs.trace, ht, List.append_assoc], fun hc => ?_, .inr ⟨hbad, ?_⟩⟩
    · rw [moves_open before hopen] at hc
      cases hc
    · rw [wire_append, hw, hs.wire, List.nil_append]
      exact List.take_prefix _ _

end

/-! ## What an operation writes -/

/-- `buf` is the request of the operation: its arguments are accepted, the message fits,
and it is one whole message under the serial the operation took. -/
structure Exchange.Asking (x : Exchange) (s : Nat) (buf : Bytes) : Prop where
  serial : x.serial = some s
  accepts : x.op.accepts = true
  fits : (x.op.request s).bad = false
  request : (x.op.request s).buf = buf
  whole : Whole x.op s buf

/-- The operation wrote nothing, or its request and all of it. -/
def Exchange.Complete (x : Exchange) : Prop :=
  wire x.events = [] ∨ ∃ s, x.Asking s (wire x.events)

/-- The operation wrote a proper beginning of its request. -/
def Exchange.Cut (x : Exchange) : Prop :=
  ∃ s buf, x.Asking s buf ∧ wire x.events <+: buf ∧ wire x.events ≠ [] ∧ wire x.events ≠ buf

/-- The operation is refused, or its request does not fit. -/
def Exchange.Barred (x : Exchange) : Prop :=
  x.op.accepts = false ∨ ∀ s, x.serial = some s → (x.op.request s).bad = true

/-- One operation from `w` to `w'`: what it wrote, and nothing on a closed connection. -/
structure Exchange.Writes (x : Exchange) (w w' : World) : Prop where
  good : w'.fr.Good
  trace : w'.trace = w.trace ++ x.events
  dead : w.dbs.closed = true → wire x.events = []
  closed : w.dbs.closed = true → x.result ≠ none → w'.dbs.closed = true
  sent : x.Complete ∨ x.Cut ∧ (w'.dbs.closed = true ∨ x.result = none)

theorem Exchange.Barred.silent {x : Exchange} (h : x.Barred) {s : Nat} {buf : Bytes}
    (ask : x.Asking s buf) : False := by
  rcases h with refused | poisoned
  · rw [ask.accepts] at refused
    cases refused
  · have bad := poisoned s ask.serial
    rw [ask.fits] at bad
    cases bad

/-- A beginning of the request, not all of it unless it is there to say so. -/
theorem Exchange.Asking.sent {x : Exchange} {s : Nat} {buf : Bytes} {shut : Prop}
    (ask : x.Asking s buf) (part : wire x.events <+: buf)
    (ended : wire x.events = buf ∨ shut) : x.Complete ∨ x.Cut ∧ shut := by
  by_cases none : wire x.events = []
  · exact .inl (.inl none)
  · by_cases all : wire x.events = buf
    · exact .inl (.inr ⟨s, all ▸ ask⟩)
    · exact .inr ⟨⟨s, buf, ask, part, none, all⟩, ended.resolve_left all⟩

/-- **What one operation writes.** -/
theorem exchange_writes (bus : Int) {op : BusOp} (hu : op.usable = true) {w : World}
    (hg : w.fr.Good) : (Exchange.of op w (op.body bus w).state (op.body bus w).value).Writes w
      (op.body bus w).state := by
  have hn : op.native = true := (Bool.and_eq_true _ _).mp hu |>.1
  have hx := exchange bus hn hg
  have ran := (body_running op bus (op.serial w)).ends w ⟨hg, rfl⟩
  generalize op.body bus w = o at hx ran
  -- an operation that asked took the next serial
  have asking {w' : World} {result : Option Int}
      (hx : Exchanged w (.of op w w' result) w') (ok : op.accepts = true)
      (serial : w'.dbs.serial = op.serial w) (hb : (op.request (op.serial w)).bad = false) :
      (Exchange.of op w w' result).Asking (op.serial w) (op.request (op.serial w)).buf := by
    refine ⟨?_, ok, hb, rfl, usable_whole hu ok w hb⟩
    have next := serial.trans (BusOp.serial_native hn w)
    rcases hx.serial with ⟨-, same⟩ | ⟨taken, -⟩
    · exact absurd (next.symm.trans same) (wrapSerial_ne _)
    · exact taken.trans (congrArg some serial)
  have written {v w' : World} {es₀ es : List Event} {result : Option Int} {s : Nat} {m : Marshal}
      (hq : Unmoved w v es₀) (ht : w'.trace = (v.asking s m).trace ++ es) :
      wire (Exchange.of op w w' result).events = wire es := by
    obtain ⟨before, quiet, -⟩ := hq.asking s m
    rw [Exchange.of_events (by rw [ht, before, List.append_assoc]), wire_append, quiet,
      List.nil_append]
  cases ran with
  | @done rc w' ran _ =>
    have hx : Exchanged w (.of op w w' (some rc)) w' := hx
    show (Exchange.of op w w' (some rc)).Writes w w'
    cases ran with
    | moved hm =>
      obtain ⟨es, ht, hw⟩ := moves_wire hm
      have silent : wire (Exchange.of op w w' (some rc)).events = [] := by
        rw [Exchange.of_events ht, hw]
      exact ⟨hx.good, hx.trace, fun _ => silent, fun hc _ => (moves_session hm).2 hc,
        .inl (.inl silent)⟩
    | @asked v es₀ ok hq hc =>
      obtain ⟨es, ht, dead, sent⟩ := hc.output
      have out : wire (Exchange.of op w w' (some rc)).events = wire es := written hq ht
      have latched (h : w.dbs.closed = true) := dead (hq.closed.trans h)
      refine ⟨hx.good, hx.trace, fun h => out.trans (latched h).2, fun h _ => (latched h).1, ?_⟩
      rw [← out] at sent
      rcases sent with none | ⟨hb, part, ended⟩
      · exact .inl (.inl none)
      · exact ((asking hx ok hc.serial_eq hb).sent part ended).imp_right fun h => ⟨h.1, .inl h.2⟩
    | @called m hop hc =>
      rw [hop] at hn
      cases hn
  | @waiting w' ran =>
    have hx : Exchanged w (.of op w w' none) w' := hx
    show (Exchange.of op w w' none).Writes w w'
    cases ran with
    | moved hm =>
      obtain ⟨es, ht, hw⟩ := moves_wire hm
      have silent : wire (Exchange.of op w w' none).events = [] := by
        rw [Exchange.of_events ht, hw]
      exact ⟨hx.good, hx.trace, fun _ => silent, fun _ h => absurd rfl h, .inl (.inl silent)⟩
    | @asked v es₀ ok hq hc =>
      obtain ⟨es, ht, dead, sent⟩ := hc.output
      have out : wire (Exchange.of op w w' none).events = wire es := written hq ht
      refine ⟨hx.good, hx.trace, fun h => out.trans (dead (hq.closed.trans h)),
        fun _ h => absurd rfl h, ?_⟩
      rw [← out] at sent
      rcases sent with none | ⟨hb, part⟩
      · exact .inl (.inl none)
      · exact ((asking hx ok hc.serial_eq hb).sent part (.inr rfl)).imp_right fun h =>
          ⟨h.1, .inr h.2⟩
    | @called m hop hc =>
      rw [hop] at hn
      cases hn

/-! ## What a run writes -/

/-- The operations of a run: what each wrote is whole, up to one that was cut off, after
which nothing is written. -/
structure Output (w : World) (xs : List Exchange) (w' : World) : Prop where
  trace : w'.trace = w.trace ++ xs.flatMap Exchange.events
  dead : w.dbs.closed = true → ∀ x ∈ xs, wire x.events = []
  sent : ∃ ys zs, xs = ys ++ zs ∧ (∀ y ∈ ys, y.Complete) ∧
    (zs = [] ∨ ∃ x rest, zs = x :: rest ∧ x.Cut ∧ ∀ y ∈ rest, wire y.events = [])

/-- The last operation of a run. -/
theorem Output.one {w w' : World} {x : Exchange} (h : x.Writes w w') : Output w [x] w' where
  trace := by rw [List.flatMap_singleton, h.trace]
  dead hc y hy := by
    rw [List.mem_singleton.mp hy]
    exact h.dead hc
  sent := by
    rcases h.sent with whole | ⟨cut, -⟩
    · refine ⟨[x], [], rfl, fun y hy => ?_, .inl rfl⟩
      rw [List.mem_singleton.mp hy]
      exact whole
    · exact ⟨[], [x], rfl, by simp, .inr ⟨x, [], rfl, cut, by simp⟩⟩

/-- An operation that ended, and the rest of the run. -/
theorem Output.cons {w v w' : World} {x : Exchange} {xs : List Exchange} (h : x.Writes w v)
    (ended : x.result ≠ none) (rest : Output v xs w') : Output w (x :: xs) w' where
  trace := by rw [rest.trace, h.trace, List.flatMap_cons, List.append_assoc]
  dead hc y hy := by
    rcases List.mem_cons.mp hy with rfl | hy
    · exact h.dead hc
    · exact rest.dead (h.closed hc ended) y hy
  sent := by
    rcases h.sent with whole | ⟨cut, shut⟩
    · obtain ⟨ys, zs, rfl, complete, tail⟩ := rest.sent
      refine ⟨x :: ys, zs, rfl, fun y hy => ?_, tail⟩
      rcases List.mem_cons.mp hy with rfl | hy
      · exact whole
      · exact complete y hy
    · -- the connection is latched closed
      exact ⟨[], x :: xs, rfl, by simp, .inr ⟨x, xs, rfl, cut,
        rest.dead (shut.resolve_right ended)⟩⟩

/-- What is refused or does not fit writes nothing. -/
theorem Output.barred {w w' : World} {xs : List Exchange} (h : Output w xs w') :
    ∀ x ∈ xs, x.Barred → wire x.events = [] := by
  obtain ⟨ys, zs, rfl, complete, tail⟩ := h.sent
  intro x hx barred
  rcases List.mem_append.mp hx with hy | hz
  · rcases complete x hy with none | ⟨s, ask⟩
    · exact none
    · exact (barred.silent ask).elim
  · rcases tail with rfl | ⟨x', rest, rfl, ⟨s, buf, ask, -⟩, silent⟩
    · cases hz
    · rcases List.mem_cons.mp hz with rfl | hz
      · exact (barred.silent ask).elim
      · exact silent x hz

/-- Closing what a failed Hello left queued writes nothing. -/
theorem Exchange.Writes.drop {op : BusOp} {w w' : World} {result : Option Int}
    (h : (Exchange.of op w w' result).Writes w w') :
    (Exchange.of op w w'.dropFds result).Writes w w'.dropFds := by
  have closed : w'.dropFds.trace = w'.trace ++ (dbusFrameCloseFds w'.fr).2.map Event.close := rfl
  have grown : (Exchange.of op w w'.dropFds result).events =
      (Exchange.of op w w' result).events ++ (dbusFrameCloseFds w'.fr).2.map Event.close :=
    Exchange.of_events (by rw [closed, h.trace, List.append_assoc]) result
  have same : wire (Exchange.of op w w'.dropFds result).events =
      wire (Exchange.of op w w' result).events := by
    rw [grown, wire_append, wire_closes, List.append_nil]
  refine ⟨closeFds_good h.good, ?_, fun hc => same.trans (h.dead hc), h.closed, ?_⟩
  · rw [grown, closed, h.trace, List.append_assoc]
  · rcases h.sent with (none | ⟨s, ask⟩) | ⟨⟨s, buf, ask, part, some, short⟩, shut⟩
    · exact .inl (.inl (same.trans none))
    · refine .inl (.inr ⟨s, ?_⟩)
      rw [same]
      exact ⟨ask.serial, ask.accepts, ask.fits, ask.request, ask.whole⟩
    · refine .inr ⟨⟨s, buf, ⟨ask.serial, ask.accepts, ask.fits, ask.request, ask.whole⟩, ?_⟩, shut⟩
      rw [same]
      exact ⟨part, some, short⟩

theorem conversation_output (bus : Int) (ops : List BusOp) (hu : ∀ op ∈ ops, op.usable = true)
    (w : World) (hg : w.fr.Good) :
    Output w (conversation bus ops w) (runOps bus ops w).state := by
  induction ops generalizing w with
  | nil => exact ⟨(List.append_nil _).symm, by simp [conversation], [], [], rfl, by simp, .inl rfl⟩
  | cons op ops ih =>
    have hx := exchange_writes bus (hu op List.mem_cons_self) hg
    rw [runOps, bind_run, conversation]
    cases hb : op.body bus w with
    | waiting v =>
      rw [hb] at hx
      rw [run_waiting hb]
      exact .one hx
    | done rc v =>
      rw [hb] at hx
      rw [run_done hb]
      simp only
      by_cases hf : op = .hello ∧ rc < 0
      · rw [if_pos hf, if_pos hf, if_pos hf]
        exact .one hx.drop
      · rw [if_neg hf, if_neg hf, if_neg hf]
        have rest := ih (fun o h => hu o (List.mem_cons_of_mem _ h)) v hx.good
        have ended : (Exchange.of op w v (some rc)).result ≠ none := Option.some_ne_none rc
        have cons := Output.cons hx ended rest
        cases hr : runOps bus ops v with
        | waiting v' =>
          rw [hr] at cons
          rw [bind_waiting hr]
          exact cons
        | done rcs v' =>
          rw [hr] at cons
          rw [bind_done hr]
          exact cons

/-- **What is written is whole requests, each its own operation's.** Over any native
operations, with any arguments and any answers of the kernel, from any state of a
connection: what each writes is nothing, or its own request as one whole message
under the serial it took, carrying the path, the member and the values it was given;
at most one is cut off, and then nothing is written again. An operation whose
arguments are refused or whose message does not fit writes nothing. -/
theorem writes_whole (bus : Int) (ops : List BusOp) (hu : ∀ op ∈ ops, op.usable = true) (w : World)
    (hg : w.fr.Good) :
    let xs := conversation bus ops w
    xs.map Exchange.op <+: ops ∧
    (runOps bus ops w).state.trace = w.trace ++ xs.flatMap Exchange.events ∧
    (∃ ys zs, xs = ys ++ zs ∧ (∀ y ∈ ys, y.Complete) ∧
      (zs = [] ∨ ∃ x rest, zs = x :: rest ∧ x.Cut ∧ ∀ y ∈ rest, wire y.events = [])) ∧
    ∀ x ∈ xs, x.Barred → wire x.events = [] := by
  have output := conversation_output bus ops hu w hg
  exact ⟨conversation_ops bus ops w, output.trace, output.sent, output.barred⟩

/-- The first request is whole, the second is cut off after ten bytes, the third operation writes
nothing, and so does one that is refused. -/
theorem writes_whole_cut :
    let ops : List BusOp := [.takeControl (some (lit "/s")), .releaseControl (some (lit "/s")),
      .takeControl (some (lit "/s")), .releaseControl none]
    let xs := conversation 5 ops cutShort
    xs.map (fun x => (wire x.events).length) = [140, 10, 0, 0] ∧
      (∃ ys zs, xs = ys ++ zs ∧ (∀ y ∈ ys, y.Complete) ∧
        (zs = [] ∨ ∃ x rest, zs = x :: rest ∧ x.Cut ∧ ∀ y ∈ rest, wire y.events = [])) ∧
      ∀ x ∈ xs, x.Barred → wire x.events = [] := by
  intro ops xs
  have usable : ∀ op ∈ ops, op.usable = true := by decide
  have good : cutShort.fr.Good := ⟨⟨Nat.le_refl 0, Nat.zero_le _⟩, by simp [cutShort]⟩
  obtain ⟨-, -, sent, barred⟩ := writes_whole 5 ops usable cutShort good
  exact ⟨by decide +kernel, sent, barred⟩

end Samvada
