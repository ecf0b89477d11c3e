import Samvada.Untouched
import Samvada.Wire

/- What bounds a call in time. The clock is read once before the write, and the
   deadline computed from it is checked wherever an attempt came to nothing: of
   the timed events of a call (its clock readings, sends, polls and receives),
   each attempt must be non-blocking or wait for no more than the time left, and
   one that follows an attempt of its kind that made no progress must follow a
   poll or a reading below the deadline. An interrupted send is retried at once,
   and a deadline that is not positive is no deadline, so that holds exactly when
   the first reading gives a positive deadline and the kernel's answers interrupt no
   send but the last. -/
namespace Samvada
open Octets Resumable Resumable.Prog

/-! ## The timed events -/

/-- A clock reading, a send, a poll or a receive. -/
def Event.timed : Event → Bool
  | .clock _ => true
  | .send _ _ _ _ => true
  | .poll _ _ _ _ => true
  | .recv _ _ _ _ _ _ _ => true
  | _ => false

def World.timed (w : World) : List Event := w.trace.filter Event.timed

/-- The timed events between `w` and `w'`. -/
def timedSince (w w' : World) : List Event := w'.timed.drop w.timed.length

inductive Attempt where
  | send
  | poll
  | recv
  deriving DecidableEq, Repr

def Event.attempt : Event → Option Attempt
  | .send _ _ _ _ => some .send
  | .poll _ _ _ _ => some .poll
  | .recv _ _ _ _ _ _ _ => some .recv
  | _ => none

/-- An attempt that made no progress: interrupted, would block, or not ready. -/
def Event.idle : Event → Bool
  | .send _ _ _ n => n == -4 || n == -11
  | .poll _ _ _ ready => ready == 0 || ready == -4
  | .recv _ _ _ n _ _ _ => n == -4 || n == -11
  | _ => false

/-- A send that a signal interrupted. -/
def Event.interrupted : Event → Bool
  | .send _ _ _ n => n == -4
  | _ => false

/-- A poll, or a reading of the clock below the deadline. -/
def Event.checks (deadline : Int) : Event → Bool
  | .poll _ _ _ _ => true
  | .clock ms => decide (ms < deadline)
  | _ => false

def Event.reading : Event → Option Int
  | .clock ms => some ms
  | _ => none

/-- What the clock said, in order: first the reading the deadline is computed from. -/
def readings (es : List Event) : List Int := es.filterMap Event.reading

/-- The last attempt of kind `a` is one of `idle`, and nothing has checked the deadline since. -/
def Owed (idle : Event → Bool) (deadline : Int) (a : Attempt) (es : List Event) : Prop :=
  ∃ before e since, es = before ++ e :: since ∧ e.attempt = some a ∧ idle e = true ∧
    ∀ e' ∈ since, e'.attempt ≠ some a ∧ e'.checks deadline = false

/-- A reading after the first found the deadline passed. -/
def Expired (deadline : Int) (es : List Event) : Prop := ∃ ms ∈ (readings es).tail, deadline ≤ ms

/-- A send or a receive does not block, a poll waits for a positive time within the timeout. -/
def Event.within (timeout : Int) : Event → Prop
  | .send _ _ flags _ => flags = dbusSocketMsgNosignal + dbusSysMsgDontwait
  | .poll _ _ ms _ => 0 < ms ∧ ms ≤ timeout
  | .recv _ _ flags _ _ _ _ => flags = dbusSysMsgDontwait
  | _ => True

/-- A poll comes right after a reading of the clock, and waits for no longer than that
reading leaves. -/
def WaitsOut (deadline : Int) (before : List Event) : Event → Prop
  | .poll _ _ ms _ => ∃ now, before.getLast? = some (.clock now) ∧ ms ≤ deadline - now
  | _ => True

/-- Every event of `es` is right given what came before it. -/
def Upheld (right : List Event → Event → Prop) (es : List Event) : Prop :=
  ∀ before e since, es = before ++ e :: since → right before e

/-- An attempt within its bounds: the clock was read first, a poll waits for no longer
than the last reading leaves, an idle attempt of the same kind was followed by a
check, and no reading has found the deadline passed. -/
def Timely (timeout : Int) (before : List Event) (e : Event) : Prop :=
  ∀ a, e.attempt = some a → e.within timeout ∧ ∃ t0, (readings before).head? = some t0 ∧
    WaitsOut (t0 + timeout) before e ∧ ¬ Owed Event.idle (t0 + timeout) a before ∧
    ¬ Expired (t0 + timeout) before

/-- The timed events of a call that its deadline bounds. -/
structure Bounded (timeout : Int) (es : List Event) : Prop where
  armed : ∀ t0, (readings es).head? = some t0 → 0 < int64 (t0 + timeout)
  exact : ∀ t0, (readings es).head? = some t0 → int64 (t0 + timeout) = t0 + timeout
  attempts : Upheld (Timely timeout) es

/-- What the kernel answers after a full send buffer: a reading below the deadline and a
poll that is ready or interrupted, if the wait ends with another send. What is left of
the clock's and the poll's answers then. -/
def waitedOut (deadline : Int) : List ClockAnswer → List Int → Option (List ClockAnswer × List Int)
  | now :: clock, ready :: poll =>
    if now.ms < deadline ∧ (0 < ready ∨ ready = -4) then some (clock, poll) else none
  | _, _ => none

/-- Of the kernel's answers to the sends of `left` bytes: does an interrupt come before
another answer? A send that is not interrupted is followed by another if bytes are left,
unless it failed or its wait did. -/
def resends (deadline : Int) : List Int → List ClockAnswer → List Int → Nat → Bool
  | [], _, _, _ => false
  | n :: send, clock, poll, left =>
    if left = 0 then false
    else if n = -4 then !send.isEmpty
    else if n = dbusSessionEagain then
      match waitedOut deadline clock poll with
      | some (clock, poll) => resends deadline send clock poll left
      | none => false
    else if n ≤ 0 then false
    else resends deadline send clock poll (left - n.toNat)

/-- What the kernel must answer for a write of `len` bytes to be bounded: a first reading
that gives a positive deadline, and no interrupt of a send that another follows. -/
def Serves (timeout : Int) (len : Nat) (k : Kernel) : Prop :=
  ∀ first clock, k.clock = first :: clock →
    (0 < first.ms + timeout ∧ first.ms + timeout < 9223372036854775808) ∧
    resends (first.ms + timeout) k.send clock k.poll len = false

/-! ## One more event -/

theorem append_eq_append_cons {es before since : List Event} {e e' : Event}
    (h : es ++ [e'] = before ++ e :: since) :
    (es = before ∧ e = e' ∧ since = []) ∨ ∃ since', since = since' ++ [e'] ∧
    es = before ++ e :: since' := by
  rcases List.eq_nil_or_concat since with rfl | ⟨since', x, rfl⟩
  · obtain ⟨h1, h2⟩ := List.append_inj' h rfl
    exact .inl ⟨h1, (List.singleton_inj.mp h2).symm, rfl⟩
  · have h' : es ++ [e'] = (before ++ e :: since') ++ [x] := by simpa using h
    obtain ⟨h1, h2⟩ := List.append_inj' h' rfl
    exact .inr ⟨since', by rw [List.concat_eq_append, List.singleton_inj.mp h2], h1⟩

theorem Upheld.nil (right : List Event → Event → Prop) : Upheld right [] :=
  fun before e since h => by
  simp at h

theorem Upheld.snoc {right : List Event → Event → Prop} {es : List Event} {e : Event}
    (h : Upheld right es) (he : right es e) : Upheld right (es ++ [e]) := by
  intro before x since hs
  rcases append_eq_append_cons hs with ⟨rfl, rfl, -⟩ | ⟨since', -, rfl⟩
  · exact he
  · exact h before x since' rfl

@[simp] theorem readings_append (es es' : List Event) : readings (es ++ es') = readings es ++
    readings es' :=
  List.filterMap_append

/-- An attempt of another kind that is not a check leaves what is owed. -/
theorem owed_snoc {idle : Event → Bool} {deadline : Int} {a : Attempt}
    {es : List Event} {e : Event} : Owed idle deadline a (es ++ [e]) ↔
    (e.attempt = some a ∧ idle e = true) ∨
      (Owed idle deadline a es ∧ e.attempt ≠ some a ∧ e.checks deadline = false) := by
  constructor
  · rintro ⟨before, x, since, hs, ha, hi, hq⟩
    rcases append_eq_append_cons hs with ⟨rfl, rfl, rfl⟩ | ⟨since', rfl, rfl⟩
    · exact .inl ⟨ha, hi⟩
    · exact .inr ⟨⟨before, x, since', rfl, ha, hi, fun e' h => hq e' (List.mem_append_left _ h)⟩,
        hq e (by simp)⟩
  · rintro (⟨ha, hi⟩ | ⟨⟨before, x, since, rfl, ha, hi, hq⟩, hn⟩)
    · exact ⟨es, e, [], rfl, ha, hi, by simp⟩
    · refine ⟨before, x, since ++ [e], by simp, ha, hi, fun e' h => ?_⟩
      rcases List.mem_append.mp h with h | h
      · exact hq e' h
      · rw [List.mem_singleton.mp h]
        exact hn

/-! ## What the code keeps -/

/-- An idle attempt that the code checks the deadline after: any but an interrupted send. -/
def Event.parked (e : Event) : Bool := e.idle && !e.interrupted

/-- The last event is an interrupted send. -/
def Cut (es : List Event) : Prop := ∃ e, es.getLast? = some e ∧ e.interrupted = true

/-- What the code keeps of each event under an armed deadline: the bounds of an
attempt, and after an interrupted send nothing but a send. -/
structure InTime (timeout t0 deadline : Int) (before : List Event) (e : Event) : Prop where
  attempt : ∀ a, e.attempt = some a → e.within timeout ∧ (readings before).head? = some t0 ∧
    WaitsOut deadline before e ∧ ¬ Owed Event.parked deadline a before ∧ ¬ Expired deadline before
  resent : Cut before → e.attempt = some .send

/-- The events of a call whose first reading was `t0`. -/
structure Done (timeout t0 deadline : Int) (es : List Event) : Prop where
  first : (readings es).head? = some t0
  kept : 0 < deadline → Upheld (InTime timeout t0 deadline) es

/-- The same of a call that goes on: the attempts of `next` may follow, and if the
last send was interrupted, `resend` holds. -/
structure Paced (timeout t0 deadline : Int) (next : List Attempt) (resend : Prop)
    (es : List Event) : Prop extends Done timeout t0 deadline es where
  live : 0 < deadline → ¬ Expired deadline es
  free : 0 < deadline → ∀ a ∈ next, ¬ Owed Event.parked deadline a es
  cut : Cut es → resend

section
variable {timeout t0 deadline : Int} {next : List Attempt} {resend : Prop} {es : List Event}

theorem cut_snoc {e : Event} : Cut (es ++ [e]) ↔ e.interrupted = true := by simp [Cut]

theorem Done.snoc (h : Done timeout t0 deadline es) {e : Event}
    (he : 0 < deadline → InTime timeout t0 deadline es e) :
    Done timeout t0 deadline (es ++ [e]) where
  first := by rw [readings_append, List.head?_append, h.first]; rfl
  kept hd := (h.kept hd).snoc (he hd)

theorem expired_snoc {e : Event} (h : (readings es).head? = some t0)
    (he : ∀ ms, e.reading = some ms → ms < deadline) : Expired deadline (es ++ [e]) →
    Expired deadline es := by
  rintro ⟨ms, hm, hd⟩
  rw [readings_append, List.tail_append_of_ne_nil (by rintro h'; simp [h'] at h)] at hm
  rcases List.mem_append.mp hm with hm | hm
  · exact ⟨ms, hm, hd⟩
  · have hr : e.reading = some ms := by
      cases hr : e.reading with
      | none => simp [readings, hr] at hm
      | some m =>
        rw [readings, List.filterMap_cons, hr] at hm
        rw [List.mem_singleton.mp hm]
    have := he ms hr
    omega

theorem Paced.mono (h : Paced timeout t0 deadline next resend es) {next' : List Attempt}
    {resend' : Prop}
    (hn : ∀ a ∈ next', a ∈ next) (hr : resend → resend') :
    Paced timeout t0 deadline next' resend' es :=
  { h with free := fun hd a ha => h.free hd a (hn a ha), cut := fun hc => hr (h.cut hc) }

/-- With no deadline any attempt may follow. -/
theorem Paced.unarmed (h : Paced timeout t0 deadline next resend es) (hd : deadline ≤ 0)
    (next' : List Attempt) : Paced timeout t0 deadline next' resend es :=
  { h with free := fun hd' => absurd hd' (by omega) }

/-- A reading of the clock. -/
theorem Paced.clock (h : Paced timeout t0 deadline next False es) (ms : Int) :
    Done timeout t0 deadline (es ++ [.clock ms]) :=
  h.toDone.snoc fun _ => ⟨fun _ ha => (nomatch ha), fun hc => (h.cut hc).elim⟩

/-- A reading below the deadline clears whatever is owed. -/
theorem Paced.check (h : Paced timeout t0 deadline next False es) {ms : Int} (hms : ms < deadline) :
    Paced timeout t0 deadline [.send, .poll, .recv] False (es ++ [.clock ms]) where
  toDone := h.clock ms
  live hd hx := h.live hd (expired_snoc h.first (fun m hm => by cases hm; exact hms) hx)
  free _ a _ ho := by
    rcases owed_snoc.mp ho with ⟨ha, -⟩ | ⟨-, -, hc⟩
    · cases ha
    · simp [Event.checks, hms] at hc
  cut hc := by simp [cut_snoc, Event.interrupted] at hc

/-- One more attempt of a kind that may follow. -/
theorem Paced.attempt (h : Paced timeout t0 deadline next resend es) {e : Event} {a : Attempt}
    (ha : e.attempt = some a) (hn : a ∈ next) (hw : 0 < deadline → e.within timeout)
    (hp : WaitsOut deadline es e) (hr : a = .send ∨ ¬ resend) :
    Done timeout t0 deadline (es ++ [e]) :=
  h.toDone.snoc fun hd => by
    refine ⟨fun a' ha' => ?_, fun hc => ?_⟩
    · rw [ha] at ha'
      cases ha'
      exact ⟨hw hd, h.first, hp, h.free hd a hn, h.live hd⟩
    · rcases hr with rfl | hr
      · exact ha
      · exact absurd (h.cut hc) hr

theorem Paced.attempt_live (h : Paced timeout t0 deadline next resend es) {e : Event}
    (he : e.reading = none) (hd : 0 < deadline) : ¬ Expired deadline (es ++ [e]) := fun hx =>
  h.live hd (expired_snoc h.first (fun m hm => by rw [he] at hm; cases hm) hx)

/-- A poll: whatever else is owed is cleared. -/
theorem Paced.poll (h : Paced timeout t0 deadline next False es) (hn : Attempt.poll ∈ next)
    (fd : Int) (wr : Bool) {now ms : Int} (ready : Int)
    (hnow : es.getLast? = some (.clock now)) (hms : ms ≤ deadline - now)
    (hw : 0 < deadline → 0 < ms ∧ ms ≤ timeout) :
    Paced timeout t0 deadline [.send, .recv] False (es ++ [.poll fd wr ms ready]) where
  toDone := h.attempt rfl hn hw ⟨now, hnow, hms⟩ (.inr id)
  live := h.attempt_live rfl
  free _ a ha ho := by
    rcases owed_snoc.mp ho with ⟨hp, -⟩ | ⟨-, -, hc⟩
    · cases hp
      simp at ha
    · cases hc
  cut hc := by simp [cut_snoc, Event.interrupted] at hc

/-- A receive. -/
theorem Paced.recv (h : Paced timeout t0 deadline next False es) (hn : Attempt.recv ∈ next)
    (fd : Int) (want : Nat) {flags : Nat} (n : Int) (data : Bytes) (anc : Ancillary) (trunc : Bool)
    (hw : 0 < deadline → flags = dbusSysMsgDontwait) :
    Paced timeout t0 deadline [] False (es ++ [.recv fd want flags n data anc trunc]) where
  toDone := h.attempt rfl hn hw trivial (.inr id)
  live := h.attempt_live rfl
  free _ a ha := by cases ha
  cut hc := by simp [cut_snoc, Event.interrupted] at hc

/-- A send that was not interrupted; another may follow unless the buffer is full. -/
theorem Paced.send (h : Paced timeout t0 deadline next resend es) (hn : Attempt.send ∈ next)
    (fd : Int) (offered : Bytes)
    {flags : Nat} {n : Int} (hw : 0 < deadline → flags = dbusSocketMsgNosignal + dbusSysMsgDontwait)
    (h4 : n ≠ -4) :
    Paced timeout t0 deadline (if n = -11 then [] else [.send]) False
    (es ++ [.send fd offered flags n]) where
  toDone := h.attempt rfl hn hw trivial (.inl rfl)
  live := h.attempt_live rfl
  free _ a ha ho := by
    split_ifs at ha with h11
    · cases ha
    · rcases owed_snoc.mp ho with ⟨-, hi⟩ | ⟨-, hs, -⟩
      · simp [Event.parked, Event.idle, Event.interrupted, h4, h11] at hi
      · rw [List.mem_singleton.mp ha] at hs
        exact hs rfl
  cut hc := by simp [cut_snoc, Event.interrupted, h4] at hc

/-- An interrupted send: only a send may follow. -/
theorem Paced.interrupted (h : Paced timeout t0 deadline next resend es)
    (hn : Attempt.send ∈ next) (fd : Int)
    (offered : Bytes) {flags : Nat}
    (hw : 0 < deadline → flags = dbusSocketMsgNosignal + dbusSysMsgDontwait)
    {resend' : Prop} (hr : resend') :
    Paced timeout t0 deadline [.send] resend' (es ++ [.send fd offered flags (-4)]) where
  toDone := h.attempt rfl hn hw trivial (.inl rfl)
  live := h.attempt_live rfl
  free _ a ha ho := by
    rcases owed_snoc.mp ho with ⟨-, hi⟩ | ⟨-, hs, -⟩
    · cases hi
    · rw [List.mem_singleton.mp ha] at hs
      exact hs rfl
  cut _ := hr

end

/-! ## What shows no timed event -/

/-- The timed events, and what a deadline is computed from. -/
def World.pace (w : World) : List Event × List ClockAnswer × Int × Int :=
  (w.timed, w.k.clock, w.dbs.clockFail, w.dbs.timeoutMs)

abbrev FixesPace {α : Type} (x : M α) : Prop := Fixes World.pace x

theorem pace_emit (w : World) {es : List Event} (h : ∀ e ∈ es, e.timed = false) :
    (w.emit es).pace = w.pace := by
  have hf : es.filter Event.timed = [] := List.filter_eq_nil_iff.mpr fun e he => by simp [h e he]
  simp [World.pace, World.timed, hf]

theorem closes_timed {fds : List Int} : ∀ e ∈ fds.map Event.close, e.timed = false := by
  intro e he
  obtain ⟨fd, -, rfl⟩ := List.mem_map.mp he
  rfl

theorem next_pace : FixesPace frameNext := Fixes.modifyGet fun w => by
  refine pace_emit _ fun e he => ?_
  rcases List.mem_append.mp he with he | he
  · exact closes_timed e he
  · rw [List.mem_singleton.mp he]
    rfl

theorem advance_pace (n : Nat) : FixesPace (frameAdvance n) := Fixes.modify fun w => by
  refine pace_emit _ fun e he => ?_
  rcases List.mem_cons.mp he with rfl | he
  · rfl
  · exact closes_timed e he

theorem pushFd_pace (fd : Int) : FixesPace (framePushFd fd) := Fixes.modify fun w => by
  refine pace_emit _ fun e he => ?_
  rcases List.mem_append.mp he with he | he
  · rw [List.mem_singleton.mp (List.mem_ite_nil_right.mp he).2]
    rfl
  · exact closes_timed e he

theorem emit_pace {es : List Event} (h : ∀ e ∈ es, e.timed = false) : FixesPace (emit es) :=
  Fixes.modify fun w => pace_emit w h

theorem queueFds_pace : ∀ fds, FixesPace (dbsQueueFds fds)
  | [] => Fixes.pure _
  | fd :: rest => by
    refine Fixes.bind (Fixes.ite (Fixes.pure _) (Fixes.bind (Fixes.modifyGet fun w => ?_) fun _ =>
      Fixes.bind (emit_pace (by simp [Event.timed])) fun _ => Fixes.pure _)) fun rfd =>
      Fixes.bind (pushFd_pace rfd) fun _ => Fixes.bind (queueFds_pace rest) fun _ => Fixes.pure _
    exact pace_emit { w with k := { w.k with fcntl := w.k.fcntl.tail } } (by simp [Event.timed])

theorem lost_pace : FixesPace dbsLost :=
  Fixes.bind (Fixes.modify fun _ => rfl) fun _ => Fixes.pure _

theorem ioFail_pace (e : Int) : FixesPace (dbsIoFail e) := Fixes.ite lost_pace (Fixes.pure _)

theorem frameFault_pace (r : FrameStatus) : FixesPace (dbsFrameFault r) := by
  cases r with
  | eof => exact lost_pace
  | truncated => exact lost_pace
  | _ => exact Fixes.pure _

theorem scan_pace (serial wm : Nat) : FixesPace (dbsScan serial wm) := by
  refine Fixes.loop (fun _ => Fixes.bind next_pace fun s => ?_) ()
  cases s with
  | msg r =>
    refine Fixes.bind (Fixes.modifyGet fun _ => rfl) fun v => Fixes.bind Fixes.gets fun pos => ?_
    cases v with
    | success => exact Fixes.bind (emit_pace (by simp [Event.timed])) fun _ => Fixes.pure _
    | failure rc =>
      exact Fixes.bind (emit_pace (by simp [Event.timed])) fun _ =>
        Fixes.bind (advance_pace r) fun _ => Fixes.pure _
    | other => exact Fixes.bind (advance_pace r) fun _ => Fixes.pure _
  | _ => exact Fixes.pure _

theorem allocOnce_pace (s : Scratch) : FixesPace (allocOnce s) := Fixes.modifyGet fun w => by
  split_ifs <;> rfl

/-! ## The attempts of the code -/

/-- `w` shows `es` after `base`; its clock goes on, and never goes back before `t0`. -/
structure At (base : List Event) (timeout t0 : Int) (es : List Event) (w : World) : Prop where
  shown : w.timed = base ++ es
  hook : w.dbs.clockFail = 0
  timeout : w.dbs.timeoutMs = timeout
  ahead : ∀ a ∈ w.k.clock, 0 ≤ a.rc ∧ t0 ≤ a.ms

/-- The timed events since `base` are in `J`. -/
def Shows (base : List Event) (timeout t0 : Int) (J : List Event → Prop) (w : World) : Prop :=
  ∃ es, At base timeout t0 es w ∧ J es

section
variable {base : List Event} {timeout t0 deadline : Int} {next : List Attempt} {resend : Prop}
    {es : List Event}

theorem At.same {w w' : World} (h : At base timeout t0 es w) (hp : w'.pace = w.pace) :
    At base timeout t0 es w' where
  shown := (congrArg Prod.fst hp).trans h.shown
  hook := (congrArg (·.2.2.1) hp).trans h.hook
  timeout := (congrArg (·.2.2.2) hp).trans h.timeout
  ahead := by
    have hk : w'.k.clock = w.k.clock := congrArg (·.2.1) hp
    rw [hk]
    exact h.ahead

theorem Shows.mono {J K : List Event → Prop} {w : World} (h : Shows base timeout t0 J w)
    (hj : ∀ es, J es → K es) : Shows base timeout t0 K w := by
  obtain ⟨es, hat, hes⟩ := h
  exact ⟨es, hat, hj es hes⟩

/-- After one more timed event. -/
theorem Shows.snoc {J K : List Event → Prop} {w : World} {e : Event}
    (h : ∃ es, J es ∧ At base timeout t0 (es ++ [e]) w) (hj : ∀ es, J es → K (es ++ [e])) :
    Shows base timeout t0 K w := by
  obtain ⟨es, hes, hat⟩ := h
  exact ⟨_, hat, hj es hes⟩

/-- A call that stops here keeps what it has shown. -/
theorem Shows.halt {w : World}
    (h : Shows base timeout t0 (Paced timeout t0 deadline next resend) w) :
    Shows base timeout t0 (Done timeout t0 deadline) w :=
  h.mono fun _ hp => hp.toDone

/-- What shows no timed event keeps any statement about them. -/
theorem FixesPace.shows {α : Type} {x : M α} (h : FixesPace x) {J W : List Event → Prop}
    (hw : ∀ es, J es → W es) :
    Spec (Shows base timeout t0 J) x (fun _ => Shows base timeout t0 J)
    (Shows base timeout t0 W) := by
  rintro w ⟨es, hat, hj⟩
  have hp := h w
  cases hx : x w with
  | done a w' =>
    rw [hx] at hp
    exact ⟨es, hat.same hp, hj⟩
  | waiting w' =>
    rw [hx] at hp
    exact ⟨es, hat.same hp, hw es hj⟩

/-- What shows no timed event leaves a call where it was. -/
theorem FixesPace.paced {α : Type} {x : M α} (h : FixesPace x) (next' : List Attempt)
    (hn : ∀ a ∈ next', a ∈ next) :
    Spec (Shows base timeout t0 (Paced timeout t0 deadline next False)) x
      (fun _ => Shows base timeout t0 (Paced timeout t0 deadline next' False))
      (Shows base timeout t0 (Done timeout t0 deadline)) :=
  (FixesPace.shows h fun _ hp => hp.toDone).mono (fun _ h => h)
    (fun _ _ h => h.mono fun _ hp => hp.mono hn id) fun _ h => h

/-- One more timed event. -/
theorem At.snoc {w w' : World} (h : At base timeout t0 es w) {e : Event} (he : e.timed = true)
    (ht : w'.trace = w.trace ++ [e]) (hc : ∀ a ∈ w'.k.clock, a ∈ w.k.clock) (hd : w'.dbs = w.dbs) :
    At base timeout t0 (es ++ [e]) w' where
  shown := by
    have hs := h.shown
    simp only [World.timed] at hs ⊢
    rw [ht, List.filter_append, hs, List.filter_cons_of_pos he, List.filter_nil, List.append_assoc]
  hook := by rw [hd]; exact h.hook
  timeout := by rw [hd]; exact h.timeout
  ahead a ha := h.ahead a (hc a ha)

/-- A reading of the clock, no earlier than the first. -/
theorem nowMs_shows {J : List Event → Prop} :
    Spec (Shows base timeout t0 J) dbusSessionNowMs
      (fun ms w => t0 ≤ ms ∧ ∃ es, J es ∧ At base timeout t0 (es ++ [.clock ms]) w)
      (Shows base timeout t0 J) := by
  refine Spec.gets_bind fun fail => Spec.ite (fun h1 => ?_) fun h1 => ?_
  · rintro w ⟨⟨es, hat, -⟩, hf⟩
    have := hat.hook
    omega
  refine Spec.bind (Q := fun _ => Shows base timeout t0 J) (Spec.modify ?_) fun _ =>
    Spec.query ?_ fun w hw _ => hw
  · rintro w ⟨⟨es, hat, hj⟩, hf⟩
    refine ⟨es, ⟨hat.shown, ?_, hat.timeout, hat.ahead⟩, hj⟩
    have := hat.hook
    show (if 1 < fail then fail - 1 else fail) = 0
    rw [if_neg (by omega)]
    omega
  · rintro w ms w' ⟨es, hat, hj⟩ ha
    cases hc : w.k.clock with
    | nil => simp [hc] at ha
    | cons c rest =>
      rw [hc] at ha
      cases ha
      have hc' := hat.ahead c (by simp [hc])
      exact ⟨hc'.2, es, hj, hat.snoc rfl rfl (fun a h => by simp [hc]; exact .inr h) rfl⟩

theorem poll_shows {J : List Event → Prop} (fd : Int) (wr : Bool) (ms : Int) :
    Spec (Shows base timeout t0 J) (sysPoll fd wr ms)
      (fun ready w => ∃ es, J es ∧ At base timeout t0 (es ++ [.poll fd wr ms ready]) w)
      (Shows base timeout t0 J) := by
  refine Spec.query ?_ fun w hw _ => hw
  rintro w ready w' ⟨es, hat, hj⟩ ha
  cases hp : w.k.poll with
  | nil => simp [hp] at ha
  | cons c rest =>
    rw [hp] at ha
    cases ha
    exact ⟨es, hj, hat.snoc rfl rfl (fun a h => h) rfl⟩

theorem sendto_shows {J : List Event → Prop} (fd : Int) (offered : Bytes) (flags : Nat) :
    Spec (Shows base timeout t0 J) (sysSendto fd offered flags)
      (fun n w => ∃ es, J es ∧ At base timeout t0 (es ++ [.send fd offered flags n]) w)
      (Shows base timeout t0 J) := by
  refine Spec.query ?_ fun w hw _ => hw
  rintro w n w' ⟨es, hat, hj⟩ ha
  cases hs : w.k.send with
  | nil => simp [hs] at ha
  | cons c rest =>
    rw [hs] at ha
    cases ha
    exact ⟨es, hj, hat.snoc rfl rfl (fun a h => h) rfl⟩

theorem recvmsg_shows {J : List Event → Prop} (fd : Int) (want flags : Nat) :
    Spec (Shows base timeout t0 J) (sysRecvmsg fd want flags)
      (fun _ w => ∃ es n data anc trunc, J es ∧ At base timeout t0
      (es ++ [.recv fd want flags n data anc trunc]) w) (Shows base timeout t0 J) := by
  refine Spec.query ?_ fun w hw _ => hw
  rintro w r w' ⟨es, hat, hj⟩ ha
  cases hr : w.k.recv with
  | nil => simp [hr] at ha
  | cons c rest =>
    simp only [hr] at ha
    split_ifs at ha
    · cases ha
      exact ⟨es, _, _, _, _, hj, hat.snoc rfl rfl (fun a h => h) rfl⟩
    · cases ha
      exact ⟨es, _, _, _, _, hj, hat.snoc rfl rfl (fun a h => h) rfl⟩

/-! ## The write -/

theorem dbsWriteFull_shows (hle : 0 < deadline → deadline ≤ t0 + timeout) (fd : Int) :
    Spec (Shows base timeout t0 (Paced timeout t0 deadline next False)) (dbsWriteFull fd deadline)
      (fun rc w =>
      (rc = 0 ∧ Shows base timeout t0 (Paced timeout t0 deadline [.send, .recv] False) w) ∨
        (rc < 0 ∧ Shows base timeout t0 (Done timeout t0 deadline) w))
      (Shows base timeout t0 (Done timeout t0 deadline)) := by
  refine Spec.ite (fun h0 => Spec.pure ?_) fun h0 => ?_
  · rintro w ⟨es, hat, hp⟩
    exact .inr ⟨by omega, es, hat, hp.toDone⟩
  refine Spec.bind (nowMs_shows.mono (fun _ h => h) (fun _ _ h => h) fun _ h => h.halt)
    fun now => ?_
  refine Spec.ite (fun hneg => Spec.pure ?_) fun hneg =>
    Spec.ite (fun hlate => Spec.pure ?_) fun hlate => ?_
  · rintro w ⟨-, es, hp, hat⟩
    exact .inr ⟨by omega, _, hat, hp.clock now⟩
  · rintro w ⟨-, es, hp, hat⟩
    exact .inr ⟨by omega, _, hat, hp.clock now⟩
  by_cases hnow : t0 ≤ now
  · refine Spec.bind
      ((poll_shows (J := fun es => Paced timeout t0 deadline [.send, .poll, .recv] False es ∧
        es.getLast? = some (.clock now)) fd true (deadline - now)).mono
      (fun _ h => Shows.snoc h.2 fun _ hp => ⟨hp.check (by omega), List.getLast?_concat⟩)
      (fun _ _ h => h) fun _ h => h.mono fun _ hp => hp.1.toDone) fun ready => ?_
    -- the time left is positive, and no more than the timeout: the clock has not gone back
    have hw : 0 < deadline → 0 < deadline - now ∧ deadline - now ≤ timeout := fun hd => by
      have := hle hd
      omega
    refine Spec.ite (fun hr => Spec.pure ?_) fun hr => Spec.ite (fun hr' => Spec.pure ?_) fun hr' =>
      Spec.pure ?_
    · rintro w ⟨es, ⟨hp, hl⟩, hat⟩
      exact .inr ⟨by omega, _, hat, (hp.poll (by simp) fd true ready hl (Int.le_refl _) hw).toDone⟩
    · rintro w ⟨es, ⟨hp, hl⟩, hat⟩
      exact .inr ⟨hr'.1, _, hat, (hp.poll (by simp) fd true ready hl (Int.le_refl _) hw).toDone⟩
    · rintro w ⟨es, ⟨hp, hl⟩, hat⟩
      exact .inl ⟨rfl, _, hat, hp.poll (by simp) fd true ready hl (Int.le_refl _) hw⟩
  · exact fun w h => absurd h.1 hnow

/-- After a round of a write: what is left to send, or what the write leaves. -/
def Writing (base : List Event) (timeout t0 deadline : Int) (buf : Bytes) :
    Nat ⊕ Int → World → Prop
  | .inl sent => Shows base timeout t0 (Paced timeout t0 deadline [.send] (sent < buf.length))
  | .inr rc => fun w =>
    (0 ≤ rc ∧ Shows base timeout t0 (Paced timeout t0 deadline [.send] False) w) ∨
      (rc < 0 ∧ Shows base timeout t0 (Done timeout t0 deadline) w)

/-- A write: it may be gone on from, or it ends the call. -/
theorem dbsWrite_shows (hle : 0 < deadline → deadline ≤ t0 + timeout) (fd : Int) (buf : Bytes) :
    Spec (Shows base timeout t0 (Paced timeout t0 deadline [.send] False))
    (dbsWrite fd buf deadline)
      (fun rc w => (0 ≤ rc ∧ Shows base timeout t0 (Paced timeout t0 deadline [.send] False) w) ∨
        (rc < 0 ∧ Shows base timeout t0 (Done timeout t0 deadline) w))
      (Shows base timeout t0 (Done timeout t0 deadline)) := by
  refine (Spec.loop
    (I := fun sent => Shows base timeout t0 (Paced timeout t0 deadline [.send] (sent < buf.length)))
    (dbsWrite_lowers fd buf deadline) (fun sent => ?_) 0).mono
    (fun _ h => h.mono fun _ hp => hp.mono (fun _ h => h) False.elim)
    (fun _ _ h => h) fun _ h => h
  refine Spec.mono (B := Writing base timeout t0 deadline buf) ?_ (fun _ h => h)
    (fun r _ h => by cases r <;> exact h) fun _ h => h
  refine Spec.ite (fun hall => Spec.pure ?_) fun hlt => ?_
  · rintro w ⟨es, hat, hp⟩
    exact .inl ⟨by omega, es, hat, hp.mono (fun _ h => h) fun h => by omega⟩
  have hw : 0 < deadline →
    (if 0 < deadline then dbusSocketMsgNosignal + dbusSysMsgDontwait else dbusSocketMsgNosignal) =
      dbusSocketMsgNosignal + dbusSysMsgDontwait := fun hd => if_pos hd
  refine Spec.bind ((sendto_shows fd _ _).mono (fun _ h => h) (fun _ _ h => h)
    fun _ h => h.halt) fun n =>
    Spec.ite (fun h4 => Spec.pure ?_) fun h4 => ?_
  · rintro w ⟨es, hp, hat⟩
    subst h4
    exact ⟨_, hat, hp.interrupted (by simp) fd _ hw (by omega)⟩
  have stop (rc : Int) (hrc : rc < 0) (J : List Event → Prop)
    (hJ : ∀ es, J es → Done timeout t0 deadline es) :
      Spec (Shows base timeout t0 J) (.inr <$> dbsCut sent rc : M (Nat ⊕ Int))
        (Writing base timeout t0 deadline buf)
        (Shows base timeout t0 (Done timeout t0 deadline)) := by
    rintro w ⟨es, hat, hj⟩
    exact .inr ⟨hrc, es, hat.same rfl, hJ es hj⟩
  refine Spec.mono
    (A := Shows base timeout t0 (Paced timeout t0 deadline (if n = -11 then [] else [.send]) False))
    ?_ (fun _ h => Shows.snoc h fun _ hp => hp.send (by simp) fd _ hw h4) (fun _ _ h => h)
    fun _ h => h
  refine Spec.ite (fun h11 => Spec.bind (dbsWriteFull_shows hle fd) fun rc => ?_) fun h11 => ?_
  · refine Spec.ite (fun h0 => Spec.pure ?_) fun h0 => ?_
    · rintro w (⟨-, es, hat, hp⟩ | ⟨hneg, -⟩)
      · exact ⟨es, hat, hp.mono (by simp) False.elim⟩
      · omega
    · rintro w (⟨h, -⟩ | ⟨hneg, h⟩)
      · exact absurd h h0
      · exact stop rc hneg (Done timeout t0 deadline) (fun _ h => h) w h
  · refine Spec.ite (fun hneg => stop n hneg _ fun _ h => h.toDone) fun hneg =>
      Spec.ite (fun _ => stop (-32) (by omega) _ fun _ h => h.toDone) fun _ => Spec.pure ?_
    rintro w ⟨es, hat, hp⟩
    have h11' : n ≠ -11 := h11
    rw [if_neg h11'] at hp
    exact ⟨es, hat, hp.mono (fun _ h => h) False.elim⟩

/-! ## The wait and the receive -/

theorem dbsWaitReadable_shows (hle : 0 < deadline → deadline ≤ t0 + timeout) (fd : Int) :
    Spec (Shows base timeout t0 (Paced timeout t0 deadline next False))
    (dbsWaitReadable fd deadline)
      (fun wait w => if wait = .timedOut then Shows base timeout t0 (Done timeout t0 deadline) w
        else Shows base timeout t0 (Paced timeout t0 deadline [.send, .recv] False) w)
      (Shows base timeout t0 (Done timeout t0 deadline)) := by
  refine Spec.bind (nowMs_shows.mono (fun _ h => h) (fun _ _ h => h) fun _ h => h.halt)
    fun now => ?_
  refine Spec.ite (fun hneg => Spec.pure ?_) fun hneg =>
    Spec.ite (fun hlate => Spec.pure ?_) fun hlate => ?_
  · rintro w ⟨-, es, hp, hat⟩
    exact ⟨_, hat, hp.clock now⟩
  · rintro w ⟨-, es, hp, hat⟩
    exact ⟨_, hat, hp.clock now⟩
  by_cases hnow : t0 ≤ now
  · refine Spec.bind
      ((poll_shows (J := fun es => Paced timeout t0 deadline [.send, .poll, .recv] False es ∧
        es.getLast? = some (.clock now)) fd false (deadline - now)).mono
      (fun _ h => Shows.snoc h.2 fun _ hp => ⟨hp.check (by omega), List.getLast?_concat⟩)
      (fun _ _ h => h) fun _ h => h.mono fun _ hp => hp.1.toDone) fun ready => ?_
    have hw : 0 < deadline → 0 < deadline - now ∧ deadline - now ≤ timeout := fun hd => by
      have := hle hd
      omega
    have go (w : World) : (∃ es, (Paced timeout t0 deadline [.send, .poll, .recv] False es ∧
          es.getLast? = some (.clock now)) ∧
          At base timeout t0 (es ++ [.poll fd false (deadline - now) ready]) w) →
        Shows base timeout t0 (Paced timeout t0 deadline [.send, .recv] False) w :=
      fun h => Shows.snoc h fun _ hp =>
        hp.1.poll (by simp) fd false ready hp.2 (Int.le_refl _) hw
    exact Spec.ite (fun _ => Spec.pure fun w h => (go w h).halt) fun _ =>
      Spec.ite (fun _ => Spec.pure go) fun _ =>
      Spec.ite (fun _ => Spec.pure go) fun _ => Spec.pure go
  · exact fun w h => absurd h.1 hnow

theorem dbusSysRecv_shows (fd : Int) (want : Nat) {flags : Nat} (hn : Attempt.recv ∈ next)
    (hw : 0 < deadline → flags = dbusSysMsgDontwait) :
    Spec (Shows base timeout t0 (Paced timeout t0 deadline next False)) (dbusSysRecv fd want flags)
      (fun _ => Shows base timeout t0 (Paced timeout t0 deadline [] False))
      (Shows base timeout t0 (Done timeout t0 deadline)) := by
  refine Spec.bind (FixesPace.paced ?_ next fun _ h => h) fun _ => ?_
  · exact Fixes.modify fun _ => rfl
  refine Spec.bind (Q := fun _ => Shows base timeout t0 (Paced timeout t0 deadline [] False))
    ((recvmsg_shows fd want flags).mono (fun _ h => h) (fun r w h => ?_) fun _ h => h.halt)
    fun r => ?_
  · obtain ⟨es, n, data, anc, trunc, hp, hat⟩ := h
    exact ⟨_, hat, hp.recv hn fd want n data anc trunc hw⟩
  obtain ⟨n, d, ctrl, trunc⟩ := r
  refine FixesPace.paced ?_ [] fun _ h => h
  refine Fixes.ite (Fixes.pure _) (Fixes.bind (Fixes.modify fun w => ?_) fun _ => Fixes.pure _)
  exact pace_emit { w with rx := _, rxtrunc := _ } closes_timed

theorem dbsRecv_shows (fd : Int) {flags : Nat} (hn : Attempt.recv ∈ next)
    (hw : 0 < deadline → flags = dbusSysMsgDontwait) :
    Spec (Shows base timeout t0 (Paced timeout t0 deadline next False)) (dbsRecv fd flags)
      (fun _ => Shows base timeout t0 (Paced timeout t0 deadline [] False))
      (Shows base timeout t0 (Done timeout t0 deadline)) := by
  refine Spec.bind (FixesPace.paced ?_ next fun _ h => h) fun want =>
    Spec.ite (fun _ => FixesPace.paced ?_ [] (by simp)) fun _ => ?_
  · exact Fixes.modifyGet fun _ => rfl
  · exact Fixes.bind (Fixes.modify fun _ => rfl) fun _ => Fixes.pure _
  refine Spec.bind (dbusSysRecv_shows fd want hn hw) fun r => FixesPace.paced ?_ [] fun _ h => h
  obtain ⟨got, d⟩ := r
  refine Fixes.ite (Fixes.pure _)
    (Fixes.ite (Fixes.bind (Fixes.modify fun _ => rfl) fun _ => Fixes.pure _) ?_)
  refine Fixes.bind Fixes.gets fun pos => Fixes.bind (Fixes.modify fun _ => rfl) fun _ =>
    Fixes.bind Fixes.gets fun rx =>
    Fixes.bind (queueFds_pace rx) fun moved => Fixes.bind Fixes.gets fun trunc => ?_
  exact Fixes.bind (Fixes.modify fun _ => rfl) fun _ =>
    Fixes.bind (emit_pace (by simp [Event.timed])) fun _ => Fixes.pure _

/-- After a round: another, or the end of the call. -/
def Goes (base : List Event) (timeout t0 deadline : Int) : Nat ⊕ Int → World → Prop
  | .inl _ => Shows base timeout t0 (Paced timeout t0 deadline [] False)
  | .inr _ => Shows base timeout t0 (Done timeout t0 deadline)

theorem stop_goes {x : M Int} (h : FixesPace x) :
    Spec (Shows base timeout t0 (Paced timeout t0 deadline next False)) (.inr <$> x : M (Nat ⊕ Int))
      (Goes base timeout t0 deadline) (Shows base timeout t0 (Done timeout t0 deadline)) :=
  Spec.map
    ((FixesPace.paced h [] (by simp)).mono (fun _ h => h) (fun _ _ h => h.halt) fun _ h => h)

/-- A wait for the reply. -/
theorem dbsAwait_shows (hle : 0 < deadline → deadline ≤ t0 + timeout) (fd : Int) (serial wm : Nat) :
    Spec (Shows base timeout t0 (Paced timeout t0 deadline [] False))
    (dbsAwait fd serial wm deadline)
      (fun _ => Shows base timeout t0 (Done timeout t0 deadline))
      (Shows base timeout t0 (Done timeout t0 deadline)) := by
  refine Spec.loop (I := fun _ => Shows base timeout t0 (Paced timeout t0 deadline [] False))
    (dbsAwait_lowers fd serial wm deadline) (fun reads => ?_) 0
  refine Spec.mono (B := Goes base timeout t0 deadline) ?_ (fun _ h => h)
    (fun r _ h => by cases r <;> exact h) fun _ h => h
  have receive {k : List Attempt} (hk : Attempt.recv ∈ k) (flags : Nat)
    (hf : 0 < deadline → flags = dbusSysMsgDontwait)
      (reads : Nat) : Spec (Shows base timeout t0 (Paced timeout t0 deadline k False))
      (dbsReceive fd flags deadline reads)
        (Goes base timeout t0 deadline) (Shows base timeout t0 (Done timeout t0 deadline)) := by
    refine Spec.bind (dbsRecv_shows fd hk hf) fun got => ?_
    refine Spec.ite (fun _ => Spec.pure fun _ h => h) fun _ => Spec.ite (fun _ => ?_) fun _ =>
      Spec.ite (fun _ => ?_) fun _ => ?_
    · exact Spec.ite (fun _ => Spec.pure fun _ h => h) fun _ => Spec.pure fun _ h => h.halt
    · exact stop_goes (ioFail_pace got)
    · exact Spec.pure fun _ h => h
  refine Spec.bind (FixesPace.paced (scan_pace serial wm) [] fun _ h => h) fun s => ?_
  cases s with
  | answered rc => exact Spec.pure fun _ h => h.halt
  | stopped r =>
    refine Spec.bind (FixesPace.paced (frameFault_pace r) [] fun _ h => h) fun fault => ?_
    refine Spec.ite (fun _ => Spec.pure fun _ h => h.halt) fun _ =>
      Spec.ite (fun harmed => ?_) fun hunarmed => ?_
    · refine Spec.bind (dbsWaitReadable_shows hle fd) fun wait => ?_
      cases wait with
      | timedOut => exact Spec.pure fun _ h => h
      | again => exact Spec.pure fun _ h => h.mono fun _ hp => hp.mono (by simp) id
      | failed e => exact stop_goes (ioFail_pace e)
      | ready => exact receive (k := [.send, .recv]) (by simp) _ (fun _ => rfl) reads
    · refine Spec.ite (fun _ => Spec.pure fun _ h => h.halt) fun _ => ?_
      exact (receive (k := [.recv]) (by simp) 0 (fun hd => absurd hd hunarmed) _).mono
        (fun _ h => h.mono fun _ hp => hp.unarmed (by omega) _) (fun _ _ h => h) fun _ h => h

/-- The wait for the server's lines. -/
theorem saslRound_shows (hle : 0 < deadline → deadline ≤ t0 + timeout) (fd : Int) (reads : Nat) :
    Spec (Shows base timeout t0 (Paced timeout t0 deadline [] False))
    (dbsSaslRound fd deadline reads)
      (Goes base timeout t0 deadline) (Shows base timeout t0 (Done timeout t0 deadline)) := by
  have receive {k : List Attempt} (hk : Attempt.recv ∈ k) (space flags : Nat)
      (hf : 0 < deadline → flags = dbusSysMsgDontwait) (reads : Nat) :
      Spec (Shows base timeout t0 (Paced timeout t0 deadline k False))
      (dbsSaslReceive fd space flags deadline reads)
        (Goes base timeout t0 deadline) (Shows base timeout t0 (Done timeout t0 deadline)) := by
    refine Spec.bind (dbusSysRecv_shows fd space hk hf) fun r => ?_
    obtain ⟨got, d⟩ := r
    refine Spec.bind (FixesPace.paced (Fixes.bind Fixes.gets fun rx => emit_pace closes_timed) []
      fun _ h => h) fun _ => ?_
    refine Spec.ite (fun _ => Spec.pure fun _ h => h) fun _ => Spec.ite (fun _ => ?_) fun _ =>
      Spec.ite (fun _ => Spec.pure fun _ h => h.halt) fun _ =>
        Spec.ite (fun _ => Spec.pure fun _ h => h.halt) fun _ => ?_
    · exact Spec.ite (fun _ => Spec.pure fun _ h => h) fun _ => Spec.pure fun _ h => h.halt
    refine Spec.bind (FixesPace.paced ?_ [] fun _ h => h) fun _ =>
      Spec.bind (FixesPace.paced ?_ [] fun _ h => h) fun s => ?_
    · exact Fixes.modify fun _ => rfl
    · exact Fixes.modifyGet fun _ => rfl
    cases s with
    | needMore => exact Spec.pure fun _ h => h
    | _ => exact Spec.pure fun _ h => h.halt
  refine Spec.bind (FixesPace.paced Fixes.gets [] fun _ h => h) fun space =>
    Spec.ite (fun _ => Spec.pure fun _ h => h.halt) fun _ =>
      Spec.ite (fun harmed => ?_) fun hunarmed => ?_
  · refine Spec.bind (dbsWaitReadable_shows hle fd) fun wait => ?_
    cases wait with
    | timedOut => exact Spec.pure fun _ h => h
    | again => exact Spec.pure fun _ h => h.mono fun _ hp => hp.mono (by simp) id
    | failed e => exact Spec.pure fun _ h => h.halt
    | ready => exact receive (k := [.send, .recv]) (by simp) space _ (fun _ => rfl) reads
  · refine Spec.ite (fun _ => Spec.pure fun _ h => h.halt) fun _ => ?_
    exact (receive (k := [.recv]) (by simp) space 0 (fun hd => absurd hd hunarmed) _).mono
      (fun _ h => h.mono fun _ hp => hp.unarmed (by omega) _) (fun _ _ h => h) fun _ h => h

end

/-! ## The sends -/

def Event.isSend : Event → Bool
  | .send _ _ _ _ => true
  | _ => false

/-- The sends of the trace. -/
def World.sends (w : World) : List Event := w.trace.filter Event.isSend

abbrev FixesSends {α : Type} (x : M α) : Prop := Fixes World.sends x

theorem sends_timed (w : World) : w.sends = w.timed.filter Event.isSend := by
  rw [World.sends, World.timed, List.filter_filter]
  refine List.filter_congr fun e _ => ?_
  cases e <;> rfl

theorem FixesPace.sends {α : Type} {x : M α} (h : FixesPace x) : FixesSends x := fun w => by
  have shown : (x w).state.timed = w.timed := congrArg Prod.fst (h w)
  rw [sends_timed, sends_timed, shown]

theorem emit_sends (w : World) {es : List Event} (h : ∀ e ∈ es, e.isSend = false) :
    (w.emit es).sends = w.sends := by
  have none : es.filter Event.isSend = [] := List.filter_eq_nil_iff.mpr fun e he => by simp [h e he]
  rw [World.sends, emit_trace, List.filter_append, none, List.append_nil, World.sends]

theorem Rests.sends {α : Type} {x : M α} (h : Rests x) : FixesSends x := fun w => by
  obtain ⟨es, hu⟩ := h w
  have none : es.filter Event.isSend = [] := List.filter_eq_nil_iff.mpr fun e he => by
    have quiet := hu.quiet e he
    cases e with
    | send fd offered flags n => cases quiet
    | _ => simp [Event.isSend]
  rw [World.sends, hu.trace, List.filter_append, none, List.append_nil, World.sends]

theorem recvmsg_sends (fd : Int) (want flags : Nat) : FixesSends (sysRecvmsg fd want flags) := by
  refine Fixes.query fun w a w' h => ?_
  cases hc : w.k.recv with
  | nil => simp [hc] at h
  | cons c rest =>
    simp only [hc] at h
    split_ifs at h
    · cases h
      exact emit_sends { w with k := { w.k with recv := rest } } (by simp [Event.isSend])
    · cases h
      exact emit_sends { w with k := { w.k with recv := rest, inbox := _ } }
        (by simp [Event.isSend])

theorem sysRecv_sends (fd : Int) (want flags : Nat) : FixesSends (dbusSysRecv fd want flags) := by
  refine Fixes.bind (Fixes.modify fun _ => rfl) fun _ =>
    Fixes.bind (recvmsg_sends fd want flags) fun r => ?_
  obtain ⟨n, d, ctrl, trunc⟩ := r
  refine Fixes.ite (Fixes.pure _) (Fixes.bind (Fixes.modify fun w => ?_) fun _ => Fixes.pure _)
  refine emit_sends { w with rx := _, rxtrunc := _ } fun e he => ?_
  obtain ⟨fd, -, rfl⟩ := List.mem_map.mp he
  rfl

theorem recv_sends (fd : Int) (flags : Nat) : FixesSends (dbsRecv fd flags) := by
  refine Fixes.bind (Fixes.modifyGet fun _ => rfl) fun want => Fixes.ite
    (Fixes.bind (Fixes.modify fun _ => rfl) fun _ => Fixes.pure _)
    (Fixes.bind (sysRecv_sends fd want flags) fun r => ?_)
  obtain ⟨got, d⟩ := r
  refine Fixes.ite (Fixes.pure _)
    (Fixes.ite (Fixes.bind (Fixes.modify fun _ => rfl) fun _ => Fixes.pure _) ?_)
  refine Fixes.bind Fixes.gets fun _ => Fixes.bind (Fixes.modify fun _ => rfl) fun _ =>
    Fixes.bind Fixes.gets fun rx =>
    Fixes.bind (queueFds_pace rx).sends fun _ => Fixes.bind Fixes.gets fun _ => ?_
  exact Fixes.bind (Fixes.modify fun _ => rfl) fun _ =>
    Fixes.bind (emit_pace (by simp [Event.timed])).sends fun _ => Fixes.pure _

theorem await_sends (fd : Int) (serial wm : Nat) (deadline : Int) :
    FixesSends (dbsAwait fd serial wm deadline) := by
  have receive (flags : Nat) (reads : Nat) : FixesSends (dbsReceive fd flags deadline reads) :=
    Fixes.bind (recv_sends fd flags) fun _ =>
      Fixes.ite (Fixes.pure _) (Fixes.ite (Fixes.ite (Fixes.pure _) (Fixes.pure _))
      (Fixes.ite (Fixes.map (ioFail_pace _).sends) (Fixes.pure _)))
  refine Fixes.loop (fun reads => Fixes.bind (scan_pace serial wm).sends fun s => ?_) 0
  cases s with
  | answered rc => exact Fixes.pure _
  | stopped r =>
    refine Fixes.bind (frameFault_pace r).sends fun _ =>
      Fixes.ite (Fixes.pure _) (Fixes.ite ?_ (Fixes.ite (Fixes.pure _) (receive _ _)))
    refine Fixes.bind (dbsWaitReadable_rests fd deadline).sends fun wait => ?_
    cases wait with
    | timedOut => exact Fixes.pure _
    | again => exact Fixes.pure _
    | failed e => exact Fixes.map (ioFail_pace e).sends
    | ready => exact receive _ _

theorem saslRound_sends (fd deadline : Int) (reads : Nat) :
    FixesSends (dbsSaslRound fd deadline reads) := by
  have receive (space flags reads : Nat) :
      FixesSends (dbsSaslReceive fd space flags deadline reads) := by
    refine Fixes.bind (sysRecv_sends fd space flags) fun r => ?_
    obtain ⟨got, d⟩ := r
    refine Fixes.bind (Fixes.bind Fixes.gets fun rx => (emit_pace closes_timed).sends) fun _ => ?_
    refine Fixes.ite (Fixes.pure _) (Fixes.ite (Fixes.ite (Fixes.pure _) (Fixes.pure _))
      (Fixes.ite (Fixes.pure _) (Fixes.ite (Fixes.pure _) ?_)))
    refine Fixes.bind (Fixes.modify fun _ => rfl) fun _ =>
      Fixes.bind (Fixes.modifyGet fun _ => rfl) fun s => ?_
    cases s <;> exact Fixes.pure _
  refine Fixes.bind Fixes.gets fun space => Fixes.ite (Fixes.pure _) (Fixes.ite ?_
    (Fixes.ite (Fixes.pure _) (receive _ _ _)))
  refine Fixes.bind (dbsWaitReadable_rests fd deadline).sends fun wait => ?_
  cases wait with
  | ready => exact receive _ _ _
  | _ => exact Fixes.pure _

/-! ## The sends of a write -/

/-- A send follows an interrupted one. -/
def Resent (qs : List Event) : Prop := ∃ e ∈ qs.dropLast, e.interrupted = true

theorem not_resent_nil : ¬ Resent [] := by
  rintro ⟨e, he, -⟩
  cases he

theorem Resent.ne_nil {qs : List Event} (h : Resent qs) : qs ≠ [] := by
  rintro rfl
  exact not_resent_nil h

theorem resent_cons {e : Event} {qs : List Event} :
    Resent (e :: qs) ↔ (e.interrupted = true ∧ qs ≠ []) ∨ Resent qs := by
  cases qs with
  | nil => simp [Resent]
  | cons q qs => simp [Resent]

/-- The clock reads, and no reading is negative. -/
structure Clocked (w : World) : Prop where
  hook : w.dbs.clockFail = 0
  reads : ∀ a ∈ w.k.clock, 0 ≤ a.ms

/-- A reading takes one answer of the clock. -/
theorem nowMs_run {w : World} (hook : w.dbs.clockFail = 0) : dbusSessionNowMs w = sysClock w := by
  have same : ({ w with dbs := { w.dbs with clockFail := 0 } } : World) = w := by rw [← hook]
  unfold dbusSessionNowMs
  rw [bind_done (gets_run _ _), hook, if_neg (by decide)]
  show sysClock { w with dbs := { w.dbs with clockFail := if 1 < (0 : Int) then 0 - 1 else 0 } } = _
  rw [if_neg (by decide), same]

theorem sysClock_nil {w : World} (h : w.k.clock = []) : sysClock w = .waiting w := by
  simp [sysClock, Prog.query, h]

theorem sysClock_cons {w : World} {a : ClockAnswer} {clock : List ClockAnswer}
    (h : w.k.clock = a :: clock) : sysClock w =
    .done a.ms ({ w with k := { w.k with clock := clock } }.emit [.clock a.ms]) := by
  simp [sysClock, Prog.query, h]

/-- A full send buffer: the write goes on exactly when the wait ends in time. -/
theorem writeFull_waits {deadline : Int} (hd : 0 < deadline) (fd : Int) {v : World}
    (hv : Clocked v) :
    (∀ clock poll, waitedOut deadline v.k.clock v.k.poll = some (clock, poll) →
      ∃ v', dbsWriteFull fd deadline v = .done 0 v' ∧ v'.k.send = v.k.send ∧
        v'.k.clock = clock ∧ v'.k.poll = poll ∧ Clocked v') ∧
    (waitedOut deadline v.k.clock v.k.poll = none →
      (dbsWriteFull fd deadline v).value ≠ some 0) := by
  unfold dbsWriteFull
  rw [if_neg (by omega), bind_run, nowMs_run hv.hook]
  cases hc : v.k.clock with
  | nil =>
    rw [sysClock_nil hc]
    simp [waitedOut, Outcome.value]
  | cons now clock =>
    have h0 := hv.reads now (by simp [hc])
    have later : ∀ a ∈ clock, 0 ≤ a.ms := fun a ha => hv.reads a (by simp [hc, ha])
    rw [sysClock_cons hc]
    dsimp only
    rw [if_neg (by omega)]
    by_cases late : deadline ≤ now.ms
    · rw [if_pos late]
      have spent : ¬ now.ms < deadline := by omega
      cases v.k.poll with
      | nil => simp [waitedOut, Outcome.value, pure, ret]
      | cons ready poll => simp [waitedOut, spent, Outcome.value, pure, ret]
    rw [if_neg late, bind_run]
    have early : now.ms < deadline := by omega
    cases v.k.poll with
    | nil => simp [waitedOut, sysPoll, Prog.query, Outcome.value]
    | cons ready poll =>
      simp only [sysPoll, Prog.query, emit_k]
      by_cases go : 0 < ready ∨ ready = -4
      · rw [if_neg (by omega), if_neg (by omega)]
        refine ⟨fun clock' poll' h => ?_, fun h => ?_⟩
        · simp only [waitedOut, early, go, and_self, if_true, Option.some.injEq,
            Prod.mk.injEq] at h
          obtain ⟨rfl, rfl⟩ := h
          exact ⟨_, rfl, rfl, rfl, rfl, hv.hook, later⟩
        · simp [waitedOut, early, go] at h
      · refine ⟨fun clock' poll' h => ?_, fun _ => ?_⟩
        · simp [waitedOut, go] at h
        · by_cases hr : ready = 0
          · simp [hr, Outcome.value, pure, ret]
          · rw [if_neg hr, if_pos (by omega)]
            simp [Outcome.value, pure, ret, hr]

/-- A write sends on after an interrupt exactly when the kernel's answers say so. -/
theorem write_resends {deadline : Int} (hd : 0 < deadline) (fd : Int) (buf : Bytes) :
    ∀ (send : List Int) (sent : Nat) (v : World), v.k.send = send → Clocked v →
      ∃ qs, (Prog.loop (·.k.send.length) (dbsWriteRound fd buf deadline) sent v).state.sends =
          v.sends ++ qs ∧
        (Resent qs ↔ resends deadline send v.k.clock v.k.poll (buf.length - sent) = true) ∧
        (qs = [] ↔ buf.length ≤ sent ∨ send = []) := by
  have lowers := dbsWrite_lowers fd buf deadline
  intro send
  induction send with
  | nil =>
    intro sent v hs hv
    have still :
        (Prog.loop (·.k.send.length) (dbsWriteRound fd buf deadline) sent v).state = v := by
      by_cases hall : buf.length ≤ sent
      · exact congrArg Outcome.state (loop_stops lowers (show dbsWriteRound fd buf deadline sent v =
          .done (.inr (sent : Int)) v by rw [dbsWriteRound, if_pos hall]; rfl))
      · have waits : dbsWriteRound fd buf deadline sent v = .waiting v := by
          rw [dbsWriteRound, if_neg hall]
          exact bind_waiting (by simp [sysSendto, Prog.query, hs])
        exact congrArg Outcome.state (loop_waits lowers waits)
    refine ⟨[], by rw [still, List.append_nil], ?_, by simp⟩
    simp [resends, not_resent_nil]
  | cons n rest ih =>
    intro sent v hs hv
    by_cases hall : buf.length ≤ sent
    · have run : dbsWriteRound fd buf deadline sent v = .done (.inr (sent : Int)) v := by
        rw [dbsWriteRound, if_pos hall]
        rfl
      refine ⟨[], ?_, ?_, by simp [hall]⟩
      · rw [loop_stops lowers run, Outcome.state_done, List.append_nil]
      · simp [resends, not_resent_nil, Nat.sub_eq_zero_of_le hall]
    have left : buf.length - sent ≠ 0 := by omega
    have offered : (buf.drop sent).length = buf.length - sent := List.length_drop
    let flags :=
      if 0 < deadline then dbusSocketMsgNosignal + dbusSysMsgDontwait else dbusSocketMsgNosignal
    let got : Int := min n (buf.drop sent).length
    let e : Event := .send fd (buf.drop sent) flags got
    let v₁ : World := { v with k := { v.k with send := rest } }.emit [e]
    have clocked : Clocked v₁ := ⟨hv.hook, hv.reads⟩
    have shown : v₁.sends = v.sends ++ [e] := List.filter_append ..
    have answer : sysSendto fd (buf.drop sent) flags v = .done got v₁ := by
      simp [sysSendto, Prog.query, hs, got, e, v₁]
    have round : dbsWriteRound fd buf deadline sent v = (if got = -4 then pure (.inl sent)
        else if got = dbusSessionEagain then do
          let stop ← dbsWriteFull fd deadline
          if stop = 0 then pure (.inl sent) else .inr <$> dbsCut sent stop
        else if got < 0 then .inr <$> dbsCut sent got
        else if got = 0 then .inr <$> dbsCut sent (-32)
        else pure (.inl (sent + got.toNat)) : M (Nat ⊕ Int)) v₁ := by
      rw [dbsWriteRound, if_neg hall]
      exact bind_done answer
    -- the write goes on from `v'`, or ends with this send
    have go {sent' : Nat} {v' : World}
        (run : dbsWriteRound fd buf deadline sent v = .done (.inl sent') v')
        (hk : v'.k.send = rest) (hc : Clocked v') (same : v'.sends = v₁.sends) :
        ∃ qs, (Prog.loop (·.k.send.length) (dbsWriteRound fd buf deadline) sent v).state.sends =
            v.sends ++ e :: qs ∧
          (Resent qs ↔ resends deadline rest v'.k.clock v'.k.poll (buf.length - sent') = true) ∧
          (qs = [] ↔ buf.length ≤ sent' ∨ rest = []) := by
      obtain ⟨qs, hq, again, none⟩ := ih sent' v' hk hc
      refine ⟨qs, ?_, again, none⟩
      rw [loop_next lowers run, hq, same, shown, List.append_assoc]
      rfl
    have last (quiet : e.interrupted = false)
        (spent : resends deadline (n :: rest) v.k.clock v.k.poll (buf.length - sent) = false)
        (same : (Prog.loop (·.k.send.length) (dbsWriteRound fd buf deadline) sent v).state.sends =
          v₁.sends) :
        ∃ qs, (Prog.loop (·.k.send.length) (dbsWriteRound fd buf deadline) sent v).state.sends =
            v.sends ++ qs ∧
          (Resent qs ↔ resends deadline (n :: rest) v.k.clock v.k.poll (buf.length - sent) =
            true) ∧ (qs = [] ↔ buf.length ≤ sent ∨ n :: rest = []) :=
      ⟨[e], same.trans shown, by simp [resent_cons, quiet, spent, not_resent_nil], by simp [hall]⟩
    by_cases h4 : n = -4
    · have hg : got = -4 := by omega
      obtain ⟨qs, hq, again, none⟩ := go (round.trans (by rw [if_pos hg]; rfl)) rfl clocked rfl
      refine ⟨e :: qs, hq, ?_, by simp [hall]⟩
      have cut : e.interrupted = true := by simp [e, Event.interrupted, hg]
      have more : qs ≠ [] ↔ rest ≠ [] := by simp [none, hall]
      rw [resent_cons, resends, if_neg left, if_pos h4]
      simp only [cut, true_and, more]
      constructor
      · rintro (h | h)
        · simpa using h
        · simpa using more.mp h.ne_nil
      · intro h
        exact .inl (by simpa using h)
    have hg : got ≠ -4 := by omega
    have quiet : e.interrupted = false := by simp [e, Event.interrupted, hg]
    rw [if_neg hg] at round
    by_cases h11 : n = dbusSessionEagain
    · have hg11 : got = dbusSessionEagain := by
        simp only [dbusSessionEagain] at h11 ⊢
        omega
      rw [if_pos hg11] at round
      have full := writeFull_waits hd fd clocked
      have same := (dbsWriteFull_rests fd deadline).sends v₁
      cases hw : waitedOut deadline v.k.clock v.k.poll with
      | some left' =>
        obtain ⟨clock, poll⟩ := left'
        obtain ⟨v', run, hk, rfl, rfl, hc⟩ := full.1 clock poll hw
        rw [run, Outcome.state_done] at same
        obtain ⟨qs, hq, again, none⟩ := go (round.trans (bind_done run)) hk hc same
        refine ⟨e :: qs, hq, ?_, by simp [hall]⟩
        rw [resent_cons, resends, if_neg left, if_neg h4, if_pos h11, hw]
        simp only [quiet, false_and, false_or, again, reduceCtorEq]
      | none =>
        have spent :
            resends deadline (n :: rest) v.k.clock v.k.poll (buf.length - sent) = false := by
          rw [resends, if_neg left, if_neg h4, if_pos h11, hw]
        refine last quiet spent ?_
        cases hx : dbsWriteFull fd deadline v₁ with
        | waiting s =>
          rw [hx] at same
          rw [loop_waits lowers (round.trans (bind_waiting hx))]
          exact same
        | done rc s =>
          have hrc : rc ≠ 0 := by
            have := full.2 hw
            rw [hx] at this
            simpa [Outcome.value] using this
          rw [hx] at same
          rw [loop_stops lowers (round.trans ((bind_done hx).trans (by rw [if_neg hrc]; rfl)))]
          exact same
    have hg11 : got ≠ dbusSessionEagain := by
      simp only [dbusSessionEagain] at h11 ⊢
      omega
    rw [if_neg hg11] at round
    by_cases hpos : 0 < n
    · rw [if_neg (by omega), if_neg (by omega)] at round
      obtain ⟨qs, hq, again, none⟩ := go round rfl clocked rfl
      refine ⟨e :: qs, hq, ?_, by simp [hall]⟩
      have less : buf.length - (sent + got.toNat) = buf.length - sent - n.toNat := by omega
      rw [resent_cons, resends, if_neg left, if_neg h4, if_neg h11, if_neg (by omega), ← less]
      simp only [quiet, false_and, false_or, again, reduceCtorEq]
      rfl
    · have spent :
          resends deadline (n :: rest) v.k.clock v.k.poll (buf.length - sent) = false := by
        rw [resends, if_neg left, if_neg h4, if_neg h11, if_pos (by omega)]
      refine last quiet spent ?_
      by_cases hneg : got < 0
      · rw [if_pos hneg] at round
        exact congrArg (fun o => (Outcome.state o).sends) (loop_stops lowers round)
      · rw [if_neg hneg, if_pos (by omega)] at round
        exact congrArg (fun o => (Outcome.state o).sends) (loop_stops lowers round)

/-- The sends of a write, and of what follows it. -/
theorem write_then_resends {deadline : Int} (hd : 0 < deadline) (fd : Int) (buf : Bytes)
    {k : Int → M Int} (hk : ∀ n, FixesSends (k n)) {v : World} (hv : Clocked v) :
    ∃ qs, ((dbsWrite fd buf deadline >>= k) v).state.sends = v.sends ++ qs ∧
      (Resent qs ↔ resends deadline v.k.send v.k.clock v.k.poll buf.length = true) := by
  obtain ⟨qs, hq, again, -⟩ := write_resends hd fd buf v.k.send 0 v rfl hv
  refine ⟨qs, ?_, again⟩
  have hw : (dbsWrite fd buf deadline v).state.sends = v.sends ++ qs := hq
  rw [bind_run]
  cases hx : dbsWrite fd buf deadline v with
  | waiting s =>
    rw [hx] at hw
    exact hw
  | done n s =>
    rw [hx] at hw
    exact (hk n s).trans hw

/-- No send follows an interrupted one, of all the events or of the sends alone. -/
theorem not_resent_iff {es : List Event} : ¬ Resent (es.filter Event.isSend) ↔
    ∀ before e since, es = before ++ e :: since → e.interrupted = true →
      ∀ e' ∈ since, e'.attempt ≠ some .send := by
  have sends (e : Event) : e.attempt = some .send ↔ e.isSend = true := by
    cases e <;> simp [Event.attempt, Event.isSend]
  induction es with
  | nil => simp [not_resent_nil]
  | cons x es ih =>
    have split : (∀ before e since, x :: es = before ++ e :: since → e.interrupted = true →
        ∀ e' ∈ since, e'.attempt ≠ some .send) ↔
        (x.interrupted = true → ∀ e' ∈ es, e'.attempt ≠ some .send) ∧
        ∀ before e since, es = before ++ e :: since → e.interrupted = true →
          ∀ e' ∈ since, e'.attempt ≠ some .send := by
      refine ⟨fun h => ⟨fun hi => h [] x es rfl hi, fun before e since he => ?_⟩, fun h => ?_⟩
      · exact h (x :: before) e since (by rw [he]; rfl)
      · intro before e since he
        cases before with
        | nil =>
          obtain ⟨rfl, rfl⟩ := List.cons.inj he
          exact h.1
        | cons y before => exact h.2 before e since (List.cons.inj he).2
    refine Iff.trans ?_ (split.trans (and_congr_right' ih.symm)).symm
    cases hx : x.isSend with
    | false =>
      have quiet : x.interrupted = false := by cases x <;> first | rfl | cases hx
      rw [List.filter_cons_of_neg (by simp [hx])]
      simp [quiet]
    | true =>
      rw [List.filter_cons_of_pos hx, resent_cons, not_or, not_and_or, not_not,
        List.filter_eq_nil_iff]
      refine and_congr_left fun _ => ?_
      simp only [ne_eq, sends]
      rw [imp_iff_not_or]

/-! ## When the deadline bounds the call -/

/-- `w` shows `base`, its clock reads and never goes back. -/
structure Start (base : List Event) (timeout : Int) (w : World) : Prop where
  shown : w.timed = base
  hook : w.dbs.clockFail = 0
  timeout : w.dbs.timeoutMs = timeout
  reads : ∀ a ∈ w.k.clock, 0 ≤ a.rc ∧ 0 ≤ a.ms
  sorted : (w.k.clock.map ClockAnswer.ms).Pairwise (· ≤ ·)

theorem Start.same {base : List Event} {timeout : Int} {w w' : World} (h : Start base timeout w)
    (hp : w'.pace = w.pace) : Start base timeout w' := by
  have hk : w'.k.clock = w.k.clock := congrArg (·.2.1) hp
  refine ⟨(congrArg Prod.fst hp).trans h.shown, (congrArg (·.2.2.1) hp).trans h.hook,
    (congrArg (·.2.2.2) hp).trans h.timeout, ?_, ?_⟩
  · rw [hk]
    exact h.reads
  · rw [hk]
    exact h.sorted

theorem Bounded.nil (timeout : Int) : Bounded timeout [] :=
  ⟨fun _ ht => (nomatch ht), fun _ ht => (nomatch ht), Upheld.nil _⟩

theorem Bounded.spared {timeout t0 : Int} {es : List Event}
    (hd : Done timeout t0 (int64 (t0 + timeout)) es) (h : Bounded timeout es) :
    (0 < t0 + timeout ∧ t0 + timeout < 9223372036854775808) ∧
      ¬ Resent (es.filter Event.isSend) := by
  have hpos := h.armed t0 hd.first
  have he := h.exact t0 hd.first
  refine ⟨?_, not_resent_iff.mpr fun before e since hs hi e' he' => ?_⟩
  · unfold int64 at hpos he
    omega
  obtain ⟨x, rest, rfl⟩ : ∃ x rest, since = x :: rest := by
    cases since with
    | nil => cases he'
    | cons x rest => exact ⟨x, rest, rfl⟩
  have hs' : es = (before ++ [e]) ++ x :: rest := by rw [hs, List.append_assoc]; rfl
  -- what comes right after an interrupted send is a send, and it is owed a check
  have again := (hd.kept hpos _ x rest hs').resent (cut_snoc.mpr hi)
  obtain ⟨-, t, -, -, hn, -⟩ := h.attempts _ x rest hs' .send again
  refine absurd (owed_snoc.mpr (.inl ⟨?_, ?_⟩)) hn
  · cases e <;> first | rfl | cases hi
  · cases e with
    | send fd offered flags n => simp only [Event.idle, Bool.or_eq_true]; exact .inl hi
    | _ => cases hi

theorem Done.bounded {timeout t0 : Int} {es : List Event}
    (hd : Done timeout t0 (int64 (t0 + timeout)) es)
    (positive : 0 < t0 + timeout ∧ t0 + timeout < 9223372036854775808)
    (spared : ¬ Resent (es.filter Event.isSend)) : Bounded timeout es := by
  have sum : int64 (t0 + timeout) = t0 + timeout := int64_eq (by omega) positive.2
  have only {t : Int} (ht : (readings es).head? = some t) : t = t0 :=
    Option.some.inj (ht.symm.trans hd.first)
  rw [sum] at hd
  refine ⟨fun t ht => ?_, fun t ht => ?_, fun before e since hs a ha => ?_⟩
  · rw [only ht, sum]
    exact positive.1
  · rw [only ht, sum]
  obtain ⟨hw, hf, hp, ho, hx⟩ := (hd.kept positive.1 before e since hs).attempt a ha
  refine ⟨hw, t0, hf, hp, fun howed => ?_, hx⟩
  obtain ⟨before', x, since', rfl, hxa, hxi, hq⟩ := howed
  cases hi : x.interrupted with
  | false => exact ho ⟨before', x, since', rfl, hxa, by simp [Event.parked, hxi, hi], hq⟩
  | true =>
    have hsend : a = .send := by
      cases x with
      | send fd offered flags n => cases hxa; rfl
      | _ => cases hi
    subst hsend
    exact not_resent_iff.mp spared before' x (since' ++ e :: since) (by rw [hs]; simp) hi e
      (by simp) ha

theorem ms_lt {a : ClockAnswer} (h : 0 ≤ a.rc) : a.ms < 9223372036854775808 := by
  unfold ClockAnswer.ms int64
  rw [if_neg (by omega)]
  omega

section
variable {base : List Event} {timeout : Int}

/-- The first reading: no later one is below it. -/
theorem Start.first {w : World} (h : Start base timeout w) {first : ClockAnswer}
    {clock : List ClockAnswer} (hc : w.k.clock = first :: clock) :
    At base timeout first.ms [.clock first.ms]
      ({ w with k := { w.k with clock := clock } }.emit [.clock first.ms]) := by
  have hreads := h.reads
  have hsorted := h.sorted
  rw [hc] at hreads hsorted
  rw [List.map_cons, List.pairwise_cons] at hsorted
  have here : At base timeout first.ms [] { w with k := { w.k with clock := clock } } :=
    ⟨by rw [List.append_nil]; exact h.shown, h.hook, h.timeout, fun a ha =>
      ⟨(hreads a (List.mem_cons_of_mem _ ha)).1, hsorted.1 _ (List.mem_map_of_mem ha)⟩⟩
  exact here.snoc rfl rfl (fun a ha => ha) rfl

/-- What may follow the first reading. -/
theorem first_paced (t0 deadline : Int) : Paced timeout t0 deadline [.send] False [.clock t0] := by
  refine ⟨⟨rfl, fun _ => (Upheld.nil _).snoc
    ⟨fun _ ha => (nomatch ha), fun hc => by simp [Cut] at hc⟩⟩, ?_, ?_, ?_⟩
  · rintro - ⟨ms, hm, -⟩
    cases hm
  · intro _ a _ ho
    rw [← List.nil_append [Event.clock t0], owed_snoc] at ho
    rcases ho with ⟨ha, -⟩ | ⟨⟨before, e, since, hs, -⟩, -⟩
    · cases ha
    · simp at hs
  · intro hc
    simp [Cut, Event.interrupted] at hc

/-- What follows the first reading, under the deadline computed from it, is bounded exactly
when the kernel serves its `len` bytes. -/
theorem armed_iff {w : World} {f : Int → M Int} {len : Nat} (h0 : 0 ≤ timeout)
    (h1 : timeout ≤ 86400000) (start : Start base timeout w)
    (hf : ∀ t0 deadline : Int, (0 < deadline → deadline ≤ t0 + timeout) →
      Spec (Shows base timeout t0 (Paced timeout t0 deadline [.send] False)) (f deadline)
        (fun _ => Shows base timeout t0 (Done timeout t0 deadline))
        (Shows base timeout t0 (Done timeout t0 deadline)))
    (hsends : ∀ (deadline : Int) (v : World), 0 < deadline → Clocked v →
      ∃ qs, (f deadline v).state.sends = v.sends ++ qs ∧
        (Resent qs ↔ resends deadline v.k.send v.k.clock v.k.poll len = true)) :
    Bounded timeout (((do
        let t0 ← dbusSessionNowMs
        let timeout ← Prog.gets (·.dbs.timeoutMs)
        f (if 0 ≤ t0 then int64 (t0 + timeout) else 0) : M Int) w).state.timed.drop base.length) ↔
      Serves timeout len w.k := by
  cases hc : w.k.clock with
  | nil =>
    have waits : dbusSessionNowMs w = .waiting w := by rw [nowMs_run start.hook, sysClock_nil hc]
    rw [bind_waiting waits, Outcome.state_waiting, start.shown, List.drop_length]
    refine ⟨fun _ first clock h => ?_, fun _ => Bounded.nil timeout⟩
    rw [hc] at h
    cases h
  | cons first clock =>
    have reads := start.reads first (by simp [hc])
    have small := ms_lt reads.1
    have hat := start.first hc
    have sends : ({ w with k := { w.k with clock := clock } }.emit [.clock first.ms]).sends =
      w.sends := emit_sends _ (by simp [Event.isSend])
    have send : ({ w with k := { w.k with clock := clock } }.emit
      [.clock first.ms]).k = { w.k with clock := clock } := rfl
    have read : dbusSessionNowMs w = .done first.ms _ :=
      (nowMs_run start.hook).trans (sysClock_cons hc)
    generalize hv : ({ w with k := { w.k with clock := clock } }.emit [.clock first.ms]) = v at *
    have run : ((do
        let t0 ← dbusSessionNowMs
        let timeout ← Prog.gets (·.dbs.timeoutMs)
        f (if 0 ≤ t0 then int64 (t0 + timeout) else 0) : M Int) w) =
        f (int64 (first.ms + timeout)) v := by
      rw [bind_done read, bind_done (gets_run _ _), if_pos reads.2, hat.timeout]
    have hle : 0 < int64 (first.ms + timeout) →
        int64 (first.ms + timeout) ≤ first.ms + timeout := by
      unfold int64
      omega
    obtain ⟨es, done, hd⟩ : Shows base timeout first.ms
        (Done timeout first.ms (int64 (first.ms + timeout)))
        (f (int64 (first.ms + timeout)) v).state := by
      have := hf first.ms _ hle v ⟨_, hat, first_paced first.ms _⟩
      cases hx : f (int64 (first.ms + timeout)) v with
      | done a s =>
        rw [hx] at this
        exact this
      | waiting s =>
        rw [hx] at this
        exact this
    rw [run, done.shown, List.drop_left]
    have serves : Serves timeout len w.k ↔
        (0 < first.ms + timeout ∧ first.ms + timeout < 9223372036854775808) ∧
          resends (first.ms + timeout) w.k.send clock w.k.poll len = false := by
      refine ⟨fun h => h first clock hc, fun h first' clock' hc' => ?_⟩
      obtain ⟨rfl, rfl⟩ := List.cons.inj (hc.symm.trans hc')
      exact h
    rw [serves]
    -- under a positive deadline the sends are those the kernel's answers tell of
    have told (positive : 0 < first.ms + timeout ∧ first.ms + timeout < 9223372036854775808) :
        (¬ Resent (es.filter Event.isSend) ↔
          resends (first.ms + timeout) w.k.send clock w.k.poll len = false) := by
      have sum : int64 (first.ms + timeout) = first.ms + timeout := int64_eq (by omega) positive.2
      rw [sum] at done
      obtain ⟨qs, hq, again⟩ := hsends _ v positive.1
        ⟨hat.hook, fun a ha => by have := (hat.ahead a ha).2; omega⟩
      have same : es.filter Event.isSend = qs := by
        rw [sends_timed, done.shown, List.filter_append, sends, sends_timed, start.shown] at hq
        exact List.append_cancel_left hq
      rw [same, again, send, Bool.not_eq_true]
    exact ⟨fun h => ⟨(h.spared hd).1, (told (h.spared hd).1).mp (h.spared hd).2⟩,
      fun h => hd.bounded h.1 ((told h.1).mpr h.2)⟩

theorem call_armed (h0 : 0 ≤ timeout) (h1 : timeout ≤ 86400000) (fd : Int) (serial wm : Nat)
    (buf : Bytes) {w : World} (start : Start base timeout w) :
    Bounded timeout (((do
        let t0 ← dbusSessionNowMs
        let timeout ← Prog.gets (·.dbs.timeoutMs)
        let deadline := if 0 ≤ t0 then int64 (t0 + timeout) else 0
        let n ← dbsWrite fd buf deadline
        if n = -110 then pure (-110)
        else if n < 0 then dbsIoFail n
        else dbsAwait fd serial wm deadline : M Int) w).state.timed.drop base.length) ↔
      Serves timeout buf.length w.k := by
  refine armed_iff (f := fun deadline => dbsWrite fd buf deadline >>= fun n =>
    if n = -110 then pure (-110)
    else if n < 0 then dbsIoFail n else dbsAwait fd serial wm deadline) h0 h1 start ?_ ?_
  · intro t0 deadline hle
    refine Spec.bind (dbsWrite_shows hle fd buf) fun n =>
      Spec.ite (fun h110 => Spec.pure ?_) fun _ => Spec.ite (fun hneg => ?_) fun hpos => ?_
    · rintro w (⟨h, -⟩ | ⟨-, h⟩)
      · omega
      · exact h
    · refine (FixesPace.shows (ioFail_pace n) fun _ h => h).mono (fun w h => ?_)
        (fun _ _ h => h) fun _ h => h
      rcases h with ⟨h, -⟩ | ⟨-, h⟩
      · omega
      · exact h
    · refine (dbsAwait_shows hle fd serial wm).mono (fun w h => ?_) (fun _ _ h => h) fun _ h => h
      rcases h with ⟨-, es, hat, hp⟩ | ⟨h, -⟩
      · exact ⟨es, hat, hp.mono (by simp) id⟩
      · exact absurd h hpos
  · intro deadline v hd clocked
    exact write_then_resends hd fd buf (fun n => Fixes.ite (Fixes.pure _)
      (Fixes.ite (ioFail_pace n).sends (await_sends fd serial wm deadline))) clocked

theorem sasl_armed (h0 : 0 ≤ timeout) (h1 : timeout ≤ 86400000) (fd : Int) {w : World}
    (start : Start base timeout w) :
    Bounded timeout (((do
        let t0 ← dbusSessionNowMs
        let timeout ← Prog.gets (·.dbs.timeoutMs)
        let deadline := if 0 ≤ t0 then int64 (t0 + timeout) else 0
        let n ← dbsWrite fd dbusAuthBlob deadline
        if n < 0 then pure n
        else Prog.loop (·.k.size) (dbsSaslRound fd deadline) 0 : M Int) w).state.timed.drop
          base.length) ↔
      Serves timeout dbusAuthBlob.length w.k := by
  refine armed_iff (f := fun deadline => dbsWrite fd dbusAuthBlob deadline >>= fun n =>
    if n < 0 then pure n else Prog.loop (·.k.size) (dbsSaslRound fd deadline) 0) h0 h1 start ?_ ?_
  · intro t0 deadline hle
    refine Spec.bind (dbsWrite_shows hle fd dbusAuthBlob) fun n =>
      Spec.ite (fun hneg => Spec.pure ?_) fun hpos => ?_
    · rintro w (⟨h, -⟩ | ⟨-, h⟩)
      · omega
      · exact h
    refine (Spec.loop (I := fun _ => Shows base timeout t0 (Paced timeout t0 deadline [] False))
      (dbsSasl_lowers fd deadline) (fun reads => ?_) 0).mono (fun w h => ?_)
      (fun _ _ h => h) fun _ h => h
    · exact (saslRound_shows hle fd reads).mono (fun _ h => h)
        (fun r _ h => by cases r <;> exact h) fun _ h => h
    · rcases h with ⟨-, es, hat, hp⟩ | ⟨h, -⟩
      · exact ⟨es, hat, hp.mono (by simp) id⟩
      · exact absurd h hpos
  · intro deadline v hd clocked
    exact write_then_resends hd fd dbusAuthBlob (fun n => Fixes.ite (Fixes.pure _)
      (Fixes.loop (saslRound_sends fd deadline) 0)) clocked

end

/-- A call gets as far as the clock: its request is built, the connection is open, and the
stream shows no fault. -/
def World.asks (w : World) : Bool :=
  !w.dbm.bad && !w.dbs.closed && decide (0 ≤ faultErrno (dbusFrameNext w.fr).1)

/-- The handshake gets as far: its block is there, or there is memory for it. -/
def World.greets (w : World) : Bool := decide (.blob ∈ w.scratch) || w.k.alloc.headD false

theorem frameFault_still {r : FrameStatus} (h : ¬ faultErrno r < 0) {w w' : World}
    (run : dbsFrameFault r w = .done (faultErrno r) w') : w' = w := by
  cases r with
  | msg t =>
    cases run
    rfl
  | needMore =>
    cases run
    rfl
  | _ => exact absurd (by decide) h

theorem call_bounded {timeout : Int} (h0 : 0 ≤ timeout) (h1 : timeout ≤ 86400000) (fd : Int)
    (serial : Nat) {w : World} (start : Start w.timed timeout w) :
    Bounded timeout (timedSince w (dbusSessionCall fd serial w).state) ↔
      (w.asks = true → Serves timeout w.dbm.buf.length w.k) := by
  have refused {rc : Int} {v : World} (run : dbusSessionCall fd serial w = .done rc v)
      (shown : v.timed = w.timed) (idle : w.asks = false) :
      Bounded timeout (timedSince w (dbusSessionCall fd serial w).state) ↔
        (w.asks = true → Serves timeout w.dbm.buf.length w.k) := by
    rw [run, Outcome.state_done, timedSince, shown, List.drop_length, idle]
    exact ⟨fun _ h => absurd h (by decide), fun _ => Bounded.nil timeout⟩
  unfold dbusSessionCall at refused ⊢
  rw [bind_done (gets_run _ _), bind_done (gets_run _ _)] at refused ⊢
  by_cases hbad : w.dbm.bad = true
  · rw [if_pos hbad] at refused ⊢
    exact refused rfl rfl (by simp [World.asks, hbad])
  by_cases hclosed : w.dbs.closed = true
  · rw [if_neg hbad, if_pos hclosed] at refused ⊢
    exact refused rfl rfl (by simp [World.asks, hclosed])
  rw [if_neg hbad, if_neg hclosed] at refused ⊢
  obtain ⟨v, run⟩ : ∃ v, frameNext w = .done (dbusFrameNext w.fr).1 v := ⟨_, rfl⟩
  have pace : v.pace = w.pace := by
    have := next_pace w
    rwa [run] at this
  have kernel : v.k = w.k := by
    cases run
    rfl
  rw [bind_done run] at refused ⊢
  obtain ⟨v', fault⟩ := frameFault_run (dbusFrameNext w.fr).1 v
  rw [bind_done fault] at refused ⊢
  have shown : v'.timed = w.timed := by
    have := frameFault_pace (dbusFrameNext w.fr).1 v
    rw [fault] at this
    exact (congrArg Prod.fst this).trans (congrArg Prod.fst pace)
  by_cases hneg : faultErrno (dbusFrameNext w.fr).1 < 0
  · rw [if_pos hneg] at refused ⊢
    exact refused rfl shown (by simp [World.asks, hneg])
  · rw [if_neg hneg, bind_done (gets_run _ _)]
    have same : v' = v := frameFault_still hneg fault
    subst same
    have asks : w.asks = true := by simp [World.asks, hbad, hclosed]; omega
    rw [timedSince, ← kernel, asks]
    refine (call_armed h0 h1 fd serial _ w.dbm.buf (start.same pace)).trans ?_
    simp

theorem sasl_bounded {timeout : Int} (h0 : 0 ≤ timeout) (h1 : timeout ≤ 86400000) (fd : Int)
    {w : World} (start : Start w.timed timeout w) :
    Bounded timeout (timedSince w (dbusSessionSasl fd w).state) ↔
      (w.greets = true → Serves timeout dbusAuthBlob.length w.k) := by
  have pace := allocOnce_pace .blob w
  unfold dbusSessionSasl
  by_cases there : .blob ∈ w.scratch
  · have run : allocOnce .blob w = .done true w := by simp [allocOnce, there]
    rw [bind_done run, if_pos rfl]
    refine (sasl_armed h0 h1 fd start).trans ?_
    simp [World.greets, there]
  cases had : w.k.alloc.headD false with
  | true =>
    obtain ⟨v, run, hk⟩ : ∃ v, allocOnce .blob w = .done true v ∧
        v.k = { w.k with alloc := w.k.alloc.tail } := by
      refine ⟨_, by simp only [allocOnce, modifyGet_run, there, had, if_true, if_false]; rfl, rfl⟩
    rw [run] at pace
    rw [bind_done run, if_pos rfl]
    refine (sasl_armed h0 h1 fd (start.same pace)).trans ?_
    have greets : w.greets = true := by simp only [World.greets, had, Bool.or_true]
    rw [Outcome.state_done, hk, greets]
    exact ⟨fun h _ => h, fun h => h rfl⟩
  | false =>
    obtain ⟨v, run⟩ : ∃ v, allocOnce .blob w = .done false v :=
      ⟨_, by simp only [allocOnce, modifyGet_run, there, had, if_false]; rfl⟩
    rw [run] at pace
    have shown : v.timed = w.timed := congrArg Prod.fst pace
    rw [bind_done run, if_neg (by simp)]
    show Bounded timeout (timedSince w v) ↔ _
    rw [timedSince, shown, List.drop_length]
    have idle : w.greets = false := by
      simp only [World.greets, had, there, decide_false, Bool.or_self]
    rw [idle]
    exact ⟨fun _ h => absurd h (by decide), fun _ => Bounded.nil timeout⟩

theorem setTimeout_start {ms : Int} {v w : World} (hset : dbusSessionSetTimeoutMs ms v = .done 0 w)
    (hook : w.dbs.clockFail = 0) (hclock : ∀ a ∈ w.k.clock, 0 ≤ a.rc ∧ 0 ≤ a.ms)
    (hsorted : (w.k.clock.map ClockAnswer.ms).Pairwise (· ≤ ·)) :
    Start w.timed ms w ∧ 0 ≤ ms ∧ ms ≤ 86400000 := by
  unfold dbusSessionSetTimeoutMs at hset
  split_ifs at hset with h0 h1
  · cases hset
  · cases hset
  · have hw : w.dbs.timeoutMs = ms := by
      cases hset
      rfl
    simp only [dbusSessionTimeoutMaxMs] at h1
    exact ⟨⟨rfl, hook, hw, hclock, hsorted⟩, by omega, by omega⟩

/-- **The deadline bounds a call exactly when** the first reading gives a positive one and
the kernel's answers interrupt no send that another follows. -/
theorem deadline_bounds_iff (ms : Int) (v w : World)
    (hset : dbusSessionSetTimeoutMs ms v = .done 0 w) (hook : w.dbs.clockFail = 0)
    (hclock : ∀ a ∈ w.k.clock, 0 ≤ a.rc ∧ 0 ≤ a.ms)
    (hsorted : (w.k.clock.map ClockAnswer.ms).Pairwise (· ≤ ·)) (fd : Int) (serial : Nat) :
    (Bounded ms (timedSince w (dbusSessionCall fd serial w).state) ↔
      (w.asks = true → Serves ms w.dbm.buf.length w.k)) ∧
    (Bounded ms (timedSince w (dbusSessionSasl fd w).state) ↔
      (w.greets = true → Serves ms dbusAuthBlob.length w.k)) := by
  obtain ⟨start, h0, h1⟩ := setTimeout_start hset hook hclock hsorted
  exact ⟨call_bounded h0 h1 fd serial start, sasl_bounded h0 h1 fd start⟩

/-- A kernel that answers as told. -/
def answering (clock : List ClockAnswer) (send : List Int) (poll : List Int) : World where
  dbm := dbsHelloCall 1
  dbs := { serial := 1 }
  k := { clock, send, poll }

/-- A call whose first send fills the buffer waits within its deadline; one whose sends are
interrupted twice does not. -/
theorem deadline_bounds_iff_wait :
    let w := answering [{ sec := 1 }, { sec := 2 }, { sec := 3 }] [-11, 1000] [1, 0]
    let w' := answering [{ sec := 1 }] [-4, -4] []
    Bounded 25000 (timedSince w (dbusSessionCall 5 1 w).state) ∧
      ¬ Bounded 25000 (timedSince w' (dbusSessionCall 5 1 w').state) := by
  intro w w'
  have waits := (deadline_bounds_iff 25000 w w rfl rfl (by decide) (by decide) 5 1).1
  have cut := (deadline_bounds_iff 25000 w' w' rfl rfl (by decide) (by decide) 5 1).1
  refine ⟨waits.mpr fun _ first clock h => ?_, fun h => ?_⟩
  · obtain ⟨rfl, rfl⟩ := List.cons.inj h
    exact ⟨by decide, by decide +kernel⟩
  · have := (cut.mp h (by decide +kernel) _ _ rfl).2
    exact absurd this (by decide +kernel)

/-- An interrupted send is sent again, and again, with the clock unread. -/
theorem interrupted_send_escapes :
    ¬ ∀ (ms : Int) (v w : World), dbusSessionSetTimeoutMs ms v = .done 0 w → w.dbs.clockFail = 0 →
      (∀ a ∈ w.k.clock, 0 ≤ a.rc ∧ 0 ≤ a.ms) → (w.k.clock.map ClockAnswer.ms).Pairwise (· ≤ ·) →
      ∀ (fd : Int) (serial : Nat),
      Bounded ms (timedSince w (dbusSessionCall fd serial w).state) := by
  intro h
  have hb := h 25000 (answering [{ sec := 1 }] [-4, -4] []) _ rfl rfl (by decide) (by decide) 5 1
  let sent : Event := .send 5 (dbsHelloCall 1).buf 16448 (-4)
  have shown : timedSince (answering [{ sec := 1 }] [-4, -4] [])
      (dbusSessionCall 5 1 (answering [{ sec := 1 }] [-4, -4] [])).state = [.clock 1000, sent] ++
      sent :: [] := by
    decide +kernel
  obtain ⟨-, t0, -, -, howed, -⟩ := hb.attempts _ _ _ shown .send rfl
  exact howed ⟨[.clock 1000], sent, [], rfl, rfl, rfl, by simp⟩

end Samvada
