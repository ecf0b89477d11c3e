import Samvada.Progress

/- What the session layer does to the framer, the descriptors and the connection,
   one move at a time. `Step s` lists the moves that send nothing, with all they
   change, while the reply awaited is that of serial `s`; every function is shown
   once to make only these, so an invariant of the moves is an invariant of every
   run. -/
namespace Samvada
open Octets Framing Resumable Resumable.Prog Relation

@[simp] theorem emit_fr (w : World) (es : List Event) : (w.emit es).fr = w.fr := rfl
@[simp] theorem emit_trace (w : World) (es : List Event) : (w.emit es).trace = w.trace ++ es := rfl
@[simp] theorem emit_dbs (w : World) (es : List Event) : (w.emit es).dbs = w.dbs := rfl
@[simp] theorem emit_dbm (w : World) (es : List Event) : (w.emit es).dbm = w.dbm := rfl
@[simp] theorem emit_nil (w : World) : w.emit [] = w := by simp [World.emit]
@[simp] theorem emit_k (w : World) (es : List Event) : (w.emit es).k = w.k := rfl

/-- An event that moves no byte and no descriptor. -/
def Event.quiet : Event → Bool
  | .clock _ => true
  | .poll _ _ _ _ => true
  | .getfl _ _ => true
  | .statx _ _ => true
  | .setsockopt _ _ => true
  | _ => false

/-- What queueing one descriptor adds to the trace. -/
def pushEvents (f : Frame) (fd : Int) : List Event :=
  (if f.fdq.length < (dbusFramePushFd f fd).1.fdq.length then [Event.queued fd] else []) ++
    (dbusFramePushFd f fd).2.map Event.close

/-- The descriptors `fds` of a receive, each moved above stdio and queued: what
they became, the events, and the framer after. -/
inductive Queued : Frame → List Int → List Int → List Event → Frame → Prop where
  | nil (f : Frame) : Queued f [] [] [] f
  | keep {f g : Frame} {fd : Int} {rest moved : List Int} {es : List Event} (h : 2 < fd)
    (hq : Queued (dbusFramePushFd f fd).1 rest moved es g) :
    Queued f (fd :: rest) (fd :: moved) (pushEvents f fd ++ es) g
  | move {f g : Frame} {fd : Int} (nfd : Int) {rest moved : List Int} {es : List Event} (h : fd ≤ 2)
    (hq : Queued (dbusFramePushFd f nfd).1 rest moved es g) :
    Queued f (fd :: rest) (nfd :: moved) ([.dupfd fd nfd, .close fd] ++ pushEvents f nfd ++ es) g

/-- The events of consuming the head message. -/
def advanceEvents (f : Frame) (r : Nat) : List Event :=
  Event.advanced (dbusFramePos f) r :: (dbusFrameAdvance f r).2.map Event.close

/-- The clock, a poll, a look at a descriptor, a scratch block: neither a byte nor
a descriptor moves, and `es` is what the trace shows. -/
structure Unmoved (w w' : World) (es : List Event) : Prop where
  fr : w'.fr = w.fr := by rfl
  dbm : w'.dbm = w.dbm := by rfl
  serial : w'.dbs.serial = w.dbs.serial := by rfl
  closed : w'.dbs.closed = w.dbs.closed := by rfl
  inbox : w'.k.inbox = w.k.inbox := by rfl
  trace : w'.trace = w.trace ++ es := by first | rfl | exact (List.append_nil _).symm
  quiet : ∀ e ∈ es, e.quiet = true := by simp [Event.quiet]

theorem Unmoved.refl (w : World) : Unmoved w w [] := {}

theorem Unmoved.trans {w w' w'' : World} {es es' : List Event} (h : Unmoved w w' es)
    (h' : Unmoved w' w'' es') : Unmoved w w'' (es ++ es') where
  fr := h'.fr.trans h.fr
  dbm := h'.dbm.trans h.dbm
  serial := h'.serial.trans h.serial
  closed := h'.closed.trans h.closed
  inbox := h'.inbox.trans h.inbox
  trace := by rw [h'.trace, h.trace, List.append_assoc]
  quiet e he := (List.mem_append.mp he).elim (h.quiet e) (h'.quiet e)

/-- One move that sends nothing, the serial awaited being `s`. -/
inductive Step (s : Nat) : World → World → Prop where
  | quiet {w w' : World} {es : List Event} (h : Unmoved w w' es) : Step s w w'
  /-- the connection is latched closed -/
  | lost (w : World) : Step s w { w with dbs := { w.dbs with closed := true } }
  /-- `dbus_frame_next` -/
  | next {w : World} {r : FrameStatus} {g : Frame} {c : List Int} (rest : AtRest g r)
      (pass : Passed w.fr g c) :
    Step s w ({ w with fr := g }.emit (c.map Event.close ++ [Event.next r g]))
  /-- `dbus_frame_advance` past the whole message at the head -/
  | advance {w : World} {r : Nat} (rest : AtRest w.fr (.msg r)) :
    Step s w ({ w with fr := (dbusFrameAdvance w.fr r).1 }.emit (advanceEvents w.fr r))
  /-- the message at the head answers the call -/
  | answered {w : World} {r wm : Nat} {rc : Int} (rest : AtRest w.fr (.msg r))
    (hv : dbusSessionVerdict w.dbs.uniq s wm (dbusFramePos w.fr) r (dbusFrameBase w.fr) =
      if rc = 0 then .success
      else .failure rc) : Step s w (w.emit [.answered s (dbusFramePos w.fr) rc])
  /-- room is made for a read -/
  | prepare {w : World} {n : Nat} {g : Frame} (h : Prepared w.fr g n) : Step s w { w with fr := g }
  | eof (w : World) : Step s w { w with fr := dbusFrameSetEof w.fr }
  /-- a receive that brought no byte -/
  | recvNone {w w' : World} {fd n : Int} {want flags : Nat} (anc : Ancillary)
      (trunc : Bool) (hn : n ≤ 0)
    (hfr : w'.fr = w.fr) (hdbm : w'.dbm = w.dbm) (hdbs : w'.dbs = w.dbs)
    (hinbox : w'.k.inbox = w.k.inbox)
    (ht : w'.trace = w.trace ++ (.recv fd want flags n [] anc trunc ::
      if 0 ≤ n then (dbusSysParseRights (anc.bytes.take 1032)).2.map Event.close
      else [])) : Step s w w'
  /-- a receive, inside the head message, and its descriptors -/
  | receive {w w' : World} (fd : Int) (want flags : Nat) {d : Bytes}
      {anc : Ancillary} (trunc : Bool)
    {moved : List Int} {es : List Event} {g : Frame} (rest : AtRest w.fr .needMore)
    (hd : 0 < d.length) (hwithin : dbusFrameReceived w.fr + d.length ≤ dbusFrameReach w.fr)
    (hroom : w.fr.buf.length + d.length ≤ 8192) (hinbox : w.k.inbox = d ++ w'.k.inbox)
    (hq : Queued (dbusFrameCommit w.fr d) (dbusSysParseRights (anc.bytes.take 1032)).1 moved es g)
    (hfr : w'.fr = if trunc then dbusFrameFdsIncomplete g else g) (hdbm : w'.dbm = w.dbm)
    (hdbs : w'.dbs = w.dbs) (ht : w'.trace = w.trace ++ (.recv fd want flags d.length d anc trunc ::
      ((dbusSysParseRights (anc.bytes.take 1032)).2.map Event.close ++ es ++
        [.received (dbusFrameReceived w.fr) d.length moved trunc]))) : Step s w w'
  /-- a descriptor of the message yielded is claimed and looked at, and either closed or handed
  out, and the message consumed -/
  | take {w w₁ w' : World} {r : Nat} {i fd : Int} {g : Frame} {qs : List Event} (ok : Bool)
    (rest : AtRest w.fr (.msg r)) (hc : dbusFrameClaimFd w.fr i = (fd, g)) (h0 : 0 ≤ fd)
    (hq : Unmoved ({ w with fr := g }.emit [.next (.msg r) w.fr, .claimed fd]) w₁ qs)
    (he : w' = { w₁ with fr := (dbusFrameAdvance g r).1 }.emit
      (if ok then advanceEvents g r ++ [Event.handed fd] else Event.close fd :: advanceEvents g r))
      : Step s w w'

/-- What the trace shows of a descriptor claimed, looked at and disposed of. -/
theorem take_trace {w w₁ w' : World} {r : Nat} {g h : Frame} {fd : Int} {qs es : List Event}
    (hq : Unmoved ({ w with fr := g }.emit [.next (.msg r) w.fr, .claimed fd]) w₁ qs)
    (he : w' = { w₁ with fr := h }.emit es) :
    w'.trace = w.trace ++ ([.next (.msg r) w.fr, .claimed fd] ++ (qs ++ es)) := by
  rw [he, emit_trace]
  show w₁.trace ++ _ = _
  rw [hq.trace, emit_trace]
  simp only [List.append_assoc]

/-! ## Programs that make these moves -/

/-- What every framer of a run keeps. -/
structure Frame.Good (f : Frame) : Prop where
  ok : f.Ok
  fds : ∀ fd ∈ f.fdq, 0 ≤ fd

/-- `x` makes moves only, and waits only between them. -/
abbrev Moves {α : Type} (s : Nat) (P : Frame → Prop) (x : M α) (Q : α → Frame → Prop) : Prop :=
  Walk (Step s) Eq (fun w => P w.fr) x fun a w => Q a w.fr

/-- `x` moves neither a byte nor a descriptor. -/
def Rests {α : Type} (x : M α) : Prop := ∀ w, ∃ es, Unmoved w (x w).state es

namespace Rests
variable {α β : Type}

theorem pure (a : α) : Rests (Pure.pure a : M α) := fun w => ⟨[], Unmoved.refl w⟩

theorem gets {f : World → α} : Rests (Prog.gets f) := fun w => ⟨[], Unmoved.refl w⟩

theorem modify {f : World → World} (h : ∀ w, ∃ es, Unmoved w (f w) es) : Rests (Prog.modify f) := h

theorem modifyGet {f : World → α × World} (h : ∀ w, ∃ es, Unmoved w (f w).2 es) :
    Rests (Prog.modifyGet f) := h

theorem query {ask : World → Option (α × World)}
    (h : ∀ w a w', ask w = some (a, w') → ∃ es, Unmoved w w' es) :
    Rests (Prog.query ask) := by
  intro w
  unfold Prog.query
  cases ha : ask w with
  | none => exact ⟨[], Unmoved.refl w⟩
  | some r => exact h w r.1 r.2 ha

theorem bind {x : M α} {f : α → M β} (hx : Rests x) (hf : ∀ a, Rests (f a)) : Rests (x >>= f) := by
  intro w
  obtain ⟨es, h⟩ := hx w
  rw [bind_run]
  cases hw : x w with
  | waiting w' =>
    rw [hw] at h
    exact ⟨es, h⟩
  | done a w' =>
    rw [hw] at h
    obtain ⟨es', h'⟩ := hf a w'
    exact ⟨es ++ es', h.trans h'⟩

theorem ite {c : Prop} [Decidable c] {x y : M α} (hx : Rests x) (hy : Rests y) :
    Rests (if c then x else y) := by
  split
  · exact hx
  · exact hy

/-- To rest is to make one quiet move. -/
theorem moves {x : M α} (h : Rests x) (s : Nat) (P : Frame → Prop) : Moves s P x fun _ => P := by
  intro w hw
  obtain ⟨es, hq⟩ := h w
  cases hx : x w with
  | done a w' =>
    rw [hx] at hq
    exact ⟨.single (.quiet hq), show P w'.fr from hq.fr ▸ hw⟩
  | waiting w' =>
    rw [hx] at hq
    exact ⟨w', .single (.quiet hq), rfl⟩

end Rests

theorem sysClock_rests : Rests sysClock := Rests.query fun w a w' h => by
  cases hc : w.k.clock with
  | nil =>
    rw [hc] at h
    cases h
  | cons c rest =>
    rw [hc] at h
    cases h
    exact ⟨[_], {}⟩

theorem nowMs_rests : Rests dbusSessionNowMs :=
  Rests.bind Rests.gets fun _ => Rests.ite (Rests.pure _)
    (Rests.bind (Rests.modify fun _ => ⟨[], {}⟩) fun _ => sysClock_rests)

theorem sysPoll_rests (fd : Int) (wr : Bool) (ms : Int) : Rests (sysPoll fd wr ms) :=
  Rests.query fun w a w' h => by
  cases hp : w.k.poll with
  | nil =>
    rw [hp] at h
    cases h
  | cons c rest =>
    rw [hp] at h
    cases h
    exact ⟨[_], {}⟩

theorem sysGetfl_rests (fd : Int) : Rests (sysGetfl fd) := Rests.modifyGet fun _ => ⟨[_], {}⟩

theorem sysStatx_rests (fd : Int) : Rests (sysStatx fd) := Rests.modifyGet fun _ => ⟨[_], {}⟩

theorem allocOnce_rests (s : Scratch) : Rests (allocOnce s) := Rests.modifyGet fun w => by
  refine ⟨[], ?_⟩
  split
  · exact {}
  · split
    · exact {}
    · exact {}

theorem dbsWaitReadable_rests (fd deadline : Int) : Rests (dbsWaitReadable fd deadline) :=
  Rests.bind nowMs_rests fun _ => Rests.ite (Rests.pure _) (Rests.ite (Rests.pure _)
    (Rests.bind (sysPoll_rests _ _ _) fun _ => Rests.ite (Rests.pure _) (Rests.ite (Rests.pure _)
      (Rests.ite (Rests.pure _) (Rests.pure _)))))

theorem dbsLost_moves {s : Nat} {P : Frame → Prop} : Moves s P dbsLost fun rc f =>
    P f ∧ rc = -104 :=
  Walk.bind (Q := fun _ w => P w.fr) (Walk.modify (fun w _ => .lost w) fun _ h => h) fun _ =>
    Walk.pure fun _ h => ⟨h, rfl⟩

/-- The errno of a framer status: negative for a fault or the end of the stream. -/
def faultErrno : FrameStatus → Int
  | .eof => -104
  | .truncated => -104
  | .badendian => -71
  | .badproto => -71
  | .toolong => -105
  | .msg _ => 0
  | .needMore => 0

theorem frameFault_run (r : FrameStatus) (w : World) : ∃ w', dbsFrameFault r w = .done
    (faultErrno r) w' := by
  cases r <;> exact ⟨_, rfl⟩

/-- A fault is every status but a message and `needMore`. -/
theorem dbsFrameFault_moves {s : Nat} {P : Frame → Prop} (r : FrameStatus) :
    Moves s P (dbsFrameFault r) fun rc f =>
    P f ∧ (¬ rc < 0 → r = .needMore ∨ ∃ t, r = .msg t) := by
  have lost : Moves s P dbsLost fun rc f => P f ∧ (¬ rc < 0 → r = .needMore ∨ ∃ t, r = .msg t) :=
    dbsLost_moves.mono (fun _ h => h) fun rc _ h => ⟨h.1, fun hn => absurd (by rw [h.2]; decide) hn⟩
  cases r with
  | msg t => exact Walk.pure fun w h => ⟨h, fun _ => .inr ⟨t, rfl⟩⟩
  | needMore => exact Walk.pure fun w h => ⟨h, fun _ => .inl rfl⟩
  | eof => exact lost
  | truncated => exact lost
  | badendian => exact Walk.pure fun w h => ⟨h, fun hn => absurd (by decide) hn⟩
  | badproto => exact Walk.pure fun w h => ⟨h, fun hn => absurd (by decide) hn⟩
  | toolong => exact Walk.pure fun w h => ⟨h, fun hn => absurd (by decide) hn⟩

/-! ## Messages -/

theorem Passed.fds_nonneg {f g : Frame} {c : List Int} (h : Passed f g c)
    (hf : ∀ fd ∈ f.fdq, 0 ≤ fd) : ∀ fd ∈ g.fdq, 0 ≤ fd := by
  rcases h.fds with ⟨hq, -⟩ | ⟨hq, -⟩
  · rw [hq]
    exact hf
  · rw [hq]
    simp

theorem frameNext_moves {s : Nat} : Moves s Frame.Good frameNext fun r f =>
    f.Good ∧ AtRest f r := by
  refine Walk.modifyGet (fun w hw => ?_) fun w hw => ?_
  · obtain ⟨r, g, c, e, rest, pass⟩ := dbusFrameNext_passed hw.ok.off
    simp only [e]
    exact .next rest pass
  · obtain ⟨r, g, c, e, rest, pass⟩ := dbusFrameNext_passed hw.ok.off
    simp only [e]
    exact ⟨⟨pass.ok hw.ok, pass.fds_nonneg hw.fds⟩, rest⟩

theorem AtRest.advance_good {f : Frame} {t : Nat} (h : AtRest f (.msg t)) (hf : f.Good) :
    (dbusFrameAdvance f t).1.Good := by
  refine ⟨h.advance_ok hf.ok, ?_⟩
  rw [h.advance hf.ok.off]
  simp

theorem frameAdvance_moves {s : Nat} (r : Nat) : Moves s (fun f => f.Good ∧ AtRest f (.msg r))
    (frameAdvance r) fun _ => Frame.Good :=
  Walk.modify (fun _ hw => .advance hw.2) fun _ hw => hw.2.advance_good hw.1

/-- An error reply never reads as success. -/
theorem dbusSessionErrorOf_neg (r : Nat) (p : Bytes) : dbusSessionErrorOf r p < 0 := by
  unfold dbusSessionErrorOf
  split
  · decide
  · split
    · exact dbusSessionMapError_neg _ _
    · exact dbusSessionMapError_neg _ _

theorem verdict_failure {uniq : Bytes} {serial wm pos r : Nat} {p : Bytes} {rc : Int}
    (h : dbusSessionVerdict uniq serial wm pos r p = .failure rc) : rc < 0 := by
  unfold dbusSessionVerdict at h
  split at h
  · split at h
    · cases h
    · split at h
      · cases h
        exact dbusSessionErrorOf_neg r p
      · cases h
  · cases h

/-- A reading that answers `f` moves nothing. -/
theorem decode_moves {α : Type} (s : Nat) {x : World → Decode α} {f : World → α}
    (h : ∀ w d, (x w d).1 = f w) {P : World → Prop} {Q : α → World → Prop}
    (hq : ∀ w d, P w → Q (f w) { w with dbu := d }) : Walk (Step s) Eq P (decode x) Q := by
  intro w hw
  obtain ⟨d, run⟩ := decode_run h w
  rw [run]
  have still : Unmoved w { w with dbu := d } [] := {}
  exact ⟨.single (.quiet still), hq w d hw⟩

/-- How a call leaves the framer: a call that succeeded leaves its reply at the head. -/
def Answered (rc : Int) (f : Frame) : Prop := f.Good ∧ (rc < 0 ∨ rc = 0 ∧ ∃ r, AtRest f (.msg r))

theorem dbsScan_moves (serial wm : Nat) : Moves serial Frame.Good (dbsScan serial wm) fun s f =>
    match s with
    | .answered rc => Answered rc f
    | .stopped r => f.Good ∧ AtRest f r ∧ ∀ t, r ≠ .msg t := by
  refine Walk.loop (I := fun _ w => w.fr.Good) (dbsScan_lowers serial wm) (fun _ => ?_) ()
  refine Walk.bind frameNext_moves fun r => ?_
  cases r with
  | msg t =>
    refine Walk.bind (Q := fun v w => (w.fr.Good ∧ AtRest w.fr (.msg t)) ∧ dbusSessionVerdict
      w.dbs.uniq serial wm (dbusFramePos w.fr) t (dbusFrameBase w.fr) = v) ?_ fun v =>
      Walk.gets_bind fun pos => ?_
    · exact decode_moves serial
        (fun w d => Decode.verdict_eq w.dbs.uniq serial wm (dbusFramePos w.fr) t
        (dbusFrameBase w.fr) d) fun w d h => ⟨h, rfl⟩
    have answer : ∀ (rc : Int), v = (if rc = 0 then .success else .failure rc) →
        Walk (Step serial) Eq
        (fun w => ((w.fr.Good ∧ AtRest w.fr (.msg t)) ∧ dbusSessionVerdict w.dbs.uniq serial wm
          (dbusFramePos w.fr) t (dbusFrameBase w.fr) = v) ∧ dbusFramePos w.fr = pos)
          (emit [.answered serial pos rc]) fun _ w => w.fr.Good ∧ AtRest w.fr (.msg t) := by
      intro rc hv
      refine Walk.modify (fun w hw => ?_) fun w hw => hw.1.1
      obtain ⟨⟨⟨hg, hrest⟩, hw⟩, hpos⟩ := hw
      rw [← hpos]
      exact .answered hrest (hw.trans hv)
    cases v with
    | success =>
      exact Walk.bind (answer 0 rfl) fun _ => Walk.pure fun w hw => ⟨hw.1, .inr ⟨rfl, t, hw.2⟩⟩
    | failure rc =>
      by_cases h0 : rc < 0
      · exact Walk.bind (answer rc (by rw [if_neg (by omega)])) fun _ =>
          Walk.bind (frameAdvance_moves t) fun _ =>
          Walk.pure fun w hw => ⟨hw, .inl h0⟩
      · intro w hw
        exact absurd (verdict_failure hw.1.2) h0
    | other =>
      refine Walk.bind (Q := fun _ w => w.fr.Good) ?_ fun _ => Walk.pure fun w hw => hw
      exact (frameAdvance_moves t).mono (fun w hw => hw.1.1) fun _ _ h => h
  | _ => exact Walk.pure fun w hw => ⟨hw.1, hw.2, by simp⟩

/-! ## One receive -/

theorem AtRest.congr {f g : Frame} {r : FrameStatus} (hc : dbusFrameCursor g = dbusFrameCursor f)
    (he : g.eof = f.eof) (h : AtRest f r) : AtRest g r := by
  have hs : g.skip = f.skip := congrArg Cursor.skip hc
  have hb : dbusFrameBase g = dbusFrameBase f := congrArg Cursor.held hc
  have hh : dbusFrameHave g = dbusFrameHave f := by
    rw [← dbusFrameBase_length, ← dbusFrameBase_length, hb]
  have hshort : ∀ s, dbusFrameShort f s = dbusFrameShort g s := fun s => by
    unfold dbusFrameShort
    rw [he]
  cases h with
  | draining h1 h2 => exact hshort _ ▸ .draining (hs ▸ h1) (hh ▸ h2)
  | empty h1 h2 => exact hshort _ ▸ .empty (hs ▸ h1) (hh ▸ h2)
  | header h1 h2 h3 => exact hshort _ ▸ .header (hs ▸ h1) (hh ▸ h2) (hh ▸ h3)
  | body t h1 h2 h3 h4 h5 => exact hshort _ ▸ .body t (hs ▸ h1) (hh ▸ h2) (hb ▸ h3) h4 (hh ▸ h5)
  | whole t h1 h2 h3 h4 => exact .whole t (hs ▸ h1) (hb ▸ h2) h3 (hh ▸ h4)
  | bad e h1 h2 h3 => exact .bad e (hs ▸ h1) (hh ▸ h2) (hb ▸ h3)

theorem received_eq {f : Frame} (h : f.off ≤ f.buf.length) :
    dbusFrameReceived f = dbusFramePos f + dbusFrameHave f := by
  simp only [dbusFrameReceived, dbusFramePos, dbusFrameHave]
  omega

theorem Prepared.good {f g : Frame} {n : Nat} (h : Prepared f g n) (hf : f.Good) : g.Good := by
  have := h.room
  exact ⟨⟨h.off_ok, by omega⟩, h.fdq ▸ hf.fds⟩

/-- The framer made ready to read `n` bytes of the head message. -/
def Ready (n : Nat) (f : Frame) : Prop :=
  f.Good ∧ AtRest f .needMore ∧ dbusFrameReceived f + n ≤ dbusFrameReach f ∧ f.buf.length + n ≤ 8192

theorem framePrepare_moves {s : Nat} : Moves s (fun f => f.Good ∧ AtRest f .needMore)
    framePrepare Ready := by
  refine Walk.modifyGet (fun w hw => ?_) fun w hw => ?_
  · obtain ⟨n, g, e, p, -⟩ := dbusFramePrepare_spec hw.1.ok
    simp only [e]
    exact .prepare p
  · obtain ⟨n, g, e, p, -⟩ := dbusFramePrepare_spec hw.1.ok
    simp only [e]
    refine ⟨p.good hw.1, hw.2.congr p.cursor p.eof, ?_, p.room⟩
    have hle := p.le_want
    have hwant := hw.2.want.2.2
    show dbusFrameReceived g + n ≤ dbusFrameReach g
    rw [p.received, received_eq hw.1.ok.off, reach_congr p.cursor]
    omega

theorem queueFds_run : ∀ (fds : List Int) (w : World), ∃ moved es w', dbsQueueFds fds
    w = .done moved w' ∧ Queued w.fr fds moved es w'.fr ∧ w'.trace = w.trace ++ es ∧
    w'.dbm = w.dbm ∧ w'.dbs = w.dbs ∧ w'.k.inbox = w.k.inbox ∧ w'.rxtrunc = w.rxtrunc
  | [], w => ⟨[], [], w, rfl, .nil _, (List.append_nil _).symm, rfl, rfl, rfl, rfl⟩
  | fd :: rest, w => by
    -- `w₁` is the world after the move above stdio, `es₁` its events
    obtain ⟨rfd, es₁, w₁, hrun, hfr, ht, hdbm, hdbs, hin, htr, hfd⟩ : ∃ rfd es₁ w₁,
        dbusSocketAboveStdio fd w = .done rfd w₁ ∧ w₁.fr = w.fr ∧ w₁.trace = w.trace ++ es₁ ∧
        w₁.dbm = w.dbm ∧ w₁.dbs = w.dbs ∧ w₁.k.inbox = w.k.inbox ∧ w₁.rxtrunc = w.rxtrunc ∧
        ((2 < fd ∧ rfd = fd ∧ es₁ = []) ∨ (fd ≤ 2 ∧ es₁ = [.dupfd fd rfd, .close fd])) := by
      unfold dbusSocketAboveStdio
      by_cases h : 2 < fd
      · rw [if_pos h]
        exact ⟨fd, [], w, rfl, rfl, (List.append_nil _).symm, rfl, rfl, rfl, rfl,
          .inl ⟨h, rfl, rfl⟩⟩
      · rw [if_neg h]
        refine ⟨_, [.dupfd fd (w.k.fcntl.headD (-9)), .close fd], _, rfl, rfl, ?_,
          rfl, rfl, rfl, rfl, .inr ⟨by omega, rfl⟩⟩
        simp [List.append_assoc]
    obtain ⟨moved, es, w', hrun', hq, ht', hdbm', hdbs', hin', htr'⟩ := queueFds_run rest
      ({ w₁ with fr := (dbusFramePushFd w₁.fr rfd).1 }.emit (pushEvents w₁.fr rfd))
    refine ⟨rfd :: moved, es₁ ++ pushEvents w.fr rfd ++ es, w', ?_, ?_, ?_, hdbm'.trans hdbm,
      hdbs'.trans hdbs, hin'.trans hin, htr'.trans htr⟩
    · show (dbusSocketAboveStdio fd >>= _) w = _
      rw [bind_done hrun]
      have push : framePushFd rfd w₁ = .done ()
          ({ w₁ with fr := (dbusFramePushFd w₁.fr rfd).1 }.emit (pushEvents w₁.fr rfd)) := rfl
      show (framePushFd rfd >>= _) w₁ = _
      rw [bind_done push]
      exact bind_done hrun'
    · rw [emit_fr, hfr] at hq
      rcases hfd with ⟨h, rfl, rfl⟩ | ⟨h, rfl⟩
      · exact .keep h hq
      · exact .move rfd h hq
    · rw [ht', emit_trace, ht, hfr]
      simp only [List.append_assoc]

/-- What one recvmsg brought: `n`, the bytes `d` taken off the inbound stream, and
the descriptors, left in the receive array. -/
structure Got (w : World) (fd : Int) (want flags : Nat) (n : Int) (d : Bytes)
    (anc : Ancillary) (trunc : Bool) (w' : World) : Prop where
  fr : w'.fr = w.fr
  dbm : w'.dbm = w.dbm
  dbs : w'.dbs = w.dbs
  inbox : w.k.inbox = d ++ w'.k.inbox
  trace : w'.trace = w.trace ++ (.recv fd want flags n d anc trunc ::
    if 0 ≤ n then (dbusSysParseRights (anc.bytes.take 1032)).2.map Event.close else [])
  none : n ≤ 0 → d = []
  some : 0 < n → n = d.length ∧ d.length ≤ want
  rx : 0 ≤ n → w'.rx = (dbusSysParseRights (anc.bytes.take 1032)).1 ∧ w'.rxtrunc = trunc
  rxNone : n < 0 → w'.rx = []

/-- The world a recvmsg leaves once its descriptors are in the receive array. -/
def collected (w : World) (n : Int) (anc : Ancillary) (trunc : Bool) : World :=
  if n < 0 then w
  else { w with rx := (dbusSysParseRights (anc.bytes.take 1032)).1, rxtrunc := trunc }.emit
    ((dbusSysParseRights (anc.bytes.take 1032)).2.map Event.close)

theorem sysRecv_collected {fd : Int} {want flags : Nat} {w w₁ : World} {n : Int} {d : Bytes}
    {anc : Ancillary} {trunc : Bool}
    (h : sysRecvmsg fd want flags { w with rx := [], rxtrunc := false } =
      .done (n, d, anc.bytes, trunc) w₁) :
    dbusSysRecv fd want flags w = .done (n, d) (collected w₁ n anc trunc) := by
  show (sysRecvmsg fd want flags >>= _) { w with rx := [], rxtrunc := false } = _
  rw [bind_done h]
  by_cases hn : n < 0
  · simp only [hn, if_true, collected]
    rfl
  · simp only [hn, if_false, collected]
    rfl

theorem Got.of_collected {w w₁ : World} {fd : Int} {want flags : Nat} {n : Int} {d : Bytes}
    {anc : Ancillary} {trunc : Bool} (hfr : w₁.fr = w.fr) (hdbm : w₁.dbm = w.dbm)
    (hdbs : w₁.dbs = w.dbs)
    (hin : w.k.inbox = d ++ w₁.k.inbox)
    (ht : w₁.trace = w.trace ++ [.recv fd want flags n d anc trunc]) (h0 : n ≤ 0 → d = [])
    (h1 : 0 < n → n = d.length ∧ d.length ≤ want) (hrx : w₁.rx = []) :
    Got w fd want flags n d anc trunc (collected w₁ n anc trunc) := by
  by_cases hn : n < 0
  · have e : collected w₁ n anc trunc = w₁ := if_pos hn
    rw [e]
    refine ⟨hfr, hdbm, hdbs, hin, ?_, h0, h1, fun h => by omega, fun _ => hrx⟩
    rw [ht, if_neg (by omega)]
  · rw [collected, if_neg hn]
    refine ⟨hfr, hdbm, hdbs, hin, ?_, h0, h1, fun _ => ⟨rfl, rfl⟩, fun h => absurd h hn⟩
    rw [emit_trace, if_pos (by omega)]
    show w₁.trace ++ _ = _
    rw [ht, List.append_assoc]
    rfl

theorem sysRecv_run {want : Nat} (hw : 0 < want) (fd : Int) (flags : Nat) (w : World) :
    dbusSysRecv fd want flags w = .waiting { w with rx := [], rxtrunc := false } ∨
    ∃ n d anc trunc w', dbusSysRecv fd want flags w = .done (n, d) w' ∧ Got w fd want flags n d
    anc trunc w' := by
  have unanswered (h : sysRecvmsg fd want flags { w with rx := [], rxtrunc := false } =
      .waiting { w with rx := [], rxtrunc := false }) :
      dbusSysRecv fd want flags w = .waiting { w with rx := [], rxtrunc := false } := by
    show (sysRecvmsg fd want flags >>= _) { w with rx := [], rxtrunc := false } = _
    exact bind_waiting h
  cases hr : w.k.recv with
  | nil =>
    refine .inl (unanswered ?_)
    simp only [sysRecvmsg, Prog.query, hr]
  | cons a rest =>
    by_cases h0 : a.ret ≤ 0
    · have ask : sysRecvmsg fd want flags { w with rx := [], rxtrunc := false } = .done
          (a.ret, [], a.anc.bytes, a.ctrunc)
          ({ w with rx := [], rxtrunc := false, k := { w.k with recv := rest } }.emit
            [.recv fd want flags a.ret [] a.anc a.ctrunc]) := by
        simp only [sysRecvmsg, Prog.query, hr, h0, if_true]
      exact .inr ⟨_, _, _, _, _, sysRecv_collected ask,
        .of_collected rfl rfl rfl rfl rfl (fun _ => rfl) (fun h => by omega) rfl⟩
    · by_cases hi : w.k.inbox = []
      · refine .inl (unanswered ?_)
        simp only [sysRecvmsg, Prog.query, hr, h0, hi, if_true, if_false]
      · have ask : sysRecvmsg fd want flags { w with rx := [], rxtrunc := false } = .done
            ((w.k.inbox.take (min a.ret.toNat want)).length, w.k.inbox.take (min a.ret.toNat want),
            a.anc.bytes, a.ctrunc) ({ w with
                rx := [], rxtrunc := false
                k := { w.k with recv := rest, inbox := w.k.inbox.drop (min a.ret.toNat want) }
                  }.emit
              [.recv fd want flags (w.k.inbox.take (min a.ret.toNat want)).length
                (w.k.inbox.take (min a.ret.toNat want)) a.anc a.ctrunc]) := by
          simp only [sysRecvmsg, Prog.query, hr, h0, hi, if_false]
        have hpos := List.length_pos_iff.mpr hi
        have hlen : (w.k.inbox.take (min a.ret.toNat want)).length = min (min a.ret.toNat want)
          w.k.inbox.length :=
          List.length_take
        refine .inr ⟨_, _, _, _, _, sysRecv_collected ask,
          .of_collected rfl rfl rfl (List.take_append_drop _ _).symm rfl (fun h => ?_)
          (fun h => ⟨rfl, ?_⟩) rfl⟩
        · omega
        · omega

theorem pushFd_fields (f : Frame) (fd : Int) : (dbusFramePushFd f fd).1.buf = f.buf ∧
    (dbusFramePushFd f fd).1.off = f.off ∧
    ((∀ x ∈ f.fdq, 0 ≤ x) → ∀ x ∈ (dbusFramePushFd f fd).1.fdq, 0 ≤ x) := by
  unfold dbusFramePushFd
  split
  · exact ⟨rfl, rfl, fun h => h⟩
  · split
    · exact ⟨rfl, rfl, fun h => h⟩
    · split
      · exact ⟨rfl, rfl, fun h => h⟩
      · refine ⟨rfl, rfl, fun h x hx => ?_⟩
        rcases List.mem_append.mp hx with hx | hx
        · exact h x hx
        · rw [List.mem_singleton.mp hx]
          omega

theorem pushFd_good {f : Frame} {fd : Int} (h : f.Good) : (dbusFramePushFd f fd).1.Good := by
  obtain ⟨hb, ho, hq⟩ := pushFd_fields f fd
  exact ⟨⟨hb ▸ ho ▸ h.ok.off, hb ▸ h.ok.cap⟩, hq h.fds⟩

theorem Queued.good {f g : Frame} {fds moved : List Int} {es : List Event}
    (h : Queued f fds moved es g) (hf : f.Good) : g.Good := by
  induction h with
  | nil => exact hf
  | keep _ _ ih => exact ih (pushFd_good hf)
  | move _ _ _ ih => exact ih (pushFd_good hf)

theorem fdsIncomplete_good {f : Frame} (h : f.Good) : (dbusFrameFdsIncomplete f).Good := by
  unfold dbusFrameFdsIncomplete
  split
  · exact h
  · exact ⟨⟨h.ok.off, h.ok.cap⟩, h.fds⟩

theorem commit_good {f : Frame} {d : Bytes} (h : f.Good) (hl : f.buf.length + d.length ≤ 8192) :
    (dbusFrameCommit f d).Good := by
  have ho := h.ok.off
  refine ⟨⟨?_, ?_⟩, h.fds⟩
  · show f.off ≤ (f.buf ++ d).length
    rw [List.length_append]
    omega
  · show (f.buf ++ d).length ≤ 8192
    rw [List.length_append]
    exact hl

theorem setEof_good {f : Frame} (h : f.Good) : (dbusFrameSetEof f).Good :=
  ⟨⟨h.ok.off, h.ok.cap⟩, h.fds⟩

/-- The rest of a receive of bytes: they are committed, and the descriptors queued. -/
theorem received_moves {s want : Nat} {fd : Int} {flags : Nat} {w w₁ : World} {n : Int} {d : Bytes}
    {anc : Ancillary} {trunc : Bool} (hr : Ready want w.fr)
    (hg : Got w fd want flags n d anc trunc w₁) (hn : 0 < n) : ∃ w', (do
      let pos ← Prog.gets (dbusFrameReceived ·.fr)
      frameCommit d
      let rx ← Prog.gets (·.rx)
      let moved ← dbsQueueFds rx
      let trunc ← Prog.gets (·.rxtrunc)
      Prog.modify fun w => { w with fr := if trunc then dbusFrameFdsIncomplete w.fr else w.fr }
      emit [.received pos d.length moved trunc]
      pure n : M Int) w₁ = .done n w' ∧ Step s w w' ∧ w'.fr.Good := by
  obtain ⟨good, rest, hreach, hroom⟩ := hr
  obtain ⟨hlen, hle⟩ := hg.some hn
  obtain ⟨hrx, htrunc⟩ := hg.rx (by omega)
  obtain ⟨moved, es, w₂, hrun, hq, ht, hdbm, hdbs, hin, htr⟩ :=
    queueFds_run w₁.rx { w₁ with fr := dbusFrameCommit w₁.fr d }
  rw [hrx, hg.fr] at hq
  have queued : dbsQueueFds w₁.rx { w₁ with fr := dbusFrameCommit w₁.fr d } = .done moved w₂ := hrun
  refine ⟨{ w₂ with fr := if w₂.rxtrunc then dbusFrameFdsIncomplete w₂.fr else w₂.fr }.emit
    [.received (dbusFrameReceived w₁.fr) d.length moved w₂.rxtrunc], ?_, ?_, ?_⟩
  · show (dbsQueueFds w₁.rx >>= _) { w₁ with fr := dbusFrameCommit w₁.fr d } = _
    rw [bind_done queued]
    rfl
  · refine .receive fd want flags trunc rest (by omega) (by omega) (by omega) ?_ hq ?_
      (hdbm.trans hg.dbm) (hdbs.trans hg.dbs) ?_
    · rw [hg.inbox]
      exact congrArg (d ++ ·) hin.symm
    · rw [emit_fr, htr, htrunc]
    · rw [emit_trace, htr, htrunc, ht, hg.trace, if_pos (by omega), hg.fr, hlen]
      simp only [List.append_assoc, List.cons_append]
  · have hgood := hq.good (commit_good good (by omega))
    rw [emit_fr]
    split
    · exact fdsIncomplete_good hgood
    · exact hgood

theorem dbsRecv_moves {s : Nat} (fd : Int) (flags : Nat) :
    Moves s (fun f => f.Good ∧ AtRest f .needMore) (dbsRecv fd flags) fun _ => Frame.Good := by
  refine Walk.bind framePrepare_moves fun want => Walk.ite (fun _ => ?_) fun hwant => ?_
  · refine Walk.bind (Q := fun _ w => w.fr.Good) (Walk.modify (fun w _ => .eof w) fun w hw =>
      setEof_good hw.1)
      fun _ => Walk.pure fun _ h => h
  · intro w hr
    rcases sysRecv_run (show 0 < want by omega) fd flags w with h | ⟨n, d, anc, trunc, w₁, h, hg⟩
    · rw [bind_waiting h]
      refine ⟨{ w with rx := [], rxtrunc := false }, .single ?_, rfl⟩
      exact .quiet ({} : Unmoved w { w with rx := [], rxtrunc := false } [])
    · rw [bind_done h]
      have none (hn : n ≤ 0) : Step s w w₁ := by
        refine .recvNone anc trunc hn hg.fr hg.dbm hg.dbs ?_ (hg.none hn ▸ hg.trace)
        rw [hg.inbox, hg.none hn, List.nil_append]
      by_cases hneg : n < 0
      · simp only [hneg, if_true]
        exact ⟨.single (none (by omega)), by rw [hg.fr]; exact hr.1⟩
      by_cases h0 : n = 0
      · simp only [h0, if_true]
        refine ⟨(ReflTransGen.single (none (by omega))).tail (.eof w₁), setEof_good ?_⟩
        rw [hg.fr]
        exact hr.1
      · obtain ⟨w', hrun, hstep, hgood⟩ := received_moves (s := s) hr hg (by omega)
        simp only [hneg, h0, if_false]
        rw [hrun]
        exact ⟨.single hstep, hgood⟩

/-! ## The loops -/

theorem dbsIoFail_moves {s : Nat} {P : Frame → Prop} (e : Int) :
    Moves s P (dbsIoFail e) fun rc f => P f ∧ (e < 0 → rc < 0) := by
  refine Walk.ite (fun _ => ?_) fun _ => Walk.pure fun _ h => ⟨h, id⟩
  exact dbsLost_moves.mono (fun _ h => h) fun rc w h => ⟨h.1, fun _ => h.2 ▸ by decide⟩

/-- A round of a call goes on with a good framer, or stops as `Answered` says. -/
def Round {β : Type} (r : β ⊕ Int) (f : Frame) : Prop := match r with
  | .inl _ => f.Good
  | .inr rc => Answered rc f

theorem Round.fail {β : Type} {rc : Int} {f : Frame} (hf : f.Good) (h : rc < 0) :
    Round (.inr rc : β ⊕ Int) f :=
  ⟨hf, .inl h⟩

theorem dbsReceive_moves {s : Nat} (fd : Int) (flags : Nat) (deadline : Int) (reads : Nat) :
    Moves s (fun f => f.Good ∧ AtRest f .needMore) (dbsReceive fd flags deadline reads) fun r =>
    Round r := by
  refine Walk.bind (dbsRecv_moves fd flags) fun got => ?_
  have go : Moves s Frame.Good (pure (.inl reads) : M (Nat ⊕ Int)) fun r => Round r :=
    Walk.pure fun _ h => h
  refine Walk.ite (fun _ => go) fun _ =>
    Walk.ite (fun _ => Walk.ite (fun _ => go) fun _ => ?_) fun _ =>
    Walk.ite (fun hneg => ?_) fun _ => go
  · exact Walk.pure fun w hw => Round.fail hw (by decide)
  · exact Walk.map ((dbsIoFail_moves got).mono (fun _ h => h) fun rc w h =>
      Round.fail h.1 (h.2 hneg))

theorem dbsWaitReadable_moves {s : Nat} {P : Frame → Prop} (fd deadline : Int) :
    Moves s P (dbsWaitReadable fd deadline) fun r f => P f ∧ ∀ e, r = .failed e → e < 0 := by
  refine Walk.bind (nowMs_rests.moves s P) fun now => ?_
  have out : ∀ r : Wait, (∀ e, r = .failed e → e < 0) →
      Moves s P (pure r : M Wait) fun r f => P f ∧ ∀ e, r = .failed e → e < 0 :=
    fun r hr => Walk.pure fun _ h => ⟨h, hr⟩
  refine Walk.ite (fun _ => out _ (by simp)) fun _ => Walk.ite (fun _ => out _ (by simp)) fun _ =>
    Walk.bind ((sysPoll_rests _ _ _).moves s P) fun ready =>
      Walk.ite (fun _ => out _ (by simp)) fun _ =>
      Walk.ite (fun _ => out _ (by simp)) fun _ => Walk.ite (fun h => out _ ?_) fun _ =>
        out _ (by simp)
  intro e he
  cases he
  exact h

theorem dbsAwait_moves (fd : Int) (serial wm : Nat) (deadline : Int) :
    Moves serial Frame.Good (dbsAwait fd serial wm deadline) Answered := by
  refine (Walk.loop (I := fun _ w => w.fr.Good) (Q := fun rc w => Answered rc w.fr)
    (dbsAwait_lowers fd serial wm deadline) (fun reads => ?_) 0).mono (fun _ h => h) fun _ _ h => h
  have fail (rc : Int) (h : rc < 0) : Moves serial Frame.Good (pure (.inr rc) : M (Nat ⊕ Int))
    fun r => Round r :=
    Walk.pure fun w hw => Round.fail hw h
  refine Walk.mono (B := fun r w => Round r w.fr) (A := fun w => w.fr.Good) ?_ (fun _ h => h)
    fun r w h => by
    cases r <;> exact h
  refine Walk.bind (dbsScan_moves serial wm) fun s => ?_
  cases s with
  | answered rc => exact Walk.pure fun w hw => hw
  | stopped r =>
    refine Walk.bind (dbsFrameFault_moves (P := fun f => f.Good ∧ AtRest f r ∧ ∀ t, r ≠ .msg t) r)
      fun fault =>
      Walk.ite (fun h => ?_) fun h => ?_
    · exact (fail fault h).mono (fun w hw => hw.1.1) fun _ _ h => h
    · -- no fault, and no message: more is needed
      have more : ∀ w : World, ((w.fr.Good ∧ AtRest w.fr r ∧ ∀ t, r ≠ .msg t) ∧
          (¬ fault < 0 → r = .needMore ∨ ∃ t, r = .msg t)) → w.fr.Good ∧ AtRest w.fr .needMore := by
        rintro w ⟨⟨hg, hrest, hmsg⟩, hf⟩
        rcases hf h with rfl | ⟨t, rfl⟩
        · exact ⟨hg, hrest⟩
        · exact absurd rfl (hmsg t)
      refine Walk.mono (A := fun w => w.fr.Good ∧ AtRest w.fr .needMore) ?_ more fun _ _ h => h
      refine Walk.ite (fun _ => ?_) fun _ => Walk.ite (fun _ => ?_) fun _ =>
        dbsReceive_moves fd 0 deadline _
      · refine Walk.bind (dbsWaitReadable_moves (P := fun f => f.Good ∧ AtRest f .needMore) fd
          deadline) fun wait => ?_
        cases wait with
        | timedOut => exact (fail (-110) (by decide)).mono (fun w hw => hw.1.1) fun _ _ h => h
        | again => exact Walk.pure fun w hw => hw.1.1
        | failed e =>
          refine Walk.map ?_
          intro w hw
          exact ((dbsIoFail_moves (P := Frame.Good) e).mono (fun _ h => h)
            fun rc w' h => Round.fail h.1 (h.2 (hw.2 e rfl))) w hw.1.1
        | ready =>
          exact (dbsReceive_moves fd _ deadline reads).mono (fun w hw => hw.1) fun _ _ h => h
      · exact (fail (-110) (by decide)).mono (fun w hw => hw.1) fun _ _ h => h

theorem dbsDrain_moves {s : Nat} (drained : Nat) : Moves s Frame.Good (dbsDrain drained) fun r f =>
    f.Good ∧ ((∀ t, r.2 ≠ .msg t) → AtRest f r.2) := by
  refine Walk.loop (I := fun _ w => w.fr.Good) dbsDrain_lowers (fun d => ?_) drained
  refine Walk.bind frameNext_moves fun r => ?_
  cases r with
  | msg t =>
    exact Walk.bind (frameAdvance_moves t) fun _ =>
      Walk.ite (fun _ => Walk.pure fun w hw => ⟨hw, fun h => absurd rfl (h t)⟩)
        fun _ => Walk.pure fun w hw => hw
  | _ => exact Walk.pure fun w hw => ⟨hw.1, fun _ => hw.2⟩

/-- A drain that wants more rests where more is needed. -/
theorem wants_more {f : Frame} {r : FrameStatus} (h : (∀ t, r ≠ .msg t) → AtRest f r)
    (more : r = .needMore) : AtRest f .needMore := by
  subst more
  exact h (by simp)

theorem dbsPumpResult_moves {s : Nat} (drained : Nat) (r : FrameStatus) (io : Int) :
    Moves s Frame.Good (dbsPumpResult drained r io) fun _ => Frame.Good := by
  refine Walk.ite (fun _ => Walk.pure fun _ h => h) fun _ =>
    Walk.bind (dbsFrameFault_moves r) fun fault =>
    Walk.ite (fun _ => Walk.pure fun _ h => h.1) fun _ =>
      Walk.ite (fun _ => Walk.pure fun _ h => h.1) fun _ =>
      Walk.gets_bind fun _ => Walk.ite (fun _ => Walk.pure fun _ h => h.1.1) fun _ =>
        Walk.pure fun _ h => h.1.1

theorem pump_moves {s : Nat} (bus : Int) : Moves s Frame.Good (dbusNativePumpSignals bus) fun _ =>
    Frame.Good := by
  refine Walk.loop (I := fun _ w => w.fr.Good) (dbsPump_lowers bus) (fun c => ?_) (0, 0)
  have result (d : Nat) (r : FrameStatus) (io : Int) : Moves s Frame.Good
      (.inr <$> dbsPumpResult d r io : M ((Nat × Nat) ⊕ Int)) fun _ => Frame.Good :=
    Walk.map (dbsPumpResult_moves d r io)
  refine Walk.mono (A := fun w => w.fr.Good) (B := fun _ w => w.fr.Good) ?_ (fun _ h => h)
    fun r w h => by
    cases r <;> exact h
  refine Walk.bind (dbsDrain_moves c.1) fun d =>
    Walk.ite (fun _ => Walk.pure fun w hw => hw.1) fun _ =>
    Walk.ite (fun hc => ?_) fun _ => (result _ _ _).mono (fun w hw => hw.1) fun _ _ h => h
  refine Walk.mono (A := fun w => w.fr.Good ∧ AtRest w.fr .needMore) (B := fun _ w => w.fr.Good) ?_
    (fun w hw => ⟨hw.1, wants_more hw.2 hc.1⟩) fun _ _ h => h
  refine Walk.bind (dbsRecv_moves bus _) fun got =>
    Walk.ite (fun _ => Walk.pure fun _ h => h) fun _ =>
    Walk.ite (fun _ => result _ _ _) fun _ => ?_
  exact Walk.bind (dbsIoFail_moves got) fun io =>
    (result _ _ _).mono (fun w hw => hw.1) fun _ _ h => h

theorem dbusSessionDone_moves {s : Nat} : Moves s Frame.Good dbusSessionDone fun _ =>
    Frame.Good := by
  refine Walk.bind frameNext_moves fun r => ?_
  cases r with
  | msg t => exact frameAdvance_moves t
  | _ => exact Walk.pure fun _ h => h.1

theorem closeFds_good {f : Frame} (h : f.Good) : (dbusFrameCloseFds f).1.Good :=
  ⟨⟨h.ok.off, h.ok.cap⟩, by simp [dbusFrameCloseFds]⟩

end Samvada
