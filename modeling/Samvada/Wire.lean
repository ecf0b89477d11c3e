import Samvada.Moves

/- What goes out. A write offers one buffer, in as many sends as it takes, and
   stops at the kernel's first refusal; a write that stops part-way latches the
   connection closed. A call moves, offers its request once, and moves on. -/
namespace Samvada
open Octets Resumable Resumable.Prog Relation

/-- The bytes an event put on the wire. -/
def Event.accepted : Event → Bytes
  | .send _ offered _ n => offered.take n.toNat
  | _ => []

/-- The bytes the kernel accepted, in order. -/
def wire (es : List Event) : Bytes := es.flatMap Event.accepted

@[simp] theorem wire_append (es es' : List Event) : wire (es ++ es') = wire es ++ wire es' :=
  List.flatMap_append

@[simp] theorem wire_cons (e : Event) (es : List Event) : wire (e :: es) = e.accepted ++ wire es :=
  List.flatMap_cons

@[simp] theorem wire_nil : wire [] = [] := rfl

theorem wire_eq_nil {es : List Event} (h : ∀ e ∈ es, e.accepted = []) : wire es = [] :=
  List.flatMap_eq_nil_iff.mpr h

theorem wire_quiet {es : List Event} (h : ∀ e ∈ es, e.quiet = true) : wire es = [] := by
  refine wire_eq_nil fun e he => ?_
  have := h e he
  cases e <;> first | rfl | cases this

@[simp] theorem wire_closes (fds : List Int) : wire (fds.map Event.close) = [] :=
  wire_eq_nil fun e he => by
    obtain ⟨fd, -, rfl⟩ := List.mem_map.mp he
    rfl

/-! ## The write -/

/-- A send, or an event that moves nothing. -/
def Event.offers : Event → Bool
  | .send _ _ _ _ => true
  | e => e.quiet

theorem Unmoved.offers {w w' : World} {es : List Event} (h : Unmoved w w' es) :
    ∀ e ∈ es, e.offers = true := by
  intro e he
  have := h.quiet e he
  cases e <;> first | rfl | exact this

/-- `w'` is `w` after `sent` bytes of `buf` went out, and nothing else. -/
structure Sent (buf : Bytes) (sent : Nat) (w w' : World) (es : List Event) : Prop where
  fr : w'.fr = w.fr
  dbm : w'.dbm = w.dbm
  serial : w'.dbs.serial = w.dbs.serial
  closed : w'.dbs.closed = w.dbs.closed
  inbox : w'.k.inbox = w.k.inbox
  trace : w'.trace = w.trace ++ es
  events : ∀ e ∈ es, e.offers = true
  wire : wire es = buf.take sent
  le : sent ≤ buf.length

theorem Sent.zero (buf : Bytes) (w : World) : Sent buf 0 w w [] :=
  ⟨rfl, rfl, rfl, rfl, rfl, (List.append_nil _).symm, by simp, rfl, Nat.zero_le _⟩

theorem Sent.rest {buf : Bytes} {sent : Nat} {w w' w'' : World} {es es' : List Event}
    (h : Sent buf sent w w' es) (h' : Unmoved w' w'' es') : Sent buf sent w w'' (es ++ es') where
  fr := h'.fr.trans h.fr
  dbm := h'.dbm.trans h.dbm
  serial := h'.serial.trans h.serial
  closed := h'.closed.trans h.closed
  inbox := h'.inbox.trans h.inbox
  trace := by rw [h'.trace, h.trace, List.append_assoc]
  events e he := by
    rcases List.mem_append.mp he with he | he
    · exact h.events e he
    · exact h'.offers e he
  wire := by rw [wire_append, wire_quiet h'.quiet, List.append_nil, h.wire]
  le := h.le

/-- One more send. -/
theorem Sent.send {buf : Bytes} {sent : Nat} {w w' : World} {es : List Event}
    (h : Sent buf sent w w' es) (fd : Int) (flags : Nat) (rest : List Int) {n : Int}
    (hn : n ≤ (buf.drop sent).length) :
    Sent buf (sent + n.toNat) w
    ({ w' with k := { w'.k with send := rest } }.emit [.send fd (buf.drop sent) flags n])
      (es ++ [.send fd (buf.drop sent) flags n]) where
  fr := h.fr
  dbm := h.dbm
  serial := h.serial
  closed := h.closed
  inbox := h.inbox
  trace := by rw [emit_trace, ← List.append_assoc]; exact congrArg (· ++ _) h.trace
  events e he := by
    rcases List.mem_append.mp he with he | he
    · exact h.events e he
    · rw [List.mem_singleton.mp he]
      rfl
  wire := by
    rw [wire_append, h.wire, List.take_add]
    exact congrArg (buf.take sent ++ ·) (List.append_nil _)
  le := by
    have hle := h.le
    rw [List.length_drop] at hn
    omega

/-- What a program that rests adds to a write. -/
theorem Rests.sent {α : Type} {x : M α} (h : Rests x) (buf : Bytes) (sent : Nat) (w : World) :
    Spec (fun w' => ∃ es, Sent buf sent w w' es) x (fun _ w' => ∃ es, Sent buf sent w w' es)
      fun w' => ∃ es, Sent buf sent w w' es := by
  rintro w' ⟨es, hs⟩
  obtain ⟨es', hq⟩ := h w'
  cases hx : x w' with
  | done a w'' =>
    rw [hx] at hq
    exact ⟨_, hs.rest hq⟩
  | waiting w'' =>
    rw [hx] at hq
    exact ⟨_, hs.rest hq⟩

theorem dbsWriteFull_rests (fd deadline : Int) : Rests (dbsWriteFull fd deadline) :=
  Rests.ite (Rests.pure _) (Rests.bind nowMs_rests fun _ => Rests.ite (Rests.pure _)
    (Rests.ite (Rests.pure _)
    (Rests.bind (sysPoll_rests _ _ _) fun _ => Rests.ite (Rests.pure _)
    (Rests.ite (Rests.pure _) (Rests.pure _)))))

/-- How a write ends: all of `buf` is out, or it stopped, and the connection is
closed if that was part-way. -/
inductive Wrote (buf : Bytes) (w : World) : Int → World → Prop where
  | all {w' : World} {es : List Event} (h : Sent buf buf.length w w' es) : Wrote buf w buf.length w'
  | stopped {w' : World} {es : List Event} {sent : Nat} {rc : Int} (h : Sent buf sent w w' es)
    (hlt : sent < buf.length) :
    Wrote buf w rc { w' with dbs := { w'.dbs with closed := w'.dbs.closed || 0 < sent } }

theorem dbsWriteRound_spec (fd : Int) (buf : Bytes) (deadline : Int) (w : World) (sent : Nat) :
    Spec (fun w' => ∃ es, Sent buf sent w w' es) (dbsWriteRound fd buf deadline sent)
      (fun r w' => match r with
        | .inl sent' => ∃ es, Sent buf sent' w w' es
        | .inr rc => Wrote buf w rc w')
      fun w' => ∃ es sent, Sent buf sent w w' es ∧ sent < buf.length := by
  refine Spec.ite (fun hle => Spec.pure ?_) fun hlt => ?_
  · rintro w' ⟨es, hs⟩
    have e : sent = buf.length := Nat.le_antisymm hs.le hle
    subst e
    exact .all hs
  have out {α : Type} {x : M α} (h : Rests x) : Spec (fun w' => ∃ es, Sent buf sent w w' es) x
      (fun _ w' => ∃ es, Sent buf sent w w' es) fun w' => ∃ es sent, Sent buf sent w w' es ∧
      sent < buf.length :=
    (h.sent buf sent w).mono (fun _ h => h) (fun _ _ h => h) fun _ ⟨es, h⟩ =>
      ⟨es, sent, h, by omega⟩
  have stop (rc : Int) : Spec (fun w' => ∃ es, Sent buf sent w w' es)
    (.inr <$> dbsCut sent rc : M (Nat ⊕ Int))
      (fun r w' => match r with
        | .inl sent' => ∃ es, Sent buf sent' w w' es
        | .inr rc => Wrote buf w rc w')
      fun w' => ∃ es sent, Sent buf sent w w' es ∧ sent < buf.length :=
    fun w' ⟨es, hs⟩ => Wrote.stopped hs (by omega)
  refine Spec.bind (Q := fun n w' => ∃ es, Sent buf (sent + n.toNat) w w' es) ?_ fun n => ?_
  · refine Spec.query (fun w' n w'' hs ha => ?_) fun w' ⟨es, hs⟩ _ => ⟨es, sent, hs, by omega⟩
    obtain ⟨es, hs⟩ := hs
    cases hq : w'.k.send with
    | nil =>
      rw [hq] at ha
      cases ha
    | cons a rest =>
      rw [hq] at ha
      cases ha
      exact ⟨_, hs.send fd _ rest (by omega)⟩
  · -- nothing went out unless `n` is positive
    have none (hn : n ≤ 0) {Q : Nat ⊕ Int → World → Prop} {W : World → Prop} {x : M (Nat ⊕ Int)}
        (h : Spec (fun w' => ∃ es, Sent buf sent w w' es) x Q W) :
        Spec (fun w' => ∃ es, Sent buf (sent + n.toNat) w w' es) x Q W := by
      have e : sent + n.toNat = sent := by omega
      rw [e]
      exact h
    refine Spec.ite (fun h => none (by omega) (Spec.pure fun _ h => h)) fun _ =>
      Spec.ite (fun h => none (by rw [h]; decide) ?_) fun _ =>
        Spec.ite (fun h => none (by omega) (stop n)) fun _ =>
        Spec.ite (fun h => none (by omega) (stop _)) fun _ => Spec.pure fun _ h => h
    exact Spec.bind (out (dbsWriteFull_rests fd deadline)) fun rc =>
      Spec.ite (fun _ => Spec.pure fun _ h => h)
      fun _ => stop rc

theorem dbsWrite_spec (fd : Int) (buf : Bytes) (deadline : Int) (w : World) :
    Spec (fun w' => w' = w) (dbsWrite fd buf deadline) (Wrote buf w)
      fun w' => ∃ es sent, Sent buf sent w w' es ∧ sent < buf.length :=
  (Spec.loop (I := fun sent w' => ∃ es, Sent buf sent w w' es) (Q := Wrote buf w)
    (W := fun w' => ∃ es sent, Sent buf sent w w' es ∧ sent < buf.length)
    (dbsWrite_lowers fd buf deadline)
    (fun sent => (dbsWriteRound_spec fd buf deadline w sent).mono (fun _ h => h)
      (fun r _ h => by cases r <;> exact h) fun _ h => h) 0).mono
    (fun _ h => h ▸ ⟨[], Sent.zero buf _⟩) (fun _ _ h => h) fun _ h => h

/-! ## The call -/

/-- The moves of one call: without its request, or with the request offered once
on an open connection. -/
inductive Calls (s : Nat) (m : Marshal) (w w' : World) : Prop where
  | unsent (h : ReflTransGen (Step s) w w')
  | sent {w₁ w₂ : World} {rc : Int} (before : ReflTransGen (Step s) w w₁) (hbad : m.bad = false)
    (hopen : w₁.dbs.closed = false) (hw : Wrote m.buf w₁ rc w₂)
    (after : ReflTransGen (Step s) w₂ w')

/-- The moves of a call that waits, in the middle of its request or not. -/
inductive CallsPart (s : Nat) (m : Marshal) (w w' : World) : Prop where
  | between (h : Calls s m w w')
  | sending {w₁ : World} {sent : Nat} {es : List Event} (before : ReflTransGen (Step s) w w₁)
      (hbad : m.bad = false)
    (hopen : w₁.dbs.closed = false) (h : Sent m.buf sent w₁ w' es) (hlt : sent < m.buf.length)

/-- From a state in `P`, `x` makes the moves of one call and ends in `Q`. -/
def Calling {α : Type} (s : Nat) (m : Marshal) (P : World → Prop) (x : M α) (Q : α → World → Prop) :
    Prop :=
  ∀ w, P w → match x w with
    | .done a w' => Calls s m w w' ∧ Q a w'
    | .waiting w' => CallsPart s m w w'

theorem Calls.before {s : Nat} {m : Marshal} {w w₁ w' : World} (h : ReflTransGen (Step s) w w₁)
    (hc : Calls s m w₁ w') : Calls s m w w' := by
  cases hc with
  | unsent h' => exact .unsent (h.trans h')
  | sent before hbad hopen hw after => exact .sent (h.trans before) hbad hopen hw after

theorem Calls.after {s : Nat} {m : Marshal} {w w₁ w' : World} (hc : Calls s m w w₁)
    (h : ReflTransGen (Step s) w₁ w') : Calls s m w w' := by
  cases hc with
  | unsent h' => exact .unsent (h'.trans h)
  | sent before hbad hopen hw after => exact .sent before hbad hopen hw (after.trans h)

theorem CallsPart.before {s : Nat} {m : Marshal} {w w₁ w' : World} (h : ReflTransGen (Step s) w w₁)
    (hc : CallsPart s m w₁ w') : CallsPart s m w w' := by
  cases hc with
  | between h' => exact .between (h'.before h)
  | sending before hbad hopen hs hlt => exact .sending (h.trans before) hbad hopen hs hlt

namespace Calling
variable {α β : Type} {s : Nat} {m : Marshal} {P : World → Prop} {Q : α → World → Prop}
    {R : β → World → Prop}

/-- A program that only moves. -/
theorem of_walk {x : M α} (h : Walk (Step s) Eq P x Q) : Calling s m P x Q := by
  intro w hw
  have hx := h w hw
  cases e : x w with
  | done a w' =>
    rw [e] at hx
    exact ⟨.unsent hx.1, hx.2⟩
  | waiting w' =>
    rw [e] at hx
    obtain ⟨_, hm, rfl⟩ := hx
    exact .between (.unsent hm)

/-- Moves before the request. -/
theorem before {x : M α} {f : α → M β} (hx : Walk (Step s) Eq P x Q)
    (hf : ∀ a, Calling s m (Q a) (f a) R) : Calling s m P (x >>= f) R := by
  intro w hw
  have h := hx w hw
  rw [bind_run]
  cases e : x w with
  | done a w₁ =>
    rw [e] at h
    have h' := hf a w₁ h.2
    simp only
    cases e' : f a w₁ with
    | done b w' =>
      rw [e'] at h'
      exact ⟨h'.1.before h.1, h'.2⟩
    | waiting w' =>
      rw [e'] at h'
      exact CallsPart.before h.1 h'
  | waiting w' =>
    rw [e] at h
    obtain ⟨_, hm, rfl⟩ := h
    exact .between (.unsent hm)

/-- Moves after the call. -/
theorem after {x : M α} {f : α → M β} (hx : Calling s m P x Q)
    (hf : ∀ a, Walk (Step s) Eq (Q a) (f a) R) : Calling s m P (x >>= f) R := by
  intro w hw
  have h := hx w hw
  rw [bind_run]
  cases e : x w with
  | waiting w' =>
    rw [e] at h
    exact h
  | done a w₁ =>
    rw [e] at h
    have h' := hf a w₁ h.2
    simp only
    cases e' : f a w₁ with
    | done b w' =>
      rw [e'] at h'
      exact ⟨h.1.after h'.1, h'.2⟩
    | waiting w' =>
      rw [e'] at h'
      obtain ⟨_, hm, rfl⟩ := h'
      exact .between (h.1.after hm)

/-- The request itself, and what follows it. -/
theorem write {fd deadline : Int} {f : Int → M β}
    (hp : ∀ w, P w → m.bad = false ∧ w.dbs.closed = false)
    (hf : ∀ n, Walk (Step s) Eq (fun w' => ∃ w, P w ∧ Wrote m.buf w n w') (f n) R) :
    Calling s m P (dbsWrite fd m.buf deadline >>= f) R := by
  intro w hw
  obtain ⟨hbad, hopen⟩ := hp w hw
  have h := dbsWrite_spec fd m.buf deadline w w rfl
  rw [bind_run]
  cases e : dbsWrite fd m.buf deadline w with
  | waiting w' =>
    rw [e] at h
    obtain ⟨es, sent, hs, hlt⟩ := h
    exact .sending .refl hbad hopen hs hlt
  | done n w₁ =>
    rw [e] at h
    have h' := hf n w₁ ⟨w, hw, h⟩
    simp only
    cases e' : f n w₁ with
    | done b w' =>
      rw [e'] at h'
      exact ⟨.sent .refl hbad hopen h h'.1, h'.2⟩
    | waiting w' =>
      rw [e'] at h'
      obtain ⟨_, hm, rfl⟩ := h'
      exact .between (.sent .refl hbad hopen h hm)

theorem ite {c : Prop} [Decidable c] {x y : M α} (hx : c → Calling s m P x Q)
    (hy : ¬c → Calling s m P y Q) : Calling s m P (if c then x else y) Q := by
  by_cases h : c
  · rw [if_pos h]
    exact hx h
  · rw [if_neg h]
    exact hy h

theorem mono {x : M α} {A : World → Prop} {B : α → World → Prop} (h : Calling s m A x B)
    (hp : ∀ w, P w → A w) (hq : ∀ a w, B a w → Q a w) : Calling s m P x Q := by
  intro w hw
  have := h w (hp w hw)
  cases hx : x w with
  | done a w' =>
    rw [hx] at this
    exact ⟨this.1, hq a w' this.2⟩
  | waiting w' =>
    rw [hx] at this
    exact this

end Calling

/-- An open connection with the request `m` built. -/
structure Fresh (m : Marshal) (w : World) : Prop where
  good : w.fr.Good
  dbm : w.dbm = m
  isOpen : w.dbs.closed = false

theorem Rests.fresh {α : Type} {x : M α} (h : Rests x) (s : Nat) (m : Marshal) :
    Walk (Step s) Eq (Fresh m) x fun _ => Fresh m := by
  intro w hw
  obtain ⟨es, hq⟩ := h w
  cases e : x w with
  | done a w' =>
    rw [e] at hq
    have hfr : w'.fr = w.fr := hq.fr
    exact ⟨.single (.quiet hq), hfr ▸ hw.good, hq.dbm.trans hw.dbm, hq.closed.trans hw.isOpen⟩
  | waiting w' =>
    rw [e] at hq
    exact ⟨w', .single (.quiet hq), rfl⟩

theorem frameNext_fresh {s : Nat} {m : Marshal} : Walk (Step s) Eq (Fresh m) frameNext fun _ =>
    Fresh m := by
  refine Walk.modifyGet (fun w hw => ?_) fun w hw => ?_
  · obtain ⟨r, g, c, e, rest, pass⟩ := dbusFrameNext_passed hw.good.ok.off
    simp only [e]
    exact .next rest pass
  · obtain ⟨r, g, c, e, rest, pass⟩ := dbusFrameNext_passed hw.good.ok.off
    simp only [e]
    exact ⟨⟨pass.ok hw.good.ok, pass.fds_nonneg hw.good.fds⟩, hw.dbm, hw.isOpen⟩

/-- A fault latches the connection closed only when it is the answer. -/
theorem dbsFrameFault_fresh {s : Nat} {m : Marshal} (r : FrameStatus) :
    Walk (Step s) Eq (Fresh m) (dbsFrameFault r) fun lf w =>
    w.fr.Good ∧ (¬ lf < 0 → Fresh m w) := by
  have lost : Walk (Step s) Eq (Fresh m) dbsLost fun lf w =>
    w.fr.Good ∧ (¬ lf < 0 → Fresh m w) := by
    refine (dbsLost_moves (P := Frame.Good)).mono (fun _ h => h.good) fun lf w h =>
      ⟨h.1, fun hn => ?_⟩
    exact absurd (by rw [h.2]; decide) hn
  have fine (lf : Int) : Walk (Step s) Eq (Fresh m) (pure lf : M Int) fun lf w =>
    w.fr.Good ∧ (¬ lf < 0 → Fresh m w) :=
    Walk.pure fun w h => ⟨h.good, fun _ => h⟩
  cases r with
  | eof => exact lost
  | truncated => exact lost
  | _ => exact fine _

theorem Wrote.good {buf : Bytes} {w w' : World} {rc : Int} (h : Wrote buf w rc w')
    (hg : w.fr.Good) : w'.fr.Good := by
  cases h with
  | all h =>
    rw [h.fr]
    exact hg
  | stopped h hlt =>
    show (_ : World).fr.Good
    rw [h.fr]
    exact hg

/-- **One call**: it moves, sends its request once on an open connection if at
all, and moves on; 0 leaves a message at the head. -/
theorem dbusSessionCall_calling (fd : Int) (s : Nat) (m : Marshal) :
    Calling s m (fun w => w.fr.Good ∧ w.dbm = m) (dbusSessionCall fd s) fun rc w =>
    Answered rc w.fr := by
  have fail (rc : Int) (h : rc < 0) (P : World → Prop) (hp : ∀ w, P w → w.fr.Good) :
      Walk (Step s) Eq P (pure rc : M Int) fun rc w => Answered rc w.fr :=
    Walk.pure fun w hw => ⟨hp w hw, .inl h⟩
  refine Calling.before (Q := fun m' w => (w.fr.Good ∧ w.dbm = m) ∧ m' = m)
    (Walk.gets fun w hw => ⟨hw, hw.2⟩) fun m' => ?_
  intro w hw
  obtain ⟨⟨hgood, hdbm⟩, rfl⟩ := hw
  revert w
  refine fun w hgood hdbm => (?_ : Calling s m' (fun w => w.fr.Good ∧ w.dbm = m') _ _)
    w ⟨hgood, hdbm⟩
  refine Calling.before (Q := fun c w => (w.fr.Good ∧ w.dbm = m') ∧ w.dbs.closed = c)
    (Walk.gets fun w hw => ⟨hw, rfl⟩) fun closed => ?_
  refine Calling.ite (fun _ => .of_walk (fail (-22) (by decide) _ fun w hw => hw.1.1)) fun hbad =>
    ?_
  refine Calling.ite (fun _ => .of_walk (fail (-107) (by decide) _ fun w hw => hw.1.1)) fun hopen =>
    ?_
  refine Calling.mono (A := Fresh m') (B := fun rc w => Answered rc w.fr) ?_
    (fun w hw => ⟨hw.1.1, hw.1.2, hw.2.trans (Bool.eq_false_iff.mpr hopen)⟩) fun _ _ h => h
  refine Calling.before frameNext_fresh fun lost =>
    Calling.before (dbsFrameFault_fresh lost) fun lf => ?_
  refine Calling.ite (fun h => .of_walk (fail lf h _ fun w hw => hw.1)) fun hlf => ?_
  refine Calling.mono (A := Fresh m') (B := fun rc w => Answered rc w.fr) ?_
    (fun w hw => hw.2 hlf) fun _ _ h => h
  refine Calling.before (Q := fun _ => Fresh m') (Walk.gets fun _ h => h) fun wm =>
    Calling.before (nowMs_rests.fresh s m') fun t0 =>
      Calling.before (Q := fun _ => Fresh m') (Walk.gets fun _ h => h) fun timeout => ?_
  refine Calling.write (fun w hw => ⟨Bool.eq_false_iff.mpr hbad, hw.isOpen⟩) fun n => ?_
  refine Walk.mono (A := fun w => w.fr.Good) (B := fun rc w => Answered rc w.fr) ?_
    (fun w' ⟨w, hw, h⟩ => h.good hw.good) fun _ _ h => h
  refine Walk.ite (fun h => fail (-110) (by decide) _ fun _ h => h) fun _ =>
    Walk.ite (fun hn => ?_) fun _ =>
    dbsAwait_moves fd s wm _
  exact (dbsIoFail_moves (P := Frame.Good) n).mono (fun _ h => h) fun rc w h => ⟨h.1, .inl (h.2 hn)⟩

end Samvada
