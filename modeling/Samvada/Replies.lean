import Samvada.Sending
import Samvada.Verdicts

/- Which request a reply answers. Every operation that asks takes the next serial
   of the connection and puts one request on the wire under it; the message its
   call takes as the answer carries that serial. While the serials do not wrap no
   two requests share one, so from a broker that answers a serial only for a request
   it got under it, a reply that comes late, after its own call gave up, is taken by
   no other. -/
namespace Samvada
open Octets Framing Resumable Resumable.Prog Relation

/-! ## Answers -/

/-- The message `m` is a reply, or an error, to the request with serial `s`. -/
structure AnswerTo (s : Nat) (m : Nat × Bytes) : Prop where
  valid : dbusUnmarshalValidate m.2.length m.2 = true
  serial : ∃ off sig, dbusUnmarshalFindField m.2.length m.2 dbusMarshalFReplyser = .ok (off, sig) ∧
    load32 m.2 off = s
  kind : dbusUnmarshalType m.2 = dbusMarshalTypeReturn ∨
    dbusUnmarshalType m.2 = dbusMarshalTypeError

/-- What the message `m` makes the call return: 0 for a METHOD_RETURN, its errno for an ERROR. -/
def Tells (rc : Int) (m : Nat × Bytes) : Prop :=
  (rc = 0 ∧ dbusUnmarshalType m.2 = dbusMarshalTypeReturn) ∨
    (rc = dbusSessionErrorOf m.2.length m.2 ∧ dbusUnmarshalType m.2 = dbusMarshalTypeError)

/-- What a call hears as its own says what the call returns. -/
theorem Tells.of_heard {uniq : Bytes} {s wm : Nat} {m : Nat × Bytes} {rc : Int}
    (h : heard uniq s wm m = if rc = 0 then .success else .failure rc) : Tells rc m := by
  unfold heard dbusSessionVerdict at h
  split_ifs at h with hm hr h0 he
  · exact .inl ⟨h0, hr⟩
  · injection h with errno
    exact .inr ⟨errno.symm, he⟩

/-- What a call hears as its own is an answer to its serial. -/
theorem AnswerTo.of_heard (uniq : Bytes) {s : Nat} (wm : Nat) {m : Nat × Bytes}
    (h : heard uniq s wm m ≠ .other) : AnswerTo s m := by
  unfold heard dbusSessionVerdict at h
  by_cases hm : dbusSessionMine uniq s wm m.1 m.2.length m.2 = true
  · rw [if_pos hm] at h
    unfold dbusSessionMine at hm
    simp only [Bool.and_eq_true] at hm
    obtain ⟨⟨⟨valid, serial⟩, -⟩, -⟩ := hm
    refine ⟨valid, ?_, ?_⟩
    · cases hf : dbusUnmarshalFindField m.2.length m.2 dbusMarshalFReplyser with
      | error e =>
        rw [hf] at serial
        cases serial
      | ok x =>
        rw [hf] at serial
        exact ⟨x.1, x.2, rfl, by simpa using serial⟩
    · by_cases hr : dbusUnmarshalType m.2 = dbusMarshalTypeReturn
      · exact .inl hr
      · rw [if_neg hr] at h
        by_cases he : dbusUnmarshalType m.2 = dbusMarshalTypeError
        · exact .inr he
        · rw [if_neg he] at h
          exact absurd rfl h
  · rw [if_neg hm] at h
    exact absurd rfl h

/-- Every answer the events `es` show was to `s`, and is one of the messages `ms`. -/
def Answers (s : Nat) (ms : List (Nat × Bytes)) (es : List Event) : Prop :=
  ∀ s' pos rc, .answered s' pos rc ∈ es → s' = s ∧ ∃ m ∈ ms, m.1 = pos ∧ AnswerTo s m ∧ Tells rc m

theorem Answers.append {s : Nat} {ms : List (Nat × Bytes)} {es es' : List Event}
    (h : Answers s ms es) (h' : Answers s ms es') : Answers s ms (es ++ es') := by
  intro s' pos rc ha
  rcases List.mem_append.mp ha with ha | ha
  · exact h s' pos rc ha
  · exact h' s' pos rc ha

theorem Answers.mono {s : Nat} {ms ms' : List (Nat × Bytes)} {es : List Event} (h : Answers s ms es)
    (hm : ms ⊆ ms') : Answers s ms' es := by
  intro s' pos rc ha
  obtain ⟨e, m, hmem, hpos, hans⟩ := h s' pos rc ha
  exact ⟨e, m, hm hmem, hpos, hans⟩

/-- Events among which no call ends. -/
theorem Answers.none {s : Nat} {ms : List (Nat × Bytes)} {es : List Event}
    (h : ∀ s' pos rc, .answered s' pos rc ∉ es) : Answers s ms es :=
    fun s' pos rc ha => absurd ha (h s' pos rc)

theorem closes_unanswered (fds : List Int) : ∀ s pos rc, .answered s pos rc ∉ fds.map
    Event.close := by
  intro s pos rc h
  obtain ⟨fd, -, e⟩ := List.mem_map.mp h
  cases e

theorem offers_unanswered {es : List Event} (h : ∀ e ∈ es, e.offers = true) : ∀ s pos rc,
    .answered s pos rc ∉ es :=
  fun s pos rc ha => by cases h _ ha

theorem pushEvents_unanswered (f : Frame) (fd : Int) : ∀ s pos rc, .answered s pos rc ∉
    pushEvents f fd := by
  intro s pos rc h
  rcases List.mem_append.mp h with h | h
  · cases List.mem_singleton.mp (List.mem_ite_nil_right.mp h).2
  · exact closes_unanswered _ s pos rc h

theorem Queued.unanswered {f g : Frame} {fds moved : List Int} {es : List Event}
    (hq : Queued f fds moved es g) : ∀ s pos rc, .answered s pos rc ∉ es := by
  induction hq with
  | nil => simp
  | @keep f g fd rest moved es hfd hq ih =>
    intro s pos rc h
    rcases List.mem_append.mp h with h | h
    · exact pushEvents_unanswered f fd s pos rc h
    · exact ih s pos rc h
  | @move f g fd nfd rest moved es hfd hq ih =>
    intro s pos rc h
    rcases List.mem_append.mp h with h | h
    · rcases List.mem_append.mp h with h | h
      · simp at h
      · exact pushEvents_unanswered f nfd s pos rc h
    · exact ih s pos rc h

theorem advance_unanswered (f : Frame) (r : Nat) : ∀ s pos rc, .answered s pos rc ∉
    advanceEvents f r := by
  intro s pos rc h
  rcases List.mem_cons.mp h with h | h
  · cases h
  · exact closes_unanswered _ s pos rc h

/-- **A move answers only its own serial**, with a message still to be read. -/
theorem Step.answers {s : Nat} {w w' : World} (h : Step s w w') (hg : w.fr.Good) :
    ∃ es, w'.trace = w.trace ++ es ∧ Answers s w.toRead es := by
  cases h with
  | quiet hq => exact ⟨_, hq.trace, .none (offers_unanswered hq.offers)⟩
  | lost => exact ⟨[], (List.append_nil _).symm, .none (by simp)⟩
  | @next r g d rest pass => exact ⟨_, rfl, .append (.none (closes_unanswered d)) (.none (by simp))⟩
  | advance rest => exact ⟨_, rfl, .none (advance_unanswered _ _)⟩
  | @answered r wm rc rest hv =>
    refine ⟨_, rfl, fun s' pos rc' ha => ?_⟩
    cases List.mem_singleton.mp ha
    have said : heard w.dbs.uniq s wm (dbusFramePos w.fr, (dbusFrameBase w.fr).take r) =
        if rc = 0 then .success else .failure rc := by
      rw [← rest.heard, hv]
    refine ⟨rfl, (dbusFramePos w.fr, (dbusFrameBase w.fr).take r), ?_, rfl, AnswerTo.of_heard
      w.dbs.uniq wm ?_, .of_heard said⟩
    · rw [rest.toRead_cons hg.ok.off]
      exact List.mem_cons_self ..
    · rw [said]
      split <;> simp
  | prepare hp => exact ⟨[], (List.append_nil _).symm, .none (by simp)⟩
  | eof => exact ⟨[], (List.append_nil _).symm, .none (by simp)⟩
  | @recvNone w' fd n want flags anc trunc hn hfr hdbm hdbs hin ht =>
    refine ⟨_, ht, .none fun s' pos rc ha => ?_⟩
    rcases List.mem_cons.mp ha with ha | ha
    · cases ha
    · split at ha
      · exact closes_unanswered _ s' pos rc ha
      · cases ha
  | @receive w' fd want flags d anc trunc moved qs g rest hd hwithin hroom hin hq hfr
      hdbm hdbs ht =>
    refine ⟨_, ht, .none fun s' pos rc ha => ?_⟩
    rcases List.mem_cons.mp ha with ha | ha
    · cases ha
    · rcases List.mem_append.mp ha with ha | ha
      · rcases List.mem_append.mp ha with ha | ha
        · exact closes_unanswered _ s' pos rc ha
        · exact hq.unanswered s' pos rc ha
      · cases List.mem_singleton.mp ha
  | @take w₁ w' r i fd g qs ok rest hc h0 hq he =>
    refine ⟨_, take_trace hq he, .append (.none (by simp))
      (.append (.none (offers_unanswered hq.offers)) ?_)⟩
    cases ok with
    | true => exact .append (.none (advance_unanswered g r)) (.none (by simp))
    | false =>
      exact Answers.append (.none (by simp) : Answers s _ [.close fd])
        (.none (advance_unanswered g r))

/-- What happened between `w` and `w'` answers `s` only, by messages still to be read. -/
def AnsweredOnly (s : Nat) (w w' : World) : Prop :=
  w'.fr.Good ∧ w'.toRead ⊆ w.toRead ∧ ∃ es, w'.trace = w.trace ++ es ∧ Answers s w.toRead es

section
variable {s : Nat} {w v w' : World}

theorem AnsweredOnly.trans (h : AnsweredOnly s w v) (h' : AnsweredOnly s v w') :
    AnsweredOnly s w w' := by
  obtain ⟨-, hsub, es, ht, ha⟩ := h
  obtain ⟨good, hsub', es', ht', ha'⟩ := h'
  exact ⟨good, fun m hm => hsub (hsub' hm), es ++ es', by
    rw [ht', ht, List.append_assoc], ha.append (ha'.mono hsub)⟩

theorem moves_answers (h : ReflTransGen (Step s) w w') (hg : w.fr.Good) : AnsweredOnly s w w' := by
  induction h with
  | refl => exact ⟨hg, fun _ h => h, [], (List.append_nil _).symm, .none (by simp)⟩
  | tail _ last ih =>
    obtain ⟨es, ht, ha⟩ := last.answers ih.1
    obtain ⟨good, es', done, -, -, hread⟩ := moves_read (.single last) ih.1
    exact ih.trans ⟨good, by rw [hread]; exact List.subset_append_right _ _, es, ht, ha⟩

theorem Sent.answers {buf : Bytes} {n : Nat} {es : List Event} (h : Sent buf n w w' es)
    (hg : w.fr.Good) : AnsweredOnly s w w' := by
  have same : w'.toRead = w.toRead := toRead_congr (congrArg dbusFrameCursor h.fr) h.inbox
  exact ⟨h.fr ▸ hg, by
    rw [same]; exact fun _ h => h, es, h.trace, .none (offers_unanswered h.events)⟩

theorem Wrote.answers {buf : Bytes} {rc : Int} (h : Wrote buf w rc w') (hg : w.fr.Good) :
    AnsweredOnly s w w' := by
  cases h with
  | all h => exact h.answers hg
  | stopped h _ => exact h.answers hg

theorem Calls.answers {m : Marshal} (h : Calls s m w w') (hg : w.fr.Good) :
    AnsweredOnly s w w' := by
  cases h with
  | unsent h => exact moves_answers h hg
  | sent before _ _ hw after =>
    have hb := moves_answers before hg
    have hw := hw.answers (s := s) hb.1
    exact (hb.trans hw).trans (moves_answers after hw.1)

theorem CallsPart.answers {m : Marshal} (h : CallsPart s m w w') (hg : w.fr.Good) :
    AnsweredOnly s w w' := by
  cases h with
  | between h => exact h.answers hg
  | sending before _ _ hs _ =>
    have hb := moves_answers before hg
    exact hb.trans (hs.answers hb.1)

/-- What answers every serial answers none. -/
theorem moves_unanswered (h : ∀ s, ReflTransGen (Step s) w w') (hg : w.fr.Good) :
    ∃ es, w'.trace = w.trace ++ es ∧ ∀ s pos rc, .answered s pos rc ∉ es := by
  obtain ⟨-, -, es, ht, ha⟩ := moves_answers (h 0) hg
  obtain ⟨-, -, es', ht', ha'⟩ := moves_answers (h 1) hg
  have e : es' = es := List.append_cancel_left (ht'.symm.trans ht)
  subst e
  refine ⟨es', ht, fun s pos rc hm => ?_⟩
  have h0 := (ha s pos rc hm).1
  have h1 := (ha' s pos rc hm).1
  omega

end

/-! ## An operation that asks -/

/-- How an operation that asks ends: turned away before it took a serial, or
having called once under the next one. -/
inductive Asks {α : Type} (op : BusOp) (w : World) : Outcome World α → Prop where
  | refused {a : α} {w' : World} (h : Unmoved w w' []) : Asks op w (.done a w')
  | done {a : α} {v w' : World} (h : Unmoved w v [])
    (hc : Calls (op.serial w) (op.request (op.serial w))
    (v.asking (op.serial w) (op.request (op.serial w))) w') : Asks op w (.done a w')
  | waiting {v w' : World} (h : Unmoved w v [])
    (hc : CallsPart (op.serial w) (op.request (op.serial w))
    (v.asking (op.serial w) (op.request (op.serial w))) w') : Asks op w (.waiting w')

theorem Asks.map {α β : Type} {op : BusOp} {w : World} {x : M α} (f : α → β) (h : Asks op w (x w)) :
    Asks op w ((f <$> x : M β) w) := by
  show Asks op w ((x >>= fun a => pure (f a)) w)
  rw [bind_run]
  generalize x w = o at h
  cases h with
  | refused h => exact .refused h
  | done h hc => exact .done h hc
  | waiting h hc => exact .waiting h hc

/-- Taking the next serial, building the request and calling. -/
theorem asks_calling {α : Type} {op : BusOp} {request : Nat → Marshal}
    {body : Nat → M α} {w v : World} {Q : α → World → Prop} (hr : ∀ s, request s = op.request s)
    (hb : ∀ s, Calling s (op.request s) (fun w => w.fr.Good ∧ w.dbm = op.request s) (body s) Q)
    (hs : op.serial w = dbusSessionWrapSerial (w.dbs.serial + 1)) (hq : Unmoved w v [])
    (hg : w.fr.Good) : Asks op w ((do
      let serial ← dbusSessionNextSerial
      setMarshal (request serial)
      body serial : M α) v) := by
  have hserial : dbusSessionWrapSerial (v.dbs.serial + 1) = op.serial w := by rw [hq.serial, hs]
  have run : (do
      let serial ← dbusSessionNextSerial
      setMarshal (request serial)
      body serial : M α) v = body (op.serial w)
        (v.asking (op.serial w) (op.request (op.serial w))) := by
    show body (dbusSessionWrapSerial (v.dbs.serial + 1))
      (v.asking (dbusSessionWrapSerial (v.dbs.serial + 1))
      (request (dbusSessionWrapSerial (v.dbs.serial + 1)))) = _
    rw [hserial, hr]
  have good : (v.asking (op.serial w) (op.request (op.serial w))).fr.Good := by
    show v.fr.Good
    rw [hq.fr]
    exact hg
  rw [run]
  have h := hb (op.serial w) (v.asking (op.serial w) (op.request (op.serial w))) ⟨good, rfl⟩
  cases e : body (op.serial w) (v.asking (op.serial w) (op.request (op.serial w))) with
  | done a w' =>
    rw [e] at h
    exact .done hq h.1
  | waiting w' =>
    rw [e] at h
    exact .waiting hq h

theorem takeDevice_asks (bus : Int) (sess : Option Bytes) (major minor : Int) {w : World}
    (hg : w.fr.Good) : Asks (.takeDevice sess major minor) w
    (dbusNativeTakeDevice bus sess major minor w) := by
  obtain ⟨ok, v, ha, hq⟩ := allocOnce_still .stx w
  unfold dbusNativeTakeDevice
  rw [bind_done ha]
  cases ok with
  | false => exact .refused hq
  | true =>
    rw [if_pos rfl]
    by_cases hs : dbusSessionSessOk sess = false
    · rw [if_pos hs]
      exact .refused hq
    rw [if_neg hs]
    by_cases hM : dbusSessionDevnumOk major = false
    · rw [if_pos hM]
      exact .refused hq
    rw [if_neg hM]
    by_cases hm : dbusSessionDevnumOk minor = false
    · rw [if_pos hm]
      exact .refused hq
    rw [if_neg hm]
    refine asks_calling (Q := fun _ w => w.fr.Good) (fun _ => rfl) (fun s => ?_) rfl hq hg
    exact reply_calling bus s _ (fun rc => Walk.pure fun _ h => h) fun r =>
      takeDevice_tail s r major minor

/-- **Every operation that asks** is turned away, or calls once under the next serial. -/
theorem asks_ops (bus : Int) {op : BusOp} (ha : op.asks = true) {w : World} (hg : w.fr.Good) :
    Asks op w (op.body bus w) := by
  have still := Unmoved.refl w
  have callAndDone {request : Nat → Marshal} (hr : ∀ s, request s = op.request s)
      (hs : op.serial w = dbusSessionWrapSerial (w.dbs.serial + 1)) :
      Asks op w (dbsCallAndDone bus request w) :=
    asks_calling (Q := fun _ w => w.fr.Good) hr (fun s => callAndDone_calling bus s _) hs still hg
  cases op with
  | call m s => cases ha
  | done => cases ha
  | pump => cases ha
  | hello =>
    refine asks_calling (Q := fun _ w => w.fr.Good) (fun _ => rfl) (fun s => ?_) rfl still hg
    exact reply_calling bus s _ (fun rc => Walk.pure fun _ h => h) fun r => hello_tail s r
  | sessionPath pid out =>
    refine Asks.map Prod.fst ?_
    cases out with
    | none => exact .refused still
    | some n =>
      by_cases hn : n ≤ 0
      · rw [show dbusNativeGetSessionPath bus pid (some n) = pure (-22, none) from if_pos hn]
        exact .refused still
      · unfold dbusNativeGetSessionPath
        dsimp only
        rw [if_neg hn]
        refine asks_calling (Q := fun _ w => w.fr.Good) (fun _ => rfl) (fun s => ?_) rfl still hg
        exact reply_calling bus s _ (fun rc => Walk.pure fun _ h => h) fun r =>
          sessionPath_tail s r n
  | takeControl sess =>
    by_cases hs : dbusSessionSessOk sess = true
    · rw [show (BusOp.takeControl sess).body bus = dbsCallAndDone bus
        (dbsTakeControlCall (sess.getD [])) from if_pos hs]
      exact callAndDone (fun _ => rfl) rfl
    · rw [show (BusOp.takeControl sess).body bus = pure (-22) from if_neg hs]
      exact .refused still
  | releaseControl sess =>
    by_cases hs : dbusSessionSessOk sess = true
    · rw [show (BusOp.releaseControl sess).body bus = dbsCallAndDone bus
        (dbsReleaseControlCall (sess.getD [])) from if_pos hs]
      exact callAndDone (fun _ => rfl) rfl
    · rw [show (BusOp.releaseControl sess).body bus = pure (-22) from if_neg hs]
      exact .refused still
  | takeDevice sess major minor => exact Asks.map Prod.fst (takeDevice_asks bus sess major minor hg)
  | releaseDevice sess major minor =>
    by_cases hs : dbusSessionSessOk sess = true
    · by_cases hd : (dbusSessionDevnumOk major && dbusSessionDevnumOk minor) = true
      · rw [show (BusOp.releaseDevice sess major minor).body bus =
          dbsCallAndDone bus (dbsDeviceCall "ReleaseDevice" (sess.getD []) major minor) from (if_pos
          hs).trans (if_pos hd)]
        exact callAndDone (fun _ => rfl) rfl
      · rw [show (BusOp.releaseDevice sess major minor).body bus = pure
          (-22) from (if_pos hs).trans (if_neg hd)]
        exact .refused still
    · rw [show (BusOp.releaseDevice sess major minor).body bus = pure (-22) from if_neg hs]
      exact .refused still

/-! ## Exchanges -/

/-- One operation of a run: the serial it asked under, if it did, its events, and what
it returned, if it did. -/
structure Exchange where
  op : BusOp
  serial : Option Nat
  events : List Event
  result : Option Int

/-- What `op` did from `w` to `w'`. -/
def Exchange.of (op : BusOp) (w w' : World) (result : Option Int) : Exchange where
  op := op
  serial := if w'.dbs.serial = w.dbs.serial then none else some w'.dbs.serial
  events := w'.trace.drop w.trace.length
  result := result

/-- The operations of a run, as far as it got. -/
def conversation (bus : Int) : List BusOp → World → List Exchange
  | [], _ => []
  | op :: ops, w =>
    match op.body bus w with
    | .waiting v => [.of op w v none]
    | .done rc v =>
      if op = .hello ∧ rc < 0 then [.of op w v.dropFds (some rc)]
      else .of op w v (some rc) :: conversation bus ops v

/-- They are operations of the run, in order. -/
theorem conversation_ops (bus : Int) (ops : List BusOp) (w : World) :
    (conversation bus ops w).map Exchange.op <+: ops := by
  induction ops generalizing w with
  | nil => exact List.nil_prefix
  | cons op ops ih =>
    rw [conversation]
    cases op.body bus w with
    | waiting v => exact ⟨ops, rfl⟩
    | done rc v =>
      dsimp only
      split
      · exact ⟨ops, rfl⟩
      · exact List.cons_prefix_cons.mpr ⟨rfl, ih v⟩

/-- What went out was the request under the serial, or a beginning of it; what was
taken as the answer is one of `ms`, carries that serial and says what the call
returned; and an operation that asked returned what it was answered. -/
structure Exchange.Sound (ms : List (Nat × Bytes)) (x : Exchange) : Prop where
  sent : wire x.events = [] ∨ ∃ s, x.serial = some s ∧ wire x.events <+: (x.op.request s).buf
  answers : ∀ s pos rc, .answered s pos rc ∈ x.events → x.serial = some s ∧ ∃ m ∈ ms,
    m.1 = pos ∧ AnswerTo s m ∧ Tells rc m
  returned : x.op.asks = true → ∀ v, x.result = some v → Rendered v (verdicts x.events)

/-- One operation from `w` to `w'`: no serial, or the next one. -/
structure Exchanged (w : World) (x : Exchange) (w' : World) : Prop where
  good : w'.fr.Good
  read : w'.toRead ⊆ w.toRead
  trace : w'.trace = w.trace ++ x.events
  sound : x.Sound w.toRead
  serial : x.serial = none ∧ w'.dbs.serial = w.dbs.serial ∨
    x.serial = some w'.dbs.serial ∧ w'.dbs.serial = dbusSessionWrapSerial (w.dbs.serial + 1)

/-- What an operation that asked and ended in `w'` returned. -/
def Returns (op : BusOp) (w w' : World) (result : Option Int) : Prop :=
  op.asks = true → ∀ v, result = some v → Returned w.verdicts v w'

section
variable {s : Nat} {m : Marshal} {w v w' : World} {op : BusOp}

theorem Wrote.serial_eq {buf : Bytes} {rc : Int} (h : Wrote buf w rc w') :
    w'.dbs.serial = w.dbs.serial := by
  cases h with
  | all h => exact h.serial
  | stopped h _ => exact h.serial

theorem Calls.serial_eq (h : Calls s m w w') : w'.dbs.serial = w.dbs.serial := by
  cases h with
  | unsent h => exact (moves_session h).1
  | sent before _ _ hw after =>
    exact (moves_session after).1.trans (hw.serial_eq.trans (moves_session before).1)

theorem CallsPart.serial_eq (h : CallsPart s m w w') : w'.dbs.serial = w.dbs.serial := by
  cases h with
  | between h => exact h.serial_eq
  | sending before _ _ hs _ => exact hs.serial.trans (moves_session before).1

theorem Exchange.of_events {es : List Event} (h : w'.trace = w.trace ++ es) (result : Option Int) :
    (Exchange.of op w w' result).events = es := by
  show w'.trace.drop w.trace.length = es
  rw [h, List.drop_left]

/-- A serial taken is never the one before it. -/
theorem wrapSerial_ne (s : Nat) : dbusSessionWrapSerial (s + 1) ≠ s := by
  unfold dbusSessionWrapSerial dbusSessionMaxSerial
  split_ifs with hmax h0
  · omega
  · exact h0.elim
  · omega

/-- The events of an operation, its serial and what it returned, put together. -/
theorem Exchanged.intro {es : List Event} {result : Option Int} (good : w'.fr.Good)
    (read : w'.toRead ⊆ w.toRead) (ht : w'.trace = w.trace ++ es)
    (sent : wire es = [] ∨ w'.dbs.serial = dbusSessionWrapSerial (w.dbs.serial + 1) ∧
      wire es <+: (op.request w'.dbs.serial).buf)
    (answers : ∀ s pos rc, .answered s pos rc ∈ es →
      (w'.dbs.serial = dbusSessionWrapSerial (w.dbs.serial + 1) ∧ s = w'.dbs.serial) ∧
        ∃ m ∈ w.toRead, m.1 = pos ∧ AnswerTo s m ∧ Tells rc m)
    (returns : Returns op w w' result)
    (serial : w'.dbs.serial = w.dbs.serial ∨
      w'.dbs.serial = dbusSessionWrapSerial (w.dbs.serial + 1)) :
    Exchanged w (.of op w w' result) w' := by
  have events : (Exchange.of op w w' result).events = es := Exchange.of_events ht result
  have taken (h : w'.dbs.serial = dbusSessionWrapSerial (w.dbs.serial + 1)) :
      (Exchange.of op w w' result).serial = some w'.dbs.serial :=
    if_neg (h ▸ wrapSerial_ne w.dbs.serial)
  refine ⟨good, read, by rw [events, ht], ⟨?_, ?_, ?_⟩, ?_⟩
  · rw [events]
    rcases sent with sent | ⟨h, sent⟩
    · exact .inl sent
    · exact .inr ⟨_, taken h, sent⟩
  · intro s pos rc ha
    rw [events] at ha
    obtain ⟨⟨h, rfl⟩, hm⟩ := answers s pos rc ha
    exact ⟨taken h, hm⟩
  · intro asks v hv
    obtain ⟨vs, hvs, rendered⟩ := returns asks v hv
    have same : verdicts es = vs := by
      have grown : w'.verdicts = w.verdicts ++ verdicts es := by
        rw [World.verdicts, ht, verdicts_append, World.verdicts]
      exact List.append_cancel_left (grown.symm.trans hvs)
    rw [events, same]
    exact rendered
  · rcases serial with h | h
    · exact .inl ⟨if_pos h, h⟩
    · exact .inr ⟨taken h, h⟩

/-- An operation that asked under the next serial. -/
theorem Exchanged.asked (hn : op.serial w = dbusSessionWrapSerial (w.dbs.serial + 1))
    (hq : Unmoved w v []) (hg : w.fr.Good)
    (hsent : SentOf (op.request (op.serial w)) (v.asking (op.serial w) (op.request (op.serial w)))
    w')
    (hans : w.fr.Good → AnsweredOnly (op.serial w)
    (v.asking (op.serial w) (op.request (op.serial w))) w')
    (hserial : w'.dbs.serial = op.serial w) {result : Option Int}
    (returns : Returns op w w' result) : Exchanged w (.of op w w' result) w' := by
  have same : World.toRead (v.asking (op.serial w) (op.request (op.serial w))) = w.toRead :=
    toRead_congr (congrArg dbusFrameCursor hq.fr) hq.inbox
  have trace : (v.asking (op.serial w) (op.request (op.serial w))).trace = w.trace :=
    hq.trace.trans (List.append_nil _)
  obtain ⟨good, hsub, es, ht, ha⟩ := hans hg
  obtain ⟨es', ht', hout⟩ := hsent
  have e : es' = es := List.append_cancel_left (ht'.symm.trans ht)
  subst e
  rw [same] at hsub ha
  rw [trace] at ht
  have next := hserial.trans hn
  refine .intro good hsub ht ?_ (fun s pos rc h => ?_) returns (.inr next)
  · rw [hserial]
    rcases hout with hout | ⟨-, hout⟩
    · exact .inl hout
    · exact .inr ⟨hn, hout⟩
  · obtain ⟨rfl, hm⟩ := ha s pos rc h
    exact ⟨⟨next, hserial.symm⟩, hm⟩

/-- An operation that only moved, whatever the serial. -/
theorem Exchanged.moved (h : ∀ s, ReflTransGen (Step s) w w') (hg : w.fr.Good)
    {result : Option Int} (returns : Returns op w w' result) :
    Exchanged w (.of op w w' result) w' := by
  obtain ⟨es, ht, hun⟩ := moves_unanswered h hg
  obtain ⟨es', ht', hw⟩ := moves_wire (h 0)
  have e : es' = es := List.append_cancel_left (ht'.symm.trans ht)
  subst e
  obtain ⟨good, hsub, -⟩ := moves_answers (h 0) hg
  exact .intro good hsub ht (.inl hw) (fun s pos rc h => absurd h (hun s pos rc)) returns
    (.inl (moves_session (h 0)).1)

end

/-- **One operation**: it takes at most the next serial, answers only that, and returns
what it was answered. -/
theorem exchange (bus : Int) {op : BusOp} (hn : op.native = true) {w : World} (hg : w.fr.Good) :
    Exchanged w (.of op w (op.body bus w).state (op.body bus w).value)
      (op.body bus w).state := by
  by_cases ha : op.asks = true
  · have h := asks_ops bus ha hg
    have hs := BusOp.serial_native hn w
    have concludes := body_concludes bus ha (w := w) rfl
    generalize op.body bus w = o at h concludes
    have returns : Returns op w o.state o.value := by
      intro _ v hv
      cases concludes with
      | done returned =>
        cases hv
        exact returned
      | waiting => cases hv
    cases h with
    | refused h => exact Exchanged.moved (fun s => .single (.quiet h)) hg returns
    | @done a v w' h hc =>
      have good : (v.asking (op.serial w) (op.request (op.serial w))).fr.Good := by
        show v.fr.Good
        rw [h.fr]
        exact hg
      exact Exchanged.asked hs h hg hc.sentOf (fun _ => hc.answers good) hc.serial_eq returns
    | @waiting v w' h hc =>
      have good : (v.asking (op.serial w) (op.request (op.serial w))).fr.Good := by
        show v.fr.Good
        rw [h.fr]
        exact hg
      exact Exchanged.asked hs h hg hc.sentOf (fun _ => hc.answers good) hc.serial_eq returns
  · have returns : Returns op w (op.body bus w).state (op.body bus w).value :=
      fun asks => absurd asks ha
    cases op with
    | call m s => cases hn
    | done =>
      refine Exchanged.moved (fun s => ?_) hg returns
      have walk : Walk (Step s) Eq (fun w => w.fr.Good) (BusOp.done.body bus) fun _ _ => True :=
        Walk.bind (Q := fun _ w => w.fr.Good) dbusSessionDone_moves fun _ =>
          Walk.pure fun _ _ => trivial
      have h := walk w hg
      cases hx : BusOp.done.body bus w with
      | done a w' =>
        rw [hx] at h
        exact h.1
      | waiting w' =>
        rw [hx] at h
        obtain ⟨_, hm, rfl⟩ := h
        exact hm
    | pump =>
      refine Exchanged.moved (fun s => ?_) hg returns
      have h := pump_moves (s := s) bus w hg
      show ReflTransGen (Step s) w (dbusNativePumpSignals bus w).state
      cases hx : dbusNativePumpSignals bus w with
      | done a w' =>
        rw [hx] at h
        exact h.1
      | waiting w' =>
        rw [hx] at h
        obtain ⟨_, hm, rfl⟩ := h
        exact hm
    | _ => exact absurd rfl ha

/-- Closing what a failed Hello left queued. -/
theorem Exchanged.drop {op : BusOp} {w w' : World} {result : Option Int}
    (h : Exchanged w (.of op w w' result) w') :
    Exchanged w (.of op w w'.dropFds result) w'.dropFds := by
  have closed : w'.dropFds.trace = w'.trace ++ (dbusFrameCloseFds w'.fr).2.map Event.close := rfl
  have grown : (Exchange.of op w w'.dropFds result).events =
      (Exchange.of op w w' result).events ++ (dbusFrameCloseFds w'.fr).2.map Event.close :=
    Exchange.of_events (by rw [closed, h.trace, List.append_assoc]) result
  refine ⟨closeFds_good h.good, h.read, ?_, ⟨?_, fun s pos rc ha => ?_, ?_⟩, h.serial⟩
  · rw [grown, closed, h.trace, List.append_assoc]
  · rw [grown, wire_append, wire_closes, List.append_nil]
    exact h.sound.sent
  · rw [grown] at ha
    rcases List.mem_append.mp ha with ha | ha
    · exact h.sound.answers s pos rc ha
    · exact absurd ha (closes_unanswered _ s pos rc)
  · rw [grown, verdicts_append, verdicts_aside closes_aside, List.append_nil]
    exact h.sound.returned

theorem Exchange.Sound.mono {ms ms' : List (Nat × Bytes)} {x : Exchange} (h : x.Sound ms)
    (hm : ms ⊆ ms') : x.Sound ms' := by
  refine ⟨h.sent, fun s pos rc ha => ?_, h.returned⟩
  obtain ⟨hs, m, hmem, hpos, hans⟩ := h.answers s pos rc ha
  exact ⟨hs, m, hm hmem, hpos, hans⟩

/-- A run as the exchanges it is made of. -/
structure Conversation (w : World) (n : Nat) (xs : List Exchange) (w' : World) : Prop where
  trace : w'.trace = w.trace ++ xs.flatMap Exchange.events
  sound : ∀ x ∈ xs, x.Sound w.toRead
  rising : (xs.filterMap Exchange.serial).Pairwise (· < ·)
  fresh : ∀ s ∈ xs.filterMap Exchange.serial, w.dbs.serial < s ∧ s ≤ w.dbs.serial + n

/-- Short of the end of its range the counter goes up by one. -/
theorem Exchanged.counter {w w' : World} {x : Exchange} (h : Exchanged w x w')
    (hs : w.dbs.serial + 1 ≤ 4294967295) : x.serial = none ∧ w'.dbs.serial = w.dbs.serial ∨
      x.serial = some w'.dbs.serial ∧ w'.dbs.serial = w.dbs.serial + 1 := by
  have next : dbusSessionWrapSerial (w.dbs.serial + 1) = w.dbs.serial + 1 := by
    unfold dbusSessionWrapSerial dbusSessionMaxSerial
    rw [if_neg (by omega), if_neg (by omega)]
  rw [← next]
  exact h.serial

theorem Conversation.one {w w' : World} {x : Exchange} {n : Nat} (h : Exchanged w x w')
    (hs : w.dbs.serial + (n + 1) ≤ 4294967295) : Conversation w (n + 1) [x] w' := by
  have counter := h.counter (by omega)
  refine ⟨h.trace.trans (by simp), fun y hy => ?_, ?_, fun s hm => ?_⟩
  · rw [List.mem_singleton.mp hy]
    exact h.sound
  · rcases counter with ⟨e, -⟩ | ⟨e, -⟩ <;> simp [e]
  · rcases counter with ⟨e, -⟩ | ⟨e, hv⟩
    · simp [e] at hm
    · simp only [List.filterMap_cons, e, List.filterMap_nil, List.mem_singleton] at hm
      omega

/-- One exchange before a run of `n`. -/
theorem Conversation.cons {w v w' : World} {x : Exchange} {xs : List Exchange} {n : Nat}
    (h : Exchanged w x v)
    (hs : w.dbs.serial + (n + 1) ≤ 4294967295) (rest : Conversation v n xs w') :
    Conversation w (n + 1) (x :: xs) w' := by
  have first := Conversation.one (n := n) h hs
  have counter := h.counter (by omega)
  have split : (x :: xs).filterMap Exchange.serial = [x].filterMap Exchange.serial ++ xs.filterMap
    Exchange.serial := by
    rw [← List.filterMap_append]
    rfl
  refine ⟨?_, fun y hy => ?_, ?_, fun s hm => ?_⟩
  · rw [rest.trace, h.trace, List.append_assoc, List.flatMap_cons]
  · rcases List.mem_cons.mp hy with rfl | hy
    · exact h.sound
    · exact (rest.sound y hy).mono h.read
  · rw [split]
    refine List.pairwise_append.mpr ⟨first.rising, rest.rising, fun a ha b hb => ?_⟩
    -- the serial just taken is where the counter stands
    have hb := (rest.fresh b hb).1
    rcases counter with ⟨e, -⟩ | ⟨e, -⟩
    · simp [e] at ha
    · simp only [List.filterMap_cons, e, List.filterMap_nil, List.mem_singleton] at ha
      omega
  · rw [split] at hm
    rcases List.mem_append.mp hm with hm | hm
    · exact first.fresh s hm
    · have := rest.fresh s hm
      omega

/-- A broker's stream: whatever answers a serial was sent for a request that went out whole
under it in this conversation, `sentFor` telling which. -/
def Brokered (sentFor : Nat × Bytes → Bytes) (ms : List (Nat × Bytes)) (xs : List Exchange) :
    Prop :=
  ∀ m ∈ ms, ∀ s, AnswerTo s m → ∃ x ∈ xs, x.serial = some s ∧
    wire x.events = (x.op.request s).buf ∧ sentFor m = wire x.events

/-- The reply an operation was answered with was sent for its own request. -/
def Exchange.Own (sentFor : Nat × Bytes → Bytes) (ms : List (Nat × Bytes)) (x : Exchange) : Prop :=
  ∀ s pos rc, (s, pos, rc) ∈ verdicts x.events → x.serial = some s ∧ ∃ m ∈ ms,
    m.1 = pos ∧ AnswerTo s m ∧ Tells rc m ∧ sentFor m = (x.op.request s).buf

/-- No two operations of a conversation share a serial. -/
theorem Conversation.same {w w' : World} {n : Nat} {xs : List Exchange}
    (h : Conversation w n xs w') {s : Nat} : ∀ x ∈ xs, ∀ y ∈ xs, x.serial = some s →
    y.serial = some s → x = y := by
  have rising := List.pairwise_filterMap.mp h.rising
  have apart : xs.Pairwise fun x y => x.serial = some s → y.serial = some s → x = y :=
    rising.imp fun {x y} less hx hy => absurd (less s hx s hy) (lt_irrefl s)
  intro x hx y hy hxs hys
  exact apart.forall_of_forall_of_flip (fun _ _ _ _ => rfl)
    (apart.imp fun h hy hx => (h hx hy).symm) hx hy hxs hys

theorem Conversation.own {w w' : World} {n : Nat} {xs : List Exchange}
    (h : Conversation w n xs w') {sentFor : Nat × Bytes → Bytes}
    (broker : Brokered sentFor w.toRead xs) : ∀ x ∈ xs, x.Own sentFor w.toRead := by
  intro x hx s pos rc hv
  obtain ⟨hs, m, hm, hpos, answer, tells⟩ := (h.sound x hx).answers s pos rc (mem_verdicts.mp hv)
  obtain ⟨y, hy, hys, whole, sent⟩ := broker m hm s answer
  obtain rfl := h.same x hx y hy hs hys
  exact ⟨hs, m, hm, hpos, answer, tells, sent.trans whole⟩

/-- **A reply answers the call that took it.** Over native operations too few for
the serials to wrap, in any order and whatever the peer sends and the kernel
answers: each operation puts on the wire only its request under a serial of its
own (or a beginning of it), the serials rise from the last one taken, so that none
is 0, and an operation that asks and succeeds, or returns the errno of an ERROR,
returns what one message says that carries its serial. From a broker that answers a
serial only for a request it got under it, that message was sent for that operation's
request. -/
theorem replies_own (bus : Int) (ops : List BusOp) (hn : ∀ op ∈ ops, op.native = true) (w : World)
    (hg : w.fr.Good) (hs : w.dbs.serial + ops.length ≤ 4294967295) :
    let xs := conversation bus ops w
    xs.map Exchange.op <+: ops ∧ Conversation w ops.length xs (runOps bus ops w).state ∧
      (∀ rcs, (runOps bus ops w).value = some rcs → xs.map Exchange.result = rcs.map some) ∧
      ∀ sentFor, Brokered sentFor w.toRead xs → ∀ x ∈ xs, x.Own sentFor w.toRead := by
  have whole : Conversation w ops.length (conversation bus ops w) (runOps bus ops w).state ∧
      ∀ rcs, (runOps bus ops w).value = some rcs →
        (conversation bus ops w).map Exchange.result = rcs.map some := by
    induction ops generalizing w with
    | nil =>
      refine ⟨⟨(List.append_nil _).symm, by simp [conversation],
        List.Pairwise.nil, by simp [conversation]⟩, fun rcs h => ?_⟩
      cases h
      rfl
    | cons op ops ih =>
      rw [List.length_cons] at hs
      have hx := exchange bus (hn op (List.mem_cons_self ..)) hg
      rw [runOps, bind_run, conversation, List.length_cons]
      cases hb : op.body bus w with
      | waiting v =>
        rw [hb] at hx
        rw [run_waiting hb]
        exact ⟨.one hx hs, fun rcs h => by cases h⟩
      | done rc v =>
        rw [hb, Outcome.state_done] at hx
        rw [run_done hb]
        simp only
        by_cases hf : op = .hello ∧ rc < 0
        · rw [if_pos hf, if_pos hf, if_pos hf]
          refine ⟨.one hx.drop hs, fun rcs h => ?_⟩
          cases h
          rfl
        · rw [if_neg hf, if_neg hf, if_neg hf]
          have counter := hx.counter (by omega)
          obtain ⟨conv, results⟩ :=
            ih (fun o h => hn o (List.mem_cons_of_mem _ h)) v hx.good (by omega)
          cases hr : runOps bus ops v with
          | waiting v' =>
            rw [hr] at conv
            rw [bind_waiting hr]
            exact ⟨.cons hx hs conv, fun rcs h => by cases h⟩
          | done rcs v' =>
            rw [hr] at conv results
            rw [bind_done hr]
            refine ⟨.cons hx hs conv, fun rcs' h => ?_⟩
            cases h
            rw [List.map_cons, List.map_cons, results rcs rfl]
            rfl
  exact ⟨conversation_ops bus ops w, whole.1, whole.2, fun sentFor broker => whole.1.own broker⟩

/-- The reply to a second request. -/
def secondReply : Marshal :=
  (dbusMarshalFinish
    (dbusMarshalEndFields (dbusMarshalFieldU32 (dbusMarshalBegin 2 0 2) dbusMarshalFReplyser 2))).2

/-- A first call that gives up before its reply comes, and a second one. -/
def belated : World where
  k := {
    clock := {} :: List.replicate 8 { sec := 30 }
    send := [1000, 1000]
    poll := List.replicate 6 1
    recv := List.replicate 6 { ret := 64 }
    inbox := plainReply.buf ++ secondReply.buf }

/-- The late reply is passed over, and the second call takes its own. -/
theorem replies_own_belated :
    let ops : List BusOp := [.takeControl (some (lit "/s")), .releaseControl (some (lit "/s"))]
    (runOps 5 ops belated).value = some [-110, 0] ∧
      (conversation 5 ops belated).map (fun x => (x.serial, x.result)) =
        [(some 1, some (-110)), (some 2, some 0)] ∧
      ∀ x ∈ conversation 5 ops belated, x.Own (fun m => if m.1 = 0 then
        (dbsTakeControlCall (lit "/s") 1).buf else (dbsReleaseControlCall (lit "/s") 2).buf)
        belated.toRead := by
  intro ops
  have good : belated.fr.Good := ⟨⟨Nat.le_refl 0, Nat.zero_le _⟩, by simp [belated]⟩
  have native : ∀ op ∈ ops, op.native = true := by simp [ops, BusOp.native]
  have room : belated.dbs.serial + ops.length ≤ 4294967295 := by decide
  refine ⟨by decide +kernel, by decide +kernel,
    (replies_own 5 ops native belated good room).2.2.2 _ fun m hm s answer => ?_⟩
  have stream : belated.toRead =
      [(0, plainReply.buf), (plainReply.buf.length, secondReply.buf)] := by
    decide +kernel
  rw [stream] at hm
  obtain ⟨off, sig, field, serial⟩ := answer.serial
  have asked : ∀ m ∈ [(0, plainReply.buf), (plainReply.buf.length, secondReply.buf)],
      ∃ x ∈ conversation 5 ops belated, x.serial =
        (dbusUnmarshalFindField m.2.length m.2 dbusMarshalFReplyser).toOption.map
          (fun f => load32 m.2 f.1) ∧
        wire x.events = (x.op.request (x.serial.getD 0)).buf ∧
        (if m.1 = 0 then (dbsTakeControlCall (lit "/s") 1).buf
          else (dbsReleaseControlCall (lit "/s") 2).buf) = wire x.events := by
    decide +kernel
  obtain ⟨x, hx, hserial, whole, sent⟩ := asked m hm
  have carried : x.serial = some s := by
    rw [hserial, field]
    exact congrArg some serial
  exact ⟨x, hx, carried, by rw [whole, carried]; rfl, sent⟩

end Samvada
