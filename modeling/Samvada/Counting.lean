import Samvada.TakeDevice

/- Which messages are consumed, and by whom. The messages consumed so far,
   followed by what the framer and the rest of the stream still yield, are the
   messages of the stream, so each is consumed once and in order; a pump's count
   is the number it consumed, and a stream that has come to a fault stays there
   for the next operation to report. -/
namespace Samvada
open Octets Framing Resumable Resumable.Prog Relation

/-! ## The stream and what was consumed of it -/

/-- Where the message an event consumed starts, and its length. -/
def Event.consumed : Event → Option (Nat × Nat)
  | .advanced pos n => some (pos, n)
  | _ => none

/-- The messages consumed, in order. -/
def consumed (es : List Event) : List (Nat × Nat) := es.filterMap Event.consumed

/-- Where a message of the stream starts, and its length. -/
def extent (m : Nat × Bytes) : Nat × Nat := (m.1, m.2.length)

@[simp] theorem consumed_append (es es' : List Event) : consumed (es ++ es') = consumed es ++
    consumed es' :=
  List.filterMap_append

/-- A receive brings its bytes and consumes nothing. -/
theorem recv_account (fd n : Int) (want flags : Nat) (d : Bytes) (anc : Ancillary) (trunc : Bool)
    (es : List Event) : inbound (.recv fd want flags n d anc trunc :: es) = d ++ inbound es ∧
      consumed (.recv fd want flags n d anc trunc :: es) = consumed es := ⟨rfl, rfl⟩

/-- An event that neither brings nor consumes. -/
def Event.silent : Event → Bool
  | .recv _ _ _ _ _ _ _ => false
  | .advanced _ _ => false
  | _ => true

theorem inbound_silent {es : List Event} (h : ∀ e ∈ es, e.silent = true) : inbound es = [] := by
  refine List.flatMap_eq_nil_iff.mpr fun e he => ?_
  have := h e he
  cases e <;> first | rfl | cases this

theorem consumed_silent {es : List Event} (h : ∀ e ∈ es, e.silent = true) : consumed es = [] := by
  refine List.filterMap_eq_nil_iff.mpr fun e he => ?_
  have := h e he
  cases e <;> first | rfl | cases this

theorem closes_silent (fds : List Int) : ∀ e ∈ fds.map Event.close, e.silent = true := by
  intro e he
  obtain ⟨fd, -, rfl⟩ := List.mem_map.mp he
  rfl

theorem offers_silent {es : List Event} (h : ∀ e ∈ es, e.offers = true) :
    ∀ e ∈ es, e.silent = true := by
  intro e he
  have := h e he
  cases e <;> first | rfl | cases this

theorem pushEvents_silent (f : Frame) (fd : Int) : ∀ e ∈ pushEvents f fd, e.silent = true := by
  intro e he
  rcases List.mem_append.mp he with he | he
  · rw [List.mem_singleton.mp (List.mem_ite_nil_right.mp he).2]
    rfl
  · exact closes_silent _ e he

theorem Queued.silent {f g : Frame} {fds moved : List Int} {es : List Event}
    (h : Queued f fds moved es g) : ∀ e ∈ es, e.silent = true := by
  induction h with
  | nil f => simp
  | @keep f g fd rest moved es hfd hq ih =>
    exact fun e he => (List.mem_append.mp he).elim (pushEvents_silent f fd e) (ih e)
  | @move f g fd nfd rest moved es hfd hq ih =>
    intro e he
    rcases List.mem_append.mp he with he | he
    · rcases List.mem_append.mp he with he | he
      · rcases List.mem_cons.mp he with rfl | he
        · rfl
        · rw [List.mem_singleton.mp he]
          rfl
      · exact pushEvents_silent f nfd e he
    · exact ih e he

/-! ## The account -/

/-- A reader at `c` has consumed what `es` says and is where `f` is: the messages
of any continuation `T` of what it received are those it consumed, then those
ahead of it. -/
structure Counted (c : Cursor UInt8) (f : Frame) (es : List Event) : Prop where
  good : f.Good
  split : ∃ done, consumed es = done.map extent ∧ (∀ m ∈ done, m.2.length ≤ 8192) ∧
    ∀ T, (c.ahead dbusFormat (inbound es ++ T)).msgs = done ++
    ((dbusFrameCursor f).ahead dbusFormat T).msgs

section
variable {c : Cursor UInt8} {f g : Frame} {es es' : List Event}

theorem Counted.start (hf : f.Good) : Counted (dbusFrameCursor f) f [] :=
  ⟨hf, [], rfl, by simp, fun _ => rfl⟩

/-- Bytes received, none consumed. -/
theorem Counted.brings (h : Counted c f es) (hg : g.Good) {d : Bytes} (hi : inbound es' = d)
    (hc : consumed es' = [])
    (ha : ∀ T, (dbusFrameCursor g).ahead dbusFormat T = (dbusFrameCursor f).ahead
    dbusFormat (d ++ T)) : Counted c g (es ++ es') := by
  obtain ⟨done, hdone, hcap, hsplit⟩ := h.split
  refine ⟨hg, done, by rw [consumed_append, hc, List.append_nil, hdone], hcap, fun T => ?_⟩
  rw [inbound_append, hi, List.append_assoc, hsplit, ha]

/-- Nothing received, nothing consumed. -/
theorem Counted.still (h : Counted c f es) (hg : g.Good) (hs : ∀ e ∈ es', e.silent = true)
    (ha : ∀ T, (dbusFrameCursor g).ahead dbusFormat T = (dbusFrameCursor f).ahead dbusFormat T) :
    Counted c g (es ++ es') :=
  h.brings hg (inbound_silent hs) (consumed_silent hs) ha

theorem Counted.same (h : Counted c f es) (hg : g.Good) (hs : ∀ e ∈ es', e.silent = true)
    (hc : dbusFrameCursor g = dbusFrameCursor f) : Counted c g (es ++ es') :=
  h.still hg hs fun T => by rw [hc]

theorem inbound_advance (f : Frame) (r : Nat) : inbound (advanceEvents f r) = [] := by
  refine List.flatMap_eq_nil_iff.mpr fun e he => ?_
  rcases List.mem_cons.mp he with rfl | he
  · rfl
  · obtain ⟨fd, -, rfl⟩ := List.mem_map.mp he
    rfl

theorem consumed_advance (f : Frame) (r : Nat) :
    consumed (advanceEvents f r) = [(dbusFramePos f, r)] := by
  rw [advanceEvents, consumed, List.filterMap_cons]
  exact congrArg _ (consumed_silent (closes_silent _))

/-- The head message is consumed. -/
theorem Counted.advance {r : Nat} (h : Counted c f es) (rest : AtRest f (.msg r))
    (hi : inbound es' = [])
    (hc : consumed es' = [(dbusFramePos f, r)]) : Counted c (dbusFrameAdvance f r).1
    (es ++ es') := by
  obtain ⟨done, hdone, hcap, hsplit⟩ := h.split
  obtain ⟨hs, ht, hle, hl⟩ := rest.whole_inv
  have hlen : ((dbusFrameBase f).take r).length = r := by
    rw [List.length_take, dbusFrameBase_length]
    omega
  refine ⟨rest.advance_good h.good, done ++ [(dbusFramePos f, (dbusFrameBase f).take r)], ?_,
    ?_, fun T => ?_⟩
  · rw [consumed_append, hc, hdone, List.map_append]
    simp [extent, hlen]
  · intro m hm
    rcases List.mem_append.mp hm with hm | hm
    · exact hcap m hm
    · rw [List.mem_singleton.mp hm, hlen]
      exact hle
  · rw [inbound_append, hi, List.append_nil, hsplit, rest.advance_ahead h.good.ok.off, Parsed.cons,
      List.append_assoc]
    rfl

theorem Step.counted {s : Nat} {w w' : World} (hstep : Step s w w') (h : Counted c w.fr es) :
    ∃ es', w'.trace = w.trace ++ es' ∧ Counted c w'.fr (es ++ es') := by
  cases hstep with
  | quiet hq => exact ⟨_, hq.trace, hq.fr ▸ h.same h.good (offers_silent hq.offers) rfl⟩
  | lost => exact ⟨[], (List.append_nil _).symm, h.same h.good (by simp) rfl⟩
  | @next r g d rest pass =>
    refine ⟨_, rfl, h.still ⟨pass.ok h.good.ok, pass.fds_nonneg h.good.fds⟩
      (fun e he => ?_) pass.ahead⟩
    rcases List.mem_append.mp he with he | he
    · exact closes_silent _ e he
    · rw [List.mem_singleton.mp he]
      rfl
  | @advance r rest => exact ⟨_, rfl, h.advance rest (inbound_advance _ _) (consumed_advance _ _)⟩
  | answered rest hv => exact ⟨_, rfl, h.same h.good (by simp [Event.silent]) rfl⟩
  | prepare hp => exact ⟨[], (List.append_nil _).symm, h.same (hp.good h.good) (by simp) hp.cursor⟩
  | eof => exact ⟨[], (List.append_nil _).symm, h.same (setEof_good h.good) (by simp) rfl⟩
  | @recvNone w' fd n want flags anc trunc hn hfr hdbm hdbs hin ht =>
    have shut :
      ∀ e ∈ (if 0 ≤ n then (dbusSysParseRights (anc.bytes.take 1032)).2.map Event.close else []),
        e.silent = true := by
      intro e he
      split at he
      · exact closes_silent _ e he
      · cases he
    obtain ⟨hi, hc⟩ := recv_account fd n want flags [] anc trunc (if 0 ≤ n then
      (dbusSysParseRights (anc.bytes.take 1032)).2.map Event.close else [])
    rw [inbound_silent shut] at hi
    rw [consumed_silent shut] at hc
    refine ⟨_, ht, h.brings (hfr ▸ h.good) hi hc fun T => ?_⟩
    rw [hfr]
    rfl
  | @receive w' fd want flags d anc trunc moved qs g rest hd hwithin hroom hin hq hfr
      hdbm hdbs ht =>
    have queued : ∀ e ∈ (dbusSysParseRights (anc.bytes.take 1032)).2.map Event.close ++ qs ++
        [.received (dbusFrameReceived w.fr) d.length moved trunc], e.silent = true := by
      intro e he
      rcases List.mem_append.mp he with he | he
      · exact (List.mem_append.mp he).elim (closes_silent _ e) (hq.silent e)
      · rw [List.mem_singleton.mp he]
        rfl
    obtain ⟨g', hg', hcur, hgood, -⟩ := incomplete_same trunc (hq.good (commit_good h.good hroom))
    rw [hg'] at hfr
    obtain ⟨hi, hc⟩ := recv_account fd d.length want flags d anc trunc
      ((dbusSysParseRights (anc.bytes.take 1032)).2.map Event.close ++ qs ++
        [.received (dbusFrameReceived w.fr) d.length moved trunc])
    rw [inbound_silent queued, List.append_nil] at hi
    rw [consumed_silent queued] at hc
    refine ⟨_, ht, h.brings (hfr ▸ hgood) hi hc fun T => ?_⟩
    rw [hfr, hcur, hq.same.1, commit_cursor h.good.ok.off, Cursor.ahead_receive]
  | @take w₁ w' r i fd g qs ok rest hc h0 hq he =>
    obtain ⟨hg, hcur, heof, -⟩ := claim_good hc h.good
    refine ⟨_, take_trace hq he, ?_⟩
    have claimed : Counted c g (es ++ ([.next (.msg r) w.fr, .claimed fd] ++ qs)) :=
      h.same hg (by simpa [Event.silent] using offers_silent hq.offers) hcur
    have e : es ++ ([.next (.msg r) w.fr, .claimed fd] ++ (qs ++
        if ok then advanceEvents g r ++ [Event.handed fd] else
        Event.close fd :: advanceEvents g r)) =
        (es ++ ([.next (.msg r) w.fr, .claimed fd] ++ qs)) ++
        if ok then advanceEvents g r ++ [Event.handed fd] else
          Event.close fd :: advanceEvents g r := by
      simp only [List.append_assoc]
    rw [he, emit_fr, e]
    refine claimed.advance (rest.congr hcur heof) ?_ ?_
    · cases ok with
      | true => exact (inbound_append _ _).trans (by rw [inbound_advance]; rfl)
      | false => exact inbound_advance g r
    · cases ok with
      | true => exact (consumed_append _ _).trans (by rw [consumed_advance]; rfl)
      | false => exact consumed_advance g r

end

theorem counted_account (c : Cursor UInt8) : Account (Counted c) where
  step hstep h := hstep.counted h
  offers h ho := h.same h.good (offers_silent ho) rfl

/-! ## What a pump counts -/

/-- How many messages have been consumed, and how many receives made. -/
def World.tally (w : World) : Nat × Nat :=
  ((consumed w.trace).length, (w.trace.filter Event.isRecv).length)

abbrev FixesTally {α : Type} (x : M α) : Prop := Fixes World.tally x

theorem receives_silent {es : List Event} (h : ∀ e ∈ es, e.silent = true) :
    es.filter Event.isRecv = [] := by
  refine List.filter_eq_nil_iff.mpr fun e he => ?_
  have := h e he
  cases e <;> first | exact Bool.false_ne_true | cases this

theorem tally_emit (w : World) {es : List Event} (h : ∀ e ∈ es, e.silent = true) :
    (w.emit es).tally = w.tally := by
  simp [World.tally, consumed_silent h, receives_silent h]

theorem next_tally : FixesTally frameNext := Fixes.modifyGet fun w => by
  refine tally_emit _ fun e he => ?_
  rcases List.mem_append.mp he with he | he
  · exact closes_silent _ e he
  · rw [List.mem_singleton.mp he]
    rfl

theorem queueFds_tally : ∀ fds, FixesTally (dbsQueueFds fds)
  | [] => Fixes.pure _
  | fd :: rest => by
    refine Fixes.bind (Fixes.ite (Fixes.pure _) (Fixes.bind (Fixes.modifyGet fun w => ?_) fun _ =>
      Fixes.bind (Fixes.modify fun w => ?_) fun _ => Fixes.pure _)) fun rfd =>
      Fixes.bind (Fixes.modify fun w => ?_) fun _ => Fixes.bind (queueFds_tally rest) fun _ =>
        Fixes.pure _
    · exact tally_emit { w with k := { w.k with fcntl := w.k.fcntl.tail } } (by simp [Event.silent])
    · exact tally_emit w (by simp [Event.silent])
    · exact tally_emit _ (pushEvents_silent w.fr rfd)

theorem frameFault_tally (r : FrameStatus) : FixesTally (dbsFrameFault r) := by
  cases r with
  | eof => exact Fixes.bind (Fixes.modify fun _ => rfl) fun _ => Fixes.pure _
  | truncated => exact Fixes.bind (Fixes.modify fun _ => rfl) fun _ => Fixes.pure _
  | _ => exact Fixes.pure _

theorem FixesTally.spec {α : Type} {x : M α} (h : FixesTally x) {P : Nat × Nat → Prop} :
    Spec (fun w => P w.tally) x (fun _ w => P w.tally) fun w => P w.tally := by
  intro w hw
  have ht := h w
  cases hx : x w with
  | done a w' =>
    rw [hx, Outcome.state_done] at ht
    show P w'.tally
    rwa [ht]
  | waiting w' =>
    rw [hx, Outcome.state_waiting] at ht
    show P w'.tally
    rwa [ht]

theorem advance_tally {r : Nat} (a b : Nat) : Spec (fun w => w.tally = (a, b)) (frameAdvance r)
    (fun _ w => w.tally = (a + 1, b)) fun _ => False := by
  refine Spec.modify fun w hw => ?_
  have hr : (advanceEvents w.fr r).filter Event.isRecv = [] := by
    rw [advanceEvents, List.filter_cons_of_neg Bool.false_ne_true, receives_silent
      (closes_silent _)]
  obtain ⟨h1, h2⟩ := Prod.mk.inj hw
  show ((consumed (w.trace ++ advanceEvents w.fr r)).length,
    ((w.trace ++ advanceEvents w.fr r).filter Event.isRecv).length) = _
  rw [consumed_append, consumed_advance, List.filter_append, hr, List.length_append,
    List.append_nil, h1, h2]
  rfl

theorem recv_tally (fd : Int) (flags : Nat) (a b : Nat) : Spec (fun w => w.tally = (a, b))
    (dbsRecv fd flags)
    (fun _ w => w.tally = (a, b) ∨ w.tally = (a, b + 1)) fun w => w.tally = (a, b) ∨
    w.tally = (a, b + 1) := by
  have tail {α : Type} {x : M α} (h : FixesTally x) :
    Spec (fun w => w.tally = (a, b) ∨ w.tally = (a, b + 1)) x
      (fun _ w => w.tally = (a, b) ∨ w.tally = (a, b + 1)) fun w => w.tally = (a, b) ∨
      w.tally = (a, b + 1) :=
    h.spec (P := fun t => t = (a, b) ∨ t = (a, b + 1))
  have still {α : Type} {x : M α} (h : FixesTally x) : Spec (fun w => w.tally = (a, b)) x
    (fun _ w => w.tally = (a, b))
      fun w => w.tally = (a, b) ∨ w.tally = (a, b + 1) :=
    (h.spec (P := (· = (a, b)))).mono (fun _ h => h) (fun _ _ h => h) fun _ h => .inl h
  refine Spec.bind (still ?_) fun want =>
    Spec.ite (fun _ => (still ?_).mono (fun _ h => h) (fun _ _ h => .inl h) fun _ h => h)
    fun _ => ?_
  · exact Fixes.modifyGet fun _ => rfl
  · exact Fixes.bind (Fixes.modify fun _ => rfl) fun _ => Fixes.pure _
  have received : Spec (fun w => w.tally = (a, b)) (sysRecvmsg fd want flags)
      (fun _ w => w.tally = (a, b) ∨ w.tally = (a, b + 1)) fun w => w.tally = (a, b) ∨
      w.tally = (a, b + 1) := by
    have one {w : World} (hw : w.tally = (a, b)) (e : Event) (he : e.isRecv = true) (k : Kernel) :
        ({ w with k := k }.emit [e]).tally = (a, b + 1) := by
      have hc : consumed [e] = [] := by cases e <;> first | rfl | cases he
      obtain ⟨h1, h2⟩ := Prod.mk.inj hw
      show ((consumed (w.trace ++ [e])).length, ((w.trace ++ [e]).filter Event.isRecv).length) = _
      rw [consumed_append, hc, List.filter_append, List.filter_cons_of_pos he, List.length_append,
        List.length_append, h1, h2]
      rfl
    refine Spec.query (fun w x w' hw hx => .inr ?_) fun w hw _ => .inl hw
    cases hr : w.k.recv with
    | nil => simp [hr] at hx
    | cons q rest =>
      simp only [hr] at hx
      split_ifs at hx
      · cases hx
        exact one hw _ rfl _
      · cases hx
        exact one hw _ rfl _
  refine Spec.bind (Q := fun _ w => w.tally = (a, b) ∨ w.tally = (a, b + 1))
    (Spec.bind (still ?_) fun _ => Spec.bind received fun r => tail ?_) fun r => tail ?_
  · exact Fixes.modify fun _ => rfl
  · obtain ⟨n, d, ctrl, trunc⟩ := r
    refine Fixes.ite (Fixes.pure _) (Fixes.bind (Fixes.modify fun w => ?_) fun _ => Fixes.pure _)
    exact tally_emit { w with rx := _, rxtrunc := _ } (closes_silent _)
  · obtain ⟨got, d⟩ := r
    refine Fixes.ite (Fixes.pure _)
      (Fixes.ite (Fixes.bind (Fixes.modify fun _ => rfl) fun _ => Fixes.pure _) ?_)
    refine Fixes.bind Fixes.gets fun pos => Fixes.bind (Fixes.modify fun _ => rfl) fun _ =>
      Fixes.bind Fixes.gets fun rx =>
      Fixes.bind (queueFds_tally rx) fun moved => Fixes.bind Fixes.gets fun trunc =>
        Fixes.bind (Fixes.modify fun _ => rfl) fun _ =>
        Fixes.bind (Fixes.modify fun w => tally_emit w (by simp [Event.silent])) fun _ =>
          Fixes.pure _

/-- A drain counts what it consumes, and stops at 256. -/
theorem drain_tally (a b drained : Nat) (hd : drained < 256) :
    Spec (fun w => w.tally = (a + drained, b)) (dbsDrain drained)
    (fun r w => w.tally = (a + r.1, b) ∧ r.1 ≤ 256) fun _ => False := by
  refine (Spec.loop (I := fun n w => w.tally = (a + n, b) ∧ n < 256) dbsDrain_lowers
    (fun n => ?_) drained).mono (fun w hw => ⟨hw, hd⟩) (fun _ _ h => h) fun _ h => h
  refine Spec.bind (Q := fun _ w => w.tally = (a + n, b) ∧ n < 256)
    (Spec.modifyGet fun w hw => ?_) fun s => ?_
  · exact ⟨(next_tally w).trans hw.1, hw.2⟩
  cases s with
  | msg r =>
    refine Spec.bind (Q := fun _ w => w.tally = (a + (n + 1), b) ∧ n < 256) (fun w hw => ?_)
      fun _ => Spec.ite (fun hcap => ?_) fun hcap => ?_
    · exact ⟨advance_tally (a + n) b w hw.1, hw.2⟩
    · exact Spec.pure fun w hw => ⟨hw.1, by omega⟩
    · exact Spec.pure fun w hw => ⟨hw.1, by omega⟩
  | _ => exact Spec.pure fun w hw => ⟨hw.1, by omega⟩

theorem ioFail_le (e : Int) (he : e < 0) {P : World → Prop}
    (hP : ∀ w, P w → P { w with dbs := { w.dbs with closed := true } }) :
    Spec P (dbsIoFail e) (fun rc w => rc < 0 ∧ P w) fun _ => False :=
  Spec.ite (fun _ w hw => ⟨by decide, hP w hw⟩) fun _ => Spec.pure fun _ hw => ⟨he, hw⟩

/-- A pump stands at `c`: what it drained, and the receives it made, no more than it allows itself.
-/
def PumpAt (a b : Nat) (c : Nat × Nat) (w : World) : Prop :=
  ∃ k, w.tally = (a + c.1, b + k) ∧ c.1 < 256 ∧ k ≤ c.2 ∧ c.2 ≤ 1024

/-- What a pump has done, wherever it stands. -/
def PumpDid (a b : Nat) (w : World) : Prop := ∃ d k, w.tally = (a + d, b + k) ∧ d ≤ 256 ∧ k ≤ 1024

/-- A pump that answers `n`. -/
def PumpEnd (a b : Nat) (n : Int) (w : World) : Prop :=
  ∃ d k, w.tally = (a + d, b + k) ∧ d ≤ 256 ∧ k ≤ 1024 ∧ (0 < d → n = d) ∧ (d = 0 → n ≤ 0)

def PumpGoes (a b : Nat) : (Nat × Nat) ⊕ Int → World → Prop
  | .inl c => PumpAt a b c
  | .inr n => PumpEnd a b n

theorem pumpResult_end (a b d j : Nat) (hd : d ≤ 256) (hj : j ≤ 1024) (r : FrameStatus) (io : Int)
    (hio : io ≤ 0) :
    Spec (fun w => w.tally = (a + d, b + j)) (.inr <$> dbsPumpResult d r io : M ((Nat × Nat) ⊕ Int))
    (PumpGoes a b)
      (PumpDid a b) := by
  refine Spec.map
    (Spec.ite
    (fun hpos => Spec.pure fun w hw => ⟨d, j, hw, hd, hj, fun _ => rfl, fun h0 => by omega⟩)
    fun hzero => ?_)
  have nothing (n : Int) (hn : n ≤ 0) (w : World) (hw : w.tally = (a + d, b + j)) :
    PumpEnd a b n w :=
    ⟨d, j, hw, hd, hj, fun h0 => absurd h0 hzero, fun _ => hn⟩
  refine Spec.bind (Q := fun _ w => w.tally = (a + d, b + j))
    (((frameFault_tally r).spec (P := (· = (a + d, b + j)))).mono (fun _ h => h) (fun _ _ h => h)
    fun w h => ⟨d, j, h, hd, hj⟩) fun fault => ?_
  refine Spec.ite (fun hf => Spec.pure (nothing fault (by omega))) fun _ =>
    Spec.ite (fun _ => Spec.pure (nothing io hio)) fun _ => ?_
  exact Spec.gets_bind fun closed =>
    Spec.ite (fun _ => Spec.pure fun w hw => nothing (-104) (by decide) w hw.1)
    fun _ => Spec.pure fun w hw => nothing 0 (by decide) w hw.1

theorem pumpRound_tally (bus : Int) (a b : Nat) (c : Nat × Nat) :
    Spec (PumpAt a b c) (dbsPumpRound bus c) (PumpGoes a b) (PumpDid a b) := by
  rintro w ⟨k, hw, hc, hk, hreads⟩
  revert w
  show Spec (fun w : World => w.tally = (a + c.1, b + k)) _ _ _
  refine Spec.bind ((drain_tally a (b + k) c.1 hc).mono (fun _ h => h) (fun _ _ h => h) fun _ h =>
    h.elim) fun x => ?_
  obtain ⟨drained, r⟩ := x
  rintro w ⟨hw, hd⟩
  revert w
  show Spec (fun w : World => w.tally = (a + drained, b + k)) _ _ _
  refine Spec.ite
    (fun hcap => Spec.pure fun w hw =>
    ⟨drained, k, hw, hd, by omega, fun _ => rfl, fun h0 => by omega⟩) fun hcap =>
    Spec.ite (fun hgo => ?_) fun _ => pumpResult_end a b drained k hd (by omega) r 0 (Int.le_refl _)
  refine Spec.bind ((recv_tally bus _ _ _).mono (fun _ h => h) (fun _ _ h => h) fun w hw => ?_)
    fun got => ?_
  · rcases hw with hw | hw
    · exact ⟨drained, k, hw, hd, by omega⟩
    · exact ⟨drained, k + 1, hw, hd, by omega⟩
  -- the receive was made, or there was no room to ask for
  have either {x : M ((Nat × Nat) ⊕ Int)} (h : ∀ j, j ≤ c.2 + 1 →
      Spec (fun w => w.tally = (a + drained, b + j)) x (PumpGoes a b) (PumpDid a b)) :
      Spec (fun w => w.tally = (a + drained, b + k) ∨ w.tally = (a + drained, b + k + 1)) x
      (PumpGoes a b) (PumpDid a b) := by
    rintro w (hw | hw)
    · exact h k (by omega) w hw
    · exact h (k + 1) (by omega) w hw
  refine either fun j hj => ?_
  refine Spec.ite (fun _ => Spec.pure fun w hw => ⟨j, hw, by omega, hj, by omega⟩) fun hneg =>
    Spec.ite (fun _ => pumpResult_end a b drained j hd (by omega) r 0 (Int.le_refl _)) fun _ => ?_
  have failed :=
    ioFail_le got (by omega) (P := fun w : World => w.tally = (a + drained, b + j)) fun _ h => h
  refine Spec.bind (failed.mono (fun _ h => h) (fun _ _ h => h) fun _ h => h.elim) fun io w hw => ?_
  exact pumpResult_end a b drained j hd (by omega) r io (by omega) w hw.2

/-- **A pump counts exactly what it consumed**, no more than 256 messages in no
more than 1024 receives. -/
theorem pump_tally (bus : Int) (a b : Nat) : Spec (fun w => w.tally = (a, b))
    (dbusNativePumpSignals bus) (PumpEnd a b) (PumpDid a b) := by
  refine (Spec.loop (I := PumpAt a b) (dbsPump_lowers bus) (fun c => ?_) (0, 0)).mono
    (fun w hw => ⟨0, hw, by decide, Nat.le_refl _, by decide⟩) (fun _ _ h => h) fun _ h => h
  exact (pumpRound_tally bus a b c).mono (fun _ h => h) (fun r _ h => by cases r <;> exact h)
    fun _ h => h

/-! ## A fault stays -/

def Event.answer : Event → Option FrameStatus
  | .next r _ => some r
  | _ => none

/-- What `dbus_frame_next` answered, in order. -/
def answers (es : List Event) : List FrameStatus := es.filterMap Event.answer

@[simp] theorem answers_append (es es' : List Event) : answers (es ++ es') = answers es ++ answers
    es' := List.filterMap_append

theorem answers_plain {es : List Event} (h : ∀ e ∈ es, e.plain = true) : answers es = [] := by
  refine List.filterMap_eq_nil_iff.mpr fun e he => ?_
  have := h e he
  cases e <;> first | rfl | cases this

/-- A fault the framer has answered is still there. -/
def Met (f : Frame) (es : List Event) : Prop := ∀ r ∈ answers es, faultErrno r < 0 → AtRest f r

theorem Met.still {f g : Frame} {es es' : List Event} (h : Met f es) (he : answers es' = [])
    (hg : ∀ r, faultErrno r < 0 → AtRest f r → AtRest g r) : Met g (es ++ es') := by
  intro r hr hneg
  rw [answers_append, he, List.append_nil] at hr
  exact hg r hneg (h r hr hneg)

/-- What a head at rest answers is read off what is ahead of it. -/
inductive Told (f : Frame) (r : FrameStatus) : Prop where
  | msg (h : ((dbusFrameCursor f).ahead dbusFormat []).msgs ≠ []) (t : Nat) (e : r = .msg t)
  | bad (b : BadHeader) (h : (dbusFrameCursor f).ahead dbusFormat [] = ⟨[], .bad b⟩)
      (e : r = b.status)
  | short (stop : Stop BadHeader) (h : (dbusFrameCursor f).ahead dbusFormat [] = ⟨[], stop⟩)
      (hs : ∀ b, stop ≠ .bad b)
    (e : r = dbusFrameShort f (atEof stop))

theorem AtRest.told {f : Frame} {r : FrameStatus} (ho : f.off ≤ f.buf.length) (h : AtRest f r) :
    Told f r := by
  have len : (dbusFrameCursor f).held.length = dbusFrameHave f := dbusFrameBase_length f
  -- short of a message: at a boundary only if nothing is held and nothing is being passed
  have inside (hw : (dbusFrameCursor f).Waits dbusFormat)
      (hne : ¬ ((dbusFrameCursor f).skip = 0 ∧ (dbusFrameCursor f).held = [])) :
      Told f (dbusFrameShort f .truncated) :=
    .short .inside (by rw [hw.ahead_nil, if_neg hne]) (fun _ hb => nomatch hb) rfl
  cases h with
  | draining hs hh =>
    refine inside (.inl ⟨hs, List.eq_nil_of_length_eq_zero (len.trans hh)⟩) fun hc => ?_
    have : f.skip = 0 := hc.1
    omega
  | empty hs hh =>
    have hnil : (dbusFrameCursor f).held = [] := List.eq_nil_of_length_eq_zero (len.trans hh)
    have hw : (dbusFrameCursor f).Waits dbusFormat :=
      .inr (.inl ⟨hs, by rw [len, hh]; exact dbusFormat.hdr_pos⟩)
    exact .short .boundary (by rw [hw.ahead_nil, if_pos ⟨hs, hnil⟩]) (fun _ hb => nomatch hb) rfl
  | header hs h0 hh =>
    refine inside (.inr (.inl ⟨hs, by rw [len]; exact hh⟩)) fun hc => ?_
    rw [hc.2] at len
    simp at len
    omega
  | body t hs hh ht hc hl =>
    refine inside (.inr (.inr ⟨hs, by rw [len]; exact hh, t, ht, by rw [len]; exact hl⟩)) fun hc =>
      ?_
    rw [hc.2] at len
    simp at len
    omega
  | whole t hs ht hc hl =>
    refine .msg ?_ t rfl
    rw [AtRest.advance_ahead ho (.whole t hs ht hc hl), Parsed.cons]
    exact List.cons_ne_nil _ _
  | bad b hs hh ht => exact .bad b (bad_ahead hs hh ht []) rfl

/-- A fault is still there after what the framer passes over. -/
theorem AtRest.passed {f g : Frame} {r r' : FrameStatus} {c : List Int} (ho : f.off ≤ f.buf.length)
    (h : AtRest f r) (hneg : faultErrno r < 0) (pass : Passed f g c) (h' : AtRest g r') :
    r' = r := by
  have same := pass.ahead []
  cases h.told ho with
  | msg hm t e =>
    rw [e] at hneg
    exact absurd hneg (Int.lt_irrefl 0)
  | bad b hb e =>
    rw [hb] at same
    cases h'.told pass.off_ok with
    | msg hm t e' => exact absurd (by rw [same]) hm
    | bad b' hb' e' =>
      rw [hb'] at same
      cases same
      exact e'.trans e.symm
    | short stop hstop hs e' =>
      rw [hstop] at same
      cases same
      exact absurd rfl (hs b)
  | short stop hstop hs e =>
    rw [hstop] at same
    cases h'.told pass.off_ok with
    | msg hm t e' => exact absurd (by rw [same]) hm
    | bad b' hb' e' =>
      rw [hb'] at same
      cases same
      exact absurd rfl (hs b')
    | short stop' hstop' hs' e' =>
      rw [hstop'] at same
      cases same
      rw [e', e, dbusFrameShort, dbusFrameShort, pass.eof]

theorem AtRest.unique {f : Frame} {r r' : FrameStatus} (h : AtRest f r) (h' : AtRest f r') :
    r = r' :=
  congrArg Prod.fst (h.next.symm.trans h'.next)

/-- No fault is where a message is, or where more is needed. -/
theorem AtRest.not_fault {f : Frame} {r r' : FrameStatus} (h : AtRest f r) (h0 : faultErrno r = 0)
    (h' : AtRest f r') (hneg : faultErrno r' < 0) : False := by
  have := h.unique h' ▸ h0
  omega

theorem AtRest.fault_setEof {f : Frame} {r : FrameStatus} (h : AtRest f r)
    (hneg : faultErrno r < 0) : AtRest (dbusFrameSetEof f) r := by
  by_cases he : f.eof = true
  · have e : dbusFrameSetEof f = f := by
      cases f
      simp only [dbusFrameSetEof] at he ⊢
      rw [he]
    rwa [e]
  · rcases h.stop (fun t ht => by rw [ht] at hneg; exact absurd hneg (Int.lt_irrefl 0))
      (by simpa using he) with ⟨e, rfl, hs, hh, ht⟩ | ⟨rfl, -⟩
    · exact AtRest.bad (f := dbusFrameSetEof f) e hs hh ht
    · exact absurd hneg (by decide)

theorem Step.met {s : Nat} {w w' : World} {es : List Event} (hstep : Step s w w')
    (h : w.fr.Good ∧ Met w.fr es) : ∃ es', w'.trace = w.trace ++ es' ∧ w'.fr.Good ∧
    Met w'.fr (es ++ es') := by
  have same {es' : List Event} (hfr : w'.fr = w.fr) (ht : w'.trace = w.trace ++ es')
    (hp : ∀ e ∈ es', e.plain = true) :
      ∃ es', w'.trace = w.trace ++ es' ∧ w'.fr.Good ∧ Met w'.fr (es ++ es') :=
    ⟨es', ht, hfr ▸ h.1, h.2.still (answers_plain hp) fun _ _ hr => hfr ▸ hr⟩
  cases hstep with
  | quiet hq => exact same hq.fr hq.trace (offers_plain hq.offers)
  | lost => exact same rfl (List.append_nil _).symm (by simp)
  | @next r g c rest pass =>
    refine ⟨_, rfl, ⟨pass.ok h.1.ok, pass.fds_nonneg h.1.fds⟩, fun r' hr' hneg => ?_⟩
    rw [answers_append, answers_append, answers_plain (closes_plain c)] at hr'
    rcases List.mem_append.mp hr' with hr' | hr'
    · exact (h.2 r' hr' hneg).passed h.1.ok.off hneg pass rest ▸ rest
    · rw [List.mem_singleton.mp hr']
      exact rest
  | @advance r rest =>
    exact ⟨_, rfl, rest.advance_good h.1, h.2.still (answers_plain (advanceEvents_plain w.fr r))
      fun r' hneg hr' =>
      (rest.not_fault rfl hr' hneg).elim⟩
  | answered rest hv => exact same rfl rfl (by simp [Event.plain])
  | prepare hp =>
    exact ⟨[], (List.append_nil _).symm, hp.good h.1, h.2.still rfl fun _ _ hr =>
      hr.congr hp.cursor hp.eof⟩
  | eof =>
    exact ⟨[], (List.append_nil _).symm, setEof_good h.1, h.2.still rfl fun _ hneg hr =>
      hr.fault_setEof hneg⟩
  | recvNone anc trunc hn hfr hdbm hdbs hin ht =>
    refine same hfr ht fun e he => ?_
    rcases List.mem_cons.mp he with rfl | he
    · rfl
    · split at he
      · exact closes_plain _ e he
      · cases he
  | @receive w' fd want flags d anc trunc moved qs g rest hd hwithin hroom hin hq hfr
      hdbm hdbs ht =>
    obtain ⟨g', hg', hcur, hgood, -⟩ := incomplete_same trunc (hq.good (commit_good h.1 hroom))
    rw [hg'] at hfr
    have plain : ∀ e ∈ (dbusSysParseRights (anc.bytes.take 1032)).2.map Event.close ++ qs,
      e.plain = true :=
      fun e he => (List.mem_append.mp he).elim (closes_plain _ e) (hq.same.2.2.2 e)
    refine ⟨_, ht, hfr ▸ hgood, h.2.still ?_ fun _ hneg hr => (rest.not_fault rfl hr hneg).elim⟩
    rw [← List.cons_append, ← List.singleton_append, answers_append, answers_append,
      answers_plain plain]
    rfl
  | @take w₁ w' r i fd g qs ok rest hc h0 hq he =>
    obtain ⟨hg, hcur, heof, -⟩ := claim_good hc h.1
    refine ⟨_, take_trace hq he, ?_, fun r' hr' hneg => ?_⟩
    · rw [he, emit_fr]
      exact (rest.congr hcur heof).advance_good hg
    · have disposed : answers (if ok then advanceEvents g r ++ [Event.handed fd] else
          Event.close fd :: advanceEvents g r) = [] := by
        have quiet := answers_plain (advanceEvents_plain g r)
        cases ok with
        | true => exact (answers_append _ _).trans (by rw [quiet]; rfl)
        | false => exact quiet
      rw [answers_append, answers_append, answers_append, disposed,
        answers_plain (offers_plain hq.offers)] at hr'
      rcases List.mem_append.mp hr' with hr' | hr'
      · exact (rest.not_fault rfl (h.2 r' hr' hneg) hneg).elim
      · -- a message yielded is no fault
        rw [List.mem_singleton.mp hr'] at hneg
        exact absurd hneg (Int.lt_irrefl 0)

theorem met_account : Account fun f es => f.Good ∧ Met f es where
  step hstep h := hstep.met h
  offers h ho := ⟨h.1, h.2.still (answers_plain (offers_plain ho)) fun _ _ hr => hr⟩

/-- A pump that meets the fault at once reports it. -/
theorem pump_fault {w : World} {r : FrameStatus} (rest : AtRest w.fr r)
    (hneg : faultErrno r < 0) (bus : Int) : (dbusNativePumpSignals bus w).value = some
    (faultErrno r) := by
  have hmsg : ∀ t, r ≠ .msg t := fun t ht => by rw [ht] at hneg; exact absurd hneg (Int.lt_irrefl 0)
  have hmore : r ≠ .needMore := fun ht => by rw [ht] at hneg; exact absurd hneg (Int.lt_irrefl 0)
  have drain : dbsDrain 0 w = .done (0, r) (w.emit [.next r w.fr]) := by
    rw [dbsDrain, loop_eq dbsDrain_lowers, dbsDrainRound, bind_run, bind_done (frameNext_rest rest)]
    cases r <;> first | rfl | exact absurd rfl (hmsg _)
  obtain ⟨w', fault⟩ := frameFault_run r (w.emit [.next r w.fr])
  have result : dbsPumpResult 0 r 0 (w.emit [.next r w.fr]) = .done (faultErrno r) w' := by
    rw [dbsPumpResult, if_neg (by decide), bind_done fault, if_pos hneg]
    rfl
  have round : dbsPumpRound bus (0, 0) w = .done (.inr (faultErrno r)) w' := by
    refine (bind_done drain).trans ?_
    show ((if r = .needMore ∧ 2 < bus ∧ 0 < 1024 then _ else .inr <$> dbsPumpResult 0 r 0) : M
      ((Nat × Nat) ⊕ Int)) _ = _
    rw [if_neg fun h => hmore h.1]
    exact bind_done result
  rw [dbusNativePumpSignals, loop_eq (dbsPump_lowers bus), bind_done round]
  rfl

/-- So does a call, of a message it may send, unless the connection is latched closed. -/
theorem call_fault {w : World} {r : FrameStatus} (rest : AtRest w.fr r) (hneg : faultErrno r < 0)
    (fd : Int) (serial : Nat) (hbad : w.dbm.bad = false) :
    (dbusSessionCall fd serial w).value = some (if w.dbs.closed then -107 else faultErrno r) := by
  obtain ⟨w', fault⟩ := frameFault_run r (w.emit [.next r w.fr])
  show (((if w.dbm.bad = true then pure (-22) else if w.dbs.closed = true then pure (-107) else _)
    : M Int) w).value = _
  rw [hbad, if_neg Bool.false_ne_true]
  by_cases hclosed : w.dbs.closed = true
  · rw [if_pos hclosed, if_pos hclosed]
    rfl
  · rw [if_neg hclosed, if_neg hclosed, bind_done (frameNext_rest rest),
      bind_done fault, if_pos hneg]
    rfl

/-! ## One connection -/

/-- The events between `w` and `w'`. -/
def since (w w' : World) : List Event := w'.trace.drop w.trace.length

theorem since_eq {w w' : World} {es : List Event} (h : w'.trace = w.trace ++ es) :
    since w w' = es := by
  rw [since, h, List.drop_left]

theorem runOps_one (bus : Int) (op : BusOp) (w : World) :
    (runOps bus [op] w).state = (op.run bus w).state := by
  rw [runOps, bind_run]
  cases op.run bus w with
  | waiting w' => rfl
  | done rc w' =>
    dsimp only
    split_ifs <;> rfl

theorem closeFds_counted {c : Cursor UInt8} {f : Frame} {es : List Event} (h : Counted c f es) :
    Counted c (dbusFrameCloseFds f).1 (es ++ (dbusFrameCloseFds f).2.map Event.close) :=
  h.same (closeFds_good h.good) (closes_silent _) rfl

theorem pump_since {bus : Int} {v : World} {es : List Event}
    (ht : (dbusNativePumpSignals bus v).state.trace = v.trace ++ es) :
    (consumed es).length ≤ 256 ∧ (es.filter Event.isRecv).length ≤ 1024 ∧
      ∀ n v', dbusNativePumpSignals bus v = .done n v' → (consumed es).length = n.toNat := by
  have h := pump_tally bus v.tally.1 v.tally.2 v rfl
  -- the tally of the pump's own events
  have own {w' : World} (hw' : w'.trace = v.trace ++ es) {d k : Nat}
    (hd : w'.tally = (v.tally.1 + d, v.tally.2 + k)) :
      (consumed es).length = d ∧ (es.filter Event.isRecv).length = k := by
    simp only [World.tally, hw', consumed_append, List.filter_append, List.length_append,
      Prod.mk.injEq] at hd
    omega
  cases hx : dbusNativePumpSignals bus v with
  | waiting w' =>
    rw [hx] at h ht
    obtain ⟨d, k, hd, hd', hk⟩ := h
    obtain ⟨h1, h2⟩ := own ht hd
    exact ⟨by omega, by omega, fun _ _ hdone => nomatch hdone⟩
  | done n w' =>
    rw [hx] at h ht
    obtain ⟨d, k, hd, hd', hk, hpos, hzero⟩ := h
    obtain ⟨h1, h2⟩ := own ht hd
    refine ⟨by omega, by omega, fun n' v' hdone => ?_⟩
    cases hdone
    by_cases h0 : 0 < d
    · have := hpos h0
      omega
    · have := hzero (by omega)
      omega

/-- **No message is lost or counted twice.** On a connection whose SASL phase
ended in `w₀`, after any operations, for any operation and wherever it is
observed: what was consumed before it, what it consumed and what is still ahead
are, in order, the in-cap messages of the stream. A pump consumes no more than
256 messages in no more than 1024 receives, and exactly as many as it answers,
or none. A fault or an end of stream it met is still there: every later pump
answers its errno, and so does every later call of a message that may be sent,
which answers -107 instead if the connection is latched closed. -/
theorem messages_counted (f₀ : Frame) (fd bus rc : Int) (w w₀ : World)
    (hinit : w.fr = (dbusFrameInit f₀).1) (hsasl : dbusSessionSasl fd w = .done rc w₀)
    (ops : List BusOp) (rcs : List Int) (v : World) (hrun : runOps bus ops w₀ = .done rcs v)
    (hused : stillUsed ops rcs) :
    (∀ op : BusOp, ∃ before during, consumed (since w₀ v) = before.map extent ∧
      consumed (since v (op.run bus v).state) = during.map extent ∧
      (∀ m ∈ before ++ during, m.2.length ≤ 8192) ∧ ∀ T, (parse dbusFormat (dbusFramePos w₀.fr)
          (dbusFrameBase w₀.fr ++ (inbound (since w₀ (op.run bus v).state) ++ T))).msgs =
        before ++ during ++ ((dbusFrameCursor (op.run bus v).state.fr).ahead dbusFormat T).msgs) ∧
    (consumed (since v (dbusNativePumpSignals bus v).state)).length ≤ 256 ∧
    ((since v (dbusNativePumpSignals bus v).state).filter Event.isRecv).length ≤ 1024 ∧
    ∀ n v', dbusNativePumpSignals bus v = .done n v' →
      (consumed (since v v')).length = n.toNat ∧
      ∀ r ∈ answers (since v v'), faultErrno r < 0 →
        ∀ ops' rcs' u, runOps bus ops' v' = .done rcs' u → stillUsed ops' rcs' →
          (dbusNativePumpSignals bus u).value = some (faultErrno r) ∧
          ∀ m serial, m.bad = false → (dbusSessionCall bus serial (u.asking serial m)).value =
            some (if u.dbs.closed then -107 else faultErrno r) := by
  have hidle : Idle w₀.fr := by
    have start : Exchanging w w := .start (hinit ▸ init_idle f₀)
    exact ((sasl_exchanging fd w).of_done start hsasl).idle
  have account := counted_account (dbusFrameCursor w₀.fr)
  obtain ⟨good, es₁, ht₁, counted⟩ := account.upTo bus ops hrun hused hidle.good (.start hidle.good)
  rw [List.nil_append] at counted
  have any (op : BusOp) : ∃ es₂, (op.run bus v).state.trace = v.trace ++ es₂ ∧
      Counted (dbusFrameCursor w₀.fr) (op.run bus v).state.fr (es₁ ++ es₂) := by
    rw [← runOps_one]
    exact account.run bus id closeFds_counted [op] good counted
  refine ⟨fun op => ?_, ?_⟩
  · obtain ⟨es₂, ht₂, hc⟩ := any op
    obtain ⟨done, hdone, hcap, hsplit⟩ := hc.split
    rw [consumed_append] at hdone
    obtain ⟨before, during, rfl, hb, hd⟩ := List.map_eq_append_iff.mp hdone.symm
    refine ⟨before, during, by rw [since_eq ht₁, hb], by rw [since_eq ht₂, hd], hcap, fun T => ?_⟩
    rw [since_eq (ht₂.trans (by rw [ht₁, List.append_assoc])), ← hsplit T, Cursor.ahead, show
      (dbusFrameCursor w₀.fr).skip = 0 from hidle.skip, parseFrom_zero]
    rfl
  · obtain ⟨es₂, ht₂, -⟩ := any .pump
    have ht₂ : (dbusNativePumpSignals bus v).state.trace = v.trace ++ es₂ := ht₂
    obtain ⟨hcap, hreads, hcount⟩ := pump_since ht₂
    have hsince : since v (dbusNativePumpSignals bus v).state = es₂ := since_eq ht₂
    rw [hsince]
    refine ⟨hcap, hreads, fun n v' hpump => ?_⟩
    obtain rfl : v' = (dbusNativePumpSignals bus v).state := by rw [hpump]; rfl
    rw [hsince]
    refine ⟨hcount n _ hpump, fun r hr hneg ops' rcs' u hrun' hused' => ?_⟩
    -- the pump's moves, then those of the operations after it
    have one : runOps bus [.pump] v = .done [n] (dbusNativePumpSignals bus v).state := by
      rw [runOps, show (BusOp.pump.run bus) = dbusNativePumpSignals bus from rfl, bind_done hpump]
      rfl
    have unmet : v.fr.Good ∧ Met v.fr [] := ⟨good, fun r hr => absurd hr List.not_mem_nil⟩
    obtain ⟨good', es₃, ht₃, -, met⟩ :=
      met_account.upTo bus [.pump] one (fun x hx => by simp at hx; rw [hx]; simp) good
      unmet
    rw [ht₂] at ht₃
    rw [List.append_cancel_left ht₃] at hr
    obtain ⟨goodᵤ, es₄, -, -, metᵤ⟩ := met_account.upTo bus ops' hrun' hused' good' ⟨good', met⟩
    have restᵤ : AtRest u.fr r :=
      metᵤ r (by rw [answers_append]; exact List.mem_append_left _ hr) hneg
    exact ⟨pump_fault restᵤ hneg bus, fun m serial hm => call_fault (w := u.asking serial m) restᵤ
      hneg bus serial hm⟩

/-- The reply to a first request, and nothing in it. -/
def plainReply : Marshal :=
  (dbusMarshalFinish
    (dbusMarshalEndFields (dbusMarshalFieldU32 (dbusMarshalBegin 2 0 1) dbusMarshalFReplyser 1))).2

/-- A signal of eight bytes. -/
def plainSignal : Bytes :=
  [108, 4, 0, 1, 8, 0, 0, 0, 1, 0, 0, 0, 0, 0, 0, 0, 1, 2, 3, 4, 5, 6, 7, 8]

/-- After the handshake: a signal, the reply to the first request, and two signals more. -/
def callBetween : World where
  k := {
    alloc := [true]
    clock := List.replicate 7 {}
    send := [48, 1000]
    poll := List.replicate 5 1
    recv := [{ ret := 58 }, { ret := 16 }, { ret := 8 }, { ret := 16 }, { ret := 8 },
      { ret := 16 }, { ret := 8 }, { ret := 16 }, { ret := 8 }, { ret := -11 }]
    inbox := lit "DATA\r\nOK 0123456789abcdef0123456789abcdef\r\nAGREE_UNIX_FD\r\n" ++
      plainSignal ++ plainReply.buf ++ plainSignal ++ plainSignal }

/-- A call passes a signal and takes its reply; the pump after it answers 2, for the two signals
behind them. -/
theorem messages_counted_around_call :
    let w₀ := (dbusSessionSasl 5 callBetween).state
    ∃ v v', runOps 5 [.takeControl (some (lit "/s"))] w₀ = .done [0] v ∧
      dbusNativePumpSignals 5 v = .done 2 v' ∧ (consumed (since v v')).length = 2 ∧
      ∃ before during, before.length = 2 ∧ during.length = 2 ∧
        (parse dbusFormat (dbusFramePos w₀.fr)
          (dbusFrameBase w₀.fr ++ (inbound (since w₀ v') ++ []))).msgs =
        before ++ during ++ ((dbusFrameCursor v'.fr).ahead dbusFormat []).msgs := by
  intro w₀
  let v := (runOps 5 [.takeControl (some (lit "/s"))] w₀).state
  let v' := (dbusNativePumpSignals 5 v).state
  have called : (runOps 5 [.takeControl (some (lit "/s"))] w₀).value = some [0] := by
    decide +kernel
  have pumped : (dbusNativePumpSignals 5 v).value = some 2 := by decide +kernel
  have before_two : (consumed (since w₀ v)).length = 2 := by decide +kernel
  have call := Outcome.eq_done called
  have pump := Outcome.eq_done pumped
  have used : stillUsed [.takeControl (some (lit "/s"))] [0] := by
    rintro x hx
    simp at hx
    rw [hx]
    simp
  obtain ⟨split, -, -, count⟩ :=
    messages_counted {} 5 5 0 callBetween w₀ rfl (by rfl) _ _ v call used
  have two : (consumed (since v v')).length = 2 := (count 2 v' pump).1
  obtain ⟨before, during, hb, hd, -, parsed⟩ := split .pump
  have whole : (BusOp.run 5 .pump v).state = v' := rfl
  rw [whole] at hd parsed
  refine ⟨v, v', call, pump, two, before, during, ?_, ?_, parsed []⟩
  · rw [← List.length_map extent, ← hb, before_two]
  · rw [← List.length_map extent, ← hd, two]

end Samvada
