import Samvada.Counting
import Samvada.FieldOrder

/- The connection as a queue of messages. What is still to be read of the stream
   is a list of messages with their positions, however it will be delivered; a
   move leaves the list alone or takes off its first. A call is a filter over
   this list: it answers what the first message of ours says, or gives up with
   that message, if there is one, still to be read. -/
namespace Samvada
open Octets Framing Resumable Resumable.Prog Relation

/-! ## A message alone

What a call makes of the message at the head depends on its own bytes, not on
what is buffered behind it. -/

section
variable {p q : Bytes} {n : Nat} (h : loadN q 0 n = loadN p 0 n)
include h

/-- **The verdict on a message depends on its own bytes.** -/
theorem verdict_congr (uniq : Bytes) (serial wm pos : Nat) :
    dbusSessionVerdict uniq serial wm pos n q = dbusSessionVerdict uniq serial wm pos n p := by
  by_cases hv : dbusUnmarshalValidate n p = true
  · obtain ⟨fs, wf⟩ := (validate_iff_wellFormed n p).mp hv
    have type : dbusUnmarshalType q = dbusUnmarshalType p :=
      load8_congr h (by have := wf.header; omega)
    rw [wf.verdict, (wf.congr h).verdict, type]
  · -- neither is ours
    have hq : ¬ dbusUnmarshalValidate n q = true := fun hq => by
      obtain ⟨fs, wf⟩ := (validate_iff_wellFormed n q).mp hq
      exact hv ((validate_iff_wellFormed n p).mpr ⟨fs, wf.congr h.symm⟩)
    simp [dbusSessionVerdict, dbusSessionMine, hv, hq]

end

theorem loadN_take (p : Bytes) (n : Nat) : loadN (p.take n) 0 n = loadN p 0 n := by
  apply List.map_congr_left
  intro j hj
  have hj' := List.mem_range.mp hj
  simp [List.getD_eq_getElem?_getD, hj']

/-! ## The filter -/

/-- What a message of the stream is to the call with `serial` whose request was
written after `wm` bytes. -/
def heard (uniq : Bytes) (serial wm : Nat) (m : Nat × Bytes) : Verdict :=
  dbusSessionVerdict uniq serial wm m.1 m.2.length m.2

/-- A call over the messages in stream order: the first of ours, a reply left to
be read and an error consumed. -/
def firstOfOurs (uniq : Bytes) (serial wm : Nat) : List (Nat × Bytes) →
    Option (Int × List (Nat × Bytes))
  | [] => none
  | m :: ms => match heard uniq serial wm m with
    | .success => some (0, m :: ms)
    | .failure rc => some (rc, ms)
    | .other => firstOfOurs uniq serial wm ms

section
variable {uniq : Bytes} {serial wm : Nat}

theorem firstOfOurs_skip {past : List (Nat × Bytes)}
    (h : ∀ m ∈ past, heard uniq serial wm m = .other)
    (ms : List (Nat × Bytes)) : firstOfOurs uniq serial wm (past ++ ms) = firstOfOurs uniq
    serial wm ms := by
  induction past with
  | nil => rfl
  | cons m past ih =>
    rw [List.cons_append, firstOfOurs, h m (List.mem_cons_self ..)]
    exact ih fun m' hm => h m' (List.mem_cons_of_mem _ hm)

/-- A message that began before the request was written is never ours. -/
theorem heard_stale {m : Nat × Bytes} (h : m.1 < wm) : heard uniq serial wm m = .other := by
  simp [heard, dbusSessionVerdict, dbusSessionMine, h]

end

/-! ## What is still to be read -/

/-- The in-cap messages the connection has still to yield, in stream order. -/
def World.toRead (w : World) : List (Nat × Bytes) :=
  ((dbusFrameCursor w.fr).ahead dbusFormat w.k.inbox).msgs

/-- Those of them that are whole in the buffer. -/
def World.buffered (w : World) : List (Nat × Bytes) :=
  ((dbusFrameCursor w.fr).ahead dbusFormat []).msgs

theorem toRead_congr {w w' : World} (hc : dbusFrameCursor w'.fr = dbusFrameCursor w.fr)
    (hi : w'.k.inbox = w.k.inbox) : w'.toRead = w.toRead := by
  rw [World.toRead, World.toRead, hc, hi]

theorem buffered_congr {w w' : World} (hc : dbusFrameCursor w'.fr = dbusFrameCursor w.fr) :
    w'.buffered = w.buffered := by
  rw [World.buffered, World.buffered, hc]

/-- Where the framer stops, no whole message is buffered. -/
theorem AtRest.buffered_nil {w : World} {r : FrameStatus} (h : AtRest w.fr r)
    (hr : ∀ t, r ≠ .msg t) : w.buffered = [] := by
  have len : (dbusFrameCursor w.fr).held.length = dbusFrameHave w.fr := dbusFrameBase_length w.fr
  have waits (hw : (dbusFrameCursor w.fr).Waits dbusFormat) : w.buffered = [] := by
    rw [World.buffered, hw.ahead_nil]
  cases h with
  | draining hs hh => exact waits (.inl ⟨hs, List.eq_nil_of_length_eq_zero (len.trans hh)⟩)
  | empty hs hh =>
    refine waits (.inr (.inl ⟨hs, ?_⟩))
    rw [len, hh]
    exact dbusFormat.hdr_pos
  | header hs h0 hh =>
    refine waits (.inr (.inl ⟨hs, ?_⟩))
    rw [len]
    exact hh
  | body t hs hh ht hc hl =>
    refine waits (.inr (.inr ⟨hs, ?_, t, ht, ?_⟩))
    · rw [len]
      exact hh
    · rw [len]
      exact hl
  | whole t => exact absurd rfl (hr t)
  | bad e hs hh ht => rw [World.buffered, bad_ahead hs hh ht]

/-- A whole message at the head is the first still to be read. -/
theorem AtRest.toRead_cons {w : World} {r : Nat} (h : AtRest w.fr (.msg r))
    (ho : w.fr.off ≤ w.fr.buf.length) :
    w.toRead = (dbusFramePos w.fr, (dbusFrameBase w.fr).take r) ::
      World.toRead { w with fr := (dbusFrameAdvance w.fr r).1 } := by
  rw [World.toRead, h.advance_ahead ho]
  rfl

/-- The verdict on the message at the head is the one on its bytes. -/
theorem AtRest.heard {w : World} {r : Nat} (h : AtRest w.fr (.msg r)) (uniq : Bytes)
    (serial wm : Nat) : dbusSessionVerdict uniq serial wm (dbusFramePos w.fr) r
    (dbusFrameBase w.fr) =
      Samvada.heard uniq serial wm (dbusFramePos w.fr, (dbusFrameBase w.fr).take r) := by
  have hl := h.whole_inv.2.2.2
  have len : ((dbusFrameBase w.fr).take r).length = r :=
    List.length_take_of_le (by rw [dbusFrameBase_length]; exact hl)
  show _ = dbusSessionVerdict uniq serial wm (dbusFramePos w.fr)
    ((dbusFrameBase w.fr).take r).length _
  rw [len]
  exact (verdict_congr (loadN_take _ r) uniq serial wm _).symm

/-- Every message buffered began before the bytes now received. -/
theorem buffered_stale {w : World} (hg : w.fr.Good) {m : Nat × Bytes} (hm : m ∈ w.buffered) :
    m.1 + m.2.length ≤ dbusFrameReceived w.fr := by
  have h := Cursor.ahead_inside _ hm
  have len : (dbusFrameCursor w.fr).held.length = dbusFrameHave w.fr := dbusFrameBase_length w.fr
  have pos : (dbusFrameCursor w.fr).pos = dbusFramePos w.fr := rfl
  rw [received_eq hg.ok.off]
  omega

/-! ## What a move leaves to be read -/

/-- The bytes received come off the inbound stream. -/
theorem Step.inbox {s : Nat} {w w' : World} (h : Step s w w') :
    ∃ es, w'.trace = w.trace ++ es ∧ w.k.inbox = inbound es ++ w'.k.inbox := by
  cases h with
  | quiet hq =>
    exact ⟨_, hq.trace, by rw [inbound_silent (offers_silent hq.offers), hq.inbox, List.nil_append]⟩
  | lost => exact ⟨[], (List.append_nil _).symm, rfl⟩
  | @next r g d rest pass =>
    refine ⟨_, rfl, ?_⟩
    rw [inbound_append, inbound_silent (closes_silent d)]
    rfl
  | advance rest => exact ⟨_, rfl, by rw [inbound_advance]; rfl⟩
  | answered rest hv => exact ⟨_, rfl, rfl⟩
  | prepare hp => exact ⟨[], (List.append_nil _).symm, rfl⟩
  | eof => exact ⟨[], (List.append_nil _).symm, rfl⟩
  | @recvNone w' fd n want flags anc trunc hn hfr hdbm hdbs hin ht =>
    refine ⟨_, ht, ?_⟩
    rw [(recv_account fd n want flags [] anc trunc _).1, hin]
    split
    · rw [inbound_silent (closes_silent _)]
      rfl
    · rfl
  | @receive w' fd want flags d anc trunc moved qs g rest hd hwithin hroom hin hq hfr
      hdbm hdbs ht =>
    refine ⟨_, ht, ?_⟩
    rw [(recv_account fd d.length want flags d anc trunc _).1, inbound_append, inbound_append,
      inbound_silent (closes_silent _), inbound_silent hq.silent, hin]
    exact congrArg (· ++ _) (List.append_nil d).symm
  | @take w₁ w' r i fd g qs ok rest hc h0 hq he =>
    refine ⟨_, take_trace hq he, ?_⟩
    have none :
      inbound (if ok then advanceEvents g r ++ [Event.handed fd] else Event.close fd ::
      advanceEvents g r) = [] := by
      cases ok with
      | true => exact (inbound_append _ _).trans (by rw [inbound_advance]; rfl)
      | false => exact inbound_advance g r
    rw [inbound_append, inbound_append, none, inbound_silent (offers_silent hq.offers), he]
    exact hq.inbox.symm

theorem moves_inbox {s : Nat} {w w' : World} (h : ReflTransGen (Step s) w w') :
    ∃ es, w'.trace = w.trace ++ es ∧ w.k.inbox = inbound es ++ w'.k.inbox := by
  induction h with
  | refl => exact ⟨[], (List.append_nil _).symm, rfl⟩
  | tail _ last ih =>
    obtain ⟨es, ht, hi⟩ := ih
    obtain ⟨es', ht', hi'⟩ := last.inbox
    exact ⟨es ++ es', by rw [ht', ht, List.append_assoc], by rw [hi, hi', inbound_append,
      List.append_assoc]⟩

/-- **Moves take off the messages they consume.** -/
theorem moves_read {s : Nat} {w w' : World} (h : ReflTransGen (Step s) w w') (hg : w.fr.Good) :
    w'.fr.Good ∧ ∃ es done, w'.trace = w.trace ++ es ∧ consumed es = done.map extent ∧
    w.toRead = done ++ w'.toRead := by
  obtain ⟨es, ht, counted⟩ := (counted_account (dbusFrameCursor w.fr)).moves h (Counted.start hg)
  obtain ⟨es', ht', hi⟩ := moves_inbox h
  have e : es' = es := List.append_cancel_left (ht'.symm.trans ht)
  subst e
  rw [List.nil_append] at counted
  obtain ⟨done, hdone, -, hsplit⟩ := counted.split
  have all := hsplit w'.k.inbox
  rw [← hi] at all
  exact ⟨counted.good, es', done, ht, hdone, all⟩

/-- Moves that consume nothing leave all there is to be read. -/
theorem moves_still {s : Nat} {w w' : World} (h : ReflTransGen (Step s) w w') (hg : w.fr.Good)
    (hc : (consumed w'.trace).length = (consumed w.trace).length) : w'.fr.Good ∧
    w'.toRead = w.toRead := by
  obtain ⟨good, es, done, ht, hdone, hread⟩ := moves_read h hg
  have none : done = [] := by
    rw [ht, consumed_append, List.length_append, hdone, List.length_map] at hc
    exact List.eq_nil_of_length_eq_zero (by omega)
  rw [none] at hread
  exact ⟨good, hread.symm⟩

/-! ## The parts of a call -/

/-- The framer, the name and the stream: what `toRead` and the verdicts depend on. -/
def World.view (w : World) : Frame × Bytes × Bytes := (w.fr, w.dbs.uniq, w.k.inbox)

abbrev FixesView {α : Type} (x : M α) : Prop := Fixes World.view x

theorem nowMs_view : FixesView dbusSessionNowMs := by
  refine Fixes.bind Fixes.gets fun _ =>
    Fixes.ite (Fixes.pure _) (Fixes.bind (Fixes.modify fun _ => rfl) fun _ =>
    Fixes.query fun w a w' h => ?_)
  cases hc : w.k.clock with
  | nil =>
    rw [hc] at h
    cases h
  | cons c rest =>
    rw [hc] at h
    cases h
    rfl

theorem sysPoll_view (fd : Int) (wr : Bool) (ms : Int) : FixesView (sysPoll fd wr ms) :=
  Fixes.query fun w a w' h => by
  cases hp : w.k.poll with
  | nil =>
    rw [hp] at h
    cases h
  | cons c rest =>
    rw [hp] at h
    cases h
    rfl

theorem waitReadable_view (fd deadline : Int) : FixesView (dbsWaitReadable fd deadline) :=
  Fixes.bind nowMs_view fun _ => Fixes.ite (Fixes.pure _) (Fixes.ite (Fixes.pure _)
    (Fixes.bind (sysPoll_view _ _ _) fun _ => Fixes.ite (Fixes.pure _) (Fixes.ite (Fixes.pure _)
      (Fixes.ite (Fixes.pure _) (Fixes.pure _)))))

theorem frameFault_view (r : FrameStatus) : FixesView (dbsFrameFault r) := by
  cases r with
  | eof => exact Fixes.bind (Fixes.modify fun _ => rfl) fun _ => Fixes.pure _
  | truncated => exact Fixes.bind (Fixes.modify fun _ => rfl) fun _ => Fixes.pure _
  | _ => exact Fixes.pure _

theorem sendto_view (fd : Int) (offered : Bytes) (flags : Nat) :
    FixesView (sysSendto fd offered flags) :=
  Fixes.query fun w n w' h => by
    cases hs : w.k.send with
    | nil =>
      rw [hs] at h
      cases h
    | cons c rest =>
      rw [hs] at h
      cases h
      rfl

theorem write_view (fd : Int) (buf : Bytes) (deadline : Int) :
    FixesView (dbsWrite fd buf deadline) := by
  have cut (sent : Nat) (rc : Int) : FixesView (.inr <$> dbsCut sent rc : M (Nat ⊕ Int)) :=
    Fixes.map (Fixes.bind (Fixes.modify fun _ => rfl) fun _ => Fixes.pure _)
  have full : FixesView (dbsWriteFull fd deadline) :=
    Fixes.ite (Fixes.pure _)
      (Fixes.bind nowMs_view fun _ => Fixes.ite (Fixes.pure _) (Fixes.ite (Fixes.pure _)
      (Fixes.bind (sysPoll_view _ _ _) fun _ => Fixes.ite (Fixes.pure _)
      (Fixes.ite (Fixes.pure _) (Fixes.pure _)))))
  refine Fixes.loop
    (fun sent => Fixes.ite (Fixes.pure _) (Fixes.bind (sendto_view _ _ _) fun n => ?_)) 0
  exact Fixes.ite (Fixes.pure _)
    (Fixes.ite (Fixes.bind full fun stop => Fixes.ite (Fixes.pure _) (cut sent stop))
    (Fixes.ite (cut sent n) (Fixes.ite (cut sent _) (Fixes.pure _))))

theorem queueFds_uniq : ∀ fds, Fixes (·.dbs.uniq) (dbsQueueFds fds)
  | [] => Fixes.pure _
  | _ :: rest =>
    Fixes.bind (Fixes.ite (Fixes.pure _) (Fixes.bind (Fixes.modifyGet fun _ => rfl) fun _ =>
      Fixes.bind (Fixes.modify fun _ => rfl) fun _ => Fixes.pure _)) fun _ =>
    Fixes.bind (Fixes.modify fun _ => rfl) fun _ => Fixes.bind (queueFds_uniq rest) fun _ =>
      Fixes.pure _

theorem recvmsg_fixes {γ : Type} {g : World → γ}
    (hg : ∀ w b (k : Kernel), g { w with trace := b, k := k } = g w)
    (fd : Int) (want flags : Nat) : Fixes g (sysRecvmsg fd want flags) :=
    Fixes.query fun w a w' h => by
  cases hr : w.k.recv with
  | nil =>
    simp only [hr] at h
    cases h
  | cons c rest =>
    simp only [hr] at h
    split_ifs at h
    · cases h
      exact hg w _ _
    · cases h
      exact hg w _ _

theorem sysRecv_fixes {γ : Type} {g : World → γ}
    (hg : ∀ w b (k : Kernel), g { w with trace := b, k := k } = g w)
    (hr : ∀ (w : World) (rx : List Int) (t : Bool) b,
    g { w with rx := rx, rxtrunc := t, trace := b } = g w) (fd : Int) (want flags : Nat) : Fixes g
    (dbusSysRecv fd want flags) :=
  Fixes.bind (Fixes.modify fun w => hr w _ _ _) fun _ =>
    Fixes.bind (recvmsg_fixes hg fd want flags) fun _ =>
    Fixes.ite (Fixes.pure _) (Fixes.bind (Fixes.modify fun w => hr w _ _ _) fun _ => Fixes.pure _)

theorem recv_uniq (fd : Int) (flags : Nat) : Fixes (·.dbs.uniq) (dbsRecv fd flags) := by
  refine Fixes.bind (Fixes.modifyGet fun _ => rfl) fun want =>
    Fixes.ite (Fixes.bind (Fixes.modify fun _ => rfl) fun _ =>
    Fixes.pure _)
      (Fixes.bind (sysRecv_fixes (fun _ _ _ => rfl) (fun _ _ _ _ => rfl) fd want flags) fun got =>
      ?_)
  refine Fixes.ite (Fixes.pure _)
    (Fixes.ite (Fixes.bind (Fixes.modify fun _ => rfl) fun _ => Fixes.pure _) ?_)
  exact Fixes.bind Fixes.gets fun _ => Fixes.bind (Fixes.modify fun _ => rfl) fun _ =>
    Fixes.bind Fixes.gets fun rx =>
    Fixes.bind (queueFds_uniq rx) fun _ => Fixes.bind Fixes.gets fun _ =>
      Fixes.bind (Fixes.modify fun _ => rfl) fun _ =>
      Fixes.bind (Fixes.modify fun _ => rfl) fun _ => Fixes.pure _

theorem queueFds_ends : ∀ fds, Ends (dbsQueueFds fds)
  | [] => Ends.pure _
  | _ :: rest =>
    Ends.bind (Ends.ite (Ends.pure _) (Ends.bind Ends.modifyGet fun _ =>
      Ends.bind Ends.modify fun _ => Ends.pure _)) fun _ =>
    Ends.bind Ends.modify fun _ => Ends.bind (queueFds_ends rest) fun _ => Ends.pure _

/-- A receive that brings nothing, or waits, leaves the cursor where it was. -/
theorem recv_cursor (fd : Int) (flags : Nat) (c : Cursor UInt8) :
    Spec (fun w => w.fr.Good ∧ dbusFrameCursor w.fr = c) (dbsRecv fd flags)
      (fun got w => got ≤ 0 → dbusFrameCursor w.fr = c) fun w => dbusFrameCursor w.fr = c := by
  have ended (got : Int) : Spec (fun w => dbusFrameCursor w.fr = c) (do
      frameSetEof
      pure got : M Int) (fun got w => got ≤ 0 → dbusFrameCursor w.fr = c)
      fun w => dbusFrameCursor w.fr = c :=
    Spec.bind (Q := fun _ w => dbusFrameCursor w.fr = c) (Spec.modify fun _ h => h) fun _ =>
      Spec.pure fun _ h _ => h
  refine Spec.bind (Q := fun _ w => dbusFrameCursor w.fr = c)
    (Spec.modifyGet fun w hw => ?_) fun want =>
    Spec.ite (fun _ => ended 0) fun _ => ?_
  · obtain ⟨n, g, e, p, -⟩ := dbusFramePrepare_spec hw.1.ok
    simp only [e]
    exact p.cursor.trans hw.2
  have same := sysRecv_fixes (g := fun w => dbusFrameCursor w.fr) (fun _ _ _ => rfl)
    (fun _ _ _ _ => rfl) fd want flags
  refine Spec.bind (Q := fun _ w => dbusFrameCursor w.fr = c) (fun w hw => ?_) fun got => ?_
  · have h := same w
    cases hx : dbusSysRecv fd want flags w with
    | waiting w' =>
      rw [hx] at h
      exact h.trans hw
    | done a w' =>
      rw [hx] at h
      exact h.trans hw
  · refine Spec.ite (fun _ => Spec.pure fun _ h _ => h) fun hneg =>
      Spec.ite (fun _ => ended 0) fun h0 => ?_
    -- bytes came: the answer is positive
    have positive : ¬ got.1 ≤ 0 := by omega
    refine Spec.bind (Spec.ends Ends.gets) fun _ => Spec.bind (Spec.ends Ends.modify) fun _ =>
      Spec.bind (Spec.ends Ends.gets) fun rx => Spec.bind (Spec.ends (queueFds_ends rx)) fun _ =>
      Spec.bind (Spec.ends Ends.gets) fun _ => Spec.bind (Spec.ends Ends.modify) fun _ =>
      Spec.bind (Spec.ends Ends.modify) fun _ => Spec.pure fun _ _ h => absurd h positive

/-! ## The call -/

/-- Of the messages `ms` a call with `serial` has consumed some, none of them ours. -/
structure Skimmed (uniq : Bytes) (serial wm : Nat) (ms : List (Nat × Bytes)) (w : World) :
    Prop where
  good : w.fr.Good
  name : w.dbs.uniq = uniq
  past : ∃ past, ms = past ++ w.toRead ∧ ∀ m ∈ past, heard uniq serial wm m = .other

/-- How a call over `ms` ends: with the answer of the first of ours, an accepted
reply being left whole at the head, or giving up with none of ours buffered. -/
inductive Filtered (uniq : Bytes) (serial wm : Nat) (ms : List (Nat × Bytes)) (rc : Int)
    (w : World) : Prop where
  | answered (h : firstOfOurs uniq serial wm ms = some (rc, w.toRead))
    (hb : rc = 0 → ∃ r rest, AtRest w.fr (.msg r) ∧
    w.toRead = (dbusFramePos w.fr, (dbusFrameBase w.fr).take r) :: rest)
  | gaveUp (hneg : rc < 0) (h : Skimmed uniq serial wm ms w)
      (hb : ∀ m ∈ w.buffered, heard uniq serial wm m = .other)

section
variable {uniq : Bytes} {serial wm : Nat} {ms : List (Nat × Bytes)}

theorem Skimmed.view {w w' : World} (h : Skimmed uniq serial wm ms w) (hv : w'.view = w.view) :
    Skimmed uniq serial wm ms w' := by
  have hfr : w'.fr = w.fr := congrArg Prod.fst hv
  have huniq : w'.dbs.uniq = w.dbs.uniq := congrArg (fun v : Frame × Bytes × Bytes => v.2.1) hv
  have hin : w'.k.inbox = w.k.inbox := congrArg (fun v : Frame × Bytes × Bytes => v.2.2) hv
  refine ⟨hfr ▸ h.good, huniq.trans h.name, ?_⟩
  rw [toRead_congr (congrArg dbusFrameCursor hfr) hin]
  exact h.past

/-- A program that leaves the view alone keeps what depends on it. -/
theorem FixesView.skims {α : Type} {x : M α} (h : FixesView x) (B : Frame → Prop) :
    Spec (fun w => Skimmed uniq serial wm ms w ∧ B w.fr) x
    (fun _ w => Skimmed uniq serial wm ms w ∧ B w.fr)
      (Skimmed uniq serial wm ms) := by
  intro w hw
  have hv := h w
  cases hx : x w with
  | done a w' =>
    rw [hx] at hv
    have hfr : w'.fr = w.fr := congrArg Prod.fst hv
    exact ⟨hw.1.view hv, by rw [hfr]; exact hw.2⟩
  | waiting w' =>
    rw [hx] at hv
    exact hw.1.view hv

theorem next_skims : Spec (Skimmed uniq serial wm ms) frameNext
    (fun r w => Skimmed uniq serial wm ms w ∧ AtRest w.fr r) fun _ => False := by
  refine Spec.modifyGet fun w hw => ?_
  obtain ⟨r, g, c, e, rest, pass⟩ := dbusFrameNext_passed hw.good.ok.off
  simp only [e]
  refine ⟨⟨⟨pass.ok hw.good.ok, pass.fds_nonneg hw.good.fds⟩, hw.name, ?_⟩, rest⟩
  have same :
    World.toRead ({ w with fr := g }.emit (c.map Event.close ++ [Event.next r g])) = w.toRead :=
    congrArg Parsed.msgs (pass.ahead w.k.inbox)
  rw [same]
  exact hw.past

/-- Consuming the message at the head, not ours. -/
theorem advance_skims {r : Nat} :
    Spec (fun w => (Skimmed uniq serial wm ms w ∧ AtRest w.fr (.msg r)) ∧
    dbusSessionVerdict w.dbs.uniq serial wm (dbusFramePos w.fr) r (dbusFrameBase w.fr) = .other)
    (frameAdvance r) (fun _ => Skimmed uniq serial wm ms) fun _ => False := by
  refine Spec.modify fun w hw => ?_
  obtain ⟨⟨hs, rest⟩, hv⟩ := hw
  obtain ⟨past, hms, hother⟩ := hs.past
  refine ⟨rest.advance_good hs.good, hs.name, past ++
    [(dbusFramePos w.fr, (dbusFrameBase w.fr).take r)], ?_, ?_⟩
  · rw [hms, rest.toRead_cons hs.good.ok.off, List.append_assoc]
    rfl
  · intro m hm
    rcases List.mem_append.mp hm with hm | hm
    · exact hother m hm
    · rw [List.mem_singleton.mp hm, ← rest.heard, ← hs.name]
      exact hv

/-- A call over `ms` was answered by the first of ours, an accepted reply being left
whole at the head. -/
structure FirstHeard (uniq : Bytes) (serial wm : Nat) (ms : List (Nat × Bytes)) (rc : Int)
    (w : World) : Prop where
  first : firstOfOurs uniq serial wm ms = some (rc, w.toRead)
  head : rc = 0 → ∃ r rest, AtRest w.fr (.msg r) ∧
    w.toRead = (dbusFramePos w.fr, (dbusFrameBase w.fr).take r) :: rest

/-- How the inner loop ends. -/
def ScanEnds (uniq : Bytes) (serial wm : Nat) (ms : List (Nat × Bytes)) : Scan → World → Prop
  | .answered rc => FirstHeard uniq serial wm ms rc
  | .stopped r => fun w => Skimmed uniq serial wm ms w ∧ AtRest w.fr r ∧ ∀ t, r ≠ .msg t

/-- The message at the head, read as `v`, answers what the filter answers. -/
theorem Skimmed.finds {w : World} {r : Nat} {v : Verdict} (hs : Skimmed uniq serial wm ms w)
    (rest : AtRest w.fr (.msg r)) (hv : dbusSessionVerdict w.dbs.uniq serial wm (dbusFramePos w.fr)
    r (dbusFrameBase w.fr) = v) : (v = .success → firstOfOurs uniq serial wm ms = some
    (0, w.toRead)) ∧ ∀ rc, v = .failure rc → firstOfOurs uniq serial wm ms =
      some (rc, World.toRead { w with fr := (dbusFrameAdvance w.fr r).1 }) := by
  obtain ⟨past, hms, hother⟩ := hs.past
  have head := rest.toRead_cons hs.good.ok.off
  rw [hs.name, rest.heard] at hv
  rw [hms, firstOfOurs_skip hother, head]
  refine ⟨fun h => ?_, fun rc h => ?_⟩
  · rw [firstOfOurs, hv, h]
  · rw [firstOfOurs, hv, h]

theorem scan_filters : Spec (Skimmed uniq serial wm ms) (dbsScan serial wm)
    (ScanEnds uniq serial wm ms) fun _ => False := by
  refine Spec.loop (I := fun _ => Skimmed uniq serial wm ms) (dbsScan_lowers serial wm)
    (fun _ => ?_) ()
  refine Spec.bind next_skims fun s => ?_
  cases s with
  | msg r =>
    refine Spec.bind (Q := fun v w => (Skimmed uniq serial wm ms w ∧ AtRest w.fr (.msg r)) ∧
      dbusSessionVerdict w.dbs.uniq serial wm (dbusFramePos w.fr) r (dbusFrameBase w.fr) = v) ?_
      fun v =>
        Spec.gets_bind fun pos => ?_
    · intro w hw
      obtain ⟨d, run⟩ :=
        decode_run (fun w d => Decode.verdict_eq w.dbs.uniq serial wm (dbusFramePos w.fr) r
        (dbusFrameBase w.fr) d) w
      rw [run]
      exact ⟨⟨hw.1.view rfl, hw.2⟩, rfl⟩
    cases v with
    | success =>
      refine Spec.bind (Q := fun _ w => FirstHeard uniq serial wm ms 0 w)
        (Spec.modify fun w hw => ?_) fun _ =>
        Spec.pure fun _ h => h
      obtain ⟨⟨⟨hs, rest⟩, hv⟩, -⟩ := hw
      exact ⟨(hs.finds rest hv).1 rfl, fun _ => ⟨r, _, rest, rest.toRead_cons hs.good.ok.off⟩⟩
    | failure rc =>
      refine Spec.bind (Q := fun _ w => (Skimmed uniq serial wm ms w ∧ AtRest w.fr (.msg r)) ∧
        dbusSessionVerdict w.dbs.uniq serial wm (dbusFramePos w.fr) r
        (dbusFrameBase w.fr) = .failure rc) (Spec.modify fun w hw => ?_) fun _ => ?_
      · exact ⟨⟨hw.1.1.1.view rfl, hw.1.1.2⟩, hw.1.2⟩
      · refine Spec.bind (Q := fun _ w => FirstHeard uniq serial wm ms rc w)
          (Spec.modify fun w hw => ?_) fun _ =>
          Spec.pure fun _ h => h
        obtain ⟨⟨hs, rest⟩, hv⟩ := hw
        exact ⟨(hs.finds rest hv).2 rc rfl, fun h0 => absurd (verdict_failure hv) (by omega)⟩
    | other =>
      exact Spec.bind (advance_skims.mono (fun _ h => h.1) (fun _ _ h => h) fun _ h => h) fun _ =>
        Spec.pure fun _ h => h
  | _ => exact Spec.pure fun w hw => ⟨hw.1, hw.2, by simp⟩

/-- One receive. -/
theorem recv_skims (fd : Int) (flags : Nat) :
    Spec (fun w => Skimmed uniq serial wm ms w ∧ AtRest w.fr .needMore) (dbsRecv fd flags)
      (fun got w => Skimmed uniq serial wm ms w ∧ (got ≤ 0 → w.buffered = []))
      (fun w => Skimmed uniq serial wm ms w ∧ w.buffered = []) := by
  rintro w ⟨hs, rest⟩
  have walk := dbsRecv_moves (s := serial) fd flags w ⟨hs.good, rest⟩
  have tally := recv_tally fd flags w.tally.1 w.tally.2 w rfl
  have name := recv_uniq fd flags w
  have cursor := recv_cursor fd flags (dbusFrameCursor w.fr) w ⟨hs.good, rfl⟩
  have empty := rest.buffered_nil (w := w) (by simp)
  -- what was to be read still is
  have still {w' : World} (hm : ReflTransGen (Step serial) w w')
      (ht : w'.tally = (w.tally.1, w.tally.2) ∨ w'.tally = (w.tally.1, w.tally.2 + 1))
      (hu : w'.dbs.uniq = w.dbs.uniq) : Skimmed uniq serial wm ms w' := by
    have count : (consumed w'.trace).length = (consumed w.trace).length := by
      rcases ht with ht | ht <;> exact congrArg Prod.fst ht
    obtain ⟨hgood, hread⟩ := moves_still hm hs.good count
    exact ⟨hgood, hu.trans hs.name, by rw [hread]; exact hs.past⟩
  cases hx : dbsRecv fd flags w with
  | waiting w' =>
    rw [hx] at walk tally name cursor
    obtain ⟨_, hm, rfl⟩ := walk
    exact ⟨still hm tally name, by rw [buffered_congr cursor, empty]⟩
  | done got w' =>
    rw [hx] at walk tally name cursor
    refine ⟨still walk.1 tally name, fun hle => ?_⟩
    rw [buffered_congr (cursor hle)]
    exact empty

/-- A round goes on, or gives up. -/
def RoundEnds (uniq : Bytes) (serial wm : Nat) (ms : List (Nat × Bytes)) : Nat ⊕ Int → World → Prop
  | .inl _ => Skimmed uniq serial wm ms
  | .inr rc => Filtered uniq serial wm ms rc

/-- Giving up with nothing whole in the buffer. -/
theorem giveUp {rc : Int} (hneg : rc < 0) :
    Spec (fun w => Skimmed uniq serial wm ms w ∧ w.buffered = []) (pure (.inr rc) : M (Nat ⊕ Int))
      (RoundEnds uniq serial wm ms) (Skimmed uniq serial wm ms) :=
  Spec.pure fun w hw => .gaveUp hneg hw.1 (by rw [hw.2]; simp)

theorem ioFail_gaveUp {e : Int} (he : e < 0) :
    Spec (fun w => Skimmed uniq serial wm ms w ∧ w.buffered = [])
    (.inr <$> dbsIoFail e : M (Nat ⊕ Int)) (RoundEnds uniq serial wm ms)
    (Skimmed uniq serial wm ms) := by
  refine Spec.map (Spec.ite (fun _ => ?_) fun _ => giveUp he)
  refine Spec.bind (Q := fun _ w => Skimmed uniq serial wm ms w ∧ w.buffered = [])
    (Spec.modify fun w hw => ?_) fun _ =>
    giveUp (by decide)
  exact ⟨hw.1.view rfl, hw.2⟩

theorem receive_filters (fd : Int) (flags : Nat) (deadline : Int) (reads : Nat) :
    Spec (fun w => Skimmed uniq serial wm ms w ∧ AtRest w.fr .needMore)
    (dbsReceive fd flags deadline reads)
      (RoundEnds uniq serial wm ms) (Skimmed uniq serial wm ms) := by
  refine Spec.bind ((recv_skims fd flags).mono (fun _ h => h) (fun _ _ h => h) fun _ h => h.1)
    fun got => ?_
  have on : Spec (fun w => Skimmed uniq serial wm ms w ∧ (got ≤ 0 → w.buffered = []))
    (pure (.inl reads) : M (Nat ⊕ Int))
      (RoundEnds uniq serial wm ms) (Skimmed uniq serial wm ms) := Spec.pure fun w hw => hw.1
  refine Spec.ite (fun _ => on) fun _ =>
    Spec.ite (fun he => Spec.ite (fun _ => on) fun _ => ?_) fun _ =>
    Spec.ite (fun hneg => ?_) fun _ => on
  · have hle : got ≤ 0 := by
      rw [he]
      decide
    exact (giveUp (by decide)).mono (fun w hw => ⟨hw.1, hw.2 hle⟩) (fun _ _ h => h) fun _ h => h
  · exact (ioFail_gaveUp hneg).mono (fun w hw => ⟨hw.1, hw.2 (by omega)⟩)
      (fun _ _ h => h) fun _ h => h

/-- The framer's fault, read off where it stopped. -/
theorem fault_skims (r : FrameStatus) (B : Frame → Prop) :
    Spec (fun w => Skimmed uniq serial wm ms w ∧ B w.fr) (dbsFrameFault r)
    (fun fault w => (Skimmed uniq serial wm ms w ∧ B w.fr) ∧ fault = faultErrno r) fun _ =>
    False := by
  intro w hw
  obtain ⟨w', run⟩ := frameFault_run r w
  have hv := frameFault_view r w
  rw [run] at hv ⊢
  have hfr : w'.fr = w.fr := congrArg Prod.fst hv
  exact ⟨⟨hw.1.view hv, by rw [hfr]; exact hw.2⟩, rfl⟩

theorem needMore_of_fault {r : FrameStatus} (hr : ∀ t, r ≠ .msg t) (h : ¬ faultErrno r < 0) :
    r = .needMore := by
  cases r with
  | msg t => exact absurd rfl (hr t)
  | needMore => rfl
  | _ => exact absurd (by decide) h

theorem awaitRound_filters (fd : Int) (deadline : Int) (reads : Nat) :
    Spec (Skimmed uniq serial wm ms) (dbsAwaitRound fd serial wm deadline reads)
    (RoundEnds uniq serial wm ms)
      (Skimmed uniq serial wm ms) := by
  refine Spec.bind (scan_filters.mono (fun _ h => h) (fun _ _ h => h) fun _ h => h.elim) fun s => ?_
  cases s with
  | answered rc => exact Spec.pure fun w hw => .answered hw.first hw.head
  | stopped r =>
    -- where the framer stopped, nothing whole is buffered
    have stopped {w : World} (h : AtRest w.fr r) (hr : ∀ t, r ≠ .msg t) := h.buffered_nil hr
    refine Spec.bind
      (Q := fun fault w => ((Skimmed uniq serial wm ms w ∧ AtRest w.fr r) ∧ fault = faultErrno r) ∧
      ∀ t, r ≠ .msg t) ?_ fun fault => Spec.ite (fun hf => ?_) fun hf => ?_
    · intro w hw
      have h := fault_skims r (AtRest · r) w ⟨hw.1, hw.2.1⟩
      cases hx : dbsFrameFault r w with
      | waiting w' =>
        rw [hx] at h
        exact h.elim
      | done a w' =>
        rw [hx] at h
        exact ⟨h, hw.2.2⟩
    · exact (giveUp hf).mono (fun w hw => ⟨hw.1.1.1, stopped hw.1.1.2 hw.2⟩)
        (fun _ _ h => h) fun _ h => h
    · refine Spec.mono (A := fun w => Skimmed uniq serial wm ms w ∧ AtRest w.fr .needMore) ?_
        (fun w hw => ?_) (fun _ _ h => h) fun _ h => h
      · have idle {w : World} (h : AtRest w.fr .needMore) : w.buffered = [] :=
          h.buffered_nil (by simp)
        refine Spec.ite (fun _ => ?_) fun _ => Spec.ite (fun _ => ?_) fun _ =>
          receive_filters fd 0 deadline (reads + 1)
        · refine Spec.bind
            (Q := fun wait w => (Skimmed uniq serial wm ms w ∧ AtRest w.fr .needMore) ∧
            ∀ e, wait = .failed e → e < 0) ?_ fun wait => ?_
          · intro w hw
            have h :=
              FixesView.skims (waitReadable_view fd deadline) (fun f => AtRest f .needMore) w hw
            have h' := (dbsWaitReadable_moves (s := serial) (P := fun _ => True) fd deadline).spec w
              trivial
            cases hx : dbsWaitReadable fd deadline w with
            | waiting w' =>
              rw [hx] at h
              exact h
            | done wait w' =>
              rw [hx] at h h'
              exact ⟨h, h'.2⟩
          · cases wait with
            | timedOut =>
              exact (giveUp (by decide)).mono (fun w hw => ⟨hw.1.1, idle hw.1.2⟩)
                (fun _ _ h => h) fun _ h => h
            | again => exact Spec.pure fun w hw => hw.1.1
            | failed e =>
              intro w hw
              exact ioFail_gaveUp (hw.2 e rfl) w ⟨hw.1.1, idle hw.1.2⟩
            | ready =>
              exact (receive_filters fd dbusSysMsgDontwait deadline reads).mono (fun w hw => hw.1)
                (fun _ _ h => h) fun _ h => h
        · exact (giveUp (by decide)).mono (fun w hw => ⟨hw.1, idle hw.2⟩)
            (fun _ _ h => h) fun _ h => h
      · obtain ⟨⟨⟨hs, hrest⟩, rfl⟩, hr⟩ := hw
        rw [← needMore_of_fault hr hf]
        exact ⟨hs, hrest⟩

theorem await_filters (fd : Int) (deadline : Int) : Spec (Skimmed uniq serial wm ms)
    (dbsAwait fd serial wm deadline) (Filtered uniq serial wm ms) (Skimmed uniq serial wm ms) :=
  Spec.loop (I := fun _ => Skimmed uniq serial wm ms) (Q := Filtered uniq serial wm ms)
    (dbsAwait_lowers fd serial wm deadline)
    (fun reads => (awaitRound_filters fd deadline reads).mono (fun _ h => h)
    (fun r _ h => by cases r <;> exact h)
      fun _ h => h) 0

end

/-- Before anything of the stream is read again, what is buffered is older than the request. -/
theorem Skimmed.stale {uniq : Bytes} {serial wm : Nat} {ms : List (Nat × Bytes)} {w : World}
    (h : Skimmed uniq serial wm ms w) (hw : dbusFrameReceived w.fr = wm) :
    ∀ m ∈ w.buffered, heard uniq serial wm m = .other := by
  intro m hm
  have hle := buffered_stale h.good hm
  by_cases hlt : m.1 < wm
  · exact heard_stale hlt
  · -- an empty message at the end of what was received is no message
    have hnil : m.2 = [] := List.eq_nil_of_length_eq_zero (by omega)
    simp [heard, dbusSessionVerdict, dbusSessionMine, dbusUnmarshalValidate, hnil]

/-- Giving up before anything of the stream is read again. -/
theorem Skimmed.early {uniq : Bytes} {serial wm : Nat} {ms : List (Nat × Bytes)}
    {w : World} {rc : Int}
    (h : Skimmed uniq serial wm ms w) (hw : dbusFrameReceived w.fr = wm) (hneg : rc < 0) :
    Filtered uniq serial wm ms rc w :=
  .gaveUp hneg h (h.stale hw)

/-- The first look at the head, before the request is written. -/
theorem next_begins (serial : Nat) {w : World} (hg : w.fr.Good) : Spec (fun v => v = w) frameNext
    (fun r v => (Skimmed w.dbs.uniq serial (dbusFrameReceived w.fr) w.toRead v ∧ AtRest v.fr r) ∧
      dbusFrameReceived v.fr = dbusFrameReceived w.fr) fun _ => False := by
  rintro v rfl
  have h := next_skims v (⟨hg, rfl, [], rfl, by simp⟩ :
    Skimmed v.dbs.uniq serial (dbusFrameReceived v.fr) v.toRead v)
  obtain ⟨r, g, c, e, rest, pass⟩ := dbusFrameNext_passed hg.ok.off
  have run :
      frameNext v =
        .done r ({ v with fr := g }.emit (c.map Event.close ++ [Event.next r g])) := by
    simp only [frameNext, Prog.modifyGet, e]
  rw [run] at h ⊢
  refine ⟨h, ?_⟩
  show g.abs0 + g.buf.length = v.fr.abs0 + v.fr.buf.length
  rw [pass.abs0, pass.buf]

/-- A call over the messages still to be read: one on a closed connection, or of a
message that may not be sent, gives up at once. -/
theorem call_filtered (fd : Int) (serial : Nat) (w : World) (hg : w.fr.Good) :
    Spec (fun v => v = w) (dbusSessionCall fd serial)
      (Filtered w.dbs.uniq serial (dbusFrameReceived w.fr) w.toRead)
      (Skimmed w.dbs.uniq serial (dbusFrameReceived w.fr) w.toRead) := by
  let ms := w.toRead
  let skims := Skimmed w.dbs.uniq serial (dbusFrameReceived w.fr) ms
  let mark := fun f : Frame => dbusFrameReceived f = dbusFrameReceived w.fr
  have start : skims w := ⟨hg, rfl, [], rfl, by simp⟩
  have refused {rc : Int} (hneg : rc < 0) : Spec (fun v => v = w) (pure rc : M Int)
      (Filtered w.dbs.uniq serial (dbusFrameReceived w.fr) ms) skims := by
    refine Spec.pure fun v hv => ?_
    rw [hv]
    exact start.early rfl hneg
  refine Spec.bind (Q := fun _ v => v = w) (Spec.gets fun _ h => h) fun m => ?_
  refine Spec.bind (Q := fun _ v => v = w) (Spec.gets fun _ h => h) fun closed => ?_
  refine Spec.ite (fun _ => refused (by decide)) fun _ =>
    Spec.ite (fun _ => refused (by decide)) fun _ => ?_
  refine Spec.bind ((next_begins serial hg).waits fun _ h => h.elim) fun lost =>
    Spec.bind (Q := fun _ v => skims v ∧ mark v.fr) ?_ fun lf => ?_
  · exact (FixesView.skims (frameFault_view lost) mark).mono (fun v hv => ⟨hv.1.1, hv.2⟩)
      (fun _ _ h => h) fun _ h => h
  have early {rc : Int} (hneg : rc < 0) : Spec (fun v => skims v ∧ mark v.fr) (pure rc : M Int)
      (Filtered w.dbs.uniq serial (dbusFrameReceived w.fr) ms) skims :=
    Spec.pure fun v hv => hv.1.early hv.2 hneg
  refine Spec.ite (fun h => early h) fun _ =>
    Spec.bind (Q := fun wm v => (skims v ∧ mark v.fr) ∧ wm = dbusFrameReceived w.fr)
      (Spec.gets fun v hv => ⟨hv, hv.2⟩) fun wm => ?_
  intro v hv
  obtain ⟨hv, rfl⟩ := hv
  revert v
  refine fun v hv => (?_ : Spec (fun v => skims v ∧ mark v.fr) _ _ _) v hv
  refine Spec.bind (FixesView.skims nowMs_view mark) fun t0 =>
    Spec.bind (FixesView.skims Fixes.gets mark) fun timeout =>
      Spec.bind (FixesView.skims (write_view fd _ _) mark) fun n => ?_
  refine Spec.ite (fun _ => early (by decide)) fun _ =>
    Spec.ite (fun hn => Spec.ite (fun _ => ?_) fun _ => early hn) fun _ => ?_
  · refine Spec.bind (Q := fun _ v => skims v ∧ mark v.fr) (Spec.modify fun v hv => ?_) fun _ =>
      early (by decide)
    exact ⟨hv.1.view rfl, hv.2⟩
  · exact (await_filters fd _).mono (fun v hv => hv.1) (fun _ _ h => h) fun _ h => h

/-- What answers a call, and what it leaves to be read. -/
theorem firstOfOurs_some {uniq : Bytes} {serial wm : Nat} {rc : Int} {out : List (Nat × Bytes)} :
    ∀ {ms : List (Nat × Bytes)}, firstOfOurs uniq serial wm ms = some (rc, out) →
      ∃ past m rest, ms = past ++ m :: rest ∧ (∀ m ∈ past, heard uniq serial wm m = .other) ∧
        (heard uniq serial wm m = .success ∧ rc = 0 ∧ out = m :: rest ∨
          heard uniq serial wm m = .failure rc ∧ out = rest)
  | [], h => by cases h
  | m :: ms, h => by
    rw [firstOfOurs] at h
    cases hv : heard uniq serial wm m with
    | success =>
      rw [hv] at h
      cases h
      exact ⟨[], m, ms, rfl, by simp, .inl ⟨hv, rfl, rfl⟩⟩
    | failure e =>
      rw [hv] at h
      cases h
      exact ⟨[], m, _, rfl, by simp, .inr ⟨hv, rfl⟩⟩
    | other =>
      rw [hv] at h
      obtain ⟨past, m', rest, rfl, others, found⟩ := firstOfOurs_some h
      refine ⟨m :: past, m', rest, rfl, fun x hx => ?_, found⟩
      rcases List.mem_cons.mp hx with rfl | hx
      · exact hv
      · exact others x hx

/-- **A call is a filter over the message sequence.** Whatever the connection, the
message and the kernel, the messages still to be read after a call are those there
were, less some the call consumed, none of them ours. It answers what the first of
ours says, a METHOD_RETURN then being left whole at the head and an ERROR consumed;
or it gives up, and then none of what is buffered is ours. A message is ours by its
own bytes, its position and the name alone. -/
theorem call_filters (fd : Int) (serial : Nat) (w : World) (hg : w.fr.Good) :
    (∀ rc v, dbusSessionCall fd serial w = .done rc v →
      Filtered w.dbs.uniq serial (dbusFrameReceived w.fr) w.toRead rc v) ∧
    ∀ v, dbusSessionCall fd serial w = .waiting v →
      Skimmed w.dbs.uniq serial (dbusFrameReceived w.fr) w.toRead v := by
  have run := call_filtered fd serial w hg w rfl
  constructor
  · intro rc v ended
    rwa [ended] at run
  · intro v waits
    rwa [waits] at run

/-- TakeControl about to be asked; a signal comes before the reply. -/
def signalFirst : World where
  dbm := dbsTakeControlCall (lit "/s") 1
  dbs := { serial := 1 }
  k := {
    clock := List.replicate 5 {}
    send := [1000]
    poll := List.replicate 4 1
    recv := [{ ret := 16 }, { ret := 8 }, { ret := 16 }, { ret := 8 }]
    inbox := [108, 4, 0, 1, 8, 0, 0, 0, 1, 0, 0, 0, 0, 0, 0, 0, 1, 2, 3, 4, 5, 6, 7, 8] ++
      plainReply.buf }

/-- The signal is passed and the reply left to be read. -/
theorem call_filters_signal_first : (dbusSessionCall 5 1 signalFirst).value = some 0 ∧
    Filtered [] 1 0 signalFirst.toRead 0 (dbusSessionCall 5 1 signalFirst).state := by
  have answered : (dbusSessionCall 5 1 signalFirst).value = some 0 := by decide +kernel
  have good : signalFirst.fr.Good := ⟨⟨Nat.le_refl 0, Nat.zero_le _⟩, by simp [signalFirst]⟩
  exact ⟨answered, (call_filters 5 1 signalFirst good).1 _ _ (Outcome.eq_done answered)⟩

end Samvada
