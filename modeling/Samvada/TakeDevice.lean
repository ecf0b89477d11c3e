import Mathlib.Data.List.Perm.Basic
import Samvada.Attribution
import Samvada.FieldOrder
import Samvada.Untouched

/- TakeDevice, from the reply it accepts to the descriptor it hands out. What the
   reply says is read off its fields and its body; what came with it is read off
   the receives inside it. -/
namespace Samvada
open Octets Framing Resumable Resumable.Prog Relation

/-! ## What the reply says -/

/-- Word `i` of the body, if the message holds it. -/
def bodyWord (r : Nat) (p : Bytes) (i : Nat) : Option Nat :=
  if dbusUnmarshalBodyOff p + 4 * i + 4 ≤ min (dbusUnmarshalBodyOff p + dbusUnmarshalBodyLen p)
    r then
    some (load32 p (dbusUnmarshalBodyOff p + 4 * i))
  else none

/-- A body too short for its first word has no second. -/
theorem bodyWord_none {r : Nat} {p : Bytes} (h : bodyWord r p 0 = none) :
    bodyWord r p 1 = none := by
  unfold bodyWord at h ⊢
  split_ifs at h
  exact if_neg (by omega)

/-- What UNIX_FDS declares, 0 if it is absent. -/
def unixFds (fs : List Field) : Nat :=
  match firstField fs dbusMarshalFUnixfds with
  | none => 0
  | some f => load32 f.value 0

/-- The body's signature. -/
def bodySignature (fs : List Field) : Option Bytes :=
  (firstField fs dbusMarshalFSignature).map Field.value

theorem align_of_mod {n a : Nat} (ha : 0 < a) (h : n % a = 0) : align n a = n := by
  obtain ⟨k, rfl⟩ := Nat.dvd_of_mod_eq_zero h
  rw [align, Nat.add_sub_assoc ha, Nat.mul_add_div ha, Nat.div_eq_of_lt (by omega),
    Nat.add_zero, Nat.mul_comm]

theorem bodyOff_mod (p : Bytes) : dbusUnmarshalBodyOff p % 4 = 0 := by
  rw [dbusUnmarshalBodyOff, align8_eq]
  omega

/-- Reading a word where the cursor is. -/
theorem nextU32_at {c : BodyCursor} (h : c.at_ % 4 = 0) : dbusUnmarshalNextU32 c =
    if c.fin < c.at_ + 4 then (.error .malformed, c)
    else (.ok (load32 c.p c.at_), { c with at_ := c.at_ + 4 }) := by
  rw [dbusUnmarshalNextU32, align_of_mod (by decide) h]

/-- No room for a word leaves the cursor where it would read it. -/
theorem nextU32_short {c : BodyCursor} (h : c.fin < align c.at_ 4 + 4) :
    dbusUnmarshalNextU32 c = (.error .malformed, { c with at_ := align c.at_ 4 }) := if_pos h

/-- What the decoder makes of a word that may be missing. -/
def wordOr (w : Option Nat) : Except UnmarshalErr Nat := w.elim (.error .malformed) .ok

/-- What it makes of a boolean: 0 or 1. -/
def boolOr (w : Option Nat) : Except UnmarshalErr Nat :=
  w.elim (.error .malformed) fun b => if 1 < b then .error .malformed else .ok b

theorem nextBool_eq (c : BodyCursor) : (dbusUnmarshalNextBool c).1 = boolOr
    (dbusUnmarshalNextU32 c).1.toOption := by
  rw [dbusUnmarshalNextBool]
  by_cases short : c.fin < align c.at_ 4 + 4
  · rw [nextU32_short short]
    rfl
  · have word : dbusUnmarshalNextU32 c =
        (.ok (load32 c.p (align c.at_ 4)), { c with at_ := align c.at_ 4 + 4 }) := if_neg short
    rw [word]
    dsimp only [boolOr, Except.toOption, Option.elim]
    split_ifs <;> rfl

/-- The two words of a TakeDevice reply, as the cursor reads them. -/
theorem words_read {r : Nat} (p : Bytes) (hr : 0 < r) :
    (dbusUnmarshalNextFdIndex (dbusUnmarshalBodyBegin r p)).1 = wordOr (bodyWord r p 0) ∧
    (dbusUnmarshalNextBool (dbusUnmarshalNextFdIndex (dbusUnmarshalBodyBegin r p)).2).1 = boolOr
    (bodyWord r p 1) := by
  have hmod := bodyOff_mod p
  rw [dbusUnmarshalBodyBegin, if_neg (by omega), dbusUnmarshalNextFdIndex]
  generalize hoff : dbusUnmarshalBodyOff p = off at hmod
  generalize hend : min (off + dbusUnmarshalBodyLen p) r = fin
  simp only [bodyWord, hoff, hend, Nat.mul_zero, Nat.add_zero, Nat.mul_one]
  by_cases first : off + 4 ≤ fin
  · have hat : min off r = off := by omega
    rw [hat, nextU32_at (by exact hmod), if_neg (by dsimp only; omega), if_pos first, nextBool_eq,
      nextU32_at (by dsimp only; omega)]
    refine ⟨rfl, ?_⟩
    by_cases second : off + 4 + 4 ≤ fin
    · rw [if_neg (by dsimp only; omega), if_pos second]
      rfl
    · rw [if_pos (by dsimp only; omega), if_neg second]
      rfl
  · -- neither word is there, wherever the cursor was clamped to
    have short : fin < align (min off r) 4 + 4 := by
      have := le_align (min off r) (show 0 < 4 by decide)
      by_cases h : off ≤ r
      · omega
      · omega
    rw [nextU32_short (by exact short), if_neg first, if_neg (by omega), nextBool_eq,
      nextU32_short ?_]
    · exact ⟨rfl, rfl⟩
    · have := le_align (align (min off r) 4) (show 0 < 4 by decide)
      dsimp only
      omega

theorem nameIs_eq {p v : Bytes} {s : String} (hv : loadN p 0 v.length = v) :
    dbsNameIs p v.length s = decide (v = lit s) := by
  unfold dbsNameIs dbsHasPrefix
  by_cases hl : v.length = (lit s).length
  · rw [← hl, hv]
    by_cases h : v = lit s
    · simp [h]
    · simp [h]
  · have hne : v ≠ lit s := fun h => hl (congrArg List.length h)
    have : ((v.length : Int) == ((lit s).length : Int)) = false := by
      rw [beq_eq_false_iff_ne]
      omega
    rw [this, Bool.false_and]
    exact (decide_eq_false hne).symm

/-- Is the reply's signature `hb`, as the code looks it up? -/
def sigIsHb (r : Nat) (p : Bytes) : Bool :=
  match dbusUnmarshalFindField r p dbusMarshalFSignature with
  | .error _ => false
  | .ok (off, _) => match dbusUnmarshalSigAt r p off with
    | .error _ => false
    | .ok (at_, n) => dbsNameIs (p.drop at_) n "hb"

/-- What UNIX_FDS declares, as the code looks it up. -/
def declaredFds (r : Nat) (p : Bytes) : Option Nat :=
  match dbusUnmarshalFindField r p dbusMarshalFUnixfds with
  | .ok (off, _) => some (load32 p off)
  | .error .notfound => some 0
  | .error .malformed => none

theorem dbsTakeReply_eq (r : Nat) (p : Bytes) (f : Frame) : dbsTakeReply r p f =
    match (dbusUnmarshalNextFdIndex (dbusUnmarshalBodyBegin r p)).1,
      (dbusUnmarshalNextBool (dbusUnmarshalNextFdIndex (dbusUnmarshalBodyBegin r p)).2).1 with
    | .ok i, .ok inactive =>
      (if sigIsHb r p && declaredFds r p == some f.fdtot && !f.fdbad then some i else
        none, inactive)
    | .error _, .ok inactive => (none, inactive)
    | _, .error _ => (none, 0) := rfl

section
variable {r : Nat} {p : Bytes} {fs : List Field} (wf : WellFormed r p fs)
include wf

theorem WellFormed.sigIsHb : sigIsHb r p = decide (bodySignature fs = some (lit "hb")) := by
  have look := wf.lookup dbusMarshalFSignature
  unfold Samvada.sigIsHb bodySignature
  cases hf : firstField fs dbusMarshalFSignature with
  | none =>
    rw [hf] at look
    simp only at look
    rw [look]
    rfl
  | some f =>
    rw [hf] at look
    obtain ⟨vo, hfind, held⟩ := look
    have ht : f.type = 103 := wf.typed (by decide) hf
    rw [HeldAt, ht, if_neg (by decide), if_pos rfl] at held
    have text : loadN (p.drop (vo + 1)) 0 f.value.length = f.value :=
      (loadN_drop p _ _).trans held.2.1
    simp only [hfind, held.1, nameIs_eq text, Option.map_some, Option.some.injEq]

theorem WellFormed.declaredFds : declaredFds r p = some (unixFds fs) := by
  have look := wf.lookup dbusMarshalFUnixfds
  unfold Samvada.declaredFds unixFds
  cases hf : firstField fs dbusMarshalFUnixfds with
  | none =>
    rw [hf] at look
    simp only at look
    rw [look]
  | some f =>
    rw [hf] at look
    obtain ⟨vo, hfind, held⟩ := look
    have ht : f.type = 117 := wf.typed (by decide) hf
    rw [HeldAt, ht, if_neg (by decide), if_neg (by decide)] at held
    have word : load32 f.value 0 = load32 p vo := by
      rw [← held]
      exact load32_loadN (by decide)
    simp only [hfind, word]

/-- What TakeDevice makes of a reply, on its fields and its body. -/
theorem WellFormed.takeReply (f : Frame) : dbsTakeReply r p f = match bodyWord r p 0,
    bodyWord r p 1 with
    | some i, some b =>
      if 1 < b then (none, 0)
      else (if bodySignature fs = some (lit "hb") ∧ unixFds fs = f.fdtot ∧ f.fdbad = false then some
        i else none, b)
    | _, _ => (none, 0) := by
  obtain ⟨first, second⟩ := words_read p (show 0 < r by have := wf.header; omega)
  rw [dbsTakeReply_eq, wf.sigIsHb, wf.declaredFds, first, second]
  cases h0 : bodyWord r p 0 with
  | none =>
    rw [bodyWord_none h0]
    rfl
  | some i =>
    cases bodyWord r p 1 with
    | none => rfl
    | some b =>
      dsimp only [wordOr, boolOr, Option.elim]
      by_cases hb : 1 < b
      · simp only [hb, if_true]
      · simp [hb, and_assoc]

end

/-! ## Descriptors past the eighth -/

def Event.closed : Event → Option Int
  | .close fd => some fd
  | _ => none

/-- The descriptors closed, in order. -/
def closesOf (es : List Event) : List Int := es.filterMap Event.closed

@[simp] theorem closesOf_append (es es' : List Event) : closesOf (es ++ es') = closesOf es ++
    closesOf es' := List.filterMap_append

@[simp] theorem closesOf_closes (fds : List Int) : closesOf (fds.map Event.close) = fds := by
  induction fds with
  | nil => rfl
  | cons fd fds ih => exact congrArg (fd :: ·) ih

theorem closesOf_quiet {es : List Event} (h : ∀ e ∈ es, e.quiet = true) : closesOf es = [] := by
  refine List.filterMap_eq_nil_iff.mpr fun e he => ?_
  have := h e he
  cases e <;> first | rfl | cases this

/-- The descriptors that arrived on stdio. -/
def onStdio (as : List Arrival) : List Int := (as.flatMap (·.sent)).filter (· ≤ 2)

/-- Of the descriptors of the receives `as`, those past the eighth and those that
arrived on stdio have been closed. -/
structure Closes (es : List Event) (as : List Arrival) : Prop where
  excess : ((survivors (as.map Arrival.toDelivery)).drop 8).Sublist (closesOf es)
  stdio : (onStdio as).Sublist (closesOf es)

/-- The accounts of attribution, and what they leave out: what has been closed since
the first receive inside the head message. -/
structure Shed (start : Nat) (f : Frame) (es : List Event) : Prop where
  tracked : Tracked f es
  sourced : Sourced start f es
  shed : f.skip = 0 → ∃ es₁ es₂ as, es = es₁ ++ es₂ ∧ (∀ e ∈ es₂.head?, e.isRecv = true) ∧
    arrivals (start + (inbound es₁).length) es₂ = as ∧
    as.map Arrival.toDelivery = deliveries es₂ ∧
    deliveries es₂ = (deliveries es).filter (dbusFramePos f ≤ ·.pos) ∧ Closes es₂ as

theorem Shed.fresh {start : Nat} {f : Frame} {es : List Event} (h : Tracked f es)
    (hs : Sourced start f es)
    (hd : f.skip = 0 → (deliveries es).filter (dbusFramePos f ≤ ·.pos) = []) : Shed start f es :=
  ⟨h, hs, fun h0 => ⟨es, [], [], (List.append_nil es).symm, by simp, rfl, rfl, (hd h0).symm,
    List.nil_sublist _, List.nil_sublist _⟩⟩

/-- Nothing is delivered, and the head either stays or moves past all there was. -/
theorem Shed.same {start : Nat} {f g : Frame} {es es' : List Event} (h : Shed start f es)
    (ht : Tracked g (es ++ es')) (hs : Sourced start g (es ++ es')) (still : Still es')
    (hpos : g.skip = 0 → f.skip = 0 ∧ dbusFramePos g = dbusFramePos f ∨
      dbusFrameReach f ≤ dbusFramePos g) : Shed start g (es ++ es') := by
  have none : deliveries (es ++ es') = deliveries es := by
    rw [deliveries_append, still.accounted, List.append_nil]
  by_cases h0 : g.skip = 0
  · rcases hpos h0 with ⟨hf, hp⟩ | hp
    · obtain ⟨es₁, es₂, as, rfl, hh, harr, hmap, hds, closes⟩ := h.shed hf
      refine ⟨ht, hs, fun _ => ?_⟩
      rw [none, hp]
      cases es₂ with
      | nil =>
        exact ⟨es₁ ++ es', [], [], by simp, by simp, rfl, rfl, hds, List.nil_sublist _,
          List.nil_sublist _⟩
      | cons e es₂ =>
        refine ⟨es₁, e :: es₂ ++ es', as, by simp, hh, ?_, ?_, ?_, ?_, ?_⟩
        · rw [arrivals_append still.settled, harr, still.arrived, List.append_nil]
        · rw [deliveries_append, still.accounted, List.append_nil, hmap]
        · rw [deliveries_append, still.accounted, List.append_nil, hds]
        · rw [closesOf_append]
          exact closes.excess.trans (List.sublist_append_left _ _)
        · rw [closesOf_append]
          exact closes.stdio.trans (List.sublist_append_left _ _)
    · exact .fresh ht hs fun _ => none.symm ▸ h.tracked.past_reach hp
  · exact ⟨ht, hs, fun h => absurd h h0⟩

theorem push_sheds {f : Frame} {L X : List Int} (fd : Int) (hs : f.skip = 0) (hq : f.fdq = L.take 8)
    (hx : (L.drop 8).Sublist X) : ((L ++ [fd].filter (0 ≤ ·)).drop 8).Sublist
    (X ++ closesOf (pushEvents f fd)) := by
  have hlen : f.fdq.length = min 8 L.length := by rw [hq, List.length_take]
  by_cases hneg : fd < 0
  · have none : [fd].filter (0 ≤ ·) = [] := by
      have : ¬ 0 ≤ fd := by omega
      simp [this]
    rw [none, List.append_nil]
    exact hx.trans (List.sublist_append_left _ _)
  have keep : [fd].filter (0 ≤ ·) = [fd] := by
    have : 0 ≤ fd := by omega
    simp [this]
  rw [keep]
  by_cases hfull : dbusFrameFdqCap ≤ f.fdq.length
  · -- the queue is full, so the descriptor is closed
    have full : dbusFramePushFd f fd = ({ f with fdtot := f.fdtot + 1 }, [fd]) := by
      rw [dbusFramePushFd, if_neg hneg, if_neg (by omega), if_pos hfull]
    have closed : closesOf (pushEvents f fd) = [fd] := by
      rw [pushEvents, full, if_neg (lt_irrefl _)]
      rfl
    simp only [dbusFrameFdqCap] at hfull
    rw [closed, List.drop_append_of_le_length (by omega)]
    exact hx.append (List.Sublist.refl [fd])
  · simp only [dbusFrameFdqCap] at hfull
    rw [List.drop_eq_nil_of_le (by simp only [List.length_append, List.length_singleton]; omega)]
    exact List.nil_sublist _

theorem Queued.sheds {f g : Frame} {fds moved : List Int} {es : List Event}
    (h : Queued f fds moved es g) (hs : f.skip = 0) {L X : List Int} (hq : f.fdq = L.take 8)
    (ht : f.fdtot = L.length) (hx : (L.drop 8).Sublist X) :
    ((L ++ moved.filter (0 ≤ ·)).drop 8).Sublist (X ++ closesOf es) := by
  induction h generalizing L X with
  | nil f => simpa [closesOf] using hx
  | @keep f g fd rest moved es hfd hrest ih =>
    obtain ⟨h1, h2⟩ := push_holds fd hs hq ht
    have := ih ((push_same f fd).2.2.trans hs) h1 h2 (push_sheds fd hs hq hx)
    rwa [List.append_assoc, ← List.filter_append, List.append_assoc, ← closesOf_append] at this
  | @move f g fd nfd rest moved es hfd hrest ih =>
    obtain ⟨h1, h2⟩ := push_holds nfd hs hq ht
    have := ih ((push_same f nfd).2.2.trans hs) h1 h2 (push_sheds nfd hs hq hx)
    rw [List.append_assoc, ← List.filter_append, List.append_assoc, ← closesOf_append] at this
    refine this.trans ((List.Sublist.refl X).append ?_)
    rw [List.append_assoc, closesOf_append [Event.dupfd fd nfd, Event.close fd]]
    exact List.sublist_append_right _ _

/-- What arrived on stdio is closed as it is moved. -/
theorem Queued.stdio {f g : Frame} {fds moved : List Int} {es : List Event}
    (h : Queued f fds moved es g) : (fds.filter (· ≤ 2)).Sublist (closesOf es) := by
  induction h with
  | nil f => exact List.nil_sublist _
  | @keep f g fd rest moved es hfd hrest ih =>
    have none : ¬ fd ≤ 2 := by omega
    rw [List.filter_cons, if_neg (by simpa using none), closesOf_append]
    exact ih.trans (List.sublist_append_right _ _)
  | @move f g fd nfd rest moved es hfd hrest ih =>
    rw [List.filter_cons, if_pos (by simpa using hfd), closesOf_append, closesOf_append]
    exact ((List.Sublist.refl [fd]).append ih).trans
      ((List.sublist_append_left _ _).append (List.Sublist.refl _))

theorem Step.shed {s start : Nat} {w w' : World} {es : List Event} (hstep : Step s w w')
    (h : Shed start w.fr es) : ∃ es', w'.trace = w.trace ++ es' ∧ Shed start w'.fr (es ++ es') := by
  obtain ⟨es', ht, tracked⟩ := hstep.tracked h.tracked
  obtain ⟨es'', ht', sourced⟩ := hstep.sourced h.sourced
  obtain rfl : es'' = es' := List.append_cancel_left (ht'.symm.trans ht)
  refine ⟨es'', ht, ?_⟩
  have news {l : List Event} (h : w'.trace = w.trace ++ l) : es'' = l :=
    List.append_cancel_left (ht.symm.trans h)
  have calm {l : List Event} (h : w'.trace = w.trace ++ l) (hc : ∀ e ∈ l, e.calm = true) :
      Still es'' := news h ▸ calm_still hc
  have stays {g : Frame} (hc : dbusFrameCursor g = dbusFrameCursor w.fr) : g.skip = 0 →
      w.fr.skip = 0 ∧ dbusFramePos g = dbusFramePos w.fr ∨
      dbusFrameReach w.fr ≤ dbusFramePos g := by
    have hs : g.skip = w.fr.skip := congrArg Cursor.skip hc
    have hp : dbusFramePos g = dbusFramePos w.fr := congrArg Cursor.pos hc
    exact fun h0 => .inl ⟨hs ▸ h0, hp⟩
  -- consuming the head message of `g`, which is the head of `w` but for descriptors claimed
  have consumed {g : Frame} {r : Nat} (rest : AtRest w.fr (.msg r)) (hg : g.Good)
    (hc : dbusFrameCursor g = dbusFrameCursor w.fr)
      (he : g.eof = w.fr.eof) : dbusFrameReach w.fr ≤ dbusFramePos (dbusFrameAdvance g r).1 := by
    have rest' : AtRest g (.msg r) := rest.congr hc he
    obtain ⟨hs, hm, hcap, hl⟩ := rest'.whole_inv
    have hreach := reach_total hs ((messageTotal_ge hm).trans hl) hm
    rw [reach_congr hc] at hreach
    rw [hreach, rest'.advance hg.ok.off]
    show g.abs0 + g.off + r ≤ g.abs0 + (g.off + r)
    omega
  cases hstep with
  | quiet hq =>
    exact h.same tracked sourced (calm hq.trace (offers_calm hq.offers)) (stays (by rw [hq.fr]))
  | lost =>
    exact h.same tracked sourced (calm (List.append_nil _).symm (by simp)) (stays rfl)
  | @next r g c rest pass =>
    refine h.same tracked sourced (calm rfl (yield_calm c r g)) fun h0 => ?_
    have h0 : g.skip = 0 := h0
    rcases pass.fds with ⟨-, -, -, -, rfl | ⟨hf, hs⟩⟩ | ⟨-, -, -, -, hreach⟩
    · exact .inl ⟨h0, rfl⟩
    · omega
    · exact .inr (hreach h0)
  | @advance r rest =>
    exact h.same tracked sourced (calm rfl (advanceEvents_calm w.fr r)) fun _ =>
      .inr (consumed rest h.tracked.good rfl rfl)
  | answered rest hv =>
    exact h.same tracked sourced (calm rfl (by simp [Event.calm])) (stays rfl)
  | prepare hp =>
    exact h.same tracked sourced (calm (List.append_nil _).symm (by simp)) (stays hp.cursor)
  | eof => exact h.same tracked sourced (calm (List.append_nil _).symm (by simp)) (stays rfl)
  | @recvNone w' fd n want flags anc trunc hn hfr hdbm hdbs hin htr =>
    obtain ⟨fds, still, -, closes⟩ := recvNone_still fd want flags n anc trunc
    rw [closes] at htr
    exact h.same tracked sourced (news htr ▸ still) (stays (by rw [hfr]))
  | @receive w' fd want flags d anc trunc moved qs g rest hd hwithin hroom hin hq hfr
      hdbm hdbs htr =>
    have lands := hq.lands hd fd d.length want flags (dbusFrameReceived w.fr) trunc
    have here : ∀ e ∈ es''.head?, e.isRecv = true := by
      rw [news htr]
      rintro e ⟨⟩
      rfl
    have shut : ((dbusSysParseRights (anc.bytes.take 1032)).2 ++ closesOf qs).Sublist
        (closesOf es'') := by
      rw [news htr, ← List.singleton_append, closesOf_append, closesOf_append, closesOf_append,
        closesOf_closes]
      exact (List.sublist_append_left _ _).trans (List.sublist_append_right _ _)
    rw [← news htr] at lands
    have accounted := lands.accounted
    have arrived := lands.arrived (dbusFrameReceived w.fr)
    generalize hnew : (⟨dbusFrameReceived w.fr, d.length, moved, trunc⟩ : Delivery) = new
      at accounted arrived
    obtain ⟨hcur, -, hskip, -⟩ := hq.same
    obtain ⟨g', e, hcur', hgood', -, -, -, -⟩ :=
      incomplete_same trunc (hq.good (commit_good h.tracked.good hroom))
    rw [hfr, e] at tracked sourced ⊢
    have hs : g'.skip = w.fr.skip := (congrArg Cursor.skip hcur').trans hskip
    have hpos : dbusFramePos g' = dbusFramePos w.fr := congrArg Cursor.pos (hcur'.trans hcur)
    refine ⟨tracked, sourced, fun h0 => ?_⟩
    have hf0 : w.fr.skip = 0 := hs ▸ h0
    have hat : dbusFramePos w.fr ≤ new.pos := by
      rw [← hnew]
      show dbusFramePos w.fr ≤ dbusFrameReceived w.fr
      rw [received_eq h.tracked.good.ok.off]
      omega
    have hfilter : (deliveries (es ++ es'')).filter (dbusFramePos g' ≤ ·.pos) =
        (deliveries es).filter (dbusFramePos w.fr ≤ ·.pos) ++ [new] := by
      rw [deliveries_append, accounted, hpos, List.filter_append]
      simp [hat]
    have hold := h.tracked.head hf0
    obtain ⟨es₁, es₂, as, split, hh, harr, hmap, hds, closes⟩ := h.shed hf0
    rw [← hds] at hold hfilter
    rw [h.sourced.count] at arrived
    have shed : Closes (es₂ ++ es'') (as ++ [⟨new, anc.carried⟩]) := by
      have all : (as ++ [(⟨new, anc.carried⟩ : Arrival)]).map Arrival.toDelivery =
          deliveries es₂ ++ [new] := by
        rw [List.map_append, hmap]
        rfl
      have more : survivors (deliveries es₂ ++ [new]) =
          survivors (deliveries es₂) ++ moved.filter (0 ≤ ·) := by
        rw [← hnew]
        simp [survivors]
      have more' : onStdio (as ++ [⟨new, anc.carried⟩]) =
          onStdio as ++ anc.carried.filter (· ≤ 2) := by
        simp [onStdio]
      refine ⟨?_, ?_⟩
      · rw [all, more, closesOf_append]
        exact (hq.sheds hf0 hold.fdq hold.fdtot (hmap ▸ closes.excess)).trans
          ((List.Sublist.refl _).append ((List.sublist_append_right _ _).trans shut))
      · rw [more', closesOf_append, ← anc.collects]
        exact closes.stdio.append (hq.stdio.trans ((List.sublist_append_right _ _).trans shut))
    rw [hfilter]
    cases hnil : es₂ with
    | nil =>
      -- the first receive inside the message
      subst hnil
      rw [show as = [] from harr.symm] at shed
      exact ⟨es, es'', _, rfl, here, arrived, by rw [accounted]; rfl, accounted, shed⟩
    | cons x xs =>
      rw [hnil] at split hh harr hmap shed
      refine ⟨es₁, x :: xs ++ es'', _, by rw [split, List.append_assoc], hh, ?_, ?_, ?_, shed⟩
      · rw [arrivals_append lands.settled, harr, Nat.add_assoc, ← List.length_append,
          ← inbound_append, ← split, arrived]
      · rw [List.map_append, hmap, deliveries_append, accounted]
        rfl
      · rw [deliveries_append, accounted]
  | @take w₁ w' r i fd g qs ok rest hc h0 hq he =>
    obtain ⟨hg, hcur, heof, -⟩ := claim_good hc h.tracked.good
    have still := calm (take_trace hq he) (taken_calm hq.offers r fd ok)
    refine h.same tracked sourced still fun _ => .inr ?_
    rw [he, emit_fr]
    exact consumed rest hg hcur heof

/-! ## The reply a call accepts -/

/-- The message at the head is a METHOD_RETURN to the call with this serial. -/
def Accepted (serial : Nat) (w : World) : Prop := ∃ r wm, AtRest w.fr (.msg r) ∧
  dbusSessionVerdict w.dbs.uniq serial wm (dbusFramePos w.fr) r (dbusFrameBase w.fr) = .success

theorem scan_accepted (serial wm : Nat) : Spec (fun w => w.fr.Good) (dbsScan serial wm)
    (fun s w => match s with
      | .answered rc => rc = 0 → Accepted serial w
      | .stopped r => w.fr.Good ∧ AtRest w.fr r ∧ ∀ t, r ≠ .msg t) fun _ => True := by
  refine Spec.loop (I := fun _ w => w.fr.Good) (W := fun _ => True) (dbsScan_lowers serial wm)
    (fun _ => ?_) ()
  refine Spec.bind (frameNext_moves (s := serial)).spec fun r => ?_
  cases r with
  | msg t =>
    refine Spec.bind (Q := fun v w => (w.fr.Good ∧ AtRest w.fr (.msg t)) ∧ dbusSessionVerdict
      w.dbs.uniq serial wm (dbusFramePos w.fr) t (dbusFrameBase w.fr) = v) ?_ fun v =>
      Spec.gets_bind fun pos => ?_
    · exact (decode_moves serial
        (fun w d => Decode.verdict_eq w.dbs.uniq serial wm (dbusFramePos w.fr) t
        (dbusFrameBase w.fr) d) fun w d h => ⟨h, rfl⟩).spec
    cases v with
    | success =>
      refine Spec.bind (Q := fun _ w => Accepted serial w) (Spec.modify fun w hw => ?_) fun _ =>
        Spec.pure fun w hw _ => hw
      exact ⟨t, wm, hw.1.1.2, hw.1.2⟩
    | failure rc =>
      by_cases h0 : rc < 0
      · refine Spec.bind (Q := fun _ w => w.fr.Good ∧ AtRest w.fr (.msg t))
          (Spec.modify fun w hw => hw.1.1) fun _ =>
          Spec.bind (frameAdvance_moves (s := serial) t).spec fun _ => Spec.pure fun w hw h => ?_
        omega
      · intro w hw
        exact absurd (verdict_failure hw.1.2) h0
    | other =>
      refine Spec.bind (Q := fun _ w => w.fr.Good) ?_ fun _ => Spec.pure fun w hw => hw
      exact (frameAdvance_moves (s := serial) t).spec.mono (fun w hw => hw.1.1)
        (fun _ _ h => h) fun _ h => h
  | _ => exact Spec.pure fun w hw => ⟨hw.1, hw.2, by simp⟩

/-- A round of a call goes on with a good framer, or has failed. -/
def Failing {β : Type} (r : β ⊕ Int) (w : World) : Prop := match r with
  | .inl _ => w.fr.Good
  | .inr rc => rc < 0

theorem ioFail_neg {P : Frame → Prop} {e : Int} (he : e < 0) : Spec (fun w => P w.fr) (dbsIoFail e)
    (fun rc _ => rc < 0) fun _ => True :=
  (dbsIoFail_moves (s := 0) e).spec.mono (fun _ h => h) (fun _ _ h => h.2 he) fun _ h => h

theorem receive_failing (fd : Int) (flags : Nat) (deadline : Int) (reads : Nat) :
    Spec (fun w => w.fr.Good ∧ AtRest w.fr .needMore) (dbsReceive fd flags deadline reads) Failing
    fun _ => True := by
  refine Spec.bind (dbsRecv_moves (s := 0) fd flags).spec fun got =>
    Spec.ite (fun _ => Spec.pure fun _ h => h) fun _ =>
    Spec.ite (fun _ => Spec.ite (fun _ => Spec.pure fun _ h => h) fun _ => Spec.pure fun _ _ => ?_)
      fun _ =>
      Spec.ite (fun hneg => Spec.map (ioFail_neg hneg)) fun _ => Spec.pure fun _ h => h
  show (-110 : Int) < 0
  decide

/-- A round of a call after a scan that stopped. -/
def roundAfter (fd deadline : Int) (reads : Nat) (r : FrameStatus) : M (Nat ⊕ Int) := do
  let fault ← dbsFrameFault r
  if fault < 0 then pure (.inr fault)
  else if 0 < deadline then do
    match ← dbsWaitReadable fd deadline with
    | .timedOut => pure (.inr (-110))
    | .again => pure (.inl reads)
    | .failed e => .inr <$> dbsIoFail e
    | .ready => dbsReceive fd dbusSysMsgDontwait deadline reads
  else if dbusSessionReadBackstop < reads + 1 then pure (.inr (-110))
  else dbsReceive fd 0 deadline (reads + 1)

theorem await_accepted (fd : Int) (serial wm : Nat) (deadline : Int) : Spec (fun w => w.fr.Good)
    (dbsAwait fd serial wm deadline) (fun rc w => rc = 0 → Accepted serial w) fun _ => True := by
  refine Spec.loop (I := fun _ w => w.fr.Good) (dbsAwait_lowers fd serial wm deadline)
    (fun reads => ?_) 0
  have fail {P : World → Prop} {rc : Int} (h : rc < 0) : Spec P (pure (.inr rc) : M (Nat ⊕ Int))
    Failing fun _ => True :=
    Spec.pure fun _ _ => h
  -- what follows a scan that stopped only fails or goes on
  have rest (r : FrameStatus) (hr : ∀ t, r ≠ .msg t) : Spec (fun w => w.fr.Good ∧ AtRest w.fr r)
      (roundAfter fd deadline reads r) Failing fun _ => True := by
    refine Spec.bind (dbsFrameFault_moves (s := 0) (P := fun f => f.Good ∧ AtRest f r) r).spec
      fun fault =>
      Spec.ite (fun h => fail h) fun h => ?_
    refine Spec.mono (A := fun w => w.fr.Good ∧ AtRest w.fr .needMore) ?_ (fun w hw => ?_)
      (fun _ _ h => h) fun _ h => h
    · refine Spec.ite (fun _ => ?_) fun _ => Spec.ite (fun _ => fail (by decide)) fun _ =>
        receive_failing fd 0 deadline _
      refine Spec.bind (dbsWaitReadable_moves (s := 0) (P := fun f => f.Good ∧ AtRest f .needMore)
        fd deadline).spec fun wait => ?_
      cases wait with
      | timedOut => exact fail (by decide)
      | again => exact Spec.pure fun w hw => hw.1.1
      | failed e => exact fun w hw => Spec.map (ioFail_neg (P := Frame.Good) (hw.2 e rfl)) w hw.1.1
      | ready =>
        exact (receive_failing fd _ deadline reads).mono (fun w hw => hw.1)
          (fun _ _ h => h) fun _ h => h
    · rcases hw.2 h with rfl | ⟨t, rfl⟩
      · exact hw.1
      · exact absurd rfl (hr t)
  refine Spec.bind (scan_accepted serial wm) fun s => ?_
  cases s with
  | answered rc => exact Spec.pure fun w hw => hw
  | stopped r =>
    intro w hw
    refine (rest r hw.2.2).mono (fun _ h => h) (fun r w h => ?_) (fun _ h => h) w ⟨hw.1, hw.2.1⟩
    cases r with
    | inl n => exact h
    | inr rc =>
      intro h0
      have : rc < 0 := h
      omega

theorem write_good (fd : Int) (buf : Bytes) (deadline : Int) :
    Spec (fun w => w.fr.Good) (dbsWrite fd buf deadline) (fun _ w => w.fr.Good) fun _ => True := by
  intro w hw
  have h := dbsWrite_spec fd buf deadline w w rfl
  cases hx : dbsWrite fd buf deadline w with
  | waiting w' => trivial
  | done n w' =>
    rw [hx] at h
    cases h with
    | all hs => exact (congrArg Frame.Good hs.fr).mpr hw
    | stopped hs _ => exact (congrArg Frame.Good hs.fr).mpr hw

theorem call_accepted (fd : Int) (serial : Nat) :
    Spec (fun w => w.fr.Good) (dbusSessionCall fd serial) (fun rc w => rc = 0 → Accepted serial w)
    fun _ => True := by
  have fail {P : World → Prop} {rc : Int} (h : rc ≠ 0) :
      Spec P (pure rc : M Int) (fun rc w => rc = 0 → Accepted serial w) fun _ => True :=
    Spec.pure fun _ _ h0 => absurd h0 h
  refine Spec.gets_bind fun m => Spec.gets_bind fun closed =>
    Spec.ite (fun _ => fail (by decide)) fun _ =>
    Spec.ite (fun _ => fail (by decide)) fun _ => ?_
  refine Spec.bind (Q := fun _ w => w.fr.Good)
    ((frameNext_moves (s := 0)).spec.mono (fun _ h => h.1.1) (fun _ _ h => h.1)
    fun _ h => h) fun lost => ?_
  refine Spec.bind (dbsFrameFault_moves (s := 0) (P := Frame.Good) lost).spec fun lf =>
    Spec.ite (fun h => fail (by omega)) fun _ => ?_
  refine Spec.gets_bind fun wm => Spec.bind (Q := fun _ w => w.fr.Good) ?_ fun t0 =>
    Spec.gets_bind fun timeout => ?_
  · exact (nowMs_rests.moves 0 Frame.Good).spec.mono (fun _ h => h.1.1) (fun _ _ h => h) fun _ h =>
      h
  refine Spec.bind (Q := fun _ w => w.fr.Good)
    ((write_good fd m.buf _).mono (fun _ h => h.1) (fun _ _ h => h) fun _ h => h)
    fun n => Spec.ite (fun _ => fail (by decide)) fun _ => Spec.ite (fun hn => ?_) fun _ =>
    await_accepted fd serial wm _
  exact (ioFail_neg (P := Frame.Good) hn).mono (fun _ h => h) (fun rc _ h h0 => by omega) fun _ h =>
    h

/-! ## What follows the reply -/

/-- What the kernel answers of a descriptor next: it is the character device
`(major, minor)`, open read-write. -/
def Kernel.isDevice (k : Kernel) (major minor : Int) : Prop :=
  (0 ≤ k.fcntl.headD (-9) ∧ k.fcntl.headD (-9) % 4 = 2) ∧
  (0 ≤ (k.statx.headD { rc := -9 }).rc ∧ (k.statx.headD { rc := -9 }).mode / 4096 % 16 = 2) ∧
  ((k.statx.headD { rc := -9 }).rdevMajor : Int) = major ∧
    ((k.statx.headD { rc := -9 }).rdevMinor : Int) = minor

/-- A look at a descriptor. -/
def Event.looks : Event → Bool
  | .getfl _ _ => true
  | .statx _ _ => true
  | _ => false

/-- Both looks at `fd`, with what the kernel answers. -/
def Kernel.looks (k : Kernel) (fd : Int) : List Event :=
  [.getfl fd (k.fcntl.headD (-9)), .statx fd (k.statx.headD { rc := -9 })]

/-- The device check asks about its descriptor, and both questions if it passes. -/
theorem fdIsDevice_run {w : World} (hs : Scratch.stx ∈ w.scratch) (fd major minor : Int) :
    ∃ ok w' qs, dbusSessionFdIsDevice fd major minor w = .done ok w' ∧ Unmoved w w' qs ∧
    qs <+: w.k.looks fd ∧ (ok = true → qs = w.k.looks fd) ∧
    (ok = true ↔ w.k.isDevice major minor) := by
  obtain ⟨ok, w', run⟩ := fdIsDevice_ends fd major minor w
  obtain ⟨qs, hq⟩ := fdIsDevice_rests fd major minor w
  rw [run, Outcome.state_done] at hq
  refine ⟨ok, w', qs, run, hq, ?_⟩
  have allocated : ¬ (decide (Scratch.stx ∈ w.scratch) = false) := by simp [hs]
  have getfl : sysGetfl fd w = .done (w.k.fcntl.headD (-9))
    ({ w with k := { w.k with fcntl := w.k.fcntl.tail } }.emit
      [.getfl fd (w.k.fcntl.headD (-9))]) := rfl
  unfold dbusSessionFdIsDevice at run
  rw [bind_done (gets_run _ _), if_neg allocated, bind_done getfl] at run
  have out {b : Bool} {w₁ : World} {es : List Event} (h : (pure b : M Bool) w₁ = .done ok w')
      (ht : w₁.trace = w.trace ++ es) : ok = b ∧ qs = es := by
    cases h
    exact ⟨rfl, List.append_cancel_left (hq.trace.symm.trans ht)⟩
  have refused {w₁ : World} {es : List Event} (h : (pure false : M Bool) w₁ = .done ok w')
      (ht : w₁.trace = w.trace ++ es) (hes : es <+: w.k.looks fd)
      (hn : ¬ w.k.isDevice major minor) : qs <+: w.k.looks fd ∧
      (ok = true → qs = w.k.looks fd) ∧ (ok = true ↔ w.k.isDevice major minor) := by
    obtain ⟨rfl, rfl⟩ := out h ht
    exact ⟨hes, fun h => (by cases h), fun h => (by cases h), fun h => absurd h hn⟩
  by_cases h1 : w.k.fcntl.headD (-9) < 0
  · rw [if_pos h1] at run
    exact refused run rfl ⟨_, rfl⟩ fun h => absurd h.1.1 (by omega)
  rw [if_neg h1] at run
  by_cases h2 : w.k.fcntl.headD (-9) % 4 ≠ 2
  · rw [if_pos h2] at run
    exact refused run rfl ⟨_, rfl⟩ fun h => h2 h.1.2
  rw [if_neg h2] at run
  generalize hw₁ : { w with k := { w.k with fcntl := w.k.fcntl.tail } }.emit
    [.getfl fd (w.k.fcntl.headD (-9))] = w₁ at run
  have same : w₁.k.statx = w.k.statx := by rw [← hw₁]; rfl
  have statx : sysStatx fd w₁ = .done (w.k.statx.headD { rc := -9 })
    ({ w₁ with k := { w₁.k with statx := w₁.k.statx.tail } }.emit
      [.statx fd (w.k.statx.headD { rc := -9 })]) := by rw [← same]; rfl
  have both : ({ w₁ with k := { w₁.k with statx := w₁.k.statx.tail } }.emit
      [.statx fd (w.k.statx.headD { rc := -9 })]).trace = w.trace ++ w.k.looks fd := by
    rw [← hw₁]
    exact List.append_assoc _ _ _
  rw [bind_done statx] at run
  by_cases h3 : (w.k.statx.headD { rc := -9 }).rc < 0
  · rw [if_pos h3] at run
    exact refused run both List.prefix_rfl fun h => absurd h.2.1.1 (by omega)
  rw [if_neg h3] at run
  by_cases h4 : (w.k.statx.headD { rc := -9 }).mode / 4096 % 16 ≠ 2
  · rw [if_pos h4] at run
    exact refused run both List.prefix_rfl fun h => h4 h.2.1.2
  rw [if_neg h4] at run
  obtain ⟨hok, rfl⟩ := out run both
  rw [hok, Bool.and_eq_true, decide_eq_true_eq, decide_eq_true_eq]
  exact ⟨List.prefix_rfl, fun _ => rfl,
    fun h => ⟨⟨by omega, by omega⟩, ⟨by omega, by omega⟩, h⟩, fun h => h.2.2⟩

theorem claim_eq {f : Frame} (i : Nat) : dbusFrameClaimFd f i = match f.fdq[i]? with
    | some fd => (fd, { f with fdq := f.fdq.eraseIdx i })
    | none => (-1, f) := by
  unfold dbusFrameClaimFd
  rw [if_neg (by omega)]
  by_cases h : i < f.fdq.length
  · rw [if_neg (by omega), List.getElem?_eq_getElem h, Int.toNat_natCast,
      List.getD_eq_getElem _ _ h]
  · rw [if_pos (by omega), List.getElem?_eq_none (by omega)]

/-- How TakeDevice ends on the reply of `r` bytes at the head of `w`, which names
the descriptor `index`: the frame is consumed either way. -/
structure TakeEnd (w : World) (r : Nat) (closed : List Int) (w' : World) : Prop where
  frame : w'.fr = (dbusFrameAdvance w.fr r).1
  trace : ∃ es, w'.trace = w.trace ++ es ∧ (closesOf es).Perm closed

/-- Taking the next serial and building the request. -/
theorem asks_run {α : Type} (request : Nat → Marshal) (body : Nat → M α) (w : World) : (do
      let serial ← dbusSessionNextSerial
      setMarshal (request serial)
      body serial : M α) w =
    body (dbusSessionWrapSerial (w.dbs.serial + 1))
      (w.asking (dbusSessionWrapSerial (w.dbs.serial + 1))
      (request (dbusSessionWrapSerial (w.dbs.serial + 1)))) := rfl

theorem takeDevice_eq {bus major minor : Int} {sess : Option Bytes} {w w₁ w₂ : World} {rc : Int}
    (hrc : ¬ rc < 0)
    (hargs : (BusOp.takeDevice sess major minor).accepts = true)
    (halloc : allocOnce .stx w = .done true w₁)
    (hcall : dbusSessionCall bus (BusOp.serial w₁ (.takeDevice sess major minor))
      (w₁.asking (BusOp.serial w₁ (.takeDevice sess major minor))
        ((BusOp.takeDevice sess major minor).request
        (BusOp.serial w₁ (.takeDevice sess major minor)))) = .done rc w₂) :
    dbusNativeTakeDevice bus sess major minor w = takeTail major minor w₂ := by
  simp only [BusOp.accepts, Bool.and_eq_true] at hargs
  obtain ⟨⟨hs, hM⟩, hm⟩ := hargs
  unfold dbusNativeTakeDevice
  rw [bind_done halloc, if_pos rfl, if_neg (by rw [hs]; decide), if_neg (by rw [hM]; decide),
    if_neg (by rw [hm]; decide)]
  refine (asks_run (fun s => dbsDeviceCall "TakeDevice" (sess.getD []) major minor s) (fun s => do
    let rc ← dbusSessionCall bus s
    if rc < 0 then pure (rc, none) else takeTail major minor) w₁).trans ?_
  refine (bind_done hcall).trans ?_
  rw [if_neg hrc]

theorem advance_closesOf {f : Frame} {r : Nat} (hf : f.Good) (rest : AtRest f (.msg r)) :
    closesOf (advanceEvents f r) = f.fdq := by
  have all : f.fdq.filter (0 ≤ ·) = f.fdq :=
    List.filter_eq_self.mpr fun fd hfd => by simpa using hf.fds fd hfd
  have e : advanceEvents f r = [Event.advanced (dbusFramePos f) r] ++ f.fdq.map Event.close := by
    rw [advanceEvents, rest.advance hf.ok.off, all]
    rfl
  rw [e, closesOf_append, closesOf_closes]
  rfl

/-- What was asked about descriptors between `w` and `w'`, and answered. -/
def looked (w w' : World) : List Event := (w'.trace.drop w.trace.length).filter Event.looks

theorem looked_eq {w w' : World} {es : List Event} (h : w'.trace = w.trace ++ es) :
    looked w w' = es.filter Event.looks := by
  rw [looked, h, List.drop_left]

theorem advance_looks (f : Frame) (r : Nat) : (advanceEvents f r).filter Event.looks = [] := by
  refine List.filter_eq_nil_iff.mpr fun e he => ?_
  rcases List.mem_cons.mp he with rfl | he
  · exact Bool.false_ne_true
  · obtain ⟨fd, -, rfl⟩ := List.mem_map.mp he
    exact Bool.false_ne_true

theorem looks_filter {k : Kernel} {fd : Int} {qs : List Event} (h : qs <+: k.looks fd) :
    qs.filter Event.looks = qs := by
  refine List.filter_eq_self.mpr fun e he => ?_
  rcases List.mem_cons.mp (h.subset he) with rfl | he
  · rfl
  · rw [List.mem_singleton.mp he]
    rfl

/-- **What TakeDevice does with a reply** that names the descriptor `index`: it is
handed out if it is queued and the device, and the rest is closed. No other
descriptor is looked at. -/
theorem takeTail_run {w : World} {r : Nat} (major minor : Int) {index : Option Nat} {inactive : Nat}
    (hg : w.fr.Good) (rest : AtRest w.fr (.msg r)) (hstx : Scratch.stx ∈ w.scratch)
    (reply : dbsTakeReply r (dbusFrameBase w.fr) w.fr = (index, inactive)) :
    ∃ res w', takeTail major minor w = .done res w' ∧
      ((∃ i fd, index = some i ∧ w.fr.fdq[i]? = some fd ∧ w.k.isDevice major minor ∧
          res = (0, some (fd, inactive)) ∧ looked w w' = w.k.looks fd ∧
          TakeEnd w r (w.fr.fdq.eraseIdx i) w') ∨
        (∀ i fd, index = some i → w.fr.fdq[i]? = some fd → ¬ w.k.isDevice major minor) ∧
          res = (-9, some (-1, inactive)) ∧
          (looked w w' = [] ∨ ∃ i fd, index = some i ∧ w.fr.fdq[i]? = some fd ∧
            looked w w' <+: w.k.looks fd) ∧ TakeEnd w r w.fr.fdq w') := by
  obtain ⟨d, read⟩ := decode_run (fun w' => Decode.takeReply_eq r (dbusFrameBase w.fr) w'.fr)
    (w.emit [.next (.msg r) w.fr])
  generalize hw₁ : { w.emit [.next (.msg r) w.fr] with dbu := d } = w₁ at read
  have hfr : w₁.fr = w.fr := by rw [← hw₁]; rfl
  have ht : w₁.trace = w.trace ++ [.next (.msg r) w.fr] := by rw [← hw₁]; rfl
  have start : takeTail major minor w = takeNamed major minor r (index, inactive) w₁ := by
    refine Eq.trans
      (b := (frameNext >>= fun q =>
      decode (fun w' => Decode.dbsTakeReply q.len (dbusFrameBase w.fr) w'.fr) >>=
      takeNamed major minor q.len) w) rfl ?_
    rw [bind_done (frameNext_rest rest)]
    rw [emit_fr, reply] at read
    exact bind_done read
  have advance (w' : World) (h : AtRest w'.fr (.msg r)) (hg : w'.fr.Good) :
    ∃ es, frameAdvance r w' =
      .done () ({ w' with fr := (dbusFrameAdvance w'.fr r).1 }.emit es) ∧
        closesOf es = w'.fr.fdq ∧ es.filter Event.looks = [] :=
    ⟨_, rfl, advance_closesOf hg h, advance_looks w'.fr r⟩
  by_cases found : ∃ i fd, index = some i ∧ w.fr.fdq[i]? = some fd
  · obtain ⟨i, fd, rfl, hfd⟩ := found
    have h0 : 0 ≤ fd := hg.fds fd (List.mem_of_getElem? hfd)
    generalize hw₂ : { w₁ with fr := { w.fr with fdq := w.fr.fdq.eraseIdx i } }.emit
      [.claimed fd] = w₂
    have claim : frameClaimFd i w₁ = .done fd w₂ := by
      simp only [frameClaimFd, Prog.modifyGet, hfr, claim_eq, hfd, h0, if_true, hw₂]
    have hg₂ : w₂.fr = { w.fr with fdq := w.fr.fdq.eraseIdx i } := by rw [← hw₂]; rfl
    have hk₂ : w₂.k = w.k := by rw [← hw₂, ← hw₁]; rfl
    have hs₂ : w₂.scratch = w.scratch := by rw [← hw₂, ← hw₁]; rfl
    have ht₂ : w₂.trace = w.trace ++ ([.next (.msg r) w.fr] ++ [.claimed fd]) := by
      rw [← hw₂, ← List.append_assoc, ← ht]
      rfl
    obtain ⟨ok, w₃, qs, look, hq, asked, both, device⟩ :=
      fdIsDevice_run (w := w₂) (hs₂ ▸ hstx) fd major minor
    have hg₃ : w₃.fr = { w.fr with fdq := w.fr.fdq.eraseIdx i } := hq.fr.trans hg₂
    have good : w₃.fr.Good := by
      rw [hg₃]
      exact ⟨⟨hg.ok.off, hg.ok.cap⟩, fun x hx => hg.fds x (List.mem_of_mem_eraseIdx hx)⟩
    have rest₃ : AtRest w₃.fr (.msg r) := rest.congr (by rw [hg₃]; rfl) (by rw [hg₃])
    have consumed : (dbusFrameAdvance w₃.fr r).1 = (dbusFrameAdvance w.fr r).1 := by
      rw [rest₃.advance good.ok.off, rest.advance hg.ok.off, hg₃]
    rw [hk₂] at asked both device
    obtain ⟨seen, ht₃, quiet, looks⟩ : ∃ seen, w₃.trace = w.trace ++ seen ∧ closesOf seen = [] ∧
        seen.filter Event.looks = qs := by
      refine ⟨[.next (.msg r) w.fr] ++ [.claimed fd] ++ qs, by
        rw [hq.trace, ht₂, List.append_assoc], ?_, ?_⟩
      · rw [closesOf_append, closesOf_quiet hq.quiet]
        rfl
      · rw [List.filter_append, looks_filter asked]
        rfl
    have queue : w₃.fr.fdq = w.fr.fdq.eraseIdx i := by rw [hg₃]
    have claimed : takeTail major minor w = takeClaimed major minor r inactive fd w₂ :=
      start.trans (bind_done claim)
    rw [claimed, takeClaimed, if_pos h0, bind_done look]
    cases ok with
    | true =>
      obtain ⟨es, run, closes, none⟩ := advance w₃ rest₃ good
      rw [if_pos rfl, bind_done run]
      generalize hend : ({ w₃ with fr := (dbusFrameAdvance w₃.fr r).1 }.emit es).emit [.handed fd] =
        w₄
      have ht₄ : w₄.trace = w.trace ++ (seen ++ (es ++ [.handed fd])) := by
        rw [← hend]
        show (w₃.trace ++ es) ++ [.handed fd] = _
        rw [ht₃, List.append_assoc, List.append_assoc]
      refine ⟨(0, some (fd, inactive)), w₄, hend ▸ rfl,
        .inl ⟨i, fd, rfl, hfd, device.mp rfl, rfl, ?_, hend ▸ consumed, _, ht₄, ?_⟩⟩
      · rw [looked_eq ht₄, List.filter_append, List.filter_append, looks, none, both rfl]
        exact List.append_nil _
      · rw [closesOf_append, quiet, closesOf_append, closes, queue, List.nil_append]
        exact List.Perm.of_eq (List.append_nil _)
    | false =>
      have close : sysClose fd w₃ = .done () (w₃.emit [.close fd]) := rfl
      obtain ⟨es, run, closes, none⟩ := advance (w₃.emit [.close fd]) rest₃ good
      rw [if_neg (by decide), bind_done close, bind_done run]
      generalize hend : { w₃.emit [.close fd] with
        fr := (dbusFrameAdvance (w₃.emit [.close fd]).fr r).1 }.emit es = w₄
      have ht₄ : w₄.trace = w.trace ++ (seen ++ ([.close fd] ++ es)) := by
        rw [← hend]
        show (w₃.trace ++ [.close fd]) ++ es = _
        rw [ht₃, List.append_assoc, List.append_assoc]
      refine ⟨(-9, some (-1, inactive)), w₄, rfl, .inr ⟨fun i' fd' hi' hfd' dev => ?_, rfl,
        .inr ⟨i, fd, rfl, hfd, ?_⟩, hend ▸ consumed, _, ht₄, ?_⟩⟩
      · exact absurd (device.mpr dev) (by decide)
      · rw [looked_eq ht₄, List.filter_append, List.filter_append, looks, none]
        exact (List.append_nil qs).symm ▸ asked
      · obtain ⟨hlt, hget⟩ := List.getElem?_eq_some_iff.mp hfd
        have closed : closesOf es = w.fr.fdq.eraseIdx i := closes.trans queue
        rw [closesOf_append, quiet, closesOf_append, closed, List.nil_append, ← hget]
        exact List.getElem_cons_eraseIdx_perm hlt
  · have unclaimed : takeTail major minor w = takeClaimed major minor r inactive (-1) w₁ := by
      rw [start]
      cases index with
      | none => rfl
      | some i =>
        have missing : w.fr.fdq[i]? = none := by
          cases h : w.fr.fdq[i]? with
          | none => rfl
          | some fd => exact absurd ⟨i, fd, rfl, h⟩ found
        have claim : frameClaimFd i w₁ = .done (-1) w₁ := by
          simp only [frameClaimFd, Prog.modifyGet, claim_eq, hfr, missing]
          rw [← hfr, if_neg (by decide)]
          simp
        exact bind_done claim
    obtain ⟨es, run, closes, none⟩ := advance w₁ (hfr ▸ rest) (hfr ▸ hg)
    rw [unclaimed, takeClaimed, if_neg (by decide), bind_done run]
    have ht₂ : ({ w₁ with fr := (dbusFrameAdvance w₁.fr r).1 }.emit es).trace =
        w.trace ++ ([.next (.msg r) w.fr] ++ es) := by
      show w₁.trace ++ es = _
      rw [ht, List.append_assoc]
    refine ⟨_, _, rfl, .inr ⟨fun i fd hi hfd => absurd ⟨i, fd, hi, hfd⟩ found, rfl, .inl ?_, ?_,
      _, ht₂, ?_⟩⟩
    · rw [looked_eq ht₂, List.filter_append, none]
      rfl
    · rw [emit_fr, hfr]
    · rw [closesOf_append, closes, hfr]
      exact List.Perm.refl _

/-! ## Runs -/

theorem shed_account (start : Nat) : Account (Shed start) where
  step hstep h := hstep.shed h
  offers {_ _ _} h ho := h.same (tracked_account.offers h.tracked ho)
    ((sourced_account start).offers h.sourced ho) (calm_still (offers_calm ho)) fun h0 =>
      .inl ⟨h0, rfl⟩

theorem Idle.shed {f : Frame} (h : Idle f) : Shed (dbusFrameReceived f) f [] :=
  .fresh h.tracked (.start f) fun _ => rfl

/-- Is the connection still used after these operations and what they returned?
Not after a Hello that failed. -/
def stillUsed (ops : List BusOp) (rcs : List Int) : Prop :=
  ∀ x ∈ ops.zip rcs, ¬ (x.1 = .hello ∧ x.2 < 0)

/-- An account kept by every move is kept while the connection is used. -/
theorem Account.upTo {K : Frame → List Event → Prop} (h : Account K) (bus : Int) :
    ∀ (ops : List BusOp) {rcs : List Int}
    {w w' : World} {es : List Event}, runOps bus ops w = .done rcs w' → stillUsed ops rcs →
    w.fr.Good → K w.fr es → w'.fr.Good ∧ ∃ es', w'.trace = w.trace ++ es' ∧ K w'.fr (es ++ es')
  | [], rcs, w, w', es, hrun, _, hg, hk => by
    cases hrun
    exact ⟨hg, [], (List.append_nil _).symm, by rwa [List.append_nil]⟩
  | op :: ops, rcs, w, w', es, hrun, hused, hg, hk => by
    have ran := (body_running op bus (op.serial w)).ends w ⟨hg, rfl⟩
    generalize ho : op.body bus w = o at ran
    cases ran with
    | waiting hp =>
      have stuck : runOps bus (op :: ops) w = .waiting _ := bind_waiting (run_waiting ho)
      rw [stuck] at hrun
      cases hrun
    | @done rc w₁ hr hg₁ =>
      have first : runOps bus (op :: ops) w = _ := bind_done (run_done ho)
      rw [first] at hrun
      by_cases hf : op = .hello ∧ rc < 0
      · rw [if_pos hf] at hrun
        cases hrun
        exact absurd hf (hused (op, rc) (by simp))
      · rw [if_neg hf, if_neg hf] at hrun
        cases hrest : runOps bus ops w₁ with
        | waiting w₂ =>
          rw [bind_waiting hrest] at hrun
          cases hrun
        | done rcs' w₂ =>
          rw [bind_done hrest] at hrun
          cases hrun
          obtain ⟨es₁, ht₁, hk₁⟩ := h.ran hr hk
          obtain ⟨hg₂, es₂, ht₂, hk₂⟩ :=
            h.upTo bus ops hrest (fun x hx => hused x (List.mem_cons_of_mem _ hx)) hg₁ hk₁
          exact ⟨hg₂, es₁ ++ es₂, by rw [ht₂, ht₁, List.append_assoc], by rwa [← List.append_assoc]⟩

/-! ## The call, from the reply it accepts -/

/-- The arrivals whose bytes lie inside `[a, b)`. -/
def arrivedIn (a b : Nat) (as : List Arrival) : List Arrival :=
  as.filter fun x => a ≤ x.pos ∧ x.pos + x.n ≤ b

theorem arrivedIn_delivery (a b : Nat) (as : List Arrival) :
    (arrivedIn a b as).map Arrival.toDelivery = inside a b (as.map Arrival.toDelivery) := by
  rw [inside, List.filter_map]
  rfl

/-- The reply of `r` bytes at the head of `w`, its fields `fs`, names `fd`, the `i`-th of
the descriptors the receives `ds` brought, and says `b`; and the kernel says that
`fd` is the device. -/
structure Offers (r : Nat) (fs : List Field) (ds : List Delivery) (w : World) (major minor : Int)
    (i b : Nat) (fd : Int) : Prop where
  signature : bodySignature fs = some (lit "hb")
  complete : ds.any (·.trunc) = false
  index : bodyWord r (dbusFrameBase w.fr) 0 = some i
  queued : ((survivors ds).take 8)[i]? = some fd
  inactive : bodyWord r (dbusFrameBase w.fr) 1 = some b
  bool : b ≤ 1
  device : w.k.isDevice major minor

/-- TakeDevice is right about a reply that came with `n` descriptors: if UNIX_FDS says
so and the reply names one that is the device, it is handed out and the others are
closed; in every other case all are closed. No descriptor is looked at but the one
named, and the reply is consumed. -/
inductive TakesRight (n r : Nat) (fs : List Field) (ds : List Delivery) (w : World)
    (major minor : Int) (res : Int × Option (Int × Nat)) (w' : World) : Prop where
  | handsOut {i b : Nat} {fd : Int} (names : Offers r fs ds w major minor i b fd)
    (declared : unixFds fs = n) (result : res = (0, some (fd, b)))
    (asked : looked w w' = w.k.looks fd)
    (rest : TakeEnd w r (((survivors ds).take 8).eraseIdx i) w')
  | refuses {b : Nat} (unfit : ∀ i b fd, Offers r fs ds w major minor i b fd → unixFds fs ≠ n)
    (hb : b ≤ 1) (result : res = (-9, some (-1, b)))
    (asked : looked w w' = [] ∨ ∃ i fd, bodyWord r (dbusFrameBase w.fr) 0 = some i ∧
      ((survivors ds).take 8)[i]? = some fd ∧ looked w w' <+: w.k.looks fd)
    (rest : TakeEnd w r ((survivors ds).take 8) w')

/-- Being right about one number is being right about another, if they are the same or
the reply would be refused for either. -/
theorem TakesRight.iff {n m r : Nat} {fs : List Field} {ds : List Delivery} {w w' : World}
    {major minor : Int} {res : Int × Option (Int × Nat)}
    (h : TakesRight m r fs ds w major minor res w') :
    TakesRight n r fs ds w major minor res w' ↔ n = m ∨
      ∀ i b fd, Offers r fs ds w major minor i b fd → unixFds fs ≠ m ∧ unixFds fs ≠ n := by
  have apart {b : Nat} {x : Int × Nat} (h0 : res = (0, some x))
      (h9 : res = (-9, some (-1, b))) : False := by
    rw [h0] at h9
    cases h9
  constructor
  · intro hn
    by_cases same : n = m
    · exact .inl same
    refine .inr fun i b fd names => ⟨fun hm => ?_, fun heq => ?_⟩
    · cases h with
      | refuses unfit => exact unfit i b fd names hm
      | handsOut _ _ result =>
        cases hn with
        | handsOut _ declared => exact same (declared.symm.trans hm)
        | refuses _ _ refused => exact apart result refused
    · cases hn with
      | refuses unfit => exact unfit i b fd names heq
      | handsOut _ _ result =>
        cases h with
        | handsOut _ declared => exact same (heq.symm.trans declared)
        | refuses _ _ refused => exact apart result refused
  · rintro (rfl | other)
    · exact h
    · cases h with
      | handsOut names declared => exact absurd declared (other _ _ _ names).1
      | refuses _ hb result asked rest =>
        exact .refuses (fun i b fd names => (other i b fd names).2) hb result asked rest

/-- The descriptors closed as the message arrived, by the receives `as`: those past the
eighth, and those that arrived on stdio. -/
def ClosedOnArrival (start : Nat) (es : List Event) (as : List Arrival) : Prop :=
  ∃ es₁ es₂, es = es₁ ++ es₂ ∧ (∀ e ∈ es₂.head?, e.isRecv = true) ∧
    arrivals (start + (inbound es₁).length) es₂ = as ∧ Closes es₂ as

/-- What has been closed since the first receive inside a whole head message. -/
theorem Shed.whole {start r : Nat} {f : Frame} {es : List Event} (h : Shed start f es)
    (rest : AtRest f (.msg r)) : ClosedOnArrival start es
      (arrivedIn (dbusFramePos f) (dbusFramePos f + r) (arrivals start es)) := by
  obtain ⟨hs, hm, hc, hl⟩ := rest.whole_inv
  have hreach := reach_total hs ((messageTotal_ge hm).trans hl) hm
  obtain ⟨es₁, es₂, as, rfl, hh, harr, hmap, hds, closes⟩ := h.shed hs
  have settled : movedTo es₂ = [] := by
    cases es₂ with
    | nil => rfl
    | cons e es₂ => simp [movedTo, hh e rfl]
  have split : arrivals start (es₁ ++ es₂) = arrivals start es₁ ++ as := by
    rw [arrivals_append settled, harr]
  have before : deliveries es₁ = (arrivals start es₁).map Arrival.toDelivery := by
    have now := h.sourced.now
    rw [deliveries_append, delivered, split, List.map_append, hmap] at now
    exact List.append_cancel_right now
  rw [deliveries_append, List.filter_append] at hds
  have kept : (deliveries es₂).filter (dbusFramePos f ≤ ·.pos) = deliveries es₂ := by
    refine List.filter_eq_self.mpr fun d hd => ?_
    rw [hds] at hd
    exact (List.mem_append.mp hd).elim (fun h => (List.mem_filter.mp h).2) fun h =>
      (List.mem_filter.mp h).2
  have none : (deliveries es₁).filter (dbusFramePos f ≤ ·.pos) = [] := by
    rw [kept] at hds
    exact List.self_eq_append_left.mp hds
  have inside₁ : arrivedIn (dbusFramePos f) (dbusFramePos f + r) (arrivals start es₁) = [] := by
    refine List.filter_eq_nil_iff.mpr fun x hx => ?_
    have out := List.filter_eq_nil_iff.mp none x.toDelivery (before ▸ List.mem_map_of_mem hx)
    simp only [decide_eq_true_eq] at out ⊢
    exact fun inside => out inside.1
  have inside₂ : arrivedIn (dbusFramePos f) (dbusFramePos f + r) as = as := by
    refine List.filter_eq_self.mpr fun x hx => ?_
    have mem : x.toDelivery ∈ deliveries es₂ := hmap ▸ List.mem_map_of_mem hx
    have from_ := List.filter_eq_self.mp kept x.toDelivery mem
    have upTo := (h.tracked.within x.toDelivery
      (deliveries_append es₁ es₂ ▸ List.mem_append_right _ mem)).2
    simp only [decide_eq_true_eq] at from_ ⊢
    exact ⟨from_, by omega⟩
  have all : arrivedIn (dbusFramePos f) (dbusFramePos f + r) (arrivals start (es₁ ++ es₂)) =
      as := by
    rw [split]
    exact (List.filter_append _ _).trans (by
      show arrivedIn _ _ _ ++ arrivedIn _ _ _ = as
      rw [inside₁, inside₂, List.nil_append])
  exact ⟨es₁, es₂, rfl, hh, harr.trans all.symm, all.symm ▸ closes⟩

/-- The reply names a descriptor exactly if it is the one logind sends. -/
theorem WellFormed.named {r : Nat} {p : Bytes} {fs : List Field} (wf : WellFormed r p fs)
    (f : Frame) : ∃ index inactive, dbsTakeReply r p f = (index, inactive) ∧ inactive ≤ 1 ∧ ∀ i b,
    index = some i ∧ inactive = b ↔
      (bodySignature fs = some (lit "hb") ∧ unixFds fs = f.fdtot ∧ f.fdbad = false) ∧
      bodyWord r p 0 = some i ∧
        bodyWord r p 1 = some b ∧ b ≤ 1 := by
  rw [wf.takeReply f]
  cases h0 : bodyWord r p 0 with
  | none =>
    exact ⟨none, 0, rfl, by decide, fun i b => ⟨fun h => (by cases h.1), fun h => (by cases h.2.1)⟩⟩
  | some j =>
    cases h1 : bodyWord r p 1 with
    | none =>
      exact ⟨none, 0, rfl, by
        decide, fun i b => ⟨fun h => (by cases h.1), fun h => (by cases h.2.2.1)⟩⟩
    | some c =>
      dsimp only
      by_cases hc : 1 < c
      · rw [if_pos hc]
        refine ⟨none, 0, rfl, by decide, fun i b => ⟨fun h => (by cases h.1), fun h => ?_⟩⟩
        obtain ⟨-, -, hb, hle⟩ := h
        cases hb
        omega
      · rw [if_neg hc]
        refine ⟨_, c, rfl, by omega, fun i b => ?_⟩
        split_ifs with hsent
        · exact ⟨fun h => ⟨hsent, h.1, congrArg some h.2, by omega⟩, fun h =>
            ⟨h.2.1, Option.some.inj h.2.2.1⟩⟩
        · exact ⟨fun h => (by cases h.1), fun h => absurd h.1 hsent⟩

theorem validate_of_success {uniq : Bytes} {serial wm pos r : Nat} {p : Bytes}
    (h : dbusSessionVerdict uniq serial wm pos r p = .success) :
    dbusUnmarshalValidate r p = true := by
  unfold dbusSessionVerdict dbusSessionMine at h
  by_cases hv : dbusUnmarshalValidate r p = true
  · exact hv
  · simp [hv] at h

theorem type_of_success {uniq : Bytes} {serial wm pos r : Nat} {p : Bytes}
    (h : dbusSessionVerdict uniq serial wm pos r p = .success) :
    dbusUnmarshalType p = dbusMarshalTypeReturn := by
  unfold dbusSessionVerdict at h
  split_ifs at h with hmine htype
  exact htype

theorem allocOnce_mem {s : Scratch} {w w' : World} (h : allocOnce s w = .done true w') :
    s ∈ w'.scratch := by
  simp only [allocOnce, Prog.modifyGet] at h
  split_ifs at h with hm ha
  · cases h
    exact hm
  · cases h
    exact List.mem_cons_self
  · cases h

/-- A call that succeeds: its reply is at the head, well formed, and the accounts go on. -/
theorem call_outcome {bus : Int} {s start : Nat} {m : Marshal} {w w₁ w₂ : World}
    {es : List Event} (halloc : allocOnce .stx w = .done true w₁) (hg : w.fr.Good)
    (h : Shed start w.fr es) (hcall : dbusSessionCall bus s (w₁.asking s m) = .done 0 w₂) :
    ∃ r fs es', w₂.trace = w.trace ++ es' ∧ w₂.fr.Good ∧ Shed start w₂.fr (es ++ es') ∧
      Scratch.stx ∈ w₂.scratch ∧ AtRest w₂.fr (.msg r) ∧
      WellFormed r (dbusFrameBase w₂.fr) fs := by
  obtain ⟨qs, hq⟩ := allocOnce_rests .stx w
  rw [halloc, Outcome.state_done] at hq
  have good : (w₁.asking s m).fr.Good := (congrArg Frame.Good hq.fr).mpr hg
  have calls := dbusSessionCall_calling bus s m (w₁.asking s m) ⟨good, rfl⟩
  rw [hcall] at calls
  obtain ⟨es', ht, shed⟩ :=
    (shed_account start).asked hq ((shed_account start).calls calls.1) h
  obtain ⟨r, wm, rest, hv⟩ := (call_accepted bus s).of_done good hcall rfl
  obtain ⟨fs, wf⟩ := (validate_iff_wellFormed _ _).mp (validate_of_success hv)
  have scratch : w₂.scratch = (w₁.asking s m).scratch := (call_scratch bus s).of_done hcall
  have allocated : Scratch.stx ∈ w₁.scratch := allocOnce_mem halloc
  exact ⟨r, fs, es', ht, calls.2.1, shed, scratch.symm ▸ allocated, rest, wf⟩

/-- The move above stdio loses a descriptor or keeps it, and makes none. -/
theorem aboveStdio_length (fds : List Int) : ∀ dups, (aboveStdio fds dups).length = fds.length := by
  induction fds with
  | nil => exact fun _ => rfl
  | cons fd fds ih =>
    intro dups
    rw [aboveStdio]
    split
    · exact congrArg (· + 1) (ih dups)
    · exact congrArg (· + 1) (ih dups.tail)

theorem arrivals_length (es : List Event) : ∀ start, ∀ x ∈ arrivals start es,
    x.fds.length = x.sent.length := by
  induction es with
  | nil =>
    intro start x hx
    cases hx
  | cons e es ih =>
    intro start x hx
    cases e with
    | recv fd want flags n data anc ctrunc =>
      rw [arrivals] at hx
      split at hx
      · exact ih start x hx
      · rcases List.mem_cons.mp hx with rfl | hx
        · exact aboveStdio_length _ _
        · exact ih _ x hx
    | _ => exact ih start x hx

/-- As many survived the move as arrived, exactly if no move failed. -/
theorem survivors_all {as : List Arrival} (h : ∀ x ∈ as, x.fds.length = x.sent.length) :
    (as.flatMap (·.sent)).length = (survivors (as.map Arrival.toDelivery)).length ↔
      ∀ x ∈ as, ∀ fd ∈ x.fds, 0 ≤ fd := by
  have count : (as.flatMap (·.sent)).length = (as.flatMap (·.fds)).length := by
    rw [List.length_flatMap, List.length_flatMap]
    exact congrArg List.sum (List.map_congr_left fun x hx => (h x hx).symm)
  have kept : survivors (as.map Arrival.toDelivery) = (as.flatMap (·.fds)).filter (0 ≤ ·) := by
    rw [survivors, List.flatMap_map, List.filter_flatMap]
  rw [count, kept, eq_comm, List.length_filter_eq_length_iff]
  simp only [List.mem_flatMap, decide_eq_true_eq]
  constructor
  · intro h x hx fd hfd
    exact h fd ⟨x, hx, hfd⟩
  · intro h fd hmem
    obtain ⟨x, hx, hfd⟩ := hmem
    exact h x hx fd hfd

/-- **TakeDevice hands out exactly the right descriptor, or nothing, of those that
survived the move above stdio.** After any operations on a connection, let its call
accept a METHOD_RETURN. The message is well formed, and with `as` the receives
inside it TakeDevice is right about a reply that came with as many descriptors as
survived the move. About the number that arrived it is right exactly if no move
failed, or UNIX_FDS declares neither number where the reply is right otherwise. -/
theorem take_device_exact_iff (f₀ : Frame) (fd bus rc : Int) (w w₀ : World)
    (hinit : w.fr = (dbusFrameInit f₀).1) (hsasl : dbusSessionSasl fd w = .done rc w₀)
    (ops : List BusOp) (rcs : List Int) (w₁ : World)
    (hrun : runOps bus ops w₀ = .done rcs w₁) (hused : stillUsed ops rcs) (sess : Option Bytes)
    (major minor : Int)
    (hargs : (BusOp.takeDevice sess major minor).accepts = true) (w₂ : World)
    (halloc : allocOnce .stx w₁ = .done true w₂) (w₃ : World)
    (hcall : dbusSessionCall bus (BusOp.serial w₂ (.takeDevice sess major minor))
      (w₂.asking (BusOp.serial w₂ (.takeDevice sess major minor))
        ((BusOp.takeDevice sess major minor).request
        (BusOp.serial w₂ (.takeDevice sess major minor)))) = .done 0 w₃) :
    ∃ r fs res w₄, AtRest w₃.fr (.msg r) ∧ WellFormed r (dbusFrameBase w₃.fr) fs ∧
      dbusNativeTakeDevice bus sess major minor w₁ = .done res w₄ ∧
      let start := dbusFrameReceived w₀.fr
      let es := w₃.trace.drop w₀.trace.length
      let as := arrivedIn (dbusFramePos w₃.fr) (dbusFramePos w₃.fr + r) (arrivals start es)
      let ds := as.map Arrival.toDelivery
      ClosedOnArrival start es as ∧
        TakesRight (survivors ds).length r fs ds w₃ major minor res w₄ ∧
        (TakesRight (as.flatMap (·.sent)).length r fs ds w₃ major minor res w₄ ↔
          (∀ x ∈ as, ∀ fd ∈ x.fds, 0 ≤ fd) ∨
          ∀ i b fd, Offers r fs ds w₃ major minor i b fd →
            unixFds fs ≠ (survivors ds).length ∧
            unixFds fs ≠ (as.flatMap (·.sent)).length) := by
  have hidle : Idle w₀.fr := by
    have start : Exchanging w w := .start (hinit ▸ init_idle f₀)
    exact ((sasl_exchanging fd w).of_done start hsasl).idle
  obtain ⟨good₁, es₁, ht₁, shed₁⟩ :=
    (shed_account _).upTo bus ops hrun hused hidle.good hidle.shed
  obtain ⟨r, fs, es₂, ht₂, good₃, shed₃, hstx, rest, wf⟩ := call_outcome halloc good₁ shed₁ hcall
  rw [List.nil_append] at shed₃
  obtain ⟨index, inactive, reply, hle, named⟩ := wf.named w₃.fr
  obtain ⟨res, w₄, tail, hend⟩ := takeTail_run major minor good₃ rest hstx reply
  have hes : w₃.trace.drop w₀.trace.length = es₁ ++ es₂ := by
    rw [ht₂, ht₁, List.append_assoc, List.drop_left]
  refine ⟨r, fs, res, w₄, rest, wf, (takeDevice_eq (by decide) hargs halloc hcall).trans tail, ?_⟩
  intro start es as ds
  have holds : Holds w₃.fr ds := by
    have whole := shed₃.tracked.whole rest
    rw [shed₃.sourced.now, delivered, ← arrivedIn_delivery, ← hes] at whole
    exact whole
  have right : TakesRight (survivors ds).length r fs ds w₃ major minor res w₄ := by
    have index_of {i : Nat} (hi : index = some i) :
        bodyWord r (dbusFrameBase w₃.fr) 0 = some i := ((named i inactive).mp ⟨hi, rfl⟩).2.1
    rcases hend with ⟨i, d, hi, hd, hdev, hres, hasked, htake⟩ | ⟨hno, hres, hasked, htake⟩
    · obtain ⟨⟨sig, total, bad⟩, h0, h1, hb⟩ := (named i inactive).mp ⟨hi, rfl⟩
      rw [holds.fdq] at hd htake
      exact .handsOut ⟨sig, holds.fdbad ▸ bad, h0, hd, h1, hb, hdev⟩ (total.trans holds.fdtot) hres
        hasked htake
    · refine .refuses (fun i b d names declared => ?_) hle hres ?_ (holds.fdq ▸ htake)
      · have bad : w₃.fr.fdbad = false := holds.fdbad.trans names.complete
        obtain ⟨hi, -⟩ := (named i b).mpr ⟨⟨names.signature, declared.trans holds.fdtot.symm, bad⟩,
          names.index, names.inactive, names.bool⟩
        exact hno i d hi (holds.fdq ▸ names.queued) names.device
      · rw [holds.fdq] at hasked
        refine hasked.imp_right fun hlooked => ?_
        obtain ⟨i, d, hi, hd, hlook⟩ := hlooked
        exact ⟨i, d, index_of hi, hd, hlook⟩
  have lengths : ∀ x ∈ as, x.fds.length = x.sent.length :=
    fun x hx => arrivals_length es start x (List.mem_filter.mp hx).1
  refine ⟨?_, right, ?_⟩
  · have closed := shed₃.whole rest
    rw [← hes] at closed
    exact closed
  · rw [right.iff, survivors_all lengths]

/-- Descriptor 7 is handed out; one arrived, and TakeDevice is right about that. -/
theorem take_device_exact_iff_one :
    let w₀ := (dbusSessionSasl 5 oneTake).state
    let w₂ := (allocOnce .stx w₀).state
    let op : BusOp := .takeDevice (some (lit "/s")) 226 0
    let w₃ := (dbusSessionCall 5 (op.serial w₂)
      (w₂.asking (op.serial w₂) (op.request (op.serial w₂)))).state
    ∃ fs w₄, dbusNativeTakeDevice 5 (some (lit "/s")) 226 0 w₀ = .done (0, some (7, 0)) w₄ ∧
      TakesRight 1 48 fs [⟨58, 16, [7], false⟩, ⟨74, 32, [], false⟩] w₃ 226 0
        (0, some (7, 0)) w₄ := by
  intro w₀ w₂ op w₃
  have call : (dbusSessionCall 5 (op.serial w₂)
      (w₂.asking (op.serial w₂) (op.request (op.serial w₂)))).value = some 0 := by
    decide +kernel
  have taken : (dbusNativeTakeDevice 5 (some (lit "/s")) 226 0 w₀).value =
      some (0, some (7, 0)) := by decide +kernel
  obtain ⟨r, fs, res, w₄, rest, -, run, -, -, right⟩ :=
    take_device_exact_iff {} 5 5 0 oneTake w₀ rfl (by rfl) [] [] w₀ rfl
    (by rintro x ⟨⟩) (some (lit "/s")) 226 0 (by decide) w₂ (by rfl) w₃ (Outcome.eq_done call)
  have total : messageTotal (dbusFrameBase w₃.fr) = .ok 48 := by decide +kernel
  obtain rfl : r = 48 := by
    have whole := rest.whole_inv.2.1
    rw [total] at whole
    cases whole
    rfl
  have came : arrivedIn (dbusFramePos w₃.fr) (dbusFramePos w₃.fr + 48)
      (arrivals (dbusFrameReceived w₀.fr) (w₃.trace.drop w₀.trace.length)) =
      [⟨⟨58, 16, [7], false⟩, [7]⟩, ⟨⟨74, 32, [], false⟩, []⟩] := by
    decide +kernel
  rw [came] at right
  rw [run] at taken
  cases taken
  exact ⟨fs, w₄, run, right.mpr (.inl (by decide))⟩

/-- Descriptors 0 and 7, of which 0 has to be moved. -/
def descriptorOnStdio : Ancillary := { cmsgs := [.rights [0, 7]] }

/-- The reply declares one descriptor and comes with two; F_DUPFD fails on the first,
and the other is the device. -/
def lostMove : World :=
  { oneTake with
    k := { oneTake.k with
      recv := [{ ret := 58 }, { ret := 16, anc := descriptorOnStdio }, { ret := 32 }]
      fcntl := [-24, 2] } }

/-- Descriptors 0 and 7 arrived and UNIX_FDS declares one; the device is handed out. -/
theorem lost_move_hands_out :
    let w₀ := (dbusSessionSasl 5 lostMove).state
    let w₂ := (allocOnce .stx w₀).state
    let op : BusOp := .takeDevice (some (lit "/s")) 226 0
    let w₃ := (dbusSessionCall 5 (op.serial w₂)
      (w₂.asking (op.serial w₂) (op.request (op.serial w₂)))).state
    let as := arrivedIn 58 106 (arrivals 58 (w₃.trace.drop w₀.trace.length))
    (dbusNativeTakeDevice 5 (some (lit "/s")) 226 0 w₀).value = some (0, some (7, 0)) ∧
      as.flatMap (·.sent) = [0, 7] ∧
      ∃ fs, WellFormed 48 (dbusFrameBase w₃.fr) fs ∧ unixFds fs = 1 ∧
        ∀ w₄, ¬ TakesRight (as.flatMap (·.sent)).length 48 fs (as.map Arrival.toDelivery) w₃ 226 0
          (0, some (7, 0)) w₄ := by
  intro w₀ w₂ op w₃ as
  have valid : dbusUnmarshalValidate 48 (dbusFrameBase w₃.fr) = true := by decide +kernel
  have declares : declaredFds 48 (dbusFrameBase w₃.fr) = some 1 := by decide +kernel
  have sent : as.flatMap (·.sent) = [0, 7] := by decide +kernel
  obtain ⟨fs, wf⟩ := (validate_iff_wellFormed _ _).mp valid
  have one : unixFds fs = 1 := Option.some.inj (wf.declaredFds.symm.trans declares)
  refine ⟨by decide +kernel, sent, fs, wf, one, fun w₄ right => ?_⟩
  rw [sent] at right
  cases right with
  | handsOut _ declared =>
    rw [one] at declared
    exact absurd declared (by decide)
  | refuses _ _ result => cases result

end Samvada
