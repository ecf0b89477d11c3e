import Mathlib.Data.List.Induction
import Samvada.ControlBuffer
import Samvada.Handshake

/- Which message a descriptor came with. Every receive stays inside the message
   at the head, so the receives at or after the head's position are that
   message's; the queue is theirs, because whatever is queued is closed where the
   head moves. What a receive brought is read off the kernel's answers, and is
   what the session layer accounts for. -/
namespace Samvada
open Octets Framing Resumable Relation

/-- A receive, as the session layer keeps account of it: the stream positions of
its bytes and its descriptors after the move above stdio. -/
structure Delivery where
  pos : Nat
  n : Nat
  fds : List Int
  trunc : Bool
  deriving DecidableEq, Repr

def Event.delivery : Event → Option Delivery
  | .received pos n fds trunc => some ⟨pos, n, fds, trunc⟩
  | _ => none

def deliveries (es : List Event) : List Delivery := es.filterMap Event.delivery

@[simp] theorem deliveries_append (es es' : List Event) : deliveries (es ++ es') = deliveries es ++
    deliveries es' :=
  List.filterMap_append

theorem deliveries_eq_nil {es : List Event} (h : ∀ e ∈ es, e.delivery = none) :
    deliveries es = [] :=
  List.filterMap_eq_nil_iff.mpr h

/-- The receives whose bytes lie inside `[a, b)`. -/
def inside (a b : Nat) (ds : List Delivery) : List Delivery :=
  ds.filter fun d => a ≤ d.pos ∧ d.pos + d.n ≤ b

/-- The descriptors that survived the move above stdio, in arrival order. -/
def survivors (ds : List Delivery) : List Int := ds.flatMap fun d => d.fds.filter (0 ≤ ·)

/-! ## What the kernel delivered -/

/-- The stream bytes an event brought. -/
def Event.brought : Event → Bytes
  | .recv _ _ _ _ data _ _ => data
  | _ => []

/-- The bytes received, in order. -/
def inbound (es : List Event) : Bytes := es.flatMap Event.brought

@[simp] theorem inbound_append (es es' : List Event) : inbound (es ++ es') = inbound es ++ inbound
    es' := List.flatMap_append

def Event.isRecv : Event → Bool
  | .recv _ _ _ _ _ _ _ => true
  | _ => false

/-- What F_DUPFD answered. -/
def Event.dup : Event → Option Int
  | .dupfd _ new => some new
  | _ => none

/-- What F_DUPFD answered before the next receive. -/
def movedTo (es : List Event) : List Int := (es.takeWhile (!·.isRecv)).filterMap Event.dup

/-- The descriptors of a receive after the move above stdio: each one on stdio has
become what F_DUPFD answered of it. -/
def aboveStdio : List Int → List Int → List Int
  | [], _ => []
  | fd :: fds, dups =>
    if 2 < fd then fd :: aboveStdio fds dups else dups.headD (-9) :: aboveStdio fds dups.tail

/-- A receive, as the kernel made it: what the session layer is to keep account
of, and the descriptors that arrived. -/
structure Arrival extends Delivery where
  sent : List Int
  deriving DecidableEq, Repr

/-- The receives that brought bytes, the first of them at stream position `pos`. -/
def arrivals : Nat → List Event → List Arrival
  | _, [] => []
  | pos, .recv _ _ _ _ data anc ctrunc :: es =>
    if data = [] then arrivals pos es
    else
      { pos, n := data.length, fds := aboveStdio anc.carried (movedTo es), trunc := ctrunc
        sent := anc.carried } :: arrivals (pos + data.length) es
  | pos, _ :: es => arrivals pos es

/-- The receives, as the session layer is to account for them. -/
def delivered (start : Nat) (es : List Event) : List Delivery :=
  (arrivals start es).map Arrival.toDelivery

theorem movedTo_append {es es' : List Event} (h : movedTo es' = []) :
    movedTo (es ++ es') = movedTo es := by
  induction es with
  | nil => exact h
  | cons e es ih =>
    cases hr : e.isRecv with
    | true => simp [movedTo, hr]
    | false =>
      have more (l : List Event) : movedTo (e :: l) = e.dup.toList ++ movedTo l := by
        unfold movedTo
        rw [List.takeWhile_cons, hr, Bool.not_false, if_pos rfl, List.filterMap_cons]
        cases e.dup <;> rfl
      rw [List.cons_append, more, more, ih]

/-- What follows a receive and its moves does not change what it brought. -/
theorem arrivals_append {es es' : List Event} (h : movedTo es' = []) (start : Nat) :
    arrivals start (es ++ es') =
      arrivals start es ++ arrivals (start + (inbound es).length) es' := by
  induction es generalizing start with
  | nil => rfl
  | cons e es ih =>
    have skip (hd : e.brought = []) (ha : ∀ l, arrivals start (e :: l) = arrivals start l) :
        arrivals start (e :: es ++ es') =
          arrivals start (e :: es) ++ arrivals (start + (inbound (e :: es)).length) es' := by
      have same : inbound (e :: es) = inbound es := by
        rw [inbound, List.flatMap_cons, hd]
        rfl
      rw [List.cons_append, ha, ha, same, ih]
    cases e with
    | recv fd want flags n data anc ctrunc =>
      by_cases hd : data = []
      · exact skip hd fun l => by rw [arrivals, if_pos hd]
      · have count : (inbound (.recv fd want flags n data anc ctrunc :: es)).length =
            data.length + (inbound es).length := by
          rw [← List.length_append]
          rfl
        rw [List.cons_append, arrivals, if_neg hd, arrivals, if_neg hd, movedTo_append h, ih, count,
          Nat.add_assoc]
        rfl
    | _ => exact skip rfl fun _ => rfl

/-! ## What the session layer holds -/

/-- The framer holds the descriptors of the receives `ds`: the first eight, how
many there were, and whether a set was truncated. -/
structure Holds (f : Frame) (ds : List Delivery) : Prop where
  fdq : f.fdq = (survivors ds).take 8
  fdtot : f.fdtot = (survivors ds).length
  fdbad : f.fdbad = ds.any (·.trunc)

theorem Holds.nil {f : Frame} (hq : f.fdq = []) (ht : f.fdtot = 0) (hb : f.fdbad = false) :
    Holds f [] :=
  ⟨hq, ht, hb⟩

theorem Holds.congr {f g : Frame} {ds : List Delivery} (h : Holds f ds) (hq : g.fdq = f.fdq)
    (ht : g.fdtot = f.fdtot) (hb : g.fdbad = f.fdbad) : Holds g ds :=
  ⟨hq.trans h.fdq, ht.trans h.fdtot, hb.trans h.fdbad⟩

/-- What an event says about attribution, after `es`: a message yielded has its
own descriptors queued, and a descriptor claimed is one of the message just yielded. -/
def Right (es : List Event) : Event → Prop
  | .next (.msg r) f => AtRest f (.msg r) ∧
      Holds f (inside (dbusFramePos f) (dbusFramePos f + r) (deliveries es))
  | .claimed fd => ∃ es₀ r f, es = es₀ ++ [.next (.msg r) f] ∧ fd ∈ f.fdq
  | _ => True

/-- An event that neither delivers, yields nor claims. -/
def Event.plain : Event → Bool
  | .next _ _ => false
  | .claimed _ => false
  | .received _ _ _ _ => false
  | _ => true

theorem plain_delivery {es : List Event} (h : ∀ e ∈ es, e.plain = true) : deliveries es = [] := by
  refine deliveries_eq_nil fun e he => ?_
  have := h e he
  cases e <;> first | rfl | cases this

/-- Every event so far is right. -/
def AllRight (es : List Event) : Prop := ∀ es₁ e es₂, es = es₁ ++ e :: es₂ → Right es₁ e

theorem AllRight.nil : AllRight [] := fun _ _ _ h => absurd h (by simp)

theorem AllRight.snoc {es : List Event} {e : Event} (h : AllRight es) (he : Right es e) :
    AllRight (es ++ [e]) := by
  intro es₁ e' es₂ heq
  rcases List.append_eq_append_iff.mp heq with ⟨c, hc, hc'⟩ | ⟨c, hc, hc'⟩
  · cases c with
    | nil =>
      rw [List.append_nil] at hc
      injection hc' with h1 h2
      exact hc ▸ h1 ▸ he
    | cons x c =>
      injection hc' with h1 h2
      exact absurd h2 (by simp)
  · cases c with
    | nil =>
      rw [List.append_nil] at hc
      injection hc' with h1 h2
      exact hc ▸ h1 ▸ he
    | cons x c =>
      injection hc' with h1 h2
      exact h es₁ e' c (by rw [hc, h1])

theorem AllRight.plain {es : List Event} (h : AllRight es) : ∀ {es' : List Event},
    (∀ e ∈ es', e.plain = true) →
    AllRight (es ++ es') := by
  intro es'
  induction es' using List.reverseRecOn with
  | nil =>
    intro _
    rw [List.append_nil]
    exact h
  | append_singleton es' e ih =>
    intro hp
    rw [← List.append_assoc]
    refine (ih fun e he => hp e (List.mem_append_left _ he)).snoc ?_
    have := hp e (List.mem_append_right _ (List.mem_singleton_self e))
    cases e <;> trivial

/-- **The account** between operations: every receive lies before where the head
message ends, and what is queued came at or after where it begins. -/
structure Tracked (f : Frame) (es : List Event) : Prop where
  good : f.Good
  within : ∀ d ∈ deliveries es, 0 < d.n ∧ d.pos + d.n ≤ dbusFrameReach f
  head : f.skip = 0 → Holds f ((deliveries es).filter (dbusFramePos f ≤ ·.pos))
  passing : 0 < f.skip → Holds f []
  past : AllRight es

/-- The receives inside the head message are those from its position on. -/
theorem Tracked.inside_eq {f : Frame} {es : List Event} (h : Tracked f es) {b : Nat}
    (hb : dbusFrameReach f ≤ b) :
    inside (dbusFramePos f) b (deliveries es) = (deliveries es).filter
    (dbusFramePos f ≤ ·.pos) := by
  refine List.filter_congr fun d hd => ?_
  have := (h.within d hd).2
  have : d.pos + d.n ≤ b := by omega
  simp [this]

/-- Past the head message there is no receive yet. -/
theorem Tracked.past_reach {f : Frame} {es : List Event} (h : Tracked f es) {a : Nat}
    (ha : dbusFrameReach f ≤ a) : (deliveries es).filter (a ≤ ·.pos) = [] := by
  refine List.filter_eq_nil_iff.mpr fun d hd => ?_
  have := h.within d hd
  simp only [decide_eq_true_eq]
  omega

/-- Plain events, and a framer with the same head and queue. -/
theorem Tracked.same {f g : Frame} {es es' : List Event} (h : Tracked f es) (hg : g.Good)
    (hc : dbusFrameCursor g = dbusFrameCursor f) (hq : g.fdq = f.fdq) (ht : g.fdtot = f.fdtot)
    (hb : g.fdbad = f.fdbad) (hp : ∀ e ∈ es', e.plain = true) : Tracked g (es ++ es') := by
  have hd : deliveries (es ++ es') = deliveries es := by
    rw [deliveries_append, plain_delivery hp, List.append_nil]
  have hs : g.skip = f.skip := congrArg Cursor.skip hc
  have hpos : dbusFramePos g = dbusFramePos f := congrArg Cursor.pos hc
  refine ⟨hg, ?_, fun h0 => ?_, fun h0 => ?_, h.past.plain hp⟩
  · rw [hd, reach_congr hc]
    exact h.within
  · rw [hd, hpos]
    exact (h.head (hs ▸ h0)).congr hq ht hb
  · exact (h.passing (hs ▸ h0)).congr hq ht hb

/-- The head message is consumed. -/
theorem Tracked.consumed {f g : Frame} {es es' : List Event} (h : Tracked f es) (hg : g.Good)
    (hpos : dbusFrameReach f ≤ dbusFramePos g) (hq : Holds g []) (hd : deliveries es' = [])
    (hp : AllRight (es ++ es')) : Tracked g (es ++ es') := by
  have hd' : deliveries (es ++ es') = deliveries es := by
    rw [deliveries_append, hd, List.append_nil]
  have hle := dbusFramePos_le_reach g
  refine ⟨hg, ?_, fun _ => ?_, fun _ => hq, hp⟩
  · rw [hd']
    intro d hm
    have := h.within d hm
    exact ⟨this.1, by omega⟩
  · rw [hd', h.past_reach hpos]
    exact hq

/-! ## Each move -/

theorem closes_plain (fds : List Int) : ∀ e ∈ fds.map Event.close, e.plain = true := by
  intro e he
  obtain ⟨fd, -, rfl⟩ := List.mem_map.mp he
  rfl

theorem offers_plain {es : List Event} (h : ∀ e ∈ es, e.offers = true) :
    ∀ e ∈ es, e.plain = true := by
  intro e he
  have := h e he
  cases e <;> first | rfl | cases this

theorem push_holds {f : Frame} {L : List Int} (fd : Int) (hs : f.skip = 0) (hq : f.fdq = L.take 8)
    (ht : f.fdtot = L.length) : (dbusFramePushFd f fd).1.fdq = (L ++ [fd].filter (0 ≤ ·)).take 8 ∧
      (dbusFramePushFd f fd).1.fdtot = (L ++ [fd].filter (0 ≤ ·)).length := by
  have hlen : f.fdq.length = min 8 L.length := by rw [hq, List.length_take]
  unfold dbusFramePushFd
  by_cases hneg : fd < 0
  · have : ¬ 0 ≤ fd := by omega
    simp [hneg, hq, ht]
  have keep : [fd].filter (0 ≤ ·) = [fd] := by
    have : 0 ≤ fd := by omega
    simp [this]
  rw [if_neg hneg, if_neg (by omega), keep, List.length_append, List.length_singleton]
  by_cases hfull : dbusFrameFdqCap ≤ f.fdq.length
  · rw [if_pos hfull]
    simp only [dbusFrameFdqCap] at hfull
    exact ⟨hq.trans (List.take_append_of_le_length (by omega)).symm, congrArg (· + 1) ht⟩
  · rw [if_neg hfull]
    simp only [dbusFrameFdqCap] at hfull
    have e : f.fdq = L := hq.trans (List.take_of_length_le (by omega))
    refine ⟨?_, congrArg (· + 1) ht⟩
    rw [List.take_of_length_le (by simp only [List.length_append, List.length_singleton]; omega)]
    exact congrArg (· ++ [fd]) e

theorem push_passing {f : Frame} (fd : Int) (hs : 0 < f.skip) : (dbusFramePushFd f fd).1 = f := by
  unfold dbusFramePushFd
  by_cases hneg : fd < 0
  · rw [if_pos hneg]
  · rw [if_neg hneg, if_pos hs]

theorem push_same (f : Frame) (fd : Int) :
    dbusFrameCursor (dbusFramePushFd f fd).1 = dbusFrameCursor f ∧
    (dbusFramePushFd f fd).1.fdbad = f.fdbad ∧ (dbusFramePushFd f fd).1.skip = f.skip := by
  unfold dbusFramePushFd
  repeat' split
  all_goals exact ⟨rfl, rfl, rfl⟩

theorem pushEvents_plain (f : Frame) (fd : Int) : ∀ e ∈ pushEvents f fd, e.plain = true := by
  intro e he
  rcases List.mem_append.mp he with he | he
  · split at he
    · rw [List.mem_singleton.mp he]
      rfl
    · cases he
  · exact closes_plain _ e he

theorem Queued.same {f g : Frame} {fds moved : List Int} {es : List Event}
    (h : Queued f fds moved es g) :
    dbusFrameCursor g = dbusFrameCursor f ∧ g.fdbad = f.fdbad ∧ g.skip = f.skip ∧ ∀ e ∈ es,
    e.plain = true := by
  induction h with
  | nil f => exact ⟨rfl, rfl, rfl, by simp⟩
  | @keep f g fd rest moved es hfd hq ih =>
    obtain ⟨hc, hb, hs, hp⟩ := ih
    obtain ⟨hc', hb', hs'⟩ := push_same f fd
    refine ⟨hc.trans hc', hb.trans hb', hs.trans hs', fun e he => ?_⟩
    exact (List.mem_append.mp he).elim (pushEvents_plain f fd e) (hp e)
  | @move f g fd nfd rest moved es hfd hq ih =>
    obtain ⟨hc, hb, hs, hp⟩ := ih
    obtain ⟨hc', hb', hs'⟩ := push_same f nfd
    refine ⟨hc.trans hc', hb.trans hb', hs.trans hs', fun e he => ?_⟩
    rcases List.mem_append.mp he with he | he
    · rcases List.mem_append.mp he with he | he
      · rcases List.mem_cons.mp he with rfl | he
        · rfl
        · rw [List.mem_singleton.mp he]
          rfl
      · exact pushEvents_plain f nfd e he
    · exact hp e he

theorem Queued.holds {f g : Frame} {fds moved : List Int} {es : List Event}
    (h : Queued f fds moved es g) (hs : f.skip = 0) {L : List Int} (hq : f.fdq = L.take 8)
    (ht : f.fdtot = L.length) : g.fdq = (L ++ moved.filter (0 ≤ ·)).take 8 ∧
    g.fdtot = (L ++ moved.filter (0 ≤ ·)).length := by
  induction h generalizing L with
  | nil f =>
    rw [List.filter_nil, List.append_nil]
    exact ⟨hq, ht⟩
  | @keep f g fd rest moved es hfd hrest ih =>
    obtain ⟨h1, h2⟩ := push_holds fd hs hq ht
    have := ih ((push_same f fd).2.2.trans hs) h1 h2
    rwa [List.append_assoc, ← List.filter_append] at this
  | @move f g fd nfd rest moved es hfd hrest ih =>
    obtain ⟨h1, h2⟩ := push_holds nfd hs hq ht
    have := ih ((push_same f nfd).2.2.trans hs) h1 h2
    rwa [List.append_assoc, ← List.filter_append] at this

theorem Queued.passing {f g : Frame} {fds moved : List Int} {es : List Event}
    (h : Queued f fds moved es g) (hs : 0 < f.skip) : g = f := by
  induction h with
  | nil f => rfl
  | @keep f g fd rest moved es hfd hrest ih =>
    rw [push_passing fd hs] at ih
    exact ih hs
  | @move f g fd nfd rest moved es hfd hrest ih =>
    rw [push_passing nfd hs] at ih
    exact ih hs

theorem Tracked.passed {f g : Frame} {es : List Event} {c : List Int} (h : Tracked f es)
    (pass : Passed f g c) : Tracked g (es ++ c.map Event.close) := by
  have hg : g.Good := ⟨pass.ok h.good.ok, pass.fds_nonneg h.good.fds⟩
  have hd : deliveries (es ++ c.map Event.close) = deliveries es := by
    rw [deliveries_append, plain_delivery (closes_plain c), List.append_nil]
  have hwithin : ∀ d ∈ deliveries (es ++ c.map Event.close), 0 < d.n ∧
    d.pos + d.n ≤ dbusFrameReach g := by
    rw [hd]
    exact fun d hm => ⟨(h.within d hm).1, (h.within d hm).2.trans pass.reach⟩
  rcases pass.fds with ⟨hq, ht, hb, -, rfl | ⟨hf, hs⟩⟩ | ⟨hq, ht, hb, -, hreach⟩
  · exact h.same hg rfl rfl rfl rfl (closes_plain c)
  · -- still inside the same over-cap message
    exact ⟨hg, hwithin, fun h0 =>
      by omega, fun _ => (h.passing hf).congr hq ht hb, h.past.plain (closes_plain c)⟩
  · refine ⟨hg, hwithin, fun h0 => ?_, fun _ => Holds.nil hq ht hb, h.past.plain (closes_plain c)⟩
    rw [hd, h.past_reach (hreach h0)]
    exact Holds.nil hq ht hb

/-- The queue at a whole head message is that message's. -/
theorem Tracked.whole {f : Frame} {es : List Event} {r : Nat} (h : Tracked f es)
    (rest : AtRest f (.msg r)) :
    Holds f (inside (dbusFramePos f) (dbusFramePos f + r) (deliveries es)) := by
  obtain ⟨hs, ht, hc, hl⟩ := rest.whole_inv
  have hreach := reach_total hs ((messageTotal_ge ht).trans hl) ht
  rw [h.inside_eq (by omega)]
  exact h.head hs

theorem Tracked.yields {g : Frame} {es : List Event} {r : FrameStatus} (h : Tracked g es)
    (rest : AtRest g r) : Tracked g (es ++ [.next r g]) := by
  have hd : deliveries (es ++ [.next r g]) = deliveries es := by
    rw [deliveries_append]
    exact List.append_nil _
  refine ⟨h.good, hd ▸ h.within, fun h0 => hd ▸ h.head h0, h.passing, h.past.snoc ?_⟩
  cases r with
  | msg t => exact ⟨rest, h.whole rest⟩
  | _ => trivial

theorem Holds.snoc {f g : Frame} {ds : List Delivery} (h : Holds f ds) (new : Delivery)
    (hq : g.fdq = (survivors ds ++ new.fds.filter (0 ≤ ·)).take 8)
    (ht : g.fdtot = (survivors ds ++ new.fds.filter (0 ≤ ·)).length)
    (hb : g.fdbad = (f.fdbad || new.trunc)) : Holds g (ds ++ [new]) := by
  have hs : survivors (ds ++ [new]) = survivors ds ++ new.fds.filter (0 ≤ ·) := by simp [survivors]
  refine ⟨hs ▸ hq, hs ▸ ht, ?_⟩
  rw [hb, h.fdbad, List.any_append]
  simp

/-- Truncation marks the framer, unless it passes an over-cap message. -/
theorem incomplete_same {g : Frame} (trunc : Bool) (hg : g.Good) :
    ∃ g', (if trunc then dbusFrameFdsIncomplete g else g) = g' ∧
    dbusFrameCursor g' = dbusFrameCursor g ∧
      g'.Good ∧ g'.fdq = g.fdq ∧ g'.fdtot = g.fdtot ∧ (g.skip = 0 → g'.fdbad = (g.fdbad || trunc)) ∧
      (0 < g.skip → g' = g) := by
  cases trunc with
  | false => exact ⟨g, rfl, rfl, hg, rfl, rfl, fun _ => (Bool.or_false _).symm, fun _ => rfl⟩
  | true =>
    by_cases hs : 0 < g.skip
    · have e : dbusFrameFdsIncomplete g = g := if_pos hs
      exact ⟨g, e, rfl, hg, rfl, rfl, fun h0 => by omega, fun _ => rfl⟩
    · have e : dbusFrameFdsIncomplete g = { g with fdbad := true } := if_neg hs
      exact ⟨_, e, rfl, ⟨⟨hg.ok.off, hg.ok.cap⟩, hg.fds⟩, rfl, rfl, fun _ => (Bool.or_true _).symm,
        fun h0 => absurd h0 hs⟩

/-- A receive inside the head message: its descriptors are queued as that message's. -/
theorem Tracked.receive {f g : Frame} {es qs : List Event} {d : Bytes}
    {fds moved : List Int} (trunc : Bool)
    (h : Tracked f es) (hd : 0 < d.length)
    (hwithin : dbusFrameReceived f + d.length ≤ dbusFrameReach f)
    (hroom : f.buf.length + d.length ≤ 8192) (hq : Queued (dbusFrameCommit f d) fds moved qs g)
    {es' : List Event} (hp : ∀ e ∈ es', e.plain = true) :
    Tracked (if trunc then dbusFrameFdsIncomplete g else g)
      (es ++ (es' ++ [.received (dbusFrameReceived f) d.length moved trunc])) := by
  obtain ⟨hcur, hbad, hskip, -⟩ := hq.same
  obtain ⟨g', e, hcur', hgood', hq', ht', hb', hpass⟩ :=
    incomplete_same trunc (hq.good (commit_good h.good hroom))
  rw [e, ← List.append_assoc]
  generalize hnew : (⟨dbusFrameReceived f, d.length, moved, trunc⟩ : Delivery) = new
  have hdel : deliveries ((es ++ es') ++ [.received (dbusFrameReceived f) d.length moved trunc]) =
      deliveries es ++ [new] := by
    rw [deliveries_append, deliveries_append, plain_delivery hp, List.append_nil, ← hnew]
    rfl
  have hs : g'.skip = f.skip := (congrArg Cursor.skip hcur').trans hskip
  have hpos : dbusFramePos g' = dbusFramePos f := congrArg Cursor.pos (hcur'.trans hcur)
  have hreach : dbusFrameReach f ≤ dbusFrameReach g' := by
    rw [reach_congr (hcur'.trans hcur)]
    exact reach_commit h.good.ok.off d
  refine ⟨hgood', ?_, fun h0 => ?_, fun h0 => ?_, (h.past.plain hp).snoc trivial⟩
  · rw [hdel]
    intro x hx
    rcases List.mem_append.mp hx with hx | hx
    · exact ⟨(h.within x hx).1, (h.within x hx).2.trans hreach⟩
    · rw [List.mem_singleton.mp hx, ← hnew]
      exact ⟨hd, hwithin.trans hreach⟩
  · have hf0 : f.skip = 0 := hs ▸ h0
    have hold := h.head hf0
    obtain ⟨h1, h2⟩ := hq.holds hf0 hold.fdq hold.fdtot
    have hat : dbusFramePos f ≤ new.pos := by
      rw [← hnew]
      show dbusFramePos f ≤ dbusFrameReceived f
      rw [received_eq h.good.ok.off]
      omega
    have hfilter : (deliveries es ++ [new]).filter (dbusFramePos g' ≤ ·.pos) =
        (deliveries es).filter (dbusFramePos f ≤ ·.pos) ++ [new] := by
      rw [hpos, List.filter_append]
      simp [hat]
    rw [hdel, hfilter]
    refine hold.snoc new ?_ ?_ ?_
    · rw [hq', ← hnew]
      exact h1
    · rw [ht', ← hnew]
      exact h2
    · rw [hb' (hskip.trans hf0), hbad, ← hnew]
      rfl
  · have hf0 : 0 < f.skip := by omega
    have hgf : g = dbusFrameCommit f d := hq.passing hf0
    have hg' : g' = g := hpass (by rw [hskip]; exact hf0)
    rw [hg', hgf]
    exact (h.passing hf0).congr rfl rfl rfl

theorem advanceEvents_plain (f : Frame) (r : Nat) : ∀ e ∈ advanceEvents f r, e.plain = true := by
  intro e he
  rcases List.mem_cons.mp he with rfl | he
  · rfl
  · exact closes_plain _ e he

/-- A head message consumed: `g` is the framer with some of its descriptors claimed. -/
theorem Tracked.advance {f g : Frame} {es es' : List Event} {r : Nat} (h : Tracked f es)
    (rest : AtRest f (.msg r))
    (hg : g.Good) (hc : dbusFrameCursor g = dbusFrameCursor f) (he : g.eof = f.eof)
    (hd : deliveries es' = []) (hp : AllRight (es ++ es')) : Tracked (dbusFrameAdvance g r).1
    (es ++ es') := by
  have rest' : AtRest g (.msg r) := rest.congr hc he
  obtain ⟨hs, ht, hcap, hl⟩ := rest'.whole_inv
  have hreach := reach_total hs ((messageTotal_ge ht).trans hl) ht
  rw [reach_congr hc] at hreach
  have e := rest'.advance hg.ok.off
  refine h.consumed (rest'.advance_good hg) ?_ ?_ hd hp
  · rw [hreach, e]
    show g.abs0 + g.off + r ≤ g.abs0 + (g.off + r)
    omega
  · rw [e]
    exact Holds.nil rfl rfl rfl

theorem claim_mem {f g : Frame} {i fd : Int} (h : dbusFrameClaimFd f i = (fd, g)) (h0 : 0 ≤ fd) :
    fd ∈ f.fdq := by
  unfold dbusFrameClaimFd at h
  split at h
  · cases h
    omega
  · split at h
    · cases h
      omega
    · next hi hlen =>
      cases h
      have : i.toNat < f.fdq.length := by omega
      rw [List.getD_eq_getElem _ _ this]
      exact List.getElem_mem this

/-- **What one move does to the account.** -/
theorem Step.tracked {s : Nat} {w w' : World} {es : List Event} (hstep : Step s w w')
    (h : Tracked w.fr es) : ∃ es', w'.trace = w.trace ++ es' ∧ Tracked w'.fr (es ++ es') := by
  have still {es' : List Event} (hfr : w'.fr = w.fr) (ht : w'.trace = w.trace ++ es')
      (hp : ∀ e ∈ es', e.plain = true) : ∃ es', w'.trace = w.trace ++ es' ∧
      Tracked w'.fr (es ++ es') := by
    refine ⟨es', ht, ?_⟩
    rw [hfr]
    exact h.same h.good rfl rfl rfl rfl hp
  cases hstep with
  | quiet hq => exact still hq.fr hq.trace (offers_plain hq.offers)
  | lost => exact still rfl (List.append_nil _).symm (by simp)
  | next rest pass =>
    refine ⟨_, rfl, ?_⟩
    rw [← List.append_assoc]
    exact (h.passed pass).yields rest
  | @advance r rest =>
    have hp := advanceEvents_plain w.fr r
    exact ⟨_, rfl, h.advance rest h.good rfl rfl (plain_delivery hp) (h.past.plain hp)⟩
  | answered rest hv => exact still rfl rfl (by simp [Event.plain])
  | prepare hp =>
    refine ⟨[], (List.append_nil _).symm, h.same (hp.good h.good) hp.cursor hp.fdq hp.fdtot
      hp.fdbad (by simp)⟩
  | eof =>
    exact ⟨[], (List.append_nil _).symm, h.same (setEof_good h.good) rfl rfl rfl rfl (by simp)⟩
  | recvNone anc trunc hn hfr hdbm hdbs hin ht =>
    refine still hfr ht fun e he => ?_
    rcases List.mem_cons.mp he with rfl | he
    · rfl
    · split at he
      · exact closes_plain _ e he
      · cases he
  | @receive w' fd want flags d anc trunc moved qs g rest hd hwithin hroom hin hq hfr
      hdbm hdbs ht =>
    refine ⟨_, ht, ?_⟩
    rw [hfr, ← List.cons_append]
    refine h.receive trunc hd hwithin hroom hq fun e he => ?_
    rcases List.mem_cons.mp he with rfl | he
    · rfl
    · exact (List.mem_append.mp he).elim (closes_plain _ e) (hq.same.2.2.2 e)
  | @take w₁ w' r i fd g qs ok rest hc h0 hq he =>
    obtain ⟨hg, hcur, heof, -⟩ := claim_good hc h.good
    have hplain :
      ∀ e ∈ qs ++ (if ok then advanceEvents g r ++ [Event.handed fd] else Event.close fd ::
      advanceEvents g r),
        e.plain = true := by
      intro e he
      rcases List.mem_append.mp he with he | he
      · exact offers_plain hq.offers e he
      · cases ok with
        | true =>
          rcases List.mem_append.mp he with he | he
          · exact advanceEvents_plain g r e he
          · rw [List.mem_singleton.mp he]
            rfl
        | false =>
          rcases List.mem_cons.mp he with rfl | he
          · rfl
          · exact advanceEvents_plain g r e he
    refine ⟨_, take_trace hq he, ?_⟩
    rw [he, emit_fr]
    refine h.advance rest hg hcur heof ?_ ?_
    · rw [deliveries_append, plain_delivery hplain]
      rfl
    · have yielded : AllRight (es ++ [.next (.msg r) w.fr]) := h.past.snoc ⟨rest, h.whole rest⟩
      have claimed := yielded.snoc (e := .claimed fd) ⟨es, r, w.fr, rfl, claim_mem hc h0⟩
      have past := claimed.plain hplain
      rwa [List.append_assoc, List.append_assoc] at past

theorem tracked_account : Account Tracked where
  step hstep h := hstep.tracked h
  offers h ho := h.same h.good rfl rfl rfl rfl (offers_plain ho)

theorem Idle.tracked {f : Frame} (h : Idle f) : Tracked f [] :=
  ⟨h.good, by simp [deliveries], fun _ => Holds.nil h.fdq h.fdtot h.fdbad, fun hs => by
    have := h.skip
    omega, AllRight.nil⟩

/-! ## What the session layer accounts for is what the kernel delivered -/

/-- An event that brings, moves and accounts for nothing. -/
def Event.calm : Event → Bool
  | .recv _ _ _ _ _ _ _ => false
  | .dupfd _ _ => false
  | .received _ _ _ _ => false
  | _ => true

/-- A message yielded or a descriptor claimed. -/
def Event.attributes : Event → Bool
  | .next _ _ => true
  | .claimed _ => true
  | _ => false

/-- Nothing of `es` is brought, moved or accounted for. -/
structure Still (es : List Event) : Prop where
  accounted : deliveries es = []
  bytes : inbound es = []
  settled : movedTo es = []
  arrived : ∀ p, arrivals p es = []

theorem calm_still {es : List Event} (h : ∀ e ∈ es, e.calm = true) : Still es := by
  induction es with
  | nil => exact ⟨rfl, rfl, rfl, fun _ => rfl⟩
  | cons e es ih =>
    obtain ⟨hd, hi, hm, ha⟩ := ih fun e he => h e (List.mem_cons_of_mem _ he)
    have here := h e List.mem_cons_self
    cases e <;> first | exact ⟨hd, hi, hm, ha⟩ | cases here

theorem offers_calm {es : List Event} (h : ∀ e ∈ es, e.offers = true) :
    ∀ e ∈ es, e.calm = true := by
  intro e he
  have := h e he
  cases e <;> first | rfl | cases this

theorem closes_calm (fds : List Int) : ∀ e ∈ fds.map Event.close, e.calm = true := by
  intro e he
  obtain ⟨fd, -, rfl⟩ := List.mem_map.mp he
  rfl

theorem advanceEvents_calm (f : Frame) (r : Nat) : ∀ e ∈ advanceEvents f r, e.calm = true := by
  intro e he
  rcases List.mem_cons.mp he with rfl | he
  · rfl
  · exact closes_calm _ e he

theorem yield_calm (fds : List Int) (r : FrameStatus) (g : Frame) :
    ∀ e ∈ fds.map Event.close ++ [.next r g], e.calm = true := by
  intro e he
  rcases List.mem_append.mp he with he | he
  · exact closes_calm fds e he
  · rw [List.mem_singleton.mp he]
    rfl

/-- The stream is read from `start` on: every byte received is in the framer's
count, and whenever a message is yielded or a descriptor claimed, the deliveries
accounted for are those the kernel made. -/
structure Sourced (start : Nat) (f : Frame) (es : List Event) : Prop where
  count : dbusFrameReceived f = start + (inbound es).length
  now : deliveries es = delivered start es
  past : ∀ es₁ e es₂, es = es₁ ++ e :: es₂ → e.attributes = true →
    deliveries es₁ = delivered start es₁

theorem Sourced.calm {start : Nat} {f g : Frame} {es es' : List Event} (h : Sourced start f es)
    (hr : dbusFrameReceived g = dbusFrameReceived f) (hc : ∀ e ∈ es', e.calm = true) :
    Sourced start g (es ++ es') := by
  have more {l : List Event} (hl : ∀ e ∈ l, e.calm = true) :
      deliveries (es ++ l) = delivered start (es ++ l) := by
    obtain ⟨hd, -, hm, ha⟩ := calm_still hl
    rw [deliveries_append, hd, delivered, arrivals_append hm, ha, List.append_nil, List.append_nil]
    exact h.now
  refine ⟨?_, more hc, fun es₁ e es₂ heq he => ?_⟩
  · rw [hr, h.count, inbound_append, (calm_still hc).bytes, List.append_nil]
  · rcases List.append_eq_append_iff.mp heq with ⟨c, hc', rest⟩ | ⟨c, hc', rest⟩
    · rw [hc']
      exact more fun x hx => hc x (rest ▸ List.mem_append_left _ hx)
    · cases c with
      | nil => exact (List.append_nil es₁ ▸ hc') ▸ h.now
      | cons x c =>
        injection rest with hx _
        exact h.past es₁ e c (by rw [hc', hx]) he

/-- A block in which nothing is yielded or claimed. -/
theorem Sourced.landed {start : Nat} {f g : Frame} {es es' : List Event} (h : Sourced start f es)
    (hr : dbusFrameReceived g = dbusFrameReceived f + (inbound es').length)
    (hm : movedTo es' = []) (ha : ∀ e ∈ es', e.attributes = false)
    (hd : deliveries es' = delivered (dbusFrameReceived f) es') : Sourced start g (es ++ es') := by
  refine ⟨?_, ?_, fun es₁ e es₂ heq he => ?_⟩
  · rw [hr, h.count, inbound_append, List.length_append, Nat.add_assoc]
  · rw [deliveries_append, h.now, hd, delivered, delivered, delivered, arrivals_append hm,
      List.map_append, h.count]
  · rcases List.append_eq_append_iff.mp heq with ⟨c, hc, rest⟩ | ⟨c, hc, rest⟩
    · have := ha e (rest ▸ List.mem_append_right _ List.mem_cons_self)
      rw [he] at this
      cases this
    · cases c with
      | nil =>
        have := ha e (rest.symm ▸ List.mem_cons_self : e ∈ [] ++ es')
        rw [he] at this
        cases this
      | cons x c =>
        injection rest with hx _
        exact h.past es₁ e c (by rw [hc, hx]) he

theorem push_received (f : Frame) (fd : Int) :
    dbusFrameReceived (dbusFramePushFd f fd).1 = dbusFrameReceived f := by
  unfold dbusFramePushFd
  repeat' split
  all_goals rfl

theorem advance_received (f : Frame) (r : Nat) :
    dbusFrameReceived (dbusFrameAdvance f r).1 = dbusFrameReceived f := by
  unfold dbusFrameAdvance
  split <;> rfl

theorem claim_received {f g : Frame} {i fd : Int} (h : dbusFrameClaimFd f i = (fd, g)) :
    dbusFrameReceived g = dbusFrameReceived f := by
  unfold dbusFrameClaimFd at h
  split at h
  · cases h
    rfl
  · split at h <;> (cases h; rfl)

theorem pushEvents_dups (f : Frame) (fd : Int) : (pushEvents f fd).filterMap Event.dup = [] := by
  refine List.filterMap_eq_nil_iff.mpr fun e he => ?_
  rcases List.mem_append.mp he with he | he
  · split at he
    · rw [List.mem_singleton.mp he]
      rfl
    · cases he
  · obtain ⟨_, -, rfl⟩ := List.mem_map.mp he
    rfl

/-- What became of the descriptors of a receive is read off F_DUPFD's answers. -/
theorem Queued.source {f g : Frame} {fds moved : List Int} {es : List Event}
    (h : Queued f fds moved es g) : aboveStdio fds (es.filterMap Event.dup) = moved ∧
      dbusFrameReceived g = dbusFrameReceived f := by
  induction h with
  | nil f => exact ⟨rfl, rfl⟩
  | @keep f g fd rest moved es hfd hq ih =>
    refine ⟨?_, ih.2.trans (push_received f fd)⟩
    rw [List.filterMap_append, pushEvents_dups, List.nil_append, aboveStdio, if_pos hfd, ih.1]
  | @move f g fd nfd rest moved es hfd hq ih =>
    refine ⟨?_, ih.2.trans (push_received f nfd)⟩
    rw [List.filterMap_append, List.filterMap_append, pushEvents_dups, List.append_nil]
    show aboveStdio (fd :: rest) (nfd :: es.filterMap Event.dup) = nfd :: moved
    rw [aboveStdio, if_neg (by omega)]
    exact congrArg (nfd :: ·) ih.1

/-- An event of the descriptors of a receive being moved and queued. -/
def Event.queueing : Event → Bool
  | .queued _ => true
  | .close _ => true
  | .dupfd _ _ => true
  | _ => false

theorem closes_queueing (fds : List Int) : ∀ e ∈ fds.map Event.close, e.queueing = true := by
  intro e he
  obtain ⟨fd, -, rfl⟩ := List.mem_map.mp he
  rfl

theorem pushEvents_queueing (f : Frame) (fd : Int) :
    ∀ e ∈ pushEvents f fd, e.queueing = true := by
  intro e he
  rcases List.mem_append.mp he with he | he
  · split at he
    · rw [List.mem_singleton.mp he]
      rfl
    · cases he
  · exact closes_queueing _ e he

theorem Queued.queueing {f g : Frame} {fds moved : List Int} {es : List Event}
    (h : Queued f fds moved es g) : ∀ e ∈ es, e.queueing = true := by
  induction h with
  | nil f => simp
  | @keep f g fd rest moved es hfd hq ih =>
    intro e he
    exact (List.mem_append.mp he).elim (pushEvents_queueing f fd e) (ih e)
  | @move f g fd nfd rest moved es hfd hq ih =>
    intro e he
    rcases List.mem_append.mp he with he | he
    · rcases List.mem_append.mp he with he | he
      · rcases List.mem_cons.mp he with rfl | he
        · rfl
        · rw [List.mem_singleton.mp he]
          rfl
      · exact pushEvents_queueing f nfd e he
    · exact ih e he

/-- The events after a receive, up to the account of it. -/
theorem queueing_account {qs : List Event} (h : ∀ e ∈ qs, e.queueing = true) (pos n : Nat)
    (moved : List Int) (trunc : Bool) :
    deliveries (qs ++ [.received pos n moved trunc]) = [⟨pos, n, moved, trunc⟩] ∧
      inbound (qs ++ [.received pos n moved trunc]) = [] ∧
      movedTo (qs ++ [.received pos n moved trunc]) = qs.filterMap Event.dup ∧
      (∀ start, arrivals start (qs ++ [.received pos n moved trunc]) = []) ∧
      ∀ e ∈ qs ++ [.received pos n moved trunc], e.attributes = false := by
  induction qs with
  | nil => exact ⟨rfl, rfl, rfl, fun _ => rfl, by simp [Event.attributes]⟩
  | cons e qs ih =>
    obtain ⟨hd, hi, hm, ha, hn⟩ := ih fun e he => h e (List.mem_cons_of_mem _ he)
    have here := h e List.mem_cons_self
    have others : e.attributes = false → ∀ x ∈ e :: (qs ++ [.received pos n moved trunc]),
        x.attributes = false := by
      rintro he x hx
      rcases List.mem_cons.mp hx with rfl | hx
      · exact he
      · exact hn x hx
    cases e with
    | queued fd => exact ⟨hd, hi, hm, ha, others rfl⟩
    | close fd => exact ⟨hd, hi, hm, ha, others rfl⟩
    | dupfd fd new => exact ⟨hd, hi, congrArg (new :: ·) hm, ha, others rfl⟩
    | _ => cases here

/-- The events `es` of a receive of the bytes `d`, with the descriptors `sent`, which
became `moved`, and the account of it. -/
structure Lands (es : List Event) (pos : Nat) (d : Bytes) (sent moved : List Int)
    (trunc : Bool) : Prop where
  accounted : deliveries es = [⟨pos, d.length, moved, trunc⟩]
  bytes : inbound es = d
  settled : movedTo es = []
  plain : ∀ e ∈ es, e.attributes = false
  arrived : ∀ p, arrivals p es = [⟨⟨p, d.length, moved, trunc⟩, sent⟩]

theorem Queued.lands {f g : Frame} {d : Bytes} {anc : Ancillary} {moved : List Int}
    {qs : List Event}
    (hq : Queued f (dbusSysParseRights (anc.bytes.take 1032)).1 moved qs g) (hd : 0 < d.length)
    (fd n : Int) (want flags pos : Nat) (trunc : Bool) :
    Lands (.recv fd want flags n d anc trunc ::
      ((dbusSysParseRights (anc.bytes.take 1032)).2.map Event.close ++ qs ++
        [.received pos d.length moved trunc])) pos d anc.carried moved trunc := by
  have queueing : ∀ e ∈ (dbusSysParseRights (anc.bytes.take 1032)).2.map Event.close ++ qs,
      e.queueing = true :=
    fun e he => (List.mem_append.mp he).elim (closes_queueing _ e) (hq.queueing e)
  obtain ⟨hds, hi, hm, ha, hn⟩ := queueing_account queueing pos d.length moved trunc
  have dups : ((dbusSysParseRights (anc.bytes.take 1032)).2.map Event.close ++ qs).filterMap
      Event.dup = qs.filterMap Event.dup := by
    rw [List.filterMap_append, List.filterMap_map]
    simp [Function.comp_def, Event.dup]
  have bytes : d ≠ [] := List.length_pos_iff.mp hd
  refine ⟨hds, ?_, rfl, fun e he => ?_, fun p => ?_⟩
  · show d ++ inbound _ = d
    rw [hi, List.append_nil]
  · rcases List.mem_cons.mp he with rfl | he
    · rfl
    · exact hn e he
  · rw [arrivals, if_neg bytes, ha, hm, dups, ← anc.collects, hq.source.1]

theorem fdsIncomplete_received (trunc : Bool) (f : Frame) :
    dbusFrameReceived (if trunc then dbusFrameFdsIncomplete f else f) = dbusFrameReceived f := by
  unfold dbusFrameFdsIncomplete
  split
  · split <;> rfl
  · rfl

/-- A receive that brought no byte: what came with it is closed and not accounted for. -/
theorem recvNone_still (fd : Int) (want flags : Nat) (n : Int) (anc : Ancillary) (trunc : Bool) :
    ∃ fds : List Int, Still (.recv fd want flags n [] anc trunc :: fds.map Event.close) ∧
      (∀ e ∈ Event.recv fd want flags n [] anc trunc :: fds.map Event.close,
        e.attributes = false) ∧
      (if 0 ≤ n then (dbusSysParseRights (anc.bytes.take 1032)).2.map Event.close else []) =
        fds.map Event.close := by
  have block (fds : List Int) :
      Still (.recv fd want flags n [] anc trunc :: fds.map Event.close) ∧
      ∀ e ∈ Event.recv fd want flags n [] anc trunc :: fds.map Event.close,
        e.attributes = false := by
    obtain ⟨hd, hi, hm, ha⟩ := calm_still (closes_calm fds)
    refine ⟨⟨hd, hi, rfl, ha⟩, fun e he => ?_⟩
    rcases List.mem_cons.mp he with rfl | he
    · rfl
    · obtain ⟨x, -, rfl⟩ := List.mem_map.mp he
      rfl
  split
  · exact ⟨_, (block _).1, (block _).2, rfl⟩
  · exact ⟨[], (block []).1, (block []).2, rfl⟩

/-- What a descriptor claimed, looked at and disposed of shows. -/
theorem taken_calm {f g : Frame} {qs : List Event} (hqs : ∀ e ∈ qs, e.offers = true) (r : Nat)
    (fd : Int) (ok : Bool) : ∀ e ∈ [.next (.msg r) f, .claimed fd] ++ (qs ++
      if ok then advanceEvents g r ++ [Event.handed fd] else Event.close fd :: advanceEvents g r),
      e.calm = true := by
  intro e hm
  rcases List.mem_append.mp hm with hm | hm
  · rcases List.mem_cons.mp hm with rfl | hm
    · rfl
    · rw [List.mem_singleton.mp hm]
      rfl
  rcases List.mem_append.mp hm with hm | hm
  · exact offers_calm hqs e hm
  cases ok with
  | true =>
    rcases List.mem_append.mp hm with hm | hm
    · exact advanceEvents_calm g r e hm
    · rw [List.mem_singleton.mp hm]
      rfl
  | false =>
    rcases List.mem_cons.mp hm with rfl | hm
    · rfl
    · exact advanceEvents_calm g r e hm

/-- **One move keeps the account the kernel's.** -/
theorem Step.sourced {s start : Nat} {w w' : World} {es : List Event} (hstep : Step s w w')
    (h : Sourced start w.fr es) : ∃ es', w'.trace = w.trace ++ es' ∧
    Sourced start w'.fr (es ++ es') := by
  have nothing : ∀ e ∈ ([] : List Event), e.calm = true := by simp
  cases hstep with
  | quiet hq => exact ⟨_, hq.trace, h.calm (by rw [hq.fr]) (offers_calm hq.offers)⟩
  | lost => exact ⟨[], (List.append_nil _).symm, h.calm rfl nothing⟩
  | @next r g c rest pass =>
    refine ⟨_, rfl, h.calm ?_ (yield_calm c r g)⟩
    simp only [emit_fr, dbusFrameReceived, pass.abs0, pass.buf]
  | advance rest =>
    exact ⟨_, rfl, h.calm (advance_received _ _) (advanceEvents_calm _ _)⟩
  | answered rest hv => exact ⟨_, rfl, h.calm rfl (by simp [Event.calm])⟩
  | prepare hp => exact ⟨[], (List.append_nil _).symm, h.calm hp.received nothing⟩
  | eof => exact ⟨[], (List.append_nil _).symm, h.calm rfl nothing⟩
  | @recvNone w' fd n want flags anc trunc hn hfr hdbm hdbs hin ht =>
    obtain ⟨fds, still, plain, closes⟩ := recvNone_still fd want flags n anc trunc
    rw [closes] at ht
    refine ⟨_, ht, h.landed ?_ still.settled plain ?_⟩
    · rw [hfr, still.bytes]
      rfl
    · rw [still.accounted, delivered, still.arrived]
      rfl
  | @receive w' fd want flags d anc trunc moved qs g rest hd hwithin hroom hin hq hfr
      hdbm hdbs ht =>
    have lands := hq.lands hd fd d.length want flags (dbusFrameReceived w.fr) trunc
    refine ⟨_, ht, h.landed ?_ lands.settled lands.plain ?_⟩
    · rw [hfr, fdsIncomplete_received, hq.source.2, lands.bytes]
      simp only [dbusFrameReceived, dbusFrameCommit, List.length_append]
      omega
    · rw [lands.accounted, delivered, lands.arrived]
      rfl
  | @take w₁ w' r i fd g qs ok rest hc h0 hq he =>
    refine ⟨_, take_trace hq he, h.calm ?_ (taken_calm hq.offers r fd ok)⟩
    rw [he, emit_fr]
    exact (advance_received g r).trans (claim_received hc)

theorem sourced_account (start : Nat) : Account (Sourced start) where
  step hstep h := hstep.sourced h
  offers h ho := h.calm rfl (offers_calm ho)

theorem Sourced.start (f : Frame) : Sourced (dbusFrameReceived f) f [] :=
  ⟨rfl, rfl, by simp⟩

/-- **Descriptor attribution.** On a connection whose SASL phase ended in `w₀`,
whatever operations are run and whatever the kernel answers: a message yielded at
stream positions `[a, a + r)` has queued exactly the first eight of the
descriptors that arrived with the receives inside it and that survived the move
above stdio; the total is their number, and the truncation mark says whether one
of those receives was truncated. A descriptor claimed is claimed of the message
just yielded, and is one of its eight. -/
theorem queue_attribution (f₀ : Frame) (fd bus rc : Int) (w w₀ : World)
    (hinit : w.fr = (dbusFrameInit f₀).1)
    (hsasl : dbusSessionSasl fd w = .done rc w₀) (ops : List BusOp)
    (es₁ es₂ : List Event) (e : Event)
    (hrun : (runOps bus ops w₀).state.trace = w₀.trace ++ (es₁ ++ e :: es₂)) :
    (∀ r f, e = .next (.msg r) f →
      let ds := inside (dbusFramePos f) (dbusFramePos f + r)
        (delivered (dbusFrameReceived w₀.fr) es₁)
      messageTotal (dbusFrameBase f) = .ok r ∧ r ≤ 8192 ∧ f.fdq = (survivors ds).take 8 ∧
        f.fdtot = (survivors ds).length ∧ f.fdbad = ds.any (·.trunc)) ∧
    (∀ d, e = .claimed d → ∃ es₀ r f, es₁ = es₀ ++ [.next (.msg r) f] ∧
      d ∈ (survivors (inside (dbusFramePos f) (dbusFramePos f + r)
        (delivered (dbusFrameReceived w₀.fr) es₀))).take 8) := by
  have hidle : Idle w₀.fr := by
    have start : Exchanging w w := .start (hinit ▸ init_idle f₀)
    exact ((sasl_exchanging fd w).of_done start hsasl).idle
  obtain ⟨es', ht, hright⟩ :=
    tracked_account.run (J := fun _ es => AllRight es) bus (fun h => h.past)
    (fun h => h.past.plain (closes_plain _)) ops hidle.good hidle.tracked
  obtain ⟨es'', ht', hpast⟩ :=
    (sourced_account (dbusFrameReceived w₀.fr)).run
      (J := fun _ es => ∃ f, Sourced (dbusFrameReceived w₀.fr) f es) bus (fun h => ⟨_, h⟩)
      (fun {f es} h => ⟨f, h.calm rfl (closes_calm _)⟩) ops hidle.good (.start w₀.fr)
  have e' : es' = es₁ ++ e :: es₂ := List.append_cancel_left (ht.symm.trans hrun)
  have e'' : es'' = es₁ ++ e :: es₂ := List.append_cancel_left (ht'.symm.trans hrun)
  obtain ⟨f', sourced⟩ := hpast
  have right : Right es₁ e := hright es₁ e es₂ e'
  constructor
  · rintro r f rfl
    obtain ⟨rest, hq, htot, hb⟩ := right
    rw [sourced.past es₁ _ es₂ e'' rfl] at hq htot hb
    exact ⟨rest.whole_inv.2.1, rest.whole_inv.2.2.1, hq, htot, hb⟩
  · rintro d rfl
    obtain ⟨es₀, r, f, rfl, hmem⟩ := right
    rw [List.append_assoc] at e' e''
    obtain ⟨-, hq, -⟩ := hright es₀ (.next (.msg r) f) (.claimed d :: es₂) e'
    rw [sourced.past es₀ _ _ e'' rfl] at hq
    exact ⟨es₀, r, f, rfl, hq ▸ hmem⟩

/-- Descriptor 7, on its own. -/
def descriptorSeven : Ancillary := { cmsgs := [.rights [7]] }

/-- TakeDevice's reply to the first call of a connection, with one descriptor. -/
def firstTakeReply : Marshal :=
  let m := dbusMarshalFieldU32 (dbusMarshalBegin 2 0 1) dbusMarshalFReplyser 1
  let m := dbusMarshalFieldSig m dbusMarshalFSignature (lit "hb") 2
  let m := dbusMarshalFieldU32 m dbusMarshalFUnixfds 1
  (dbusMarshalFinish (dbusMarshalBodyBool (dbusMarshalBodyU32 (dbusMarshalEndFields m) 0) 0)).2

/-- A connection about to exchange; the reply will bring descriptor 7, the device 226:0. -/
def oneTake : World where
  k := {
    alloc := [true, true]
    clock := List.replicate 6 {}
    send := [48, 144]
    poll := List.replicate 4 1
    recv := [{ ret := 58 }, { ret := 16, anc := descriptorSeven }, { ret := 32 }]
    fcntl := [2]
    statx := [{ mode := 8192, rdevMajor := 226 }]
    inbox := lit "DATA\r\nOK 0123456789abcdef0123456789abcdef\r\nAGREE_UNIX_FD\r\n" ++
      firstTakeReply.buf }

/-- The reply is yielded with its descriptor queued, which is then claimed. -/
theorem queue_attribution_one_take :
    let es := (runOps 5 [.takeDevice (some (lit "/s")) 226 0]
      (dbusSessionSasl 5 oneTake).state).state.trace.drop 5
    ∃ f, es = es.take 16 ++ .next (.msg 48) f :: .claimed 7 :: es.drop 18 ∧
      f.fdq = (survivors (inside 58 106 (delivered 58 (es.take 16)))).take 8 ∧
      7 ∈ (survivors (inside 58 106 (delivered 58 (es.take 16)))).take 8 := by
  intro es
  let f : Frame := { buf := oneTake.k.inbox, off := 58, fdq := [7], fdtot := 1 }
  have run : (runOps 5 [.takeDevice (some (lit "/s")) 226 0]
      (dbusSessionSasl 5 oneTake).state).state.trace =
      (dbusSessionSasl 5 oneTake).state.trace ++
        (es.take 16 ++ .next (.msg 48) f :: .claimed 7 :: es.drop 18) := by
    decide +kernel
  have yields := queue_attribution {} 5 5 0 oneTake (dbusSessionSasl 5 oneTake).state rfl (by rfl)
    [.takeDevice (some (lit "/s")) 226 0] (es.take 16) (.claimed 7 :: es.drop 18)
    (.next (.msg 48) f) run
  have claims (a b : List Event) (h : (runOps 5 [.takeDevice (some (lit "/s")) 226 0]
      (dbusSessionSasl 5 oneTake).state).state.trace =
      (dbusSessionSasl 5 oneTake).state.trace ++ (a ++ .next (.msg 48) f :: .claimed 7 :: b)) :
      7 ∈ (survivors (inside 58 106 (delivered 58 a))).take 8 := by
    rw [List.append_cons a] at h
    obtain ⟨es₀, r, g, split, mem⟩ := (queue_attribution {} 5 5 0 oneTake
      (dbusSessionSasl 5 oneTake).state rfl (by rfl) [.takeDevice (some (lit "/s")) 226 0]
      (a ++ [.next (.msg 48) f]) b (.claimed 7) h).2 7 rfl
    obtain ⟨rfl, last⟩ := List.append_inj' split rfl
    cases last
    exact mem
  exact ⟨f, by decide +kernel, (yields.1 48 f rfl).2.2.1, claims _ _ run⟩

end Samvada
