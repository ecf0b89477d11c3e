import Mathlib.Algebra.Order.Group.Multiset
import Mathlib.Tactic.Abel
import Samvada.Lib.Ledger
import Samvada.ControlBuffer
import Samvada.Handing
import Samvada.Handshake

/- Where every descriptor is. The trace is read as a ledger: a receive, socket()
   and fcntl(F_DUPFD) acquire, close() closes, a device handed out is given away.
   Between calls what is held is what the framer has queued and the bus's own
   socket, so nothing is lost, closed twice, or closed after it was given away. -/
namespace Samvada
open Octets Framing Ledger Resumable Resumable.Prog Relation

/-! ## Each descriptor received -/

/-- What the receive array keeps and what is closed are together what was found. -/
theorem rxAdd_sum (es : List (Bool × Int)) (s : List Int × List Int) :
    ((es.foldl dbusRxAdd s).1 : Multiset Int) + (es.foldl dbusRxAdd s).2 =
      (s.1 : Multiset Int) + s.2 + ((es.map Prod.snd : List Int) : Multiset Int) := by
  induction es generalizing s with
  | nil => simp
  | cons e es ih =>
    rw [List.foldl_cons, ih, List.map_cons, ← Multiset.cons_coe, ← Multiset.singleton_add]
    unfold dbusRxAdd
    split
    · show ((s.1 ++ [e.2] : List Int) : Multiset Int) + s.2 + _ = _
      rw [← Multiset.coe_add, Multiset.coe_singleton]
      abel
    · show (s.1 : Multiset Int) + ((s.2 ++ [e.2] : List Int) : Multiset Int) + _ = _
      rw [← Multiset.coe_add, Multiset.coe_singleton]
      abel

/-- The descriptors a receive installs. -/
def Ancillary.nums (a : Ancillary) : List Int := a.fds.map fun fd => (fd.val : Int)

/-- **No descriptor is overlooked**: each one installed is in the receive array, or closed. -/
theorem parseRights_sum (a : Ancillary) :
    ((dbusSysParseRights (a.bytes.take 1032)).1 : Multiset Int) +
    (dbusSysParseRights (a.bytes.take 1032)).2 = a.nums := by
  have found : (a.cmsgs.flatMap Cmsg.entries).map Prod.snd = a.nums := by
    rw [Ancillary.nums, Ancillary.fds, List.map_flatMap, List.map_flatMap]
    refine congrArg (List.flatMap · a.cmsgs) (funext fun c => ?_)
    cases c with
    | rights fds => simp [Cmsg.entries, Cmsg.fds, Function.comp_def]
    | creds data => rfl
    | pidfd fd => rfl
  rw [a.parsed, rxAdd_sum, ← found]
  simp

theorem parseRights_none {a : Ancillary} (h : a.nums = []) :
    (dbusSysParseRights (a.bytes.take 1032)).1 = [] ∧
    (dbusSysParseRights (a.bytes.take 1032)).2 = [] := by
  have sum := parseRights_sum a
  rw [h, Multiset.coe_nil, Multiset.coe_add, Multiset.coe_eq_zero] at sum
  exact List.append_eq_nil_iff.mp sum

/-! ## The trace as a ledger -/

def Event.moves : Event → List (Move Int)
  | .recv _ _ _ _ _ anc _ => anc.nums.map .acquire
  | .socket fd => if 0 ≤ fd then [.acquire fd] else []
  | .dupfd _ new => if 0 ≤ new then [.acquire new] else []
  | .close fd => [.close fd]
  | .handed fd => [.give fd]
  | .returned fd => [.returned fd]
  | _ => []

/-- What happened to descriptors, in order. -/
def history (es : List Event) : List (Move Int) := es.flatMap Event.moves

@[simp] theorem history_append (es es' : List Event) : history (es ++ es') = history
    es ++ history es' :=
  List.flatMap_append

@[simp] theorem history_cons (e : Event) (es : List Event) :
    history (e :: es) = e.moves ++ history es :=
  List.flatMap_cons

@[simp] theorem history_nil : history [] = [] := rfl

theorem history_eq_nil {es : List Event} (h : ∀ e ∈ es, e.moves = []) : history es = [] :=
  List.flatMap_eq_nil_iff.mpr h

@[simp] theorem history_closes (fds : List Int) :
    history (fds.map Event.close) = fds.map .close := by
  induction fds with
  | nil => rfl
  | cons fd fds ih =>
    rw [List.map_cons, history_cons, ih]
    rfl

theorem history_offers {es : List Event} (h : ∀ e ∈ es, e.offers = true) : history es = [] := by
  refine history_eq_nil fun e he => ?_
  have := h e he
  cases e <;> first | rfl | cases this

/-- What the kernel answers: descriptors come only with bytes, and F_DUPFD gives no
number below the 3 it is asked for. -/
def Event.lawful : Event → Prop
  | .recv _ _ _ n _ anc _ => n ≤ 0 → anc.nums = []
  | .dupfd _ new => 0 ≤ new → 2 < new
  | _ => True

/-- What the kernel and the consumer are taken to do: no number is installed while
it is open, and the consumer closes what it was handed, once. -/
structure Lawful (es : List Event) : Prop where
  each : ∀ e ∈ es, e.lawful
  honest : Honest (history es)

instance (e : Event) : Decidable e.lawful := by
  cases e <;> unfold Event.lawful <;> infer_instance

instance (es : List Event) : Decidable (Lawful es) :=
  decidable_of_iff ((∀ e ∈ es, e.lawful) ∧ Honest (history es))
    ⟨fun h => ⟨h.1, h.2⟩, fun h => ⟨h.1, h.2⟩⟩

theorem Lawful.left {es es' : List Event} (h : Lawful (es ++ es')) : Lawful es where
  each e he := h.each e (List.mem_append_left _ he)
  honest := by
    have := h.honest
    rw [history_append] at this
    exact this.left

/-! ## The account -/

/-- What the framer has queued. -/
abbrev Frame.queue (f : Frame) : Multiset Int := (f.fdq : Multiset Int)

/-- **The account** between operations: what is open and not given away is what is
queued, and the sockets. The trace only grows: `base` is where it started. -/
structure Kept (base : List Event) (socks : List Int) (f : Frame) (es : List Event) : Prop where
  good : f.Good
  past : base <+: es
  after : Lawful es → After (history es) (f.queue + socks)

namespace Kept
variable {base : List Event} {socks : List Int} {f g : Frame} {es es' : List Event}

theorem step {socks' : List Int} (h : Kept base socks f es) (hg : g.Good)
    (hs : Lawful (es ++ es') → After (history es) (f.queue + socks) →
      After (history es ++ history es') (g.queue + socks')) : Kept base socks' g (es ++ es') where
  good := hg
  past := h.past.trans (List.prefix_append es es')
  after hl := by
    rw [history_append]
    exact hs hl (h.after hl.left)

/-- Nothing happens to a descriptor. -/
theorem still (h : Kept base socks f es) (hg : g.Good) (hq : g.fdq = f.fdq)
    (hm : history es' = []) : Kept base socks g (es ++ es') :=
  h.step hg fun _ ha => by
    rw [hm, List.append_nil, Frame.queue, hq]
    exact ha

/-- Part of the queue is closed. -/
theorem closes (h : Kept base socks f es) (hg : g.Good) {c : List Int} (hq : f.queue = g.queue + c)
    (hm : history es' = c.map .close) : Kept base socks g (es ++ es') :=
  h.step hg fun _ ha => by
    rw [hm]
    refine (ha.of_eq ?_).closes
    rw [hq]
    abel

theorem anywhere (h : Kept base socks f es) : Kept [] socks f es :=
  ⟨h.good, List.nil_prefix, h.after⟩

theorem acquire (h : Kept base socks f es) {fd : Int} (hm : history es' = [.acquire fd]) :
    Kept base (fd :: socks) f (es ++ es') :=
  h.step h.good fun _ ha => by
    rw [hm, ← Multiset.cons_coe, Multiset.add_cons]
    exact ha.acquire fd

theorem close {fd : Int} (h : Kept base (fd :: socks) f es) (hm : history es' = [.close fd]) :
    Kept base socks f (es ++ es') :=
  h.step h.good fun _ ha => by
    rw [← Multiset.cons_coe, Multiset.add_cons] at ha
    rw [hm]
    exact ha.close

theorem perm {socks' : List Int} (h : Kept base socks f es) (hp : socks.Perm socks') :
    Kept base socks' f es :=
  ⟨h.good, h.past, fun hl => Multiset.coe_eq_coe.mpr hp ▸ h.after hl⟩

end Kept

/-- A descriptor pushed is closed, or goes to the end of the queue. -/
theorem pushFd_cases (f : Frame) {fd : Int} (h : 0 ≤ fd) :
    (∃ g, dbusFramePushFd f fd = (g, [fd]) ∧ g.fdq = f.fdq) ∨
    ∃ g, dbusFramePushFd f fd = (g, []) ∧ g.fdq = f.fdq ++ [fd] := by
  unfold dbusFramePushFd
  rw [if_neg (by omega)]
  split
  · exact .inl ⟨_, rfl, rfl⟩
  · split
    · exact .inl ⟨_, rfl, rfl⟩
    · exact .inr ⟨_, rfl, rfl⟩

theorem pushFd_after {f : Frame} {fd : Int} {ms : List (Move Int)} {xs : Multiset Int} (h0 : 0 ≤ fd)
    (h : After ms (f.queue + fd ::ₘ xs)) :
    After (ms ++ history (pushEvents f fd)) ((dbusFramePushFd f fd).1.queue + xs) := by
  unfold pushEvents
  rcases pushFd_cases f h0 with ⟨g, e, hq⟩ | ⟨g, e, hq⟩
  · have shut : After (ms ++ [.close fd]) (f.queue + xs) :=
      (h.of_eq (Multiset.add_cons fd _ xs)).close
    simpa [e, hq, Frame.queue, Event.moves] using shut
  · have queued : f.queue + fd ::ₘ xs = g.queue + xs := by
      rw [Frame.queue, Frame.queue, hq, ← Multiset.coe_add, Multiset.coe_singleton,
        ← Multiset.singleton_add]
      abel
    simpa [e, hq, Event.moves] using h.of_eq queued

theorem Queued.after {f g : Frame} {fds moved : List Int} {es : List Event}
    (h : Queued f fds moved es g) : ∀ {ms : List (Move Int)} {xs : Multiset Int},
    After ms (f.queue + ((fds : Multiset Int) + xs)) →
      After (ms ++ history es) (g.queue + xs) := by
  induction h with
  | nil f =>
    intro ms xs h
    simpa using h
  | @keep f g fd rest moved es hfd hq ih =>
    intro ms xs h
    rw [history_append, ← List.append_assoc]
    refine ih (pushFd_after (by omega) (h.of_eq ?_))
    rw [← Multiset.cons_coe, Multiset.cons_add]
  | @move f g fd nfd rest moved es hfd hq ih =>
    intro ms xs h
    rw [history_append, history_append, ← List.append_assoc, ← List.append_assoc]
    by_cases h0 : 0 ≤ nfd
    · -- the number above stdio is acquired, the one below closed
      have swap : history [.dupfd fd nfd, .close fd] = [.acquire nfd] ++ [.close fd] := by
        simp [Event.moves, h0]
      rw [swap, ← List.append_assoc]
      refine ih (pushFd_after h0 (After.close ((h.acquire nfd).of_eq ?_)))
      rw [← Multiset.cons_coe, ← Multiset.singleton_add, ← Multiset.singleton_add,
        ← Multiset.singleton_add, ← Multiset.singleton_add]
      abel
    · have drop : history [.dupfd fd nfd, .close fd] = [.close fd] := by simp [Event.moves, h0]
      have none : pushEvents f nfd = [] ∧ (dbusFramePushFd f nfd).1 = f := by
        have : nfd < 0 := by omega
        simp [pushEvents, dbusFramePushFd, this]
      rw [none.2] at ih
      rw [drop, none.1, history_nil, List.append_nil]
      refine ih (After.close (h.of_eq ?_))
      rw [← Multiset.cons_coe, ← Multiset.singleton_add, ← Multiset.singleton_add]
      abel

/-! ## Each move -/

variable {base : List Event}

theorem filter_fds {f : Frame} (h : f.Good) : f.fdq.filter (0 ≤ ·) = f.fdq :=
  List.filter_eq_self.mpr fun fd hfd => decide_eq_true (h.fds fd hfd)

theorem closeFds_kept {socks : List Int} {f : Frame} {es : List Event} (h : Kept base socks f es) :
    Kept base socks (dbusFrameCloseFds f).1 (es ++ (dbusFrameCloseFds f).2.map Event.close) := by
  refine h.closes (closeFds_good h.good) (c := f.fdq) ?_ ?_
  · simp [dbusFrameCloseFds, Frame.queue]
  · simp [dbusFrameCloseFds, filter_fds h.good]

/-- The queue is closed with the message. -/
theorem advance_closes {f : Frame} {r : Nat} (hf : f.Good) (rest : AtRest f (.msg r)) :
    (dbusFrameAdvance f r).1.fdq = [] ∧ history (advanceEvents f r) = f.fdq.map .close := by
  rw [advanceEvents, rest.advance hf.ok.off, filter_fds hf]
  exact ⟨rfl, history_closes f.fdq⟩

theorem Kept.advance {socks : List Int} {f : Frame} {es : List Event} {r : Nat}
    (h : Kept base socks f es)
    (rest : AtRest f (.msg r)) : Kept base socks (dbusFrameAdvance f r).1
    (es ++ advanceEvents f r) := by
  obtain ⟨hq, hm⟩ := advance_closes h.good rest
  refine h.closes (rest.advance_good h.good) ?_ hm
  rw [Frame.queue, Frame.queue, hq, Multiset.coe_nil, Multiset.zero_add]

theorem claim_queue {f g : Frame} {i fd : Int} (h : dbusFrameClaimFd f i = (fd, g)) (h0 : 0 ≤ fd) :
    f.queue = fd ::ₘ g.queue := by
  unfold dbusFrameClaimFd at h
  split at h
  · cases h
    omega
  · split at h
    · cases h
      omega
    · cases h
      have hi : i.toNat < f.fdq.length := by omega
      rw [List.getD_eq_getElem _ _ hi]
      exact (Multiset.coe_eq_coe.mpr (List.getElem_cons_eraseIdx_perm hi)).symm

/-- A descriptor claimed leaves the queue, and is given away or closed. -/
theorem Kept.take {socks : List Int} {f g : Frame} {es qs : List Event} {r : Nat}
    {i fd : Int} (ok : Bool)
    (h : Kept base socks f es) (rest : AtRest f (.msg r)) (hc : dbusFrameClaimFd f i = (fd, g))
    (h0 : 0 ≤ fd)
    (hqs : ∀ e ∈ qs, e.offers = true) : Kept base socks (dbusFrameAdvance g r).1
    (es ++ ([.next (.msg r) f, .claimed fd] ++ (qs ++
      (if ok then advanceEvents g r ++ [Event.handed fd] else Event.close fd ::
      advanceEvents g r)))) := by
  obtain ⟨hg, hcur, heof, -⟩ := claim_good hc h.good
  have rest' : AtRest g (.msg r) := rest.congr hcur heof
  obtain ⟨hq, hm⟩ := advance_closes hg rest'
  refine h.step (rest'.advance_good hg) fun _ ha => ?_
  have hnil : (dbusFrameAdvance g r).1.queue = 0 := by rw [Frame.queue, hq, Multiset.coe_nil]
  have start : f.queue + (socks : Multiset Int) = fd ::ₘ ((socks : Multiset Int) + g.queue) := by
    rw [claim_queue hc h0, Multiset.cons_add, Multiset.add_comm]
  rw [hnil, Multiset.zero_add, history_append, history_append, history_offers hqs]
  cases ok with
  | true =>
    have gone : After (history es ++ g.fdq.map .close) (fd ::ₘ (socks : Multiset Int)) :=
      (ha.of_eq (start.trans (Multiset.cons_add fd _ _).symm)).closes
    simpa [hm, Event.moves] using gone.give
  | false =>
    have gone := ((ha.of_eq start).close).closes
    simpa [hm, Event.moves] using gone

theorem Step.kept {s : Nat} {socks : List Int} {w w' : World} {es : List Event}
    (hstep : Step s w w')
    (h : Kept base socks w.fr es) : ∃ es', w'.trace = w.trace ++ es' ∧
    Kept base socks w'.fr (es ++ es') := by
  cases hstep with
  | quiet hq =>
    exact ⟨_, hq.trace, h.still (hq.fr ▸ h.good) (by rw [hq.fr]) (history_offers hq.offers)⟩
  | lost => exact ⟨[], (List.append_nil _).symm, h.still h.good rfl rfl⟩
  | @next r g c rest pass =>
    refine ⟨_, rfl, h.closes ⟨pass.ok h.good.ok, pass.fds_nonneg h.good.fds⟩ (c := c) ?_ ?_⟩
    · show w.fr.queue = g.queue + c
      rcases pass.fds with ⟨hq, -, -, rfl, -⟩ | ⟨hq, -, -, rfl, -⟩
      · rw [Frame.queue, Frame.queue, hq, Multiset.coe_nil, Multiset.add_zero]
      · rw [filter_fds h.good, Frame.queue, Frame.queue, hq, Multiset.coe_nil, Multiset.zero_add]
    · simp [Event.moves]
  | advance rest => exact ⟨_, rfl, h.advance rest⟩
  | answered rest hv => exact ⟨_, rfl, h.still h.good rfl rfl⟩
  | prepare hp => exact ⟨[], (List.append_nil _).symm, h.still (hp.good h.good) hp.fdq rfl⟩
  | eof => exact ⟨[], (List.append_nil _).symm, h.still (setEof_good h.good) rfl rfl⟩
  | @recvNone w' fd n want flags anc trunc hn hfr hdbm hdbs hin ht =>
    refine ⟨_, ht, h.step (hfr ▸ h.good) fun hl ha => ?_⟩
    have none : anc.nums = [] := hl.each (.recv fd want flags n [] anc trunc) (by simp) hn
    have shut : (dbusSysParseRights (anc.bytes.take 1032)).2 = [] := (parseRights_none none).2
    rw [hfr, shut, List.map_nil, ite_self]
    simpa [Event.moves, none] using ha
  | @receive w' fd want flags d anc trunc moved qs g rest hd hwithin hroom hin hq hfr
      hdbm hdbs ht =>
    refine ⟨_, ht, h.step ?_ fun _ ha => ?_⟩
    · have hgood := hq.good (commit_good h.good hroom)
      rw [hfr]
      split
      · exact fdsIncomplete_good hgood
      · exact hgood
    · have hqueue : w'.fr.queue = g.queue := by
        rw [hfr]
        split
        · unfold dbusFrameFdsIncomplete
          split <;> rfl
        · rfl
      -- acquired, then closed where the array was full or for a pidfd, then queued
      have got := (ha.acquires anc.nums).of_eq (show _ = ((dbusFrameCommit w.fr d).queue +
        ((dbusSysParseRights (anc.bytes.take 1032)).1 + (socks : Multiset Int))) +
          (dbusSysParseRights (anc.bytes.take 1032)).2 by
        rw [← parseRights_sum]
        show w.fr.queue + _ + _ = w.fr.queue + _ + _
        abel)
      have queued := hq.after got.closes
      rw [hqueue]
      simpa [Event.moves] using queued
  | @take w₁ w' r i fd g qs ok rest hc h0 hq he =>
    refine ⟨_, take_trace hq he, ?_⟩
    rw [he, emit_fr]
    exact h.take ok rest hc h0 hq.offers

theorem kept_account (base : List Event) (socks : List Int) : Account (Kept base socks) where
  step hstep h := hstep.kept h
  offers h ho := h.still h.good rfl (history_offers ho)

/-! ## Opening the bus -/

/-- The exchange holds nothing at its end. -/
theorem Unowned.after {es : List Event} (h : Unowned es) {ms : List (Move Int)} {xs : Multiset Int}
    (hl : ∀ e ∈ es, e.lawful) (ha : After ms xs) : After (ms ++ history es) xs := by
  induction h with
  | nil => rwa [history_nil, List.append_nil]
  | rest h ho ih =>
    rw [history_append, history_offers ho, List.append_nil]
    exact ih fun e he => hl e (List.mem_append_left _ he)
  | @recv es fd n want flags d anc trunc h hd ih =>
    have first := ih fun e he => hl e (List.mem_append_left _ he)
    rw [history_append, ← List.append_assoc]
    by_cases hn : 0 ≤ n
    · rw [if_pos hn, history_cons, history_closes, ← List.append_assoc]
      refine After.closes ((first.acquires anc.nums).of_eq ?_)
      rw [← parseRights_sum, ← Multiset.coe_add]
      abel
    · have none : anc.nums = [] := hl (.recv fd want flags n d anc trunc) (by simp) (by omega)
      rw [if_neg hn]
      simpa [Event.moves, none] using first

/-- The world's descriptors are the queue and `socks`. -/
abbrev Holding (base : List Event) (socks : List Int) (w : World) : Prop :=
  Kept base socks w.fr w.trace

theorem Rests.holding {α : Type} {x : M α} (h : Rests x) (socks : List Int) (w : World)
    (hw : Holding base socks w) : Holding base socks (x w).state ∧ (x w).state.fr = w.fr := by
  obtain ⟨es, hq⟩ := h w
  refine ⟨?_, hq.fr⟩
  show Kept base socks (x w).state.fr (x w).state.trace
  rw [hq.fr, hq.trace]
  exact hw.still hw.good rfl (history_offers hq.offers)

theorem sasl_holding (socks : List Int) (fd : Int) :
    Spec (fun w => Holding base socks w ∧ Idle w.fr) (dbusSessionSasl fd)
    (fun _ w => Holding base socks w ∧ Idle w.fr) (Holding base socks) := by
  rintro w ⟨hw, hidle⟩
  have held (w' : World) (h : Exchanging w w') : Holding base socks w' := by
    obtain ⟨es, ht, hu⟩ := h.trace
    show Kept base socks w'.fr w'.trace
    rw [ht]
    refine hw.step h.idle.good fun hl ha => ?_
    have empty : w'.fr.queue = w.fr.queue := by rw [Frame.queue, Frame.queue, h.idle.fdq, hidle.fdq]
    rw [empty]
    exact hu.after (fun e he => hl.each e (List.mem_append_right _ he)) ha
  exact (sasl_exchanging fd w).mono (fun w' h => h) (fun _ w' h => ⟨held w' h, h.idle⟩) held
    w (.start hidle)

/-- An operation on an open bus keeps the account; a failed Hello leaves nothing queued. -/
theorem run_holding (socks : List Int) (bus : Int) (op : BusOp) :
    Spec (Holding base socks) (op.run bus)
    (fun rc w => Holding base socks w ∧ (op = .hello → rc < 0 → w.fr.fdq = []))
    (Holding base socks) := by
  intro w hw
  have h := (body_running op bus (op.serial w)).ends w ⟨hw.good, rfl⟩
  generalize ho : op.body bus w = o at h
  cases h with
  | @done rc w₁ h hg₁ =>
    obtain ⟨es, ht, hk⟩ := (kept_account base socks).ran h hw
    rw [← ht] at hk
    rw [run_done ho]
    by_cases hf : op = .hello ∧ rc < 0
    · rw [if_pos hf]
      exact ⟨closeFds_kept hk, fun _ _ => rfl⟩
    · rw [if_neg hf]
      exact ⟨hk, fun h1 h2 => absurd ⟨h1, h2⟩ hf⟩
  | @waiting w' h =>
    obtain ⟨es, ht, hk⟩ := (kept_account base socks).ranPart h hw
    rw [run_waiting ho]
    rwa [← ht] at hk

/-- A descriptor number that may be an errno, among those held. -/
def fdAnd (fd : Int) (socks : List Int) : List Int := if 0 ≤ fd then fd :: socks else socks

/-- An answer that is a new descriptor, or an errno. -/
theorem Kept.answer {socks : List Int} {f : Frame} {es : List Event} (h : Kept base socks f es)
    {e : Event} {fd : Int}
    (he : e.moves = if 0 ≤ fd then [.acquire fd] else []) : Kept base (fdAnd fd socks) f
    (es ++ [e]) := by
  by_cases h0 : 0 ≤ fd
  · rw [fdAnd, if_pos h0]
    exact h.acquire (by simp [he, h0])
  · rw [fdAnd, if_neg h0]
    exact h.still h.good rfl (by simp [he, h0])

theorem socket_holding (socks : List Int) {W : World → Prop} :
    Spec (fun w => Holding base socks w ∧ Idle w.fr) sysSocket
    (fun fd w => Holding base (fdAnd fd socks) w ∧ Idle w.fr) W :=
  Spec.modifyGet fun _ hw => ⟨hw.1.answer rfl, hw.2⟩

/-- A socket moved above stdio, or closed if that fails. -/
theorem aboveStdio_holding (socks : List Int) {fd : Int} (h0 : 0 ≤ fd) {W : World → Prop} :
    Spec (fun w => Holding base (fd :: socks) w ∧ Idle w.fr) (dbusSocketAboveStdio fd)
      (fun fd w => Holding base (fdAnd fd socks) w ∧ Idle w.fr ∧ (Lawful w.trace → 0 ≤ fd → 2 < fd))
      W := by
  refine Spec.ite (fun h => Spec.pure fun w hw => ?_) fun h => ?_
  · rw [fdAnd, if_pos h0]
    exact ⟨hw.1, hw.2, fun _ _ => h⟩
  refine Spec.bind (Q := fun nfd w => Holding base (fdAnd nfd (fd :: socks)) w ∧ Idle w.fr ∧
    (Lawful w.trace → 0 ≤ nfd → 2 < nfd)) (Spec.modifyGet fun w hw => ?_) fun nfd => ?_
  · exact ⟨hw.1.answer rfl, hw.2, fun hl => hl.each (.dupfd fd (w.k.fcntl.headD (-9))) (by simp)⟩
  · refine Spec.bind (Q := fun _ w => Holding base (fdAnd nfd socks) w ∧ Idle w.fr ∧
      (Lawful w.trace → 0 ≤ nfd → 2 < nfd))
      (Spec.modify fun w ⟨hw, hidle, hl⟩ => ⟨?_, hidle, fun h => hl h.left⟩) fun _ =>
      Spec.pure fun _ h => h
    have swap : (fdAnd nfd (fd :: socks)).Perm (fd :: fdAnd nfd socks) := by
      unfold fdAnd
      split
      · exact List.Perm.swap fd nfd socks
      · exact List.Perm.refl _
    exact (hw.perm swap).close rfl

/-- A bus the caller holds: its connect succeeded, and it is above stdio. -/
def Connected (es : List Event) (bus : Int) : Prop :=
  (∃ rc, 0 ≤ rc ∧ Event.connect bus rc ∈ es) ∧ (Lawful es → 2 < bus)

theorem Connected.left {es es' : List Event} {bus : Int} (h : Connected es bus) :
    Connected (es ++ es') bus := by
  obtain ⟨⟨rc, h0, hc⟩, hl⟩ := h
  exact ⟨⟨rc, h0, List.mem_append_left _ hc⟩, fun h => hl h.left⟩

theorem connect_holding (socks : List Int) {W : World → Prop} :
    Spec (fun w => Holding base socks w ∧ Idle w.fr) dbusSocketConnect
      (fun fd w => Holding base (fdAnd fd socks) w ∧ Idle w.fr ∧ (0 ≤ fd → Connected w.trace fd))
      W := by
  refine Spec.bind (socket_holding socks) fun fd₀ =>
    Spec.ite (fun hneg => Spec.pure fun w hw => ?_) fun hpos => ?_
  · exact ⟨hw.1, hw.2, fun h => by omega⟩
  have keep : fdAnd fd₀ socks = fd₀ :: socks := if_pos (by omega)
  rw [keep]
  refine Spec.bind (aboveStdio_holding socks (by omega)) fun fd =>
    Spec.ite (fun hneg => Spec.pure fun w hw => ?_) fun hfd => ?_
  · exact ⟨hw.1, hw.2.1, fun h => by omega⟩
  have open' : fdAnd fd socks = fd :: socks := if_pos (by omega)
  rw [open']
  refine Spec.bind (Q := fun rc w => Holding base (fd :: socks) w ∧ Idle w.fr ∧
    (0 ≤ rc → Connected w.trace fd))
    (Spec.modifyGet fun w ⟨hw, hidle, hl⟩ => ⟨?_, hidle, fun h => ?_⟩) fun rc =>
    Spec.ite (fun hrc => ?_) fun hrc => ?_
  · exact hw.still hw.good rfl rfl
  · exact ⟨⟨_, h, by simp⟩, fun h => hl h.left (by omega)⟩
  · refine Spec.bind (Q := fun _ w => Holding base socks w ∧ Idle w.fr)
      (Spec.modify fun w hw => ⟨?_, hw.2.1⟩) fun _ =>
      Spec.pure fun w hw => ?_
    · exact hw.1.close rfl
    · have fail : fdAnd rc socks = socks := if_neg (by omega)
      rw [fail]
      exact ⟨hw.1, hw.2, fun h => by omega⟩
  · refine Spec.bind (Q := fun _ w => Holding base (fd :: socks) w ∧ Idle w.fr ∧
      Connected w.trace fd)
      (Spec.modify fun w ⟨hw, hidle, hc⟩ => ⟨?_, hidle, (hc (by omega)).left⟩) fun _ =>
      Spec.pure fun w hw => ?_
    · exact hw.still hw.good rfl rfl
    · rw [open']
      exact ⟨hw.1, hw.2.1, fun _ => hw.2.2⟩

-- kept whole, so that no elaboration runs it
attribute [local irreducible] dbusSessionHello

theorem handshake_holding (socks : List Int) (fd : Int) :
    Spec (fun w => Holding base (fd :: socks) w ∧ Idle w.fr) (dbusSessionHandshake fd)
      (fun rc w => Holding base (fd :: socks) w ∧ (rc < 0 → w.fr.fdq = []))
      (Holding base (fd :: socks)) := by
  refine Spec.bind (sasl_holding (fd :: socks) fd) fun sr =>
    Spec.ite (fun _ => Spec.pure fun w hw => ⟨hw.1, fun _ => hw.2.fdq⟩) fun _ => ?_
  have hello := @run_holding base (fd :: socks) fd .hello
  rw [show BusOp.hello.run fd = dbusSessionHello fd from rfl] at hello
  exact hello.mono (fun _ h => h.1) (fun rc w h => ⟨h.1, h.2 rfl⟩) fun _ h => h

/-- What was connected before a program is connected after it. -/
theorem Spec.connected {α : Type} {P : World → Prop} {socks : List Int} {x : M α}
    {Q : α → World → Prop} {buses : List Int}
    (h : ∀ base, Spec (fun w => Holding base socks w ∧ P w) x
    (fun a w => Holding base socks w ∧ Q a w) (Holding base socks)) : Spec
    (fun w => Holding base socks w ∧ P w ∧ ∀ b ∈ buses, Connected w.trace b) x
      (fun a w => Holding base socks w ∧ Q a w ∧ ∀ b ∈ buses, Connected w.trace b)
      fun w => Holding base socks w ∧ ∀ b ∈ buses, Connected w.trace b := by
  intro w hall
  obtain ⟨hw, hp, hc⟩ := hall
  have stays (w' : World) (h' : Holding w.trace socks w') : ∀ b ∈ buses, Connected w'.trace b := by
    intro b hb
    obtain ⟨es, he⟩ := h'.past
    rw [← he]
    exact (hc b hb).left
  have h₀ := h base w ⟨hw, hp⟩
  have h₁ := h w.trace w ⟨⟨hw.good, List.prefix_refl _, hw.after⟩, hp⟩
  cases hx : x w with
  | done a w' =>
    rw [hx] at h₀ h₁
    exact ⟨h₀.1, h₀.2, stays w' h₁.1⟩
  | waiting w' =>
    rw [hx] at h₀ h₁
    exact ⟨h₀, stays w' h₁⟩

theorem init_holding (socks : List Int) {W : World → Prop} :
    Spec (Holding base socks) frameInit (fun _ w => Holding base socks w ∧ Idle w.fr) W :=
  Spec.modify fun w hw => by
    refine ⟨hw.closes (init_idle w.fr).good (c := w.fr.fdq) ?_ ?_, init_idle w.fr⟩
    · show w.fr.queue = 0 + w.fr.queue
      exact (Multiset.zero_add _).symm
    · show history ((w.fr.fdq.filter (0 ≤ ·)).map Event.close) = _
      rw [filter_fds hw.good, history_closes]

/-- Opening the bus: a socket more, connected, or nothing queued and nothing more. -/
theorem open_holding (socks : List Int) : Spec (Holding base socks) dbusNativeOpenSystemBus
    (fun r w => Holding base (r.2.toList ++ socks) w ∧ (∀ b ∈ r.2.toList, Connected w.trace b) ∧
      (r.2 = none → w.fr.fdq = []))
    fun w => ∃ fd, Holding base (fd :: socks) w ∧ Connected w.trace fd := by
  have none (rc : Int) {W : World → Prop} : Spec (fun w => Holding base socks w ∧ w.fr.fdq = [])
      (pure (rc, none) : M (Int × Option Int)) (fun r w => Holding base (r.2.toList ++ socks) w ∧
        (∀ b ∈ r.2.toList, Connected w.trace b) ∧ (r.2 = none → w.fr.fdq = [])) W :=
    Spec.pure fun w hw => ⟨hw.1, fun b hb => absurd hb List.not_mem_nil, fun _ => hw.2⟩
  refine Spec.bind (init_holding socks) fun _ =>
    Spec.bind (Q := fun _ w => Holding base socks w ∧ Idle w.fr) (Spec.modify fun _ h => h) fun _ =>
    Spec.bind (Q := fun _ w => Holding base socks w ∧ Idle w.fr) (Spec.modify fun _ h => h) fun _ =>
    Spec.bind (Q := fun _ w => Holding base socks w ∧ Idle w.fr) ?_ fun ok =>
      Spec.ite (fun _ => ?_) fun _ => ?_
  · intro w hw
    obtain ⟨h, hfr⟩ := (allocOnce_rests .sa).holding socks w hw.1
    obtain ⟨ok, w', ha⟩ : ∃ ok w', allocOnce .sa w = .done ok w' := Ends.modifyGet w
    rw [ha] at h hfr ⊢
    exact ⟨h, hfr ▸ hw.2⟩
  · refine Spec.bind (connect_holding socks) fun fd => Spec.ite (fun hneg => ?_) fun hpos => ?_
    · have fail : fdAnd fd socks = socks := if_neg (by omega)
      rw [fail]
      exact (none fd).mono (fun w hw => ⟨hw.1, hw.2.1.fdq⟩) (fun _ _ h => h) fun _ h => h
    have keep : fdAnd fd socks = fd :: socks := if_pos (by omega)
    rw [keep]
    refine Spec.bind (Q := fun rc w => Holding base (fd :: socks) w ∧ (rc < 0 → w.fr.fdq = []) ∧
      ∀ b ∈ [fd], Connected w.trace b) ?_ fun rc => Spec.ite (fun hrc => ?_) fun _ =>
      Spec.pure fun w hw => ?_
    · refine (Spec.connected fun base => @handshake_holding base socks fd).mono
        (fun w hw => ⟨hw.1, hw.2.1, ?_⟩) (fun _ _ h => h) fun w hw =>
        ⟨fd, hw.1, hw.2 fd (List.mem_singleton_self fd)⟩
      intro b hb
      rw [List.mem_singleton.mp hb]
      exact hw.2.2 (by omega)
    · exact Spec.bind (Q := fun _ w => Holding base socks w ∧ w.fr.fdq = [])
        (Spec.modify fun w hw => ⟨hw.1.close rfl, hw.2.1 hrc⟩) fun _ => none rc
    · exact ⟨hw.1, hw.2.2, fun h => by cases h⟩
  · exact (none (-12)).mono (fun w hw => ⟨hw.1, hw.2.fdq⟩) (fun _ _ h => h) fun _ h => h

/-- Closing a bus closes the queue and its socket. -/
theorem close_holding (socks : List Int) (bus : Int) (hb : bus ∈ socks) {W : World → Prop} :
    Spec (fun w => Holding base socks w ∧ Connected w.trace bus) (dbusNativeCloseBus bus)
      (fun _ w => Holding base (socks.erase bus) w ∧ w.fr.fdq = []) W := by
  refine Spec.bind (Q := fun _ w => Holding base socks w ∧ Connected w.trace bus ∧ w.fr.fdq = [])
    (Spec.modify fun w hw => ⟨closeFds_kept hw.1, hw.2.left, rfl⟩) fun _ =>
    Spec.ite (fun _ => ?_) fun h => ?_
  · refine Spec.bind (Q := fun _ w => Holding base (socks.erase bus) w ∧ w.fr.fdq = [])
      (Spec.modify fun w hw => ⟨?_, hw.2.2⟩) fun _ => Spec.pure fun _ h => h
    exact (hw.1.perm (List.perm_cons_erase hb)).close rfl
  · refine Spec.pure fun w hw => ⟨⟨hw.1.good, hw.1.past, fun hl => ?_⟩, hw.2.2⟩
    exact absurd (hw.2.1.2 hl) h

/-! ## Runs -/

/-- A native operation, on the buses the caller has open. -/
inductive NativeOp where
  | openBus
  | on (bus : Int) (op : BusOp)
  | close (bus : Int)
  /-- the consumer closes a descriptor it was handed -/
  | returned (fd : Int)
  deriving DecidableEq, Repr

/-- Run the operation: the buses open after it. A bus that is not open is not used. -/
def NativeOp.run (buses : List Int) : NativeOp → M (List Int)
  | .openBus => do
    let (_, bus) ← dbusNativeOpenSystemBus
    pure (bus.toList ++ buses)
  | .on bus op =>
    if bus ∈ buses then do
      let _ ← op.run bus
      pure buses
    else pure buses
  | .close bus =>
    if bus ∈ buses then do
      let _ ← dbusNativeCloseBus bus
      pure (buses.erase bus)
    else pure buses
  | .returned fd => do
    emit [.returned fd]
    pure buses

def runNative : List Int → List NativeOp → M (List Int)
  | buses, [] => pure buses
  | buses, op :: ops => do
    let buses ← op.run buses
    runNative buses ops

/-- Between operations: the buses are connected, and with none nothing is queued. -/
structure Sound (buses : List Int) (w : World) : Prop where
  kept : Holding [] buses w
  connected : ∀ b ∈ buses, Connected w.trace b
  empty : buses = [] → w.fr.fdq = []

/-- Wherever a run can be seen: what is not queued is a connected socket. -/
def Seen (w : World) : Prop := ∃ socks, Holding [] socks w ∧ ∀ b ∈ socks, Connected w.trace b

/-- What a program does to the buses, from what it does to what is held. -/
theorem Spec.sound {α : Type} {buses : List Int} {x : M α} (after : α → List Int)
    (h : ∀ base, Spec (fun w => Holding base buses w ∧ ∀ b ∈ buses, Connected w.trace b) x
      (fun a w => Holding base (after a) w ∧ (∀ b ∈ after a, b ∈ buses ∨ Connected w.trace b) ∧
        (after a = [] → w.fr.fdq = []))
      fun w => ∃ socks, Holding base socks w ∧ ∀ b ∈ socks, b ∈ buses ∨ Connected w.trace b) :
    Spec (Sound buses) x (fun a => Sound (after a)) Seen := by
  intro w hw
  have old {socks socks' : List Int} {w' : World} (h' : Holding w.trace socks' w')
      (hc : ∀ b ∈ socks, b ∈ buses ∨ Connected w'.trace b) : ∀ b ∈ socks, Connected w'.trace b := by
    intro b hb
    rcases hc b hb with hb' | hb'
    · obtain ⟨es, he⟩ := h'.past
      rw [← he]
      exact (hw.connected b hb').left
    · exact hb'
  have h₁ := h w.trace w ⟨⟨hw.kept.good, List.prefix_refl _, hw.kept.after⟩, hw.connected⟩
  cases hx : x w with
  | done a w' =>
    rw [hx] at h₁
    exact ⟨h₁.1.anywhere, old h₁.1 h₁.2.1, h₁.2.2⟩
  | waiting w' =>
    rw [hx] at h₁
    obtain ⟨socks, hk, hc⟩ := h₁
    exact ⟨socks, hk.anywhere, old hk hc⟩

theorem NativeOp.run_sound (op : NativeOp) (buses : List Int) :
    Spec (Sound buses) (op.run buses) (fun buses' => Sound buses') Seen := by
  have skip : Spec (Sound buses) (pure buses : M (List Int)) (fun buses' => Sound buses') Seen :=
    Spec.pure fun _ h => h
  cases op with
  | openBus =>
    refine Spec.bind (Spec.sound (fun r => r.2.toList ++ buses) fun base => ?_) fun r =>
      Spec.pure fun _ h => h
    refine (@open_holding base buses).mono (fun w h => h.1)
      (fun r w hw => ⟨hw.1, fun b hb => ?_, fun h => ?_⟩) ?_
    · exact (List.mem_append.mp hb).elim (fun h => .inr (hw.2.1 b h)) .inl
    · exact hw.2.2 (Option.toList_eq_nil_iff.mp (List.append_eq_nil_iff.mp h).1)
    · rintro w ⟨fd, hk, hc⟩
      refine ⟨fd :: buses, hk, fun b hb => ?_⟩
      rcases List.mem_cons.mp hb with rfl | hb
      · exact .inr hc
      · exact .inl hb
  | on bus op =>
    refine Spec.ite (fun hb => ?_) fun _ => skip
    refine Spec.bind (Spec.sound (fun _ => buses) fun base => ?_) fun _ => Spec.pure fun _ h => h
    refine (@run_holding base buses bus op).mono (fun w h => h.1)
      (fun rc w hw => ⟨hw.1, fun b => .inl, fun h => ?_⟩) fun w hw => ⟨buses, hw, fun b => .inl⟩
    rw [h] at hb
    exact absurd hb List.not_mem_nil
  | close bus =>
    refine Spec.ite (fun hb => ?_) fun _ => skip
    refine Spec.bind (Spec.sound (fun _ => buses.erase bus) fun base => ?_) fun _ =>
      Spec.pure fun _ h => h
    exact (@close_holding base buses bus hb _).mono (fun w h => ⟨h.1, h.2 bus hb⟩)
      (fun rc w hw => ⟨hw.1, fun b h => .inl (List.mem_of_mem_erase h), fun _ => hw.2⟩) fun _ h => h
  | returned fd =>
    refine Spec.bind (Q := fun _ => Sound buses) (Spec.modify fun w hw => ?_) fun _ => skip
    refine ⟨hw.kept.step hw.kept.good fun hl ha => ?_, fun b hb =>
      (hw.connected b hb).left, hw.empty⟩
    refine ha.returned ?_
    have := hl.honest
    rwa [history_append] at this

theorem runNative_sound : ∀ (ops : List NativeOp) (buses : List Int),
    Spec (Sound buses) (runNative buses ops) (fun buses' => Sound buses') Seen
  | [], _ => Spec.pure fun _ h => h
  | op :: ops, buses => Spec.bind (op.run_sound buses) fun buses' => runNative_sound ops buses'

/-- What the ledger saw given is what was handed over. -/
theorem given_history (es : List Event) : given (history es) = (handovers es : Multiset Int) := by
  have installed (new : Int) : given (if 0 ≤ new then [Move.acquire new] else []) = 0 := by
    split_ifs <;> rfl
  induction es with
  | nil => rfl
  | cons e es ih =>
    have one : given e.moves = (handovers [e] : Multiset Int) := by
      cases e with
      | recv _ _ _ _ _ anc _ => exact given_acquires anc.nums
      | socket fd => exact installed fd
      | dupfd _ new => exact installed new
      | _ => rfl
    rw [history_cons, given_append, ih, one, Multiset.coe_add, ← handovers_append,
      List.singleton_append]

/-! ## What the runs return -/

/-- What a TakeDevice returned as the device: what it stored as it answered 0. -/
def deviceOut (r : Int × Option (Int × Nat)) : List Int :=
  if r.1 = 0 then (r.2.map Prod.fst).toList else []

/-- The operation, and the device it returned. -/
def NativeOp.taking (buses : List Int) : NativeOp → M (List Int × List Int)
  | .on bus (.takeDevice sess major minor) =>
    if bus ∈ buses then do
      let r ← dbusNativeTakeDevice bus sess major minor
      pure (buses, deviceOut r)
    else pure (buses, [])
  | op => do
    let buses ← op.run buses
    pure (buses, [])

/-- A run, and the devices its TakeDevices returned. -/
def nativeTaking : List Int → List NativeOp → M (List Int × List Int)
  | buses, [] => pure (buses, [])
  | buses, op :: ops => do
    let (buses, fds) ← op.taking buses
    let (buses, more) ← nativeTaking buses ops
    pure (buses, fds ++ more)

/-- Returning the device as well changes nothing else. -/
theorem NativeOp.taking_run (op : NativeOp) (buses : List Int) (w : World) :
    op.run buses w = (Prod.fst <$> op.taking buses : M (List Int)) w := by
  have plain (x : M (List Int)) : x w = (Prod.fst <$> (do
      let buses ← x
      pure (buses, []) : M (List Int × List Int)) : M (List Int)) w := by
    show x w = ((x >>= fun a => pure (a, [])) >>= fun a => pure a.1 : M (List Int)) w
    rw [bind_run, bind_run]
    cases x w <;> rfl
  cases op with
  | on bus op =>
    cases op with
    | takeDevice sess major minor =>
      show (if bus ∈ buses then _ else _ : M (List Int)) w = _
      by_cases hb : bus ∈ buses
      · simp only [NativeOp.taking, hb, if_true]
        show ((Prod.fst <$> dbusNativeTakeDevice bus sess major minor) >>= fun _ => pure buses :
          M (List Int)) w = ((dbusNativeTakeDevice bus sess major minor >>= _) >>= _ :
          M (List Int)) w
        generalize dbusNativeTakeDevice bus sess major minor = x
        show ((x >>= fun r => pure r.1) >>= fun _ => pure buses : M (List Int)) w = _
        rw [bind_run, bind_run, bind_run, bind_run]
        cases x w <;> rfl
      · simp only [NativeOp.taking, hb, if_false]
        rfl
    | _ => exact plain _
  | _ => exact plain _

theorem BusOp.run_hands {op : BusOp} (h : ∀ sess major minor, op ≠ .takeDevice sess major minor)
    (bus : Int) : HandsNothing (op.run bus) := by
  cases op with
  | hello => exact hello_hands bus
  | sessionPath pid out => exact Fixes.map (sessionPath_hands bus pid out)
  | takeControl sess => exact takeControl_hands bus sess
  | releaseControl sess => exact releaseControl_hands bus sess
  | takeDevice sess major minor => exact absurd rfl (h sess major minor)
  | releaseDevice sess major minor => exact releaseDevice_hands bus sess major minor
  | call m serial => exact Fixes.bind (setMarshal_hands m) fun _ => call_hands bus serial
  | done => exact Fixes.bind done_hands fun _ => Fixes.pure _
  | pump => exact pump_hands bus

/-- An operation hands out what it returns as the device. -/
theorem NativeOp.taking_hands (op : NativeOp) (buses old : List Int) :
    Spec (fun w => w.handed = old) (op.taking buses) (fun r w => w.handed = old ++ r.2)
      fun w => w.handed = old := by
  have plain {x : M (List Int)} (h : HandsNothing x) :
      Spec (fun w => w.handed = old) (do
        let buses ← x
        pure (buses, []) : M (List Int × List Int)) (fun r w => w.handed = old ++ r.2)
        fun w => w.handed = old :=
    Spec.bind (h.still old) fun _ => Spec.pure fun w hw => hw.trans (List.append_nil old).symm
  have on {op : BusOp} (bus : Int) (h : ∀ sess major minor, op ≠ .takeDevice sess major minor) :
      HandsNothing ((NativeOp.on bus op).run buses) :=
    Fixes.ite (Fixes.bind (BusOp.run_hands h bus) fun _ => Fixes.pure _) (Fixes.pure _)
  cases op with
  | openBus => exact plain (Fixes.bind openSystemBus_hands fun _ => Fixes.pure _)
  | close bus =>
    exact plain (Fixes.ite (Fixes.bind (closeBus_hands bus) fun _ => Fixes.pure _) (Fixes.pure _))
  | returned fd => exact plain (Fixes.bind (emit_hands rfl) fun _ => Fixes.pure _)
  | on bus op =>
    cases op with
    | takeDevice sess major minor =>
      refine Spec.ite (fun _ => ?_) fun _ =>
        Spec.pure fun w hw => hw.trans (List.append_nil old).symm
      refine Spec.bind (takeDevice_hands old bus sess major minor) fun r => Spec.pure fun w hw => ?_
      rcases hw with ⟨fd, inactive, rfl, -, handed⟩ | ⟨neg, handed⟩
      · exact handed
      · have none : deviceOut r = [] := if_neg (by omega)
        rw [handed, none, List.append_nil]
    | _ => exact plain (on bus (by simp))

/-- What a run handed out is what the operations it completed returned. -/
theorem nativeTaking_hands : ∀ (ops : List NativeOp) (buses : List Int) (w : World),
    ∃ n bs fds v, nativeTaking buses (ops.take n) w = .done (bs, fds) v ∧
      (runNative buses ops w).state.handed = w.handed ++ fds ∧
      ∀ bs' v', runNative buses ops w = .done bs' v' → n = ops.length ∧ bs' = bs ∧ v' = v
  | [], buses, w => ⟨0, buses, [], w, rfl, (List.append_nil _).symm, fun bs' v' h => by
      cases h
      exact ⟨rfl, rfl, rfl⟩⟩
  | op :: ops, buses, w => by
    have hands := op.taking_hands buses w.handed w rfl
    have run := op.taking_run buses w
    cases ht : op.taking buses w with
    | waiting v =>
      rw [ht] at hands
      have waits : op.run buses w = .waiting v := run.trans (bind_waiting ht)
      have rest : runNative buses (op :: ops) w = .waiting v := bind_waiting waits
      refine ⟨0, buses, [], w, rfl, ?_, fun bs' v' h => ?_⟩
      · rw [rest, List.append_nil]
        exact hands
      · rw [rest] at h
        cases h
    | done r v =>
      rw [ht] at hands
      have done : op.run buses w = .done r.1 v := run.trans (bind_done ht)
      have rest : runNative buses (op :: ops) w = runNative r.1 ops v := bind_done done
      obtain ⟨n, bs, fds, u, taken, handed, ended⟩ := nativeTaking_hands ops r.1 v
      refine ⟨n + 1, bs, r.2 ++ fds, u, ?_, ?_, fun bs' v' h => ?_⟩
      · show (op.taking buses >>= _) w = _
        rw [bind_done ht]
        exact bind_done taken
      · rw [rest, handed, show v.handed = w.handed ++ r.2 from hands, List.append_assoc]
      · rw [rest] at h
        obtain ⟨hn, hbs, hv⟩ := ended bs' v' h
        exact ⟨congrArg (· + 1) hn, hbs, hv⟩

/-- **Descriptor conservation.** Whatever native operations a process runs and
whatever the kernel answers, at every point of the trace each descriptor ever
acquired is open and ours, open and the consumer's, closed by us or closed by the
consumer, the open ones under different numbers; what is closed was ours; and what
the consumer has, or closed, is what was handed over. What a run handed over is
what its TakeDevices returned as they answered 0, in order. Where the run can be
seen, ours are the framer's queue and connected bus sockets: between operations
the buses the caller holds, so with no bus open, none. -/
theorem descriptor_conservation (k : Kernel) (ops : List NativeOp) (o : Outcome World (List Int))
    (ho : o = runNative [] ops { k := k }) (hl : Lawful o.state.trace) :
    (∀ es es', o.state.trace = es ++ es' → ∃ b, Books.replay {} (history es) = some b ∧
      b.held + b.given + b.closed + b.returned = acquired (history es) ∧
      (b.held + b.given).Nodup ∧ b.given + b.returned = (handovers es : Multiset Int) ∧
      ∀ fd es'', es' = .close fd :: es'' → fd ∈ b.held ∧ fd ∉ b.given) ∧
    (∃ n bs fds v, nativeTaking [] (ops.take n) { k := k } = .done (bs, fds) v ∧
      handovers o.state.trace = fds ∧
      ∀ bs' v', o = .done bs' v' → n = ops.length ∧ bs' = bs ∧ v' = v) ∧
    ∃ b, ∃ socks : List Int, Books.replay {} (history o.state.trace) = some b ∧
      b.held = (o.state.fr.fdq : Multiset Int) + (socks : Multiset Int) ∧
      (∀ s ∈ socks, ∃ rc, 0 ≤ rc ∧ Event.connect s rc ∈ o.state.trace) ∧
      ∀ buses w, o = .done buses w → buses = socks ∧ (buses = [] → b.held = 0) := by
  have start : Sound [] { k := k } :=
    ⟨⟨⟨⟨Nat.zero_le _, Nat.zero_le _⟩, by simp⟩, List.nil_prefix, fun _ => After.nil⟩, by simp,
      fun _ => rfl⟩
  have run := runNative_sound ops [] { k := k } start
  rw [← ho] at run
  have seen : ∃ socks, Holding [] socks o.state ∧ (∀ s ∈ socks, Connected o.state.trace s) ∧
      ∀ buses w, o = .done buses w → buses = socks ∧ (buses = [] → o.state.fr.fdq = []) := by
    cases o with
    | done buses w =>
      refine ⟨buses, run.kept, run.connected, fun buses' w' h => ?_⟩
      cases h
      exact ⟨rfl, run.empty⟩
    | waiting w =>
      obtain ⟨socks, hk, hc⟩ := run
      exact ⟨socks, hk, hc, fun _ _ h => nomatch h⟩
  obtain ⟨socks, hk, hc, hdone⟩ := seen
  obtain ⟨b, hb, hheld⟩ := hk.after hl
  refine ⟨?_, ?_, ?_⟩
  · intro es es' he
    rw [he] at hl hb
    rw [history_append] at hb
    obtain ⟨b₁, hb₁, -⟩ := replay_prefix hb
    refine ⟨b₁, hb₁, ?_, honest_nodup hl.left.honest hb₁, ?_, ?_⟩
    · exact (replay_all hb₁).trans (Multiset.add_zero _)
    · calc b₁.given + b₁.returned = given (history es) + 0 := replay_given hb₁
        _ = (handovers es : Multiset Int) := (Multiset.add_zero _).trans (given_history es)
    · rintro fd es'' rfl
      rw [history_cons] at hb
      exact closed_held hb hb₁ hl.left.honest
  · obtain ⟨n, bs, fds, v, taken, handed, ended⟩ := nativeTaking_hands ops [] { k := k }
    rw [← ho] at handed ended
    exact ⟨n, bs, fds, v, taken, handed, ended⟩
  · refine ⟨b, socks, hb, hheld, fun s hs => (hc s hs).1, fun buses w h =>
      ⟨(hdone buses w h).1, fun hnil => ?_⟩⟩
    obtain ⟨rfl, hempty⟩ := hdone buses w h
    rw [hheld, Frame.queue, hempty hnil, hnil]
    rfl

/-- Hello's reply. -/
def helloReply : Marshal :=
  let m := dbusMarshalFieldU32 (dbusMarshalBegin 2 0 1) dbusMarshalFReplyser 1
  let m := dbusMarshalFieldSig m dbusMarshalFSignature (lit "s") 1
  (dbusMarshalFinish (dbusMarshalBodyStr (dbusMarshalEndFields m) (lit ":1.5") 4)).2

/-- TakeDevice's reply, with one descriptor. -/
def takeReply : Marshal :=
  let m := dbusMarshalFieldU32 (dbusMarshalBegin 2 0 2) dbusMarshalFReplyser 2
  let m := dbusMarshalFieldSig m dbusMarshalFSignature (lit "hb") 2
  let m := dbusMarshalFieldU32 m dbusMarshalFUnixfds 1
  (dbusMarshalFinish (dbusMarshalBodyBool (dbusMarshalBodyU32 (dbusMarshalEndFields m) 0) 0)).2

/-- A bus on socket 0, moved to 3; TakeDevice's reply brings 7, and pidfd 8. -/
def oneDevice : Kernel where
  alloc := List.replicate 4 true
  socket := [0]
  fcntl := [3, 2]
  connect := [0]
  statx := [{ mode := 8192, rdevMajor := 226 }]
  clock := List.replicate 8 {}
  send := [48, 128, 144]
  poll := List.replicate 5 1
  recv := [{ ret := 58 }, { ret := 16 }, { ret := 25 },
    { ret := 16, anc := { cmsgs := [.rights [7], .pidfd 8] } }, { ret := 32 }]
  inbox := lit "DATA\r\nOK 0123456789abcdef0123456789abcdef\r\nAGREE_UNIX_FD\r\n" ++
    helloReply.buf ++ takeReply.buf

/-- Open, take the device, close: the device, which TakeDevice returned, is the
consumer's, the rest closed. -/
theorem descriptor_conservation_one_device :
    let ops : List NativeOp :=
      [.openBus, .on 3 (.takeDevice (some (lit "/s")) 226 0), .close 3, .returned 7]
    let es := (runNative [] ops { k := oneDevice }).state.trace
    history es = [.acquire 0, .acquire 3, .close 0, .acquire 7, .acquire 8, .close 8, .give 7,
      .close 3, .returned 7] ∧
    (∃ v, nativeTaking [] ops { k := oneDevice } = .done ([], [7]) v) ∧
      ∃ b, Books.replay {} (history es) = some b ∧ b.held = 0 := by
  intro ops es
  have hl : Lawful (runNative [] ops { k := oneDevice }).state.trace := by decide +kernel
  have hv : (runNative [] ops { k := oneDevice }).value = some [] := by decide +kernel
  have given : handovers es = [7] := by decide +kernel
  have closed := Outcome.eq_done hv
  obtain ⟨-, ⟨n, bs, fds, v, taken, handed, ended⟩, b, socks, hb, -, -, hnone⟩ :=
    descriptor_conservation oneDevice ops _ rfl hl
  obtain ⟨hn, rfl, -⟩ := ended _ _ closed
  rw [hn, List.take_length, ← handed, given] at taken
  exact ⟨by decide +kernel, ⟨v, taken⟩, b, hb, (hnone _ _ closed).2 rfl⟩

end Samvada
