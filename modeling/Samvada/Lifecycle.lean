import Samvada.Public
import Mathlib.Data.List.Induction

/- Opening and closing the bus, over any backend. What the API has opened and what
   it has closed alternate in its log, so a bus is never leaked and never closed
   twice; an init that fails has released what it had set up; and a release that
   finds nothing to do does nothing. -/
namespace Samvada
open Octets Resumable Resumable.Prog

/-! ## The log of opens and closes -/

/-- The bus an open succeeded with. -/
def Dispatch.opened : Dispatch → Option Int
  | .openSystemBus rc bus => if 0 ≤ rc ∧ bus ≠ 0 then some bus else none
  | _ => none

/-- The bus a close was for. -/
def Dispatch.closed : Dispatch → Option Int
  | .closeBus bus _ => some bus
  | _ => none

def opens (log : List Dispatch) : List Int := log.filterMap Dispatch.opened
def closes (log : List Dispatch) : List Int := log.filterMap Dispatch.closed

/-- A dispatch that opens or closes a bus. -/
def Dispatch.handles (d : Dispatch) : Bool := d.opened.isSome || d.closed.isSome

/-- A history of opens and closes that leaves `bus` open (0: none). -/
inductive Owned : List Dispatch → Int → Prop where
  | nil : Owned [] 0
  | opened {ms : List Dispatch} {rc bus : Int} (h : Owned ms 0) (hrc : 0 ≤ rc) (hbus : bus ≠ 0) :
    Owned (ms ++ [.openSystemBus rc bus]) bus
  | closed {ms : List Dispatch} {bus : Int} (rc : Int) (h : Owned ms bus) (hbus : bus ≠ 0) :
    Owned (ms ++ [.closeBus bus rc]) 0

@[simp] theorem opens_append (l l' : List Dispatch) : opens (l ++ l') = opens l ++ opens l' :=
  List.filterMap_append
@[simp] theorem closes_append (l l' : List Dispatch) : closes (l ++ l') = closes l ++ closes l' :=
  List.filterMap_append

theorem opens_handles (log : List Dispatch) : opens (log.filter Dispatch.handles) = opens log := by
  unfold opens
  rw [List.filterMap_filter]
  congr 1
  funext d
  cases h : d.opened with
  | none => simp
  | some b => simp [Dispatch.handles, h]

theorem closes_handles (log : List Dispatch) :
    closes (log.filter Dispatch.handles) = closes log := by
  unfold closes
  rw [List.filterMap_filter]
  congr 1
  funext d
  cases h : d.closed with
  | none => simp
  | some b => simp [Dispatch.handles, h]

namespace Owned
variable {ms : List Dispatch} {bus : Int}

theorem opens_eq (h : Owned ms bus) : opens ms = closes ms ++ if bus = 0 then [] else [bus] := by
  induction h with
  | nil => rfl
  | @opened ms rc bus h hrc hbus ih =>
    have one : opens [.openSystemBus rc bus] = [bus] := by simp [opens, Dispatch.opened, hrc, hbus]
    have none : closes [.openSystemBus rc bus] = [] := rfl
    simp only [if_true, List.append_nil] at ih
    rw [opens_append, closes_append, ih, one, none, if_neg hbus, List.append_nil]
  | @closed ms bus rc h hbus ih =>
    have one : closes [.closeBus bus rc] = [bus] := rfl
    have none : opens [.closeBus bus rc] = [] := rfl
    rw [if_neg hbus] at ih
    rw [opens_append, closes_append, ih, one, none, if_pos rfl, List.append_nil]

/-- Every close is for the bus of the latest open. -/
theorem latest (h : Owned ms bus) : ∀ {pre post : List Dispatch} {b rc : Int}, ms = pre ++
    .closeBus b rc :: post → (opens pre).getLast? = some b := by
  induction h with
  | nil =>
    intro pre post b rc e
    simp at e
  | @opened ms rc' bus h hrc hbus ih =>
    intro pre post b rc e
    obtain rfl | ⟨post, d, rfl⟩ := List.eq_nil_or_concat post
    · have last := congrArg List.getLast? e
      simp at last
    · rw [List.concat_eq_append, ← List.cons_append, ← List.append_assoc] at e
      exact ih (List.append_inj_left' e rfl)
  | @closed ms bus rc' h hbus ih =>
    intro pre post b rc e
    obtain rfl | ⟨post, d, rfl⟩ := List.eq_nil_or_concat post
    · obtain ⟨rfl, last⟩ := List.append_inj' e rfl
      cases last
      rw [h.opens_eq, if_neg hbus]
      simp
    · rw [List.concat_eq_append, ← List.cons_append, ← List.append_assoc] at e
      exact ih (List.append_inj_left' e rfl)

end Owned

/-! ## What leaves the buses alone -/

section
variable {σ α : Type}

/-- The bus, its table, and the opens and closes so far. -/
def Host.buses (h : Host σ) : Int × Option (Table σ) × List Dispatch :=
  (h.pub.bus, h.pub.table, h.log.filter Dispatch.handles)

abbrev FixesBuses (x : Api σ α) : Prop := Fixes Host.buses x

theorem setControl_buses (c : Control) : FixesBuses (setControl c : Api σ Unit) :=
  Fixes.modify fun _ => rfl

theorem dispatch_buses {x : Prog σ α} {d : α → Dispatch} (hd : ∀ a, (d a).handles = false) :
    FixesBuses (dispatch x d) := by
  intro h
  unfold dispatch
  cases x h.back with
  | waiting b => rfl
  | done a b =>
    show (h.pub.bus, h.pub.table, (h.log ++ [d a]).filter Dispatch.handles) = _
    rw [List.filter_append, List.filter_cons_of_neg (by rw [hd a]; decide), List.filter_nil,
      List.append_nil]
    rfl

theorem takeControl_buses : FixesBuses (samvadaTakeControl : Api σ Int) := by
  refine Fixes.bind Fixes.gets fun call => ?_
  cases call with
  | none => exact Fixes.pure _
  | some call =>
    refine Fixes.bind Fixes.gets fun p => Fixes.bind (dispatch_buses fun _ => rfl) fun rc => ?_
    exact Fixes.ite (Fixes.bind (setControl_buses _) fun _ => Fixes.pure _)
      (Fixes.ite (Fixes.pure _) (Fixes.bind (setControl_buses _) fun _ => Fixes.pure _))

theorem dropControl_buses (closing : Bool) :
    FixesBuses (samvadaDropControl closing : Api σ Int) := by
  have call : FixesBuses (releaseControlCall : Api σ Int) := by
    refine Fixes.bind Fixes.gets fun call => ?_
    cases call with
    | none => exact Fixes.pure _
    | some call => exact Fixes.bind Fixes.gets fun p => dispatch_buses fun _ => rfl
  refine Fixes.bind Fixes.gets fun c =>
    Fixes.ite (Fixes.pure _) (Fixes.ite ?_ (Fixes.bind call fun rc => Fixes.ite ?_ ?_))
  · exact Fixes.bind (setControl_buses _) fun _ => Fixes.pure _
  · exact Fixes.bind (setControl_buses _) fun _ => Fixes.pure _
  · exact Fixes.bind (setControl_buses _) fun _ => Fixes.pure _

theorem takeFailed_buses (major minor rc : Int) :
    FixesBuses (takeFailed major minor rc : Api σ Int) := by
  refine Fixes.bind Fixes.gets fun p =>
    Fixes.ite (Fixes.bind (dropControl_buses _) fun _ => Fixes.pure _) ?_
  refine Fixes.ite (Fixes.bind (setControl_buses _) fun _ => Fixes.pure _)
    (Fixes.ite (Fixes.pure _) ?_)
  refine Fixes.bind Fixes.gets fun call => ?_
  cases call with
  | none => exact Fixes.pure _
  | some call => exact Fixes.bind (dispatch_buses fun _ => rfl) fun _ => Fixes.pure _

theorem takeDevice_buses (major minor : Int) :
    FixesBuses (samvadaSessionTakeDevice major minor : Api σ Int) := by
  refine Fixes.bind Fixes.gets fun p =>
    Fixes.ite (Fixes.pure _) (Fixes.ite (Fixes.pure _) (Fixes.bind Fixes.gets fun call => ?_))
  cases call with
  | none => exact Fixes.pure _
  | some call =>
    refine Fixes.ite (Fixes.pure _) (Fixes.ite (Fixes.pure _) (Fixes.ite (Fixes.pure _) ?_))
    refine Fixes.bind (Fixes.bind Fixes.gets fun held => Fixes.ite takeControl_buses (Fixes.pure _))
      fun tc => Fixes.ite (Fixes.pure _) ?_
    refine Fixes.bind (Fixes.modify fun _ => rfl) fun _ => Fixes.bind Fixes.gets fun p =>
      Fixes.bind (dispatch_buses fun _ => rfl) fun r =>
        Fixes.bind (Fixes.modify fun _ => rfl) fun _ => ?_
    exact Fixes.ite (Fixes.ite (Fixes.bind (Fixes.modify fun _ => rfl) fun _ => Fixes.pure _)
      (takeFailed_buses _ _ _)) (takeFailed_buses _ _ _)

theorem releaseDevice_buses (major minor : Int) :
    FixesBuses (samvadaSessionReleaseDevice major minor : Api σ Int) := by
  refine Fixes.bind Fixes.gets fun p =>
    Fixes.ite (Fixes.pure _) (Fixes.ite (Fixes.pure _) (Fixes.bind Fixes.gets fun call => ?_))
  cases call with
  | none => exact Fixes.pure _
  | some call =>
    refine Fixes.ite (Fixes.pure _) (Fixes.bind (dispatch_buses fun _ => rfl) fun rc =>
      Fixes.bind (Fixes.modify fun _ => rfl) fun _ => ?_)
    refine Fixes.bind (Fixes.bind Fixes.gets fun held => Fixes.ite ?_ (Fixes.pure _)) fun _ =>
      Fixes.ite (Fixes.pure _) (Fixes.pure _)
    exact Fixes.bind (dropControl_buses _) fun _ => Fixes.pure _

theorem pumpSignals_buses : FixesBuses (samvadaPumpSignals : Api σ Int) := by
  refine Fixes.bind Fixes.gets fun p =>
    Fixes.ite (Fixes.pure _) (Fixes.ite (Fixes.pure _) (Fixes.bind Fixes.gets fun call => ?_))
  cases call with
  | none => exact Fixes.pure _
  | some call => exact dispatch_buses fun _ => rfl

/-! ## Release -/

/-- What the log says is open is the bus, a table stands behind it, and that table can close it. -/
structure Balanced (h : Host σ) : Prop where
  owned : Owned (h.log.filter Dispatch.handles) h.pub.bus
  wired : ∀ t, h.pub.table = some t → t.closeBus.isSome
  live : h.pub.bus ≠ 0 → h.pub.table.isSome

theorem Balanced.of_buses {h h' : Host σ} (hs : Balanced h) (e : h'.buses = h.buses) :
    Balanced h' := by
  obtain ⟨hb, ht, hl⟩ : h'.pub.bus = h.pub.bus ∧ h'.pub.table = h.pub.table ∧
      h'.log.filter Dispatch.handles = h.log.filter Dispatch.handles := by
    simpa [Host.buses] using e
  exact ⟨hl ▸ hb ▸ hs.owned, ht ▸ hs.wired, hb ▸ ht ▸ hs.live⟩

/-- What leaves the buses alone keeps them sound. -/
theorem FixesBuses.balanced {x : Api σ α} (hx : FixesBuses x) (b : Int) :
    Spec (fun h => Balanced h ∧ h.pub.bus = b) x (fun _ h => Balanced h ∧ h.pub.bus = b) fun _ =>
    True := by
  intro h hs
  have e := hx h
  cases run : x h with
  | waiting h' => trivial
  | done a h' =>
    rw [run] at e
    exact ⟨hs.1.of_buses e, (congrArg Prod.fst e).trans hs.2⟩

/-- Nothing is left of a connection. -/
structure Cleared (p : Public σ) : Prop where
  table : p.table = none
  bus : p.bus = 0
  control : p.control = .no
  held : p.held = []
  zeroed : p.zeroed = p

theorem closeLiveBus_balanced : Spec Balanced (closeLiveBus : Api σ Unit)
    (fun _ h => Balanced h ∧ h.pub.bus = 0) fun _ => True := by
  refine Spec.gets_bind fun bus =>
    Spec.ite (fun h0 => Spec.pure fun h hs => ⟨hs.1, hs.2.trans h0⟩) fun h0 => ?_
  refine Spec.bind ((dropControl_buses true).balanced bus) fun _ => Spec.gets_bind fun call => ?_
  cases call with
  | none =>
    intro h hs
    obtain ⟨⟨hs, rfl⟩, hcall⟩ := hs
    obtain ⟨t, ht⟩ := Option.isSome_iff_exists.mp (hs.live h0)
    have wired := hs.wired t ht
    rw [ht, Option.bind_some] at hcall
    rw [hcall] at wired
    cases wired
  | some call =>
    refine Spec.bind (Q := fun _ h => Owned (h.log.filter Dispatch.handles) 0 ∧ ∀ t,
      h.pub.table = some t → t.closeBus.isSome) ?_ fun _ => Spec.modify fun h hs =>
      ⟨⟨hs.1, hs.2, fun h => absurd rfl h⟩, rfl⟩
    intro h hs
    obtain ⟨⟨hs, rfl⟩, -⟩ := hs
    unfold dispatch
    cases call h.pub.bus h.back with
    | waiting b => trivial
    | done rc b =>
      refine ⟨?_, hs.wired⟩
      show Owned ((h.log ++ [Dispatch.closeBus h.pub.bus rc]).filter Dispatch.handles) 0
      rw [List.filter_append]
      exact hs.owned.closed rc h0

theorem release_balanced : Spec Balanced (samvadaRelease : Api σ Int)
    (fun rc h => rc = 0 ∧ Balanced h ∧ Cleared h.pub) fun _ => True := by
  refine Spec.bind closeLiveBus_balanced fun _ =>
    Spec.bind (Q := fun _ h => Balanced h ∧ Cleared h.pub) (Spec.modify fun h hs => ?_)
    fun _ => Spec.pure fun h hs => ⟨rfl, hs⟩
  obtain ⟨hs, hbus⟩ := hs
  refine ⟨⟨hs.owned, fun t ht => (nomatch ht), fun h => absurd hbus h⟩, ⟨rfl, hbus, rfl, rfl, ?_⟩⟩
  simp [Public.zeroed, Function.comp_def]

/-- Releasing what is cleared does nothing. -/
theorem release_cleared {h : Host σ} (hc : Cleared h.pub) : samvadaRelease h = .done 0 h := by
  have skip : closeLiveBus h = .done () h := by
    simp only [closeLiveBus, bind_run, gets_run, hc.bus, if_true]
    rfl
  have same : { h.pub.zeroed with control := .no, held := [], table := none } = h.pub := by
    rw [hc.zeroed, ← hc.control, ← hc.held, ← hc.table]
  unfold samvadaRelease
  rw [bind_done skip]
  show Outcome.done (0 : Int)
    { h with pub := { h.pub.zeroed with control := .no, held := [], table := none } } = .done 0 h
  rw [same]

/-! ## Init -/

/-- An init that fails has left nothing. -/
def Settled (rc : Int) (h : Host σ) : Prop := Balanced h ∧ (rc < 0 → Cleared h.pub)

theorem releaseWith_settled (rc : Int) : Spec Balanced (releaseWith rc : Api σ Int) Settled fun _ =>
    True :=
  Spec.bind release_balanced fun _ => Spec.pure fun _ hs => ⟨hs.2.1, fun _ => hs.2.2⟩

theorem initSession_settled : Spec Balanced (initSession : Api σ Int) Settled fun _ => True := by
  refine Spec.gets_bind fun call => ?_
  have back (rc : Int) {P : Host σ → Prop} (hP : ∀ h, P h → Balanced h) :
    Spec P (releaseWith rc : Api σ Int) Settled fun _ => True :=
    (releaseWith_settled rc).mono hP (fun _ _ h => h) fun _ h => h
  cases call with
  | none => exact back _ fun _ h => h.1
  | some call =>
    refine Spec.gets_bind fun bus => Spec.gets_bind fun pid => ?_
    refine Spec.bind (Q := fun _ => Balanced) ?_ fun r =>
      Spec.bind (Q := fun _ => Balanced) (Spec.modify fun h hs => ?_) fun _ => ?_
    · intro h hs
      have fixed :=
        (dispatch_buses (x := call bus pid samvadaSessBuflen)
        (d := fun r => .getSessionPath bus pid r.1) fun _ => rfl).balanced
        h.pub.bus h ⟨hs.1.1.1, rfl⟩
      generalize dispatch _ _ h = o at fixed
      cases o with
      | waiting h' => trivial
      | done a h' => exact fixed.1
    · exact hs.of_buses rfl
    · refine Spec.ite (fun _ => back _ fun _ h => h) fun _ => Spec.gets_bind fun tc => ?_
      cases tc with
      | none => exact back _ fun _ h => h.1
      | some tc => exact Spec.pure fun h hs => ⟨hs.1, fun h => absurd h (by decide)⟩

/-- Between the open and the bus being set. -/
def Opening (r : Int × Option Int) (h : Host σ) : Prop :=
  Owned (h.log.filter Dispatch.handles) (if 0 ≤ r.1 ∧ r.2.getD 0 ≠ 0 then r.2.getD 0 else 0) ∧
    (∀ t, h.pub.table = some t → t.closeBus.isSome) ∧ h.pub.table.isSome ∧ h.pub.bus = 0

theorem open_opening (call : Prog σ (Int × Option Int)) :
    Spec (fun h => Balanced h ∧ h.pub.bus = 0 ∧ h.pub.table.isSome)
    (dispatch call fun r => .openSystemBus r.1 (r.2.getD 0)) Opening fun _ => True := by
  intro h hs
  obtain ⟨hs, hbus, ht⟩ := hs
  have owned : Owned (h.log.filter Dispatch.handles) 0 := hbus ▸ hs.owned
  unfold dispatch
  cases call h.back with
  | waiting b => trivial
  | done r b =>
    refine ⟨?_, hs.wired, ht, hbus⟩
    show Owned ((h.log ++ [Dispatch.openSystemBus r.1 (r.2.getD 0)]).filter Dispatch.handles) _
    rw [List.filter_append]
    by_cases hr : 0 ≤ r.1 ∧ r.2.getD 0 ≠ 0
    · have seen : (Dispatch.openSystemBus r.1 (r.2.getD 0)).handles = true := by
        simp [Dispatch.handles, Dispatch.opened, hr]
      rw [if_pos hr, List.filter_cons_of_pos seen, List.filter_nil]
      exact owned.opened hr.1 hr.2
    · have unseen : ¬ (Dispatch.openSystemBus r.1 (r.2.getD 0)).handles = true := by
        simp [Dispatch.handles, Dispatch.opened, Dispatch.closed, hr]
      rw [if_neg hr, List.filter_cons_of_neg unseen, List.filter_nil, List.append_nil]
      exact owned

theorem initBus_settled : Spec (fun h => Balanced h ∧ h.pub.bus = 0) (initBus : Api σ Int) Settled
    fun _ => True := by
  have back (rc : Int) {P : Host σ → Prop} (hP : ∀ h, P h → Balanced h) :
    Spec P (releaseWith rc : Api σ Int) Settled fun _ => True :=
    (releaseWith_settled rc).mono hP (fun _ _ h => h) fun _ h => h
  refine Spec.bind (Q := fun _ h => Balanced h ∧ h.pub.bus = 0)
    (Spec.modify fun h hs => ⟨hs.1.of_buses rfl, hs.2⟩) fun _ =>
    Spec.gets_bind fun call => ?_
  cases call with
  | none => exact back _ fun _ h => h.1.1
  | some call =>
    refine Spec.bind ((open_opening call).mono (fun h hs => ⟨hs.1.1, hs.1.2, ?_⟩) (fun _ _ h => h)
      fun _ h => h) fun r => ?_
    · obtain ⟨t, ht, -⟩ := Option.bind_eq_some_iff.mp hs.2
      rw [ht]
      rfl
    refine Spec.bind (Q := fun _ => Opening r) (Spec.modify fun h hs => hs) fun _ =>
      Spec.ite (fun hrc => ?_) fun hrc => ?_
    · refine back _ fun h hs => ?_
      obtain ⟨owned, wired, -, hbus⟩ := hs
      rw [if_neg (by omega)] at owned
      exact ⟨hbus ▸ owned, wired, fun h => absurd hbus h⟩
    · refine Spec.bind (Q := fun _ => Balanced) (Spec.modify fun h hs => ?_) fun _ =>
        Spec.ite (fun _ => back _ fun _ h => h)
        fun _ => initSession_settled
      obtain ⟨owned, wired, ht, -⟩ := hs
      have rc0 : 0 ≤ r.1 := by omega
      refine ⟨?_, wired, fun _ => ht⟩
      show Owned _ (r.2.getD 0)
      by_cases hb : r.2.getD 0 = 0
      · rw [if_neg fun h => h.2 hb] at owned
        rw [hb]
        exact owned
      · rwa [if_pos ⟨rc0, hb⟩] at owned

theorem ensure_buses {has : Public σ → Bool} {put : Public σ → Bytes → Public σ}
    (hput : ∀ p c, (put p c).bus = p.bus ∧ (put p c).table = p.table) :
    FixesBuses (ensure has put) := by
  refine Fixes.bind Fixes.gets fun there =>
    Fixes.ite (Fixes.pure _) (Fixes.bind (Fixes.modifyGet fun _ => rfl) fun c => ?_)
  cases c with
  | none => exact Fixes.pure _
  | some c =>
    refine Fixes.bind (Fixes.modify fun h => ?_) fun _ => Fixes.pure _
    show ((put h.pub c).bus, (put h.pub c).table, _) = _
    rw [(hput h.pub c).1, (hput h.pub c).2]
    rfl

theorem initAccepted_settled : Spec (fun h => Balanced h ∧ h.pub.bus = 0) (initAccepted : Api σ Int)
    Settled fun _ => True := by
  have back (rc : Int) : Spec (fun h => Balanced h ∧ h.pub.bus = 0) (releaseWith rc : Api σ Int)
    Settled fun _ => True :=
    (releaseWith_settled rc).mono (fun _ h => h.1) (fun _ _ h => h) fun _ h => h
  have sess : FixesBuses (ensureSess : Api σ Bool) := ensure_buses fun _ _ => ⟨rfl, rfl⟩
  have outs : FixesBuses (ensureOuts : Api σ Bool) := ensure_buses fun _ _ => ⟨rfl, rfl⟩
  have held : FixesBuses (ensureHeld : Api σ Bool) := ensure_buses fun _ _ => ⟨rfl, rfl⟩
  refine Spec.bind (sess.balanced 0) fun _ => Spec.ite (fun _ => ?_) fun _ => back _
  refine Spec.bind (outs.balanced 0) fun _ => Spec.ite (fun _ => ?_) fun _ => back _
  exact Spec.bind (held.balanced 0) fun _ => Spec.ite (fun _ => initBus_settled) fun _ => back _

/-- The errno an init is refused with at once, if it is. -/
def initRefusal (p : Public σ) : Option (Table σ) → Option Int
  | none => some (-22)
  | some t =>
    if p.table.isSome then some (-16)
    else if t.kind ≠ samvadaBackendKindLibsystemd ∧ t.kind ≠ samvadaBackendKindPureCyrius then
      some (-22)
    else none

/-- A refused init changes nothing. -/
theorem init_refused {h : Host σ} {table : Option (Table σ)} {rc : Int}
    (hr : initRefusal h.pub table = some rc) : samvadaInit table h = .done rc h := by
  cases table with
  | none =>
    cases hr
    rfl
  | some t =>
    simp only [initRefusal] at hr
    simp only [samvadaInit, bind_run, gets_run]
    split_ifs at hr ⊢
    · cases hr
      rfl
    · cases hr
      rfl

theorem init_settled {t : Table σ} (ht : t.closeBus.isSome) :
    Spec (fun h => Balanced h ∧ initRefusal h.pub (some t) = none) (samvadaInit (some t)) Settled
    fun _ => True := by
  refine Spec.gets_bind fun table => Spec.ite (fun hsome h hs => ?_) fun hnone =>
    Spec.ite (fun hk h hs => ?_) fun hk => ?_
  · obtain ⟨⟨-, hr⟩, rfl⟩ := hs
    simp [initRefusal, hsome] at hr
  · obtain ⟨⟨-, hr⟩, rfl⟩ := hs
    simp [initRefusal, hnone, hk] at hr
  · refine Spec.bind (Spec.modify fun h hs => ?_) fun _ => initAccepted_settled
    obtain ⟨⟨hs, -⟩, rfl⟩ := hs
    have hbus : h.pub.bus = 0 := Classical.byContradiction fun h0 => hnone (hs.live h0)
    refine ⟨⟨hs.owned, fun t' ht' => ?_, fun _ => rfl⟩, hbus⟩
    cases ht'
    exact ht

/-! ## A busy backend -/

/-- The backend answered an init's question with -EBUSY. -/
def Dispatch.busy : Dispatch → Bool
  | .openSystemBus rc _ => rc == -16
  | .getSessionPath _ _ rc => rc == -16
  | _ => false

/-- The log since `L` shows a busy backend. -/
def BusySince (L : List Dispatch) (h : Host σ) : Prop :=
  ∃ post, h.log = L ++ post ∧ ∃ d ∈ post, d.busy = true

/-- What is answered since `L` is -EBUSY only from a busy backend. -/
def BusyTold (L : List Dispatch) (rc : Int) (h : Host σ) : Prop :=
  L <+: h.log ∧ (rc = -16 → BusySince L h)

/-- `x` writes at the end of the log only. -/
def Logs (x : Api σ α) : Prop := ∀ h, h.log <+: (x h).state.log

namespace Logs
variable {β : Type}

theorem of_fixes {x : Api σ α} (hx : Fixes Host.log x) : Logs x := by
  intro h
  have same : (x h).state.log = h.log := hx h
  exact same.symm ▸ List.prefix_refl h.log

theorem dispatch (x : Prog σ α) (d : α → Dispatch) : Logs (dispatch x d) := by
  intro h
  unfold Samvada.dispatch
  cases x h.back with
  | waiting b => exact List.prefix_refl _
  | done a b => exact List.prefix_append _ _

theorem bind {x : Api σ α} {f : α → Api σ β} (hx : Logs x) (hf : ∀ a, Logs (f a)) :
    Logs (x >>= f) := by
  intro h
  have first := hx h
  rw [bind_run]
  cases run : x h with
  | waiting h' =>
    rw [run] at first
    exact first
  | done a h' =>
    rw [run] at first
    exact first.trans (hf a h')

theorem ite {c : Prop} [Decidable c] {x y : Api σ α} (hx : Logs x) (hy : Logs y) :
    Logs (if c then x else y) := by
  split
  · exact hx
  · exact hy

end Logs

theorem dropControl_logs (closing : Bool) : Logs (samvadaDropControl closing : Api σ Int) := by
  have set (c : Control) (rc : Int) : Logs (do
      setControl c
      pure rc : Api σ Int) :=
    .of_fixes (Fixes.bind (Fixes.modify fun _ => rfl) fun _ => Fixes.pure _)
  have call : Logs (releaseControlCall : Api σ Int) := by
    refine .bind (.of_fixes Fixes.gets) fun slot => ?_
    cases slot with
    | none => exact .of_fixes (Fixes.pure _)
    | some call => exact .bind (.of_fixes Fixes.gets) fun p => .dispatch _ _
  exact .bind (.of_fixes Fixes.gets) fun c => .ite (.of_fixes (Fixes.pure _))
    (.ite (set _ _) (.bind call fun rc => .ite (set _ _) (set _ _)))

theorem release_logs : Logs (samvadaRelease : Api σ Int) := by
  refine .bind (.bind (.of_fixes Fixes.gets) fun bus => .ite (.of_fixes (Fixes.pure _))
    (.bind (dropControl_logs true) fun _ => .bind (.of_fixes Fixes.gets) fun call => ?_)) fun _ =>
      .of_fixes (Fixes.bind (Fixes.modify fun _ => rfl) fun _ => Fixes.pure _)
  cases call with
  | none => exact .of_fixes (Fixes.modify fun _ => rfl)
  | some call => exact .bind (.dispatch _ _) fun _ => .of_fixes (Fixes.modify fun _ => rfl)

section
variable {L : List Dispatch}

theorem BusyTold.grown {rc : Int} {h h' : Host σ} (ht : BusyTold L rc h) (hl : h.log <+: h'.log) :
    BusyTold L rc h' := by
  refine ⟨ht.1.trans hl, fun e => ?_⟩
  obtain ⟨post, hpost, d, hd, busy⟩ := ht.2 e
  obtain ⟨more, hmore⟩ := hl
  refine ⟨post ++ more, ?_, d, List.mem_append_left _ hd, busy⟩
  rw [← hmore, hpost, List.append_assoc]

/-- A release on the way out keeps what the log showed. -/
theorem releaseWith_told (rc : Int) : Spec (BusyTold L rc) (releaseWith rc : Api σ Int)
    (BusyTold L) fun _ => True := by
  refine Spec.bind (Q := fun _ => BusyTold L rc) (fun h ht => ?_) fun _ => Spec.pure fun _ h => h
  have grows := release_logs h
  cases run : samvadaRelease h with
  | waiting h' => trivial
  | done a h' =>
    rw [run] at grows
    exact ht.grown grows

/-- Giving up with an errno of one's own. -/
theorem giveUp_told {rc : Int} (hrc : rc ≠ -16) : Spec (fun h => L <+: h.log)
    (releaseWith rc : Api σ Int) (BusyTold L) fun _ => True :=
  (releaseWith_told rc).mono (fun _ h => ⟨h, fun e => absurd e hrc⟩) (fun _ _ h => h) fun _ h => h

/-- What a backend answers an init is in the log. -/
theorem dispatch_told {x : Prog σ α} {d : α → Dispatch} (rc : α → Int)
    (hd : ∀ a, (d a).busy = (rc a == -16)) : Spec (fun h => L <+: h.log) (dispatch x d)
      (fun a => BusyTold L (rc a)) fun _ => True := by
  rintro h ⟨post, hpost⟩
  unfold dispatch
  cases x h.back with
  | waiting b => trivial
  | done a b =>
    refine ⟨⟨post ++ [d a], ?_⟩, fun e => ⟨post ++ [d a], ?_, d a, by simp, ?_⟩⟩
    · rw [← List.append_assoc, hpost]
    · show h.log ++ [d a] = _
      rw [← hpost, List.append_assoc]
    · rw [hd, e]
      rfl

theorem initSession_told : Spec (fun h => L <+: h.log) (initSession : Api σ Int) (BusyTold L)
    fun _ => True := by
  refine Spec.gets_bind fun call => ?_
  cases call with
  | none => exact (giveUp_told (by decide)).mono (fun _ h => h.1) (fun _ _ h => h) fun _ h => h
  | some call =>
    refine Spec.gets_bind fun bus => Spec.gets_bind fun pid => ?_
    refine Spec.bind ((dispatch_told Prod.fst fun _ => rfl).mono (fun _ h => h.1.1.1)
      (fun _ _ h => h) fun _ h => h) fun r => ?_
    refine Spec.bind (Q := fun _ => BusyTold L r.1) (Spec.modify fun _ h => h) fun _ =>
      Spec.ite (fun _ => releaseWith_told _) fun _ => Spec.gets_bind fun tc => ?_
    cases tc with
    | none => exact (giveUp_told (by decide)).mono (fun _ h => h.1.1) (fun _ _ h => h) fun _ h => h
    | some tc => exact Spec.pure fun h ht => ⟨ht.1.1, fun e => absurd e (by decide)⟩

theorem initBus_told : Spec (fun h => L <+: h.log) (initBus : Api σ Int) (BusyTold L)
    fun _ => True := by
  refine Spec.bind (Q := fun _ h => L <+: h.log) (Spec.modify fun _ h => h) fun _ =>
    Spec.gets_bind fun call => ?_
  cases call with
  | none => exact (giveUp_told (by decide)).mono (fun _ h => h.1) (fun _ _ h => h) fun _ h => h
  | some call =>
    refine Spec.bind ((dispatch_told Prod.fst fun _ => rfl).mono (fun _ h => h.1)
      (fun _ _ h => h) fun _ h => h) fun r => ?_
    refine Spec.bind (Q := fun _ => BusyTold L r.1) (Spec.modify fun _ h => h) fun _ =>
      Spec.ite (fun _ => releaseWith_told _) fun _ => ?_
    refine Spec.bind (Q := fun _ h => L <+: h.log) (Spec.modify fun _ h => h.1) fun _ =>
      Spec.ite (fun _ => giveUp_told (by decide)) fun _ => initSession_told

/-- An init that is not refused answers -EBUSY only from a busy backend. -/
theorem init_told {table : Option (Table σ)} : Spec (fun h => h.pub.table = none ∧ L <+: h.log)
    (samvadaInit table) (BusyTold L) fun _ => True := by
  have own {P : Host σ → Prop} (hP : ∀ h, P h → L <+: h.log) {rc : Int} (hrc : rc ≠ -16) :
      Spec P (pure rc : Api σ Int) (BusyTold L) fun _ => True :=
    Spec.pure fun h hp => ⟨hP h hp, fun e => absurd e hrc⟩
  cases table with
  | none => exact own (fun _ h => h.2) (by decide)
  | some t =>
    refine Spec.gets_bind fun table => Spec.ite (fun hsome h hs => ?_) fun _ =>
      Spec.ite (fun _ => own (fun _ h => h.1.2) (by decide)) fun _ => ?_
    · rw [← hs.2, hs.1.1] at hsome
      cases hsome
    refine Spec.bind (Q := fun _ h => L <+: h.log) (Spec.modify fun _ h => h.1.2) fun _ => ?_
    have ready (has : Public σ → Bool) (put : Public σ → Bytes → Public σ) :
        Spec (fun h => L <+: h.log) (ensure has put) (fun _ h => L <+: h.log) fun _ => True := by
      refine Spec.bind (Q := fun _ h => L <+: h.log) (Spec.gets fun _ h => h) fun there =>
        Spec.ite (fun _ => Spec.pure fun _ h => h) fun _ =>
          Spec.bind (Q := fun _ h => L <+: h.log) (Spec.modifyGet fun _ h => h) fun c => ?_
      cases c with
      | none => exact Spec.pure fun _ h => h
      | some c =>
        exact Spec.bind (Q := fun _ h => L <+: h.log) (Spec.modify fun _ h => h) fun _ =>
          Spec.pure fun _ h => h
    exact Spec.bind (ready _ _) fun _ => Spec.ite (fun _ => Spec.bind (ready _ _) fun _ =>
      Spec.ite (fun _ => Spec.bind (ready _ _) fun _ => Spec.ite (fun _ => initBus_told)
        fun _ => giveUp_told (by decide)) fun _ => giveUp_told (by decide))
          fun _ => giveUp_told (by decide)

end

/-! ## Runs -/

/-- A table given to an init can close what it opens. -/
def ApiOp.closable : ApiOp σ → Prop
  | .init (some t) => t.closeBus.isSome
  | _ => True

theorem run_balanced {op : ApiOp σ} (hop : op.closable) : Spec Balanced op.run (fun _ => Balanced)
    fun _ => True := by
  have quiet {x : Api σ Int} (hx : FixesBuses x) : Spec Balanced x (fun _ => Balanced) fun _ =>
    True := by
    intro h hs
    have kept := hx.balanced h.pub.bus h ⟨hs, rfl⟩
    generalize x h = o at kept
    cases o with
    | waiting h' => trivial
    | done rc h' => exact kept.1
  cases op with
  | init table =>
    intro h hs
    cases hr : initRefusal h.pub table with
    | some rc =>
      have run : (ApiOp.init table).run h = .done rc h := init_refused hr
      rw [run]
      exact hs
    | none =>
      cases table with
      | none => cases hr
      | some t =>
        exact (init_settled hop).mono (fun h hs => hs) (fun _ _ hs => hs.1)
          (fun _ h => h) h ⟨hs, hr⟩
  | takeDevice major minor => exact quiet (takeDevice_buses major minor)
  | releaseDevice major minor => exact quiet (releaseDevice_buses major minor)
  | pumpSignals => exact quiet pumpSignals_buses
  | release => exact release_balanced.mono (fun _ h => h) (fun _ _ h => h.2.1) fun _ h => h

theorem runApi_balanced : ∀ (ops : List (ApiOp σ)), (∀ op ∈ ops, op.closable) →
    Spec Balanced (runApi ops) (fun _ => Balanced) fun _ => True
  | [], _ => Spec.pure fun _ h => h
  | op :: rest, hops => Spec.bind (run_balanced (hops op List.mem_cons_self)) fun _ =>
      Spec.bind (runApi_balanced rest fun o ho => hops o (List.mem_cons_of_mem _ ho)) fun _ =>
        Spec.pure fun _ h => h

theorem start_balanced {h : Host σ} (hpub : h.pub = {}) (hlog : h.log = []) : Balanced h := by
  refine ⟨?_, ?_, ?_⟩
  · rw [hpub, hlog]
    exact .nil
  · rw [hpub]
    intro t ht
    cases ht
  · rw [hpub]
    exact fun h => absurd rfl h

/-- **Init and release never leak a bus, never close one twice, and fail clean.**
In every state a run of the API reaches, over backends whose close_bus is wired:
the closes and the bus still open number the opens that succeeded, each close
having been for the bus of the latest open; a bus has a table behind it; a
refused init changes nothing; an init that fails later leaves nothing, so the
next answers -EBUSY only where the backend did; and a second release does nothing. -/
theorem init_release_balanced (h₀ : Host σ) (hpub : h₀.pub = {}) (hlog : h₀.log = [])
    (ops : List (ApiOp σ)) (hops : ∀ op ∈ ops, op.closable) {rcs : List Int} {h : Host σ}
    (hrun : runApi ops h₀ = .done rcs h) :
    (closes h.log).length + (if h.pub.bus ≠ 0 then 1 else 0) = (opens h.log).length ∧
    (∀ pre bus rc post, h.log = pre ++ .closeBus bus rc :: post → (opens pre).getLast? = some bus) ∧
    (h.pub.bus ≠ 0 → h.pub.table.isSome) ∧
    (∀ table rc, initRefusal h.pub table = some rc → samvadaInit table h = .done rc h) ∧
    (∀ t rc h', t.closeBus.isSome → initRefusal h.pub (some t) = none →
      samvadaInit (some t) h = .done rc h' → rc < 0 →
      Cleared h'.pub ∧ ∀ table h'', samvadaInit table h' = .done (-16) h'' →
        ∃ post, h''.log = h'.log ++ post ∧ ∃ d ∈ post, d.busy = true) ∧
    (∀ rc h', samvadaRelease h = .done rc h' → samvadaRelease h' = .done 0 h') := by
  have sound : Balanced h := (runApi_balanced ops hops).of_done (start_balanced hpub hlog) hrun
  refine ⟨?_, fun pre bus rc post e => ?_, sound.live, fun table rc hr => init_refused hr,
    fun t rc h' ht hr hinit hneg => ?_, fun rc h' hrel => ?_⟩
  · have balance := congrArg List.length sound.owned.opens_eq
    rw [opens_handles, closes_handles, List.length_append] at balance
    rw [balance]
    by_cases h0 : h.pub.bus = 0
    · simp [h0]
    · simp [h0]
  · have close : (Dispatch.closeBus bus rc).handles = true := rfl
    have filtered := congrArg (List.filter Dispatch.handles) e
    rw [List.filter_append, List.filter_cons_of_pos close] at filtered
    rw [← opens_handles]
    exact sound.owned.latest filtered
  · have cleared : Cleared h'.pub := ((init_settled ht).of_done ⟨sound, hr⟩ hinit).2 hneg
    refine ⟨cleared, fun table h'' again => ?_⟩
    exact (init_told.of_done ⟨cleared.table, List.prefix_refl _⟩ again).2 rfl
  · exact release_cleared (release_balanced.of_done sound hrel).2.2

end

/-- A backend whose bus is always 5. -/
def fixedBus : Table Unit where
  kind := samvadaBackendKindPureCyrius
  openSystemBus := some (pure (0, some 5))
  getSessionPath := some fun _ _ _ => pure (0, some (lit "/s"))
  closeBus := some fun _ => pure 0
  takeControl := some fun _ _ => pure 0

/-- Opened twice and closed once, with the second bus open. -/
theorem init_release_balanced_fixed_bus :
    let start : Host Unit := { back := (), allocs := [some [], some [], some []] }
    ∃ h, runApi [.init (some fixedBus), .release, .init (some fixedBus)] start = .done [0, 0, 0] h ∧
      (closes h.log).length + 1 = (opens h.log).length := by
  intro start
  have ended : (runApi [.init (some fixedBus), .release, .init (some fixedBus)] start).value = some
    [0, 0, 0] := by
    decide +kernel
  have run := Outcome.eq_done ended
  have closable : ∀ op ∈ [ApiOp.init (some fixedBus), .release, .init (some fixedBus)],
    op.closable := by
    intro op hop
    simp only [List.mem_cons, List.not_mem_nil, or_false] at hop
    obtain rfl | rfl | rfl := hop
    · exact rfl
    · trivial
    · exact rfl
  obtain ⟨balance, -⟩ := init_release_balanced start rfl rfl _ closable run
  have bus : (runApi [.init (some fixedBus), .release, .init (some fixedBus)] start).state.pub.bus =
    5 := by decide +kernel
  rw [bus] at balance
  exact ⟨_, run, balance⟩

/-- A backend whose own answer to an open is -EBUSY. -/
def busyBus : Table Unit := { fixedBus with openSystemBus := some (pure (-16, none)) }

/-- An init that failed is followed by one that answers -EBUSY: the backend's own. -/
theorem busy_backend_answers :
    let start : Host Unit := { back := (), allocs := [some [], some [], some []] }
    let failed := (samvadaInit (some busyBus) start).state
    (samvadaInit (some busyBus) start).value = some (-16) ∧ failed.pub.table.isNone ∧
      ¬ ∀ h, samvadaInit (some busyBus) failed ≠ .done (-16) h := by
  intro start failed
  have again : (samvadaInit (some busyBus) failed).value = some (-16) := by decide +kernel
  exact ⟨by decide +kernel, by decide +kernel, fun h => h _ (Outcome.eq_done again)⟩

end Samvada
