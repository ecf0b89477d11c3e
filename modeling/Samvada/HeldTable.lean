import Samvada.Lib.Slots
import Samvada.Lifecycle
import Mathlib.Data.Finset.Insert
import Mathlib.Data.Finset.Erase

/- The held-device table and what went over the wire. A run of the API leaves a log
   of dispatches, and what the log says is in the consumer's hands is a finite set of
   devices: taken with a descriptor, and not given back since. The table is an array
   of 64-bit words that stands for that set (`Slots.Holds`), whatever the backend
   answers, and the log is orderly: control moves only while nothing is in hand, or
   as the bus is closed, and a device is asked for only while it is not in hand. -/
namespace Samvada
open Octets Resumable Resumable.Prog

/-! ## Keys -/

/-- A device, by its numbers. -/
abbrev Device := Int × Int

/-- Both numbers are 32-bit. -/
def InRange (d : Device) : Prop := (0 ≤ d.1 ∧ d.1 ≤ 4294967295) ∧ 0 ≤ d.2 ∧ d.2 ≤ 4294967295

instance (d : Device) : Decidable (InRange d) := inferInstanceAs (Decidable (_ ∧ _))

def deviceKey (d : Device) : Key := heldKey d.1 d.2

theorem devnumOk_iff {v : Int} : samvadaDevnumOk v = true ↔ 0 ≤ v ∧ v ≤ 4294967295 := by
  simp [samvadaDevnumOk]

/-- The numbers side by side. -/
theorem deviceKey_toNat {d : Device} (hd : InRange d) : (deviceKey d).toNat = d.1.toNat *
    4294967296 + d.2.toNat := by
  obtain ⟨⟨hM, hM'⟩, hm, hm'⟩ := hd
  have high : (BitVec.ofInt 64 d.1).toNat = d.1.toNat := by
    rw [BitVec.toNat_ofInt]
    omega
  have low : (BitVec.ofInt 64 d.2).toNat = d.2.toNat := by
    rw [BitVec.toNat_ofInt]
    omega
  have fits : d.1.toNat <<< 32 < 2 ^ 64 := by
    rw [Nat.shiftLeft_eq]
    omega
  have apart := Nat.shiftLeft_add_eq_or_of_lt (i := 32) (b := d.2.toNat) (by omega) d.1.toNat
  rw [deviceKey, heldKey, BitVec.toNat_or, BitVec.toNat_shiftLeft, high, low, Nat.mod_eq_of_lt fits,
    ← apart, Nat.shiftLeft_eq]

/-- **No two devices have one key.** -/
theorem deviceKey_inj {d e : Device} (hd : InRange d) (he : InRange e)
    (h : deviceKey d = deviceKey e) : d = e := by
  have sum := congrArg BitVec.toNat h
  rw [deviceKey_toNat hd, deviceKey_toNat he] at sum
  obtain ⟨⟨hM, hM'⟩, hm, hm'⟩ := hd
  obtain ⟨⟨gM, gM'⟩, gm, gm'⟩ := he
  apply Prod.ext
  · omega
  · omega

/-! ## What the log says -/

/-- What is in hand after a dispatch. -/
def Dispatch.hand (s : Finset Device) : Dispatch → Finset Device
  | .takeDevice _ major minor rc fd => if 0 ≤ rc ∧ 0 ≤ fd then insert (major, minor) s else s
  | .releaseDevice _ major minor _ => s.erase (major, minor)
  | .closeBus _ _ => ∅
  | _ => s

/-- What a log says is in hand. -/
def inHand (log : List Dispatch) : Finset Device := log.foldl Dispatch.hand ∅

/-- A log in which control moves only while nothing is in hand, or as the bus is
closed, a bus is opened with nothing in hand, and no device is asked for twice. -/
inductive Orderly : List Dispatch → Prop where
  | nil : Orderly []
  | openSystemBus {log : List Dispatch} (rc bus : Int) (h : Orderly log) (empty : inHand log = ∅) :
    Orderly (log ++ [.openSystemBus rc bus])
  | getSessionPath {log : List Dispatch} (bus pid rc : Int) (h : Orderly log)
      (empty : inHand log = ∅) :
    Orderly (log ++ [.getSessionPath bus pid rc])
  | takeControl {log : List Dispatch} (bus rc : Int) (h : Orderly log) (empty : inHand log = ∅) :
    Orderly (log ++ [.takeControl bus rc])
  | releaseControl {log : List Dispatch} (bus rc : Int) (h : Orderly log) (empty : inHand log = ∅) :
    Orderly (log ++ [.releaseControl bus rc])
  | takeDevice {log : List Dispatch} {d : Device} (bus rc fd : Int) (h : Orderly log)
      (range : InRange d) (new : d ∉ inHand log)
    (room : (inHand log).card < 256) : Orderly (log ++ [.takeDevice bus d.1 d.2 rc fd])
  | releaseDevice {log : List Dispatch} {d : Device} (bus rc : Int) (h : Orderly log)
      (range : InRange d) :
    Orderly (log ++ [.releaseDevice bus d.1 d.2 rc])
  | pumpSignals {log : List Dispatch} (bus rc : Int) (h : Orderly log) :
      Orderly (log ++ [.pumpSignals bus rc])
  | closeBus {log : List Dispatch} (bus rc : Int) (h : Orderly log) :
      Orderly (log ++ [.closeBus bus rc])
  /-- `samvada_release`: control goes back, then the bus -/
  | closing {log : List Dispatch} (bus rc rc' : Int) (h : Orderly log) :
    Orderly (log ++ [.releaseControl bus rc, .closeBus bus rc'])

theorem inHand_concat (log : List Dispatch) (d : Dispatch) : inHand (log ++ [d]) = d.hand
    (inHand log) := by
  rw [inHand, List.foldl_append]
  rfl

/-! ## The table and the log -/

section
variable {σ α β : Type} {l : List Key} {s : Finset Device} {d : Device}

/-- The table is `l` and stands for `s`, which is what the log says is in hand. -/
structure Tabled (l : List Key) (s : Finset Device) (p : Public σ) (log : List Dispatch) :
    Prop where
  orderly : Orderly log
  hand : inHand log = s
  held : p.held = l
  keys : Slots.Holds deviceKey l s
  range : ∀ d ∈ s, InRange d
  room : s.card ≤ 256
  control : s ≠ ∅ → p.control ≠ .no
  shut : p.bus = 0 → s = ∅
  live : p.bus ≠ 0 → p.table.isSome
  wired : ∀ t, p.table = some t → t.closeBus.isSome

abbrev Tables (l : List Key) (s : Finset Device) (h : Host σ) : Prop := Tabled l s h.pub h.log

namespace Tabled
variable {p : Public σ} {log : List Dispatch}

/-- What the table does not depend on. -/
theorem of_pub {q : Public σ} (h : Tabled l s p log) (held : q.held = p.held)
    (control : p.control ≠ .no → q.control ≠ .no) (bus : q.bus = p.bus)
    (table : q.table = p.table) : Tabled l s q log :=
  ⟨h.orderly, h.hand, held.trans h.held, h.keys, h.range, h.room, fun hs => control (h.control hs),
    bus ▸ h.shut, bus ▸ table ▸ h.live, table ▸ h.wired⟩

/-- A dispatch that leaves what is in hand. -/
theorem logged {e : Dispatch} (h : Tabled l s p log) (orderly : Orderly (log ++ [e]))
    (same : e.hand s = s) : Tabled l s p (log ++ [e]) := by
  refine ⟨orderly, ?_, h.held, h.keys, h.range, h.room, h.control, h.shut, h.live, h.wired⟩
  rw [inHand_concat, h.hand, same]

/-- Looking a device up in the table decides whether it is in hand. -/
theorem find_isSome (h : Tabled l s p log) (hd : InRange d) :
    (samvadaHeldFind l d.1 d.2).isSome = true ↔ d ∈ s := by
  rw [samvadaHeldFind, List.findIdx?_isSome, List.any_eq_true, ← h.keys.mem_iff fun e he =>
    deviceKey_inj (h.range e he) hd]
  simp only [beq_iff_eq, exists_eq_right]
  rfl

end Tabled

theorem Control.yes_ne : Control.yes ≠ .no := by decide
theorem Control.maybe_ne : Control.maybe ≠ .no := by decide

/-- A dispatch adds itself to the log and leaves the API's state. -/
theorem dispatch_logs {x : Prog σ α} {d : α → Dispatch} {P : Public σ → List Dispatch → Prop} :
    Spec (fun h => P h.pub h.log) (dispatch x d)
    (fun a h => ∃ log, P h.pub log ∧ h.log = log ++ [d a]) fun _ => True := by
  intro h hp
  unfold dispatch
  cases x h.back with
  | waiting b => trivial
  | done a b => exact ⟨h.log, hp, rfl⟩

/-- What a dispatch leaves of the API's state. -/
theorem dispatch_pub {x : Prog σ α} {d : α → Dispatch} : Fixes Host.pub (dispatch x d) := by
  intro h
  unfold dispatch
  cases x h.back with
  | waiting b => rfl
  | done a b => rfl

/-- A dispatch that leaves the table as it is. -/
theorem dispatch_tables {x : Prog σ α} {d : α → Dispatch}
    (orderly : ∀ a log, Orderly log → inHand log = s → Orderly (log ++ [d a]))
    (same : ∀ a, (d a).hand s = s) : Spec (Tables l s) (dispatch x d) (fun _ => Tables l s) fun _ =>
    True := by
  refine (dispatch_logs (P := Tabled l s)).mono (fun _ h => h) (fun a h hs => ?_) fun _ h => h
  obtain ⟨log, ht, hlog⟩ := hs
  rw [Tables, hlog]
  exact ht.logged (orderly a log ht.orderly ht.hand) (same a)

/-- Nothing in hand, so the control flag may be anything. -/
theorem setControl_empty (c : Control) : Spec (Tables [] ∅) (setControl c : Api σ Unit)
    (fun _ => Tables [] ∅) fun _ => True :=
  Spec.modify fun _ h =>
    ⟨h.orderly, h.hand, h.held, h.keys, h.range, h.room, fun hs => absurd rfl hs, h.shut,
    h.live, h.wired⟩

theorem setControl_maybe : Spec (Tables l s) (setControl .maybe : Api σ Unit) (fun _ => Tables l s)
    fun _ => True :=
  Spec.modify fun _ h => h.of_pub rfl (fun _ => Control.maybe_ne) rfl rfl

theorem takeControl_tables : Spec (Tables [] ∅) (samvadaTakeControl : Api σ Int)
    (fun tc h => Tables [] ∅ h ∧ (0 ≤ tc → h.pub.control = .yes)) fun _ => True := by
  refine Spec.gets_bind fun call => ?_
  cases call with
  | none => exact Spec.pure fun h ht => ⟨ht.1, fun h => absurd h (by decide)⟩
  | some call =>
    refine Spec.bind (Q := fun _ => Tables [] ∅) (Spec.gets fun _ h => h.1) fun p => ?_
    refine Spec.bind (dispatch_tables (fun a log h hand => .takeControl _ _ h hand) fun _ => rfl)
      fun rc => ?_
    refine Spec.ite (fun hrc => ?_) fun _ =>
      Spec.ite (fun neg => Spec.pure fun h ht => ⟨ht, fun h => by omega⟩) fun neg => ?_
    · exact Spec.bind (setControl_empty _) fun _ => Spec.pure fun h ht => ⟨ht, fun h => by omega⟩
    · refine Spec.bind (Q := fun _ h => Tables [] ∅ h ∧ h.pub.control = .yes)
        (Spec.modify fun h ht => ?_) fun _ =>
        Spec.pure fun h ht => ⟨ht.1, fun _ => ht.2⟩
      exact ⟨ht.of_pub rfl (fun _ => Control.yes_ne) rfl rfl, rfl⟩

/-- With nothing in hand, giving control back keeps it so. -/
theorem dropControl_tables : Spec (Tables [] ∅) (samvadaDropControl false : Api σ Int)
    (fun _ => Tables [] ∅) fun _ => True := by
  have set (c : Control) (rc : Int) : Spec (Tables [] ∅) (do
      setControl c
      pure rc : Api σ Int) (fun _ => Tables [] ∅) fun _ => True := Spec.bind (setControl_empty c)
        fun _ => Spec.pure fun _ h => h
  have call : Spec (Tables [] ∅) (releaseControlCall : Api σ Int) (fun _ => Tables [] ∅) fun _ =>
    True := by
    refine Spec.gets_bind fun call => ?_
    cases call with
    | none => exact Spec.pure fun _ h => h.1
    | some call =>
      refine Spec.bind (Q := fun _ => Tables [] ∅) (Spec.gets fun _ h => h.1) fun p => ?_
      exact dispatch_tables (fun a log h hand => .releaseControl _ _ h hand) fun _ => rfl
  refine Spec.bind (Q := fun _ => Tables [] ∅) (Spec.gets fun _ h => h) fun c =>
    Spec.ite (fun _ => Spec.pure fun _ h => h) fun _ =>
    Spec.ite (fun closing => absurd closing.1 (by decide)) fun _ => Spec.bind call fun rc =>
      Spec.ite (fun _ => set _ _) fun _ => set _ _

/-- The take failed: whatever is dispatched, the device was not in hand. -/
theorem takeFailed_tables (hd : InRange d) (new : d ∉ s) (rc : Int) :
    Spec (Tables l s) (takeFailed d.1 d.2 rc : Api σ Int) (fun r h => r = rc ∧ Tables l s h)
    fun _ => True := by
  refine Spec.gets_bind fun p => Spec.ite (fun hnil => ?_) fun _ => Spec.ite (fun _ => ?_) fun _ =>
    Spec.ite (fun _ => ?_) fun _ => ?_
  · -- nothing is held
    intro h ht
    obtain ⟨ht, rfl⟩ := ht
    rw [ht.held] at hnil
    obtain rfl := List.eq_nil_of_length_eq_zero hnil
    obtain rfl := ht.keys.eq_nil.mp rfl
    exact Spec.bind dropControl_tables (fun _ => Spec.pure fun _ h => ⟨rfl, h⟩) h ht
  · refine Spec.bind (setControl_maybe.mono (fun _ h => h.1) (fun _ _ h => h) fun _ h => h) fun _ =>
      Spec.pure fun _ h => ⟨rfl, h⟩
  · exact Spec.pure fun _ h => ⟨rfl, h.1⟩
  · refine Spec.gets_bind fun call => ?_
    cases call with
    | none => exact Spec.pure fun _ h => ⟨rfl, h.1.1⟩
    | some call =>
      have release :=
        dispatch_tables (σ := σ) (l := l) (s := s) (x := call p.bus (sessArg p) d.1 d.2)
        (d := fun rc => .releaseDevice p.bus d.1 d.2 rc) (fun a log h _ => .releaseDevice _ _ h hd)
        fun _ => Finset.erase_eq_of_notMem new
      exact Spec.bind (release.mono (fun _ h => h.1.1) (fun _ _ h => h) fun _ h => h) fun _ =>
        Spec.pure fun _ h => ⟨rfl, h⟩

/-- A take puts the device in hand and in the table, or leaves both. -/
def Took (l : List Key) (s : Finset Device) (d : Device) (rc : Int) (h : Host σ) : Prop :=
  (0 ≤ rc ∧ InRange d ∧ d ∉ s ∧ Tables (l ++ [deviceKey d]) (insert d s) h) ∨
    (rc < 0 ∧ Tables l s h)

/-- The same, with control held and a bus open. -/
def Controlling (l : List Key) (s : Finset Device) (p : Public σ) (log : List Dispatch) : Prop :=
  Tabled l s p log ∧ p.control ≠ .no ∧ p.bus ≠ 0

theorem Controlling.of_pub {p q : Public σ} {log : List Dispatch} (h : Controlling l s p log)
    (held : q.held = p.held) (control : q.control = p.control) (bus : q.bus = p.bus)
    (table : q.table = p.table) : Controlling l s q log :=
  ⟨h.1.of_pub held (fun hc => control ▸ hc) bus table, control ▸ h.2.1, bus ▸ h.2.2⟩

theorem takeHolding_took (hd : InRange d) (new : d ∉ s) (room : s.card < 256)
    (call : Int → Bytes → Int → Int → Prog σ (Int × Option Int × Option Int)) :
    Spec (fun h => Controlling l s h.pub h.log) (takeHolding call d.1 d.2)
    (fun rc h => Took l s d rc h) fun _ => True := by
  unfold takeHolding
  refine Spec.bind (Q := fun _ h => Controlling l s h.pub h.log)
    (Spec.modify fun h ht => ?_) fun _ =>
    Spec.bind (Q := fun _ h => Controlling l s h.pub h.log) (Spec.gets fun _ h => h) fun p => ?_
  · exact Controlling.of_pub (q := { h.pub with outs := h.pub.outs.map fun _ => (0, 0) }) ht
      rfl rfl rfl rfl
  refine Spec.bind (dispatch_logs (P := Controlling l s)) fun r => ?_
  let took : Dispatch := .takeDevice p.bus d.1 d.2 r.1 (fdWord (r.2.1.getD 0))
  refine Spec.bind (Q := fun _ h => ∃ log, Controlling l s h.pub log ∧ h.log = log ++ [took])
    (Spec.modify fun h ht => ?_) fun _ => ?_
  · obtain ⟨log, ready, hlog⟩ := ht
    exact ⟨log, ready.of_pub rfl rfl rfl rfl, hlog⟩
  have orderly {log : List Dispatch} (h : Orderly log) (hand : inHand log = s) :
    Orderly (log ++ [took]) :=
    .takeDevice _ _ _ h hd (hand ▸ new) (hand ▸ room)
  -- without a descriptor nothing was handed out
  have failed {rc : Int} (neg : rc < 0) (none : took.hand s = s) :
      Spec (fun h => ∃ log, Controlling l s h.pub log ∧ h.log = log ++ [took])
      (takeFailed d.1 d.2 rc : Api σ Int) (fun rc h => Took l s d rc h)
        fun _ => True := by
    refine (takeFailed_tables hd new rc).mono (fun h ht => ?_)
      (fun r h ht => .inr ⟨ht.1 ▸ neg, ht.2⟩) fun _ h => h
    obtain ⟨log, ready, hlog⟩ := ht
    rw [Tables, hlog]
    exact ready.1.logged (orderly ready.1.orderly ready.1.hand) none
  refine Spec.ite (fun hrc => Spec.ite (fun hfd => ?_) fun hfd =>
    failed (by decide) (if_neg fun h => hfd h.2)) fun hrc =>
    failed (by omega) (if_neg fun h => hrc h.1)
  refine Spec.bind (Q := fun _ h => Tables (l ++ [deviceKey d]) (insert d s) h)
    (Spec.modify fun h ht => ?_) fun _ =>
    Spec.pure fun h ht => .inl ⟨hfd, hd, new, ht⟩
  obtain ⟨log, ⟨ready, control, bus⟩, hlog⟩ := ht
  have fits : ¬ samvadaHeldCap ≤ h.pub.held.length := by
    rw [ready.held, ready.keys.length]
    exact Nat.not_le.mpr room
  refine ⟨hlog ▸ orderly ready.orderly ready.hand, ?_, ?_, ready.keys.insert new, ?_, ?_, fun _ =>
    control, fun hbus => absurd hbus bus,
    ready.live, ready.wired⟩
  · show inHand h.log = _
    rw [hlog, inHand_concat, ready.hand]
    exact if_pos ⟨hrc, hfd⟩
  · show (samvadaHeldAdd h.pub.held d.1 d.2).2 = _
    rw [samvadaHeldAdd, if_neg fits, ready.held]
    rfl
  · intro e he
    obtain rfl | he := Finset.mem_insert.mp he
    · exact hd
    · exact ready.range e he
  · rw [Finset.card_insert_of_notMem new]
    omega

theorem acquireControl_controlling :
    Spec (fun h : Host σ => Tables l s h ∧ h.pub.bus ≠ 0) acquireControl
    (fun tc h => (tc < 0 → Tables l s h) ∧ (0 ≤ tc → Controlling l s h.pub h.log)) fun _ =>
    True := by
  refine Spec.gets_bind fun held => Spec.ite (fun hnil => ?_) fun hne => Spec.pure fun h ht =>
    ⟨fun h => absurd h (by decide), fun _ => ?_⟩
  · intro h ht
    obtain ⟨⟨ht, bus⟩, rfl⟩ := ht
    rw [ht.held] at hnil
    obtain rfl := List.eq_nil_of_length_eq_zero hnil
    obtain rfl := ht.keys.eq_nil.mp rfl
    have taken := takeControl_buses.frame (takeControl_tables (σ := σ)) (fun b => b.1 ≠ 0)
    exact taken.mono (fun _ h => h)
      (fun tc h ht => ⟨fun _ => ht.1.1, fun h0 => ⟨ht.1.1, ht.1.2 h0 ▸ Control.yes_ne, ht.2⟩⟩)
      (fun _ h => h) h ⟨ht, bus⟩
  · obtain ⟨⟨ht, bus⟩, rfl⟩ := ht
    refine ⟨ht, ht.control fun hs => hne ?_, bus⟩
    rw [ht.held, ht.keys.length, hs, Finset.card_empty]

/-- The bus is open and the slot wired. -/
structure Callable {γ : Type} (f : Table σ → Option γ) (call : γ) (h : Host σ) : Prop where
  bus : h.pub.bus ≠ 0
  slot : h.pub.table.bind f = some call

/-- A call that goes through a slot is refused with an errno where `Callable` fails. -/
theorem callable_rule {γ : Type} {f : Table σ → Option γ} {k : Public σ → Option γ → Api σ Int}
    {P W : Host σ → Prop} {Q : Int → Host σ → Prop} (unwired : ∀ p, k p none = pure (-38))
    (refused : ∀ rc h, rc < 0 → P h → (∀ call, ¬ Callable f call h) → Q rc h)
    (asked : ∀ call p,
      Spec (fun h => (P h ∧ Callable f call h) ∧ h.pub = p) (k p (some call)) Q W) :
    Spec P (do
      let p ← Prog.gets (·.pub)
      if p.table.isNone then pure (-22)
      else if p.bus = 0 then pure (-107)
      else slot f >>= k p) Q W := by
  refine Spec.gets_bind fun p => Spec.ite (fun noTable => Spec.pure ?_) fun _ =>
    Spec.ite (fun noBus => Spec.pure ?_) fun bus => Spec.gets_bind fun call => ?_
  · rintro h ⟨hp, rfl⟩
    refine refused _ h (by decide) hp fun call wired => ?_
    have slot := wired.slot
    rw [Option.isNone_iff_eq_none.mp noTable] at slot
    cases slot
  · rintro h ⟨hp, rfl⟩
    exact refused _ h (by decide) hp fun _ wired => wired.bus noBus
  cases call with
  | none =>
    rw [unwired]
    refine Spec.pure fun h hp => refused _ h (by decide) hp.1.1 fun call wired => ?_
    cases hp.2.symm.trans wired.slot
  | some call =>
    refine (asked call p).pre ?_
    rintro h ⟨⟨hp, rfl⟩, slot⟩
    exact ⟨⟨hp, bus, slot⟩, rfl⟩

theorem inRange_iff :
    ¬ (samvadaDevnumOk d.1 = false ∨ samvadaDevnumOk d.2 = false) ↔ InRange d := by
  rw [not_or, Bool.not_eq_false, Bool.not_eq_false, devnumOk_iff, devnumOk_iff]
  exact Iff.rfl

/-- What a take has checked once it asks. -/
structure Taking (d : Device)
    (call : Int → Bytes → Int → Int → Prog σ (Int × Option Int × Option Int)) (h : Host σ) :
    Prop where
  wired : Callable (·.takeDevice) call h
  range : InRange d
  unheld : (samvadaHeldFind h.pub.held d.1 d.2).isSome = false
  room : h.pub.held.length < 256

/-- A take is refused with an errno where `Taking` fails, or it asks: for control, and
then for the device. -/
theorem takeDevice_rule {P W : Host σ → Prop} {Q : Int → Host σ → Prop}
    (refused : ∀ rc h, rc < 0 → P h → (∀ call, ¬ Taking d call h) → Q rc h)
    (asked : ∀ call, Spec (fun h => P h ∧ Taking d call h) (do
      let tc ← acquireControl
      if tc < 0 then pure tc else takeHolding call d.1 d.2) Q W) :
    Spec P (samvadaSessionTakeDevice d.1 d.2) Q W := by
  refine callable_rule (f := (·.takeDevice)) (fun _ => rfl) (fun rc h neg hp none => ?_)
    fun call p => ?_
  · exact refused rc h neg hp fun call taking => none call taking.wired
  refine Spec.ite (fun out => Spec.pure ?_) fun range => Spec.ite (fun found => Spec.pure ?_)
    fun unheld => Spec.ite (fun full => Spec.pure ?_) fun room => ?_
  · rintro h ⟨⟨hp, -⟩, rfl⟩
    exact refused _ h (by decide) hp fun _ taking => inRange_iff.mpr taking.range out
  · rintro h ⟨⟨hp, -⟩, rfl⟩
    refine refused _ h (by decide) hp fun _ taking => ?_
    rw [taking.unheld] at found
    cases found
  · rintro h ⟨⟨hp, -⟩, rfl⟩
    exact refused _ h (by decide) hp fun _ taking => absurd taking.room (Nat.not_lt.mpr full)
  · refine (asked call).pre ?_
    rintro h ⟨⟨hp, wired⟩, rfl⟩
    exact ⟨hp, wired, inRange_iff.mp range, Bool.eq_false_iff.mpr unheld, Nat.not_le.mp room⟩

theorem takeDevice_took : Spec (Tables l s) (samvadaSessionTakeDevice d.1 d.2 : Api σ Int)
    (fun rc h => Took l s d rc h) fun _ => True := by
  refine takeDevice_rule (fun rc h neg ht _ => .inr ⟨neg, ht⟩) fun call h ht => ?_
  obtain ⟨ht, taking⟩ := ht
  have unheld : d ∉ s := by
    intro member
    have found := (ht.find_isSome taking.range).mpr member
    rw [← ht.held, taking.unheld] at found
    cases found
  have fits : s.card < 256 := by
    rw [← ht.keys.length, ← ht.held]
    exact taking.room
  refine Spec.bind acquireControl_controlling (fun tc => Spec.ite (fun neg => ?_) fun neg => ?_) h
    ⟨ht, taking.wired.bus⟩
  · exact Spec.pure fun h ht => .inr ⟨neg, ht.1 neg⟩
  · exact (takeHolding_took taking.range unheld fits call).pre fun h ht => ht.2 (Int.not_lt.mp neg)

/-! ## Giving back -/

theorem heldDel_eq {i : Nat} (hi : i < l.length) :
    samvadaHeldDel l (some i) = Slots.swapRemove l i := by
  obtain rfl | ⟨front, last, e⟩ := List.eq_nil_or_concat l
  · cases hi
  rw [List.concat_eq_append] at e
  subst e
  rw [samvadaHeldDel, if_neg (Nat.not_le.mpr hi), Slots.swapRemove_concat, List.length_append,
    List.length_singleton, Nat.add_sub_cancel, List.getD_eq_getElem?_getD,
    List.getElem?_concat_length, Option.getD_some]

/-- The entry of a device goes, where there is one. -/
theorem heldDel_holds (keys : Slots.Holds deviceKey l s) (range : ∀ e ∈ s, InRange e)
    (hd : InRange d) : Slots.Holds deviceKey (samvadaHeldDel l (samvadaHeldFind l d.1 d.2))
    (s.erase d) := by
  have present : deviceKey d ∈ l ↔ d ∈ s := keys.mem_iff fun e he => deviceKey_inj (range e he) hd
  cases hf : samvadaHeldFind l d.1 d.2 with
  | none =>
    have absent : deviceKey d ∉ l := by
      intro hk
      have := List.findIdx?_eq_none_iff.mp hf _ hk
      simp [deviceKey] at this
    rw [Finset.erase_eq_of_notMem fun h => absent (present.mpr h)]
    exact keys
  | some i =>
    obtain ⟨hi, found, -⟩ := List.findIdx?_eq_some_iff_getElem.mp hf
    have key : l[i] = deviceKey d := eq_of_beq found
    rw [heldDel_eq hi]
    exact keys.erase (present.mp (key ▸ List.getElem_mem hi)) hi key

/-- A release is refused before anything is dispatched, or takes the device out of
hand and out of the table, whatever the backend answers. -/
def GaveBack (log : List Dispatch) (l : List Key) (s : Finset Device) (d : Device) (h : Host σ) :
    Prop :=
  (h.log = log ∧ Tables l s h) ∨
    (InRange d ∧ Tables (samvadaHeldDel l (samvadaHeldFind l d.1 d.2)) (s.erase d) h)

theorem dropWhenEmpty_tables : Spec (Tables l s) (dropWhenEmpty : Api σ Unit) (fun _ => Tables l s)
    fun _ => True := by
  refine Spec.gets_bind fun held => Spec.ite (fun hnil => ?_) fun _ => Spec.pure fun _ h => h.1
  intro h ht
  obtain ⟨ht, rfl⟩ := ht
  rw [ht.held] at hnil
  obtain rfl := List.eq_nil_of_length_eq_zero hnil
  obtain rfl := ht.keys.eq_nil.mp rfl
  have drop : Spec (Tables [] ∅) (do
      let _ ← samvadaDropControl false
      pure () : Api σ Unit) (fun _ => Tables [] ∅) fun _ => True := Spec.bind dropControl_tables
        fun _ => Spec.pure fun _ h => h
  exact drop h ht

/-- A release is refused with an errno where the bus, its slot or the range fails, or it
is dispatched. -/
theorem releaseDevice_rule {P W : Host σ → Prop} {Q : Int → Host σ → Prop}
    (refused : ∀ rc h, rc < 0 → P h → Q rc h)
    (asked : ∀ call p, InRange d →
      Spec (fun h => (P h ∧ Callable (·.releaseDevice) call h) ∧ h.pub = p) (do
        let rc ← dispatch (call p.bus (sessArg p) d.1 d.2) (.releaseDevice p.bus d.1 d.2)
        setPub fun p => { p with held := samvadaHeldDel p.held (samvadaHeldFind p.held d.1 d.2) }
        dropWhenEmpty
        if rc < 0 then pure rc else pure 0) Q W) :
    Spec P (samvadaSessionReleaseDevice d.1 d.2) Q W := by
  refine callable_rule (f := (·.releaseDevice)) (fun _ => rfl)
    (fun rc h neg hp _ => refused rc h neg hp) fun call p => ?_
  refine Spec.ite (fun _ => Spec.pure fun h hp => ?_) fun range => ?_
  · exact refused _ h (by decide) hp.1.1
  · exact asked call p (inRange_iff.mp range)

theorem releaseDevice_gaveBack (log : List Dispatch) : Spec (fun h => Tables l s h ∧ h.log = log)
    (samvadaSessionReleaseDevice d.1 d.2 : Api σ Int) (fun _ h => GaveBack log l s d h) fun _ =>
    True := by
  refine releaseDevice_rule (fun rc h _ ht => .inl ⟨ht.2, ht.1⟩) fun call p hd => ?_
  let gone := samvadaHeldDel l (samvadaHeldFind l d.1 d.2)
  have release := dispatch_logs (σ := σ) (x := call p.bus (sessArg p) d.1 d.2)
    (d := fun rc => .releaseDevice p.bus d.1 d.2 rc) (P := Tabled l s)
  refine Spec.bind (release.pre fun _ h => h.1.1.1) fun rc => ?_
  refine Spec.bind (Q := fun _ => Tables gone (s.erase d)) (Spec.modify fun h ht => ?_) fun _ =>
    Spec.bind dropWhenEmpty_tables fun _ => Spec.ite (fun _ => Spec.pure fun _ h => .inr ⟨hd, h⟩)
      fun _ => Spec.pure fun _ h => .inr ⟨hd, h⟩
  obtain ⟨log', ht, hlog⟩ := ht
  refine ⟨hlog ▸ .releaseDevice _ _ ht.orderly hd, ?_, ?_, heldDel_holds ht.keys ht.range hd,
    fun e he => ht.range e (Finset.mem_of_mem_erase he),
    (Finset.card_erase_le).trans ht.room, fun hs => ht.control fun e => hs ?_, fun hbus =>
    ?_, ht.live, ht.wired⟩
  · show inHand h.log = _
    rw [hlog, inHand_concat, ht.hand]
    rfl
  · show samvadaHeldDel h.pub.held (samvadaHeldFind h.pub.held d.1 d.2) = _
    rw [ht.held]
  · rw [e, Finset.erase_empty]
  · rw [ht.shut hbus, Finset.erase_empty]

theorem pumpSignals_tables : Spec (Tables l s) (samvadaPumpSignals : Api σ Int)
    (fun _ => Tables l s) fun _ => True := by
  refine callable_rule (f := (·.pumpSignals)) (fun _ => rfl) (fun _ _ _ ht _ => ht) fun call p => ?_
  have pump := dispatch_tables (σ := σ) (l := l) (s := s) (x := call p.bus)
    (d := fun rc => .pumpSignals p.bus rc) (fun _ _ h _ => .pumpSignals _ _ h) fun _ => rfl
  exact pump.pre fun _ h => h.1.1

/-! ## Release and init -/

/-- A log with, it may be, a ReleaseControl at its end that only a close may follow. -/
def Closing (p : Public σ) (log : List Dispatch) : Prop :=
  ∃ before, Orderly before ∧ (log = before ∨ ∃ rc, log = before ++ [.releaseControl p.bus rc]) ∧
    p.bus ≠ 0 ∧ p.table.isSome ∧ ∀ t, p.table = some t → t.closeBus.isSome

theorem dropControl_closing : Spec (fun h => Tables l s h ∧ h.pub.bus ≠ 0)
    (samvadaDropControl true : Api σ Int) (fun _ h => Closing h.pub h.log) fun _ => True := by
  have set {P : Host σ → Prop} (hP : ∀ h, P h → Closing h.pub h.log) (c : Control) (rc : Int) :
    Spec P (do
      setControl c
      pure rc : Api σ Int) (fun _ h => Closing h.pub h.log) fun _ => True :=
    Spec.bind (Q := fun _ h => Closing h.pub h.log) (Spec.modify hP) fun _ => Spec.pure fun _ h => h
  have start (h : Host σ) (ht : Tables l s h ∧ h.pub.bus ≠ 0) : Closing h.pub h.log :=
    ⟨h.log, ht.1.orderly, .inl rfl, ht.2, ht.1.live ht.2, ht.1.wired⟩
  have call : Spec (fun h => Tables l s h ∧ h.pub.bus ≠ 0) (releaseControlCall : Api σ Int)
    (fun _ h => Closing h.pub h.log) fun _ => True := by
    refine Spec.gets_bind fun call => ?_
    cases call with
    | none => exact Spec.pure fun h ht => start h ht.1
    | some call =>
      refine Spec.gets_bind fun p => ?_
      refine (dispatch_logs (P := fun q log => (Tabled l s q log ∧ q.bus ≠ 0) ∧ q = p)).mono
        (fun _ h => ⟨h.1.1, h.2⟩) (fun rc h ht => ?_) fun _ h => h
      obtain ⟨log, ⟨⟨ht, bus⟩, rfl⟩, hlog⟩ := ht
      exact ⟨log, ht.orderly, .inr ⟨_, hlog⟩, bus, ht.live bus, ht.wired⟩
  refine Spec.bind (Q := fun _ h => Tables l s h ∧ h.pub.bus ≠ 0) (Spec.gets fun _ h => h) fun c =>
    Spec.ite (fun _ => Spec.pure start)
    fun _ => Spec.ite (fun _ => set start _ _) fun _ => Spec.bind call fun rc =>
      Spec.ite (fun _ => set (fun _ h => h) _ _) fun _ =>
      set (fun _ h => h) _ _

/-- After the close nothing is in hand, and the table may be forgotten. -/
structure Closed (p : Public σ) (log : List Dispatch) : Prop where
  orderly : Orderly log
  hand : inHand log = ∅
  bus : p.bus = 0

theorem closeLiveBus_closed : Spec (Tables l s) (closeLiveBus : Api σ Unit)
    (fun _ h => Closed h.pub h.log) fun _ => True := by
  refine Spec.gets_bind fun bus => Spec.ite (fun h0 => Spec.pure fun h ht => ?_) fun h0 => ?_
  · obtain ⟨ht, rfl⟩ := ht
    exact ⟨ht.orderly, ht.hand.trans (ht.shut h0), h0⟩
  · have drop := (dropControl_buses true).frame (dropControl_closing (σ := σ) (l := l) (s := s))
      (fun b => b.1 = bus)
    refine Spec.bind (drop.mono (fun h ht => ⟨⟨ht.1, ht.2 ▸ h0⟩, ht.2⟩) (fun _ _ h => h) fun _ h =>
      h) fun _ => Spec.gets_bind fun call => ?_
    cases call with
    | none =>
      -- the slot is wired
      intro h ht
      obtain ⟨⟨⟨before, -, -, -, table, wired⟩, -⟩, hcall⟩ := ht
      obtain ⟨t, ht⟩ := Option.isSome_iff_exists.mp table
      have there := wired t ht
      rw [ht, Option.bind_some] at hcall
      rw [hcall] at there
      cases there
    | some call =>
      have close := dispatch_logs (σ := σ) (x := call bus) (d := fun rc => .closeBus bus rc)
        (P := fun p log => Closing p log ∧ p.bus = bus)
      refine Spec.bind (close.mono (fun _ h => h.1) (fun _ _ h => h) fun _ h => h) fun rc =>
        Spec.modify fun h ht => ?_
      obtain ⟨log, ⟨⟨before, orderly, last, -⟩, rfl⟩, hlog⟩ := ht
      refine ⟨?_, ?_, rfl⟩
      · show Orderly h.log
        rcases last with rfl | ⟨rc', rfl⟩
        · exact hlog ▸ orderly.closeBus _ _
        · rw [hlog, List.append_assoc]
          exact orderly.closing _ _ _
      · show inHand h.log = ∅
        rw [hlog, inHand_concat]
        rfl

theorem release_tables : Spec (Tables l s) (samvadaRelease : Api σ Int) (fun _ => Tables [] ∅)
    fun _ => True := by
  refine Spec.bind closeLiveBus_closed fun _ =>
    Spec.bind (Q := fun _ => Tables [] ∅) (Spec.modify fun h hc => ?_) fun _ =>
    Spec.pure fun _ h => h
  exact ⟨hc.orderly, hc.hand, rfl, .nil, fun e he => absurd he (Finset.notMem_empty e), Nat.zero_le
    _, fun hs => absurd rfl hs, fun _ => rfl, fun bus => absurd hc.bus bus, fun t ht => by cases ht⟩

theorem releaseWith_tables (rc : Int) : Spec (Tables l s) (releaseWith rc : Api σ Int)
    (fun _ => Tables [] ∅) fun _ => True :=
  Spec.bind release_tables fun _ => Spec.pure fun _ h => h

/-- Nothing in hand, and a table that can close the bus. -/
def Opened (h : Host σ) : Prop := Tables [] ∅ h ∧ h.pub.table.isSome

theorem Opened.of_pub {h h' : Host σ} (hf : Opened h) (held : h'.pub.held = [])
    (table : h'.pub.table = h.pub.table) (log : h'.log = h.log) : Opened h' := by
  obtain ⟨ht, hs⟩ := hf
  refine ⟨⟨log ▸ ht.orderly, log ▸ ht.hand, held, ht.keys, ht.range, ht.room, fun hs =>
    absurd rfl hs, fun _ => rfl, fun _ => table ▸ hs,
    table ▸ ht.wired⟩, table ▸ hs⟩

theorem dispatch_opened {x : Prog σ α} {d : α → Dispatch}
    (orderly : ∀ a log, Orderly log → inHand log = ∅ → Orderly (log ++ [d a]))
    (same : ∀ a, (d a).hand ∅ = ∅) : Spec Opened (dispatch x d) (fun _ => Opened) fun _ => True :=
  (dispatch_pub.part Public.table).frame (dispatch_tables orderly same) (fun t => t.isSome)

theorem initSession_tables : Spec Opened (initSession : Api σ Int) (fun _ => Tables [] ∅) fun _ =>
    True := by
  have back (rc : Int) {P : Host σ → Prop} (hP : ∀ h, P h → Opened h) :
    Spec P (releaseWith rc : Api σ Int) (fun _ => Tables [] ∅) fun _ => True :=
    (releaseWith_tables rc).mono (fun h hp => (hP h hp).1) (fun _ _ h => h) fun _ h => h
  refine Spec.gets_bind fun call => ?_
  cases call with
  | none => exact back _ fun _ h => h.1
  | some call =>
    refine Spec.bind (Q := fun _ => Opened) (Spec.gets fun _ h => h.1) fun bus =>
      Spec.bind (Q := fun _ => Opened) (Spec.gets fun _ h => h) fun pid =>
      Spec.bind (dispatch_opened (fun _ _ h hand => .getSessionPath _ _ _ h hand) fun _ => rfl)
        fun r => ?_
    refine Spec.bind (Q := fun _ => Opened) (Spec.modify fun h hf => hf.of_pub hf.1.held rfl rfl)
      fun _ => Spec.ite (fun _ => back _ fun _ h => h) fun _ => Spec.gets_bind fun tc => ?_
    cases tc with
    | none => exact back _ fun _ h => h.1
    | some tc => exact Spec.pure fun _ h => h.1.1

theorem initBus_tables : Spec Opened (initBus : Api σ Int) (fun _ => Tables [] ∅) fun _ =>
    True := by
  have back (rc : Int) {P : Host σ → Prop} (hP : ∀ h, P h → Opened h) :
    Spec P (releaseWith rc : Api σ Int) (fun _ => Tables [] ∅) fun _ => True :=
    (releaseWith_tables rc).mono (fun h hp => (hP h hp).1) (fun _ _ h => h) fun _ h => h
  refine Spec.bind (Q := fun _ => Opened) (Spec.modify fun h hf => hf.of_pub rfl rfl rfl) fun _ =>
    Spec.gets_bind fun call => ?_
  cases call with
  | none => exact back _ fun _ h => h.1
  | some call =>
    have opened := dispatch_opened (x := call) (d := fun r => .openSystemBus r.1 (r.2.getD 0))
      (fun _ _ h hand => .openSystemBus _ _ h hand) fun _ => rfl
    refine Spec.bind (opened.mono (fun _ h => h.1) (fun _ _ h => h) fun _ h => h) fun r => ?_
    refine Spec.bind (Q := fun _ => Opened) (Spec.modify fun h hf => hf.of_pub hf.1.held rfl rfl)
      fun _ => Spec.ite (fun _ => back _ fun _ h => h) fun _ => ?_
    exact Spec.bind (Q := fun _ => Opened) (Spec.modify fun h hf => hf.of_pub hf.1.held rfl rfl)
      fun _ =>
      Spec.ite (fun _ => back _ fun _ h => h) fun _ => initSession_tables

theorem ensure_opened {has : Public σ → Bool} {put : Public σ → Bytes → Public σ}
    (hput : ∀ p c, (put p c).held = p.held ∧ (put p c).table = p.table) :
    Spec Opened (ensure has put) (fun _ => Opened) fun _ => True := by
  refine Spec.bind (Q := fun _ => Opened) (Spec.gets fun _ h => h) fun there =>
    Spec.ite (fun _ => Spec.pure fun _ h => h) fun _ =>
    Spec.bind (Q := fun _ => Opened) (Spec.modifyGet fun h hf => hf.of_pub hf.1.held rfl rfl)
      fun c => ?_
  cases c with
  | none => exact Spec.pure fun _ h => h
  | some c =>
    refine Spec.bind (Q := fun _ => Opened) (Spec.modify fun h hf => ?_) fun _ =>
      Spec.pure fun _ h => h
    exact hf.of_pub ((hput h.pub c).1.trans hf.1.held) (hput h.pub c).2 rfl

theorem initAccepted_tables : Spec Opened (initAccepted : Api σ Int) (fun _ => Tables [] ∅) fun _ =>
    True := by
  have back (rc : Int) : Spec Opened (releaseWith rc : Api σ Int) (fun _ => Tables [] ∅) fun _ =>
    True :=
    (releaseWith_tables rc).mono (fun h hp => hp.1) (fun _ _ h => h) fun _ h => h
  refine Spec.bind (ensure_opened fun _ _ => ⟨rfl, rfl⟩) fun _ =>
    Spec.ite (fun _ => ?_) fun _ => back _
  refine Spec.bind (ensure_opened fun _ _ => ⟨rfl, rfl⟩) fun _ =>
    Spec.ite (fun _ => ?_) fun _ => back _
  exact Spec.bind (ensure_opened fun _ _ => ⟨rfl, rfl⟩) fun _ =>
    Spec.ite (fun _ => initBus_tables) fun _ => back _

/-! ## Runs -/

/-- The table stands for what the log says is in hand. -/
def TableSound (h : Host σ) : Prop := ∃ l s, Tables l s h

theorem init_sound {table : Option (Table σ)} (ht : (ApiOp.init table).closable) :
    Spec TableSound (samvadaInit table) (fun _ => TableSound) fun _ => True := by
  cases table with
  | none => exact Spec.pure fun _ h => h
  | some t =>
    refine Spec.gets_bind fun there => Spec.ite (fun _ => Spec.pure fun _ h => h.1) fun hnone =>
      Spec.ite (fun _ => Spec.pure fun _ h => h.1)
      fun _ => Spec.bind (Q := fun _ => Opened) (Spec.modify fun h hs => ?_) fun _ =>
        initAccepted_tables.mono (fun _ h => h) (fun _ _ h => ⟨[], ∅, h⟩) fun _ h => h
    obtain ⟨⟨l, s, hs⟩, rfl⟩ := hs
    -- without a table there is no bus, and nothing in hand
    have bus : h.pub.bus = 0 := Classical.byContradiction fun h0 => hnone (hs.live h0)
    obtain rfl := hs.shut bus
    obtain rfl := hs.keys.eq_nil.mpr rfl
    refine ⟨⟨hs.orderly, hs.hand, hs.held, hs.keys, hs.range, hs.room, fun hs => absurd rfl hs,
      fun _ => rfl, fun _ => rfl, fun t' ht' => ?_⟩, rfl⟩
    cases ht'
    exact ht

theorem run_sound {op : ApiOp σ} (hop : op.closable) : Spec TableSound op.run (fun _ => TableSound)
    fun _ => True := by
  cases op with
  | init table => exact init_sound hop
  | takeDevice major minor =>
    intro h hs
    obtain ⟨l, s, hs⟩ := hs
    refine (takeDevice_took (d := (major, minor))).mono (fun _ h => h) (fun rc h' took => ?_)
      (fun _ h => h) h hs
    exact took.elim (fun ht => ⟨_, _, ht.2.2.2⟩) fun ht => ⟨_, _, ht.2⟩
  | releaseDevice major minor =>
    intro h hs
    obtain ⟨l, s, hs⟩ := hs
    refine (releaseDevice_gaveBack (d := (major, minor)) h.log).mono (fun _ h => h)
      (fun rc h' gave => ?_) (fun _ h => h) h ⟨hs, rfl⟩
    exact gave.elim (fun ht => ⟨_, _, ht.2⟩) fun ht => ⟨_, _, ht.2⟩
  | pumpSignals =>
    intro h hs
    obtain ⟨l, s, hs⟩ := hs
    exact pumpSignals_tables.mono (fun _ h => h) (fun _ _ h => ⟨l, s, h⟩) (fun _ h => h) h hs
  | release =>
    intro h hs
    obtain ⟨l, s, hs⟩ := hs
    exact release_tables.mono (fun _ h => h) (fun _ _ h => ⟨[], ∅, h⟩) (fun _ h => h) h hs

theorem runApi_sound : ∀ {ops : List (ApiOp σ)}, (∀ op ∈ ops, op.closable) →
    Spec TableSound (runApi ops) (fun _ => TableSound) fun _ => True
  | [], _ => Spec.pure fun _ h => h
  | _ :: _, hops => Spec.bind (run_sound (hops _ List.mem_cons_self)) fun _ =>
      Spec.bind (runApi_sound fun op hop => hops op (List.mem_cons_of_mem _ hop)) fun _ =>
        Spec.pure fun _ h => h

theorem start_sound {h : Host σ} (hpub : h.pub = {}) (hlog : h.log = []) : TableSound h := by
  refine ⟨[], ∅, ?_⟩
  rw [Tables, hpub, hlog]
  exact ⟨.nil, rfl, rfl, .nil, fun e he => absurd he (Finset.notMem_empty e), Nat.zero_le _,
    fun hs => absurd rfl hs, fun _ => rfl, fun bus => absurd rfl bus, fun t ht => by cases ht⟩

/-- **The held-device table is what the wire says is in hand.** In every state a
run of the API reaches, over backends with whatever answers: the log is orderly;
the table's entries are distinct, no more than 256, and are the keys of the
devices the log says were taken with a descriptor and not given back since; a
lookup decides whether a device is among them; and while one is, the control
flag is not down. -/
theorem held_table_exact (h₀ : Host σ) (hpub : h₀.pub = {}) (hlog : h₀.log = [])
    (ops : List (ApiOp σ))
    (hops : ∀ op ∈ ops, op.closable) {rcs : List Int} {h : Host σ}
    (hrun : runApi ops h₀ = .done rcs h) : Orderly h.log ∧ h.pub.held.Nodup ∧
    h.pub.held.length ≤ 256 ∧
    (h.pub.held : Multiset Key) = (inHand h.log).val.map deviceKey ∧
    (∀ d ∈ inHand h.log, InRange d) ∧
    (∀ d, InRange d → ((samvadaHeldFind h.pub.held d.1 d.2).isSome ↔ d ∈ inHand h.log)) ∧
    (inHand h.log ≠ ∅ → h.pub.control ≠ .no) := by
  obtain ⟨l, s, hs⟩ := (runApi_sound hops).of_done (start_sound hpub hlog) hrun
  obtain rfl := hs.held
  obtain rfl := hs.hand
  refine ⟨hs.orderly, ?_, ?_, hs.keys, hs.range, fun d hd => hs.find_isSome hd, hs.control⟩
  · exact hs.keys.nodup fun d hd e he => deviceKey_inj (hs.range d hd) (hs.range e he)
  · exact hs.keys.length ▸ hs.room

/-- **A take enters its device or leaves the table as it was, and a release that is
dispatched takes exactly its device out.** In every state a run of the API
reaches: a take that answers a descriptor puts a new device in hand, at the end
of the table, and one that answers an errno changes neither; a release either is
refused with nothing dispatched, and changes neither, or takes the device out of
hand and its key out of the table, whatever the backend answers. -/
theorem take_release_exact (h₀ : Host σ) (hpub : h₀.pub = {}) (hlog : h₀.log = [])
    (ops : List (ApiOp σ))
    (hops : ∀ op ∈ ops, op.closable) {rcs : List Int} {h : Host σ}
    (hrun : runApi ops h₀ = .done rcs h) (d : Device) (rc : Int) (h' : Host σ) :
    (samvadaSessionTakeDevice d.1 d.2 h = .done rc h' →
      (0 ≤ rc ∧ InRange d ∧ d ∉ inHand h.log ∧ h'.pub.held = h.pub.held ++ [deviceKey d] ∧
      inHand h'.log = insert d (inHand h.log)) ∨
        (rc < 0 ∧ h'.pub.held = h.pub.held ∧ inHand h'.log = inHand h.log)) ∧
    (samvadaSessionReleaseDevice d.1 d.2 h = .done rc h' →
      (h'.log = h.log ∧ h'.pub.held = h.pub.held) ∨
        (InRange d ∧ inHand h'.log = (inHand h.log).erase d ∧
        (h'.pub.held : Multiset Key) = (h.pub.held : Multiset Key).erase (deviceKey d))) := by
  obtain ⟨l, s, hs⟩ := (runApi_sound hops).of_done (start_sound hpub hlog) hrun
  obtain rfl := hs.held
  obtain rfl := hs.hand
  constructor
  · intro run
    rcases takeDevice_took.of_done hs run with ⟨hrc, hd, new, ht⟩ | ⟨neg, ht⟩
    · exact .inl ⟨hrc, hd, new, ht.held, ht.hand⟩
    · exact .inr ⟨neg, ht.held, ht.hand⟩
  · intro run
    rcases (releaseDevice_gaveBack h.log).of_done ⟨hs, rfl⟩ run with ⟨same, ht⟩ | ⟨hd, ht⟩
    · exact .inl ⟨same, ht.held⟩
    · refine .inr ⟨hd, ht.hand, ?_⟩
      rw [ht.held, ht.keys, hs.keys]
      by_cases hm : d ∈ inHand h.log
      · rw [Finset.erase_val, Multiset.map_erase_of_mem _ _ hm]
      · have absent : deviceKey d ∉ (inHand h.log).val.map deviceKey := by
          intro hk
          obtain ⟨e, he, hkey⟩ := Multiset.mem_map.mp hk
          exact hm (deviceKey_inj (hs.range e he) hd hkey ▸ he)
        rw [Finset.erase_eq_of_notMem hm, Multiset.erase_of_notMem absent]

end

/-- A seat whose devices are all granted, on descriptor 7, and whose releases all fail. -/
def openSeat : Table Unit :=
  { fixedBus with
    takeDevice := some fun _ _ _ _ => pure (0, some 7, some 0)
    releaseDevice := some fun _ _ _ _ => pure (-5) }

/-- Its host, with room for the scratch. -/
def seated : Host Unit := { back := (), allocs := [some [], some [], some []] }

/-- Two devices taken, and the first given back though the backend refuses it: the second is in
hand. -/
theorem held_table_exact_two :
    let ops : List (ApiOp Unit) :=
      [.init (some openSeat), .takeDevice 226 0, .takeDevice 13 64, .releaseDevice 226 0]
    ∃ h, runApi ops seated = .done [0, 7, 7, -5] h ∧ h.pub.held = [deviceKey (13, 64)] ∧
      (inHand h.log).card = 1 := by
  intro ops
  have ended : (runApi ops seated).value = some [0, 7, 7, -5] := by decide +kernel
  have run := Outcome.eq_done ended
  have closable : ∀ op ∈ ops, op.closable := by
    intro op hop
    simp only [ops, List.mem_cons, List.not_mem_nil, or_false] at hop
    obtain rfl | rfl | rfl | rfl := hop
    · exact rfl
    · trivial
    · trivial
    · trivial
  obtain ⟨-, -, -, keys, -⟩ := held_table_exact seated rfl rfl ops closable run
  have held : (runApi ops seated).state.pub.held = [deviceKey (13, 64)] := by decide +kernel
  have count := congrArg Multiset.card keys
  rw [held, Multiset.card_map] at count
  exact ⟨_, run, held, count.symm⟩

/-- The first device taken is in hand, and out of it once released, though the backend refuses
the release. -/
theorem take_release_exact_first :
    let h := (runApi [.init (some openSeat)] seated).state
    let h₁ := (runApi [.init (some openSeat), .takeDevice 226 0] seated).state
    (∃ h', samvadaSessionTakeDevice 226 0 h = .done 7 h' ∧
      h'.pub.held = h.pub.held ++ [deviceKey (226, 0)]) ∧
    ∃ h', samvadaSessionReleaseDevice 226 0 h₁ = .done (-5) h' ∧
      inHand h'.log = (inHand h₁.log).erase (226, 0) ∧ h'.pub.held = [] := by
  intro h h₁
  have closable : ∀ op ∈ [ApiOp.init (some openSeat), .takeDevice 226 0], op.closable := by
    intro op hop
    simp only [List.mem_cons, List.not_mem_nil, or_false] at hop
    obtain rfl | rfl := hop
    · exact rfl
    · trivial
  constructor
  · have ended : (runApi [.init (some openSeat)] seated).value = some [0] := by decide +kernel
    have taken : (samvadaSessionTakeDevice 226 0 h).value = some 7 := by decide +kernel
    have take := Outcome.eq_done taken
    rcases (take_release_exact seated rfl rfl _
      (fun op hop => closable op (List.mem_append_left [.takeDevice 226 0] hop))
      (Outcome.eq_done ended) (226, 0) 7 _).1 take with ⟨-, -, -, held, -⟩ | ⟨neg, -⟩
    · exact ⟨_, take, held⟩
    · exact absurd neg (by decide)
  · have ended : (runApi [.init (some openSeat), .takeDevice 226 0] seated).value =
        some [0, 7] := by decide +kernel
    have refused : (samvadaSessionReleaseDevice 226 0 h₁).value = some (-5) := by decide +kernel
    have before : h₁.pub.held = [deviceKey (226, 0)] := by decide +kernel
    have gone : (samvadaSessionReleaseDevice 226 0 h₁).state.pub.held = [] := by decide +kernel
    have release := Outcome.eq_done refused
    rcases (take_release_exact seated rfl rfl _ closable (Outcome.eq_done ended) (226, 0) (-5) _).2
      release with ⟨-, same⟩ | ⟨-, hand, -⟩
    · cases gone.symm.trans (same.trans before)
    · exact ⟨_, release, hand, gone⟩

end Samvada
