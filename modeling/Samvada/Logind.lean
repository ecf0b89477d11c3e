import Samvada.HeldTable

/- A model of logind. It processes the requests written on samvada's connection in
   order, possibly long after the call that wrote them has given up, and may drop a
   device on its own. A call gets its answer, or one that the native backend's checks
   refuse, or no answer, and what happens to each call is a script, so a run of the
   API over `peerTable` is a run against any such logind. Once the script is used up
   logind answers every request in time. -/
namespace Samvada
open Octets Resumable Resumable.Prog

/-! ## logind -/

/-- What samvada's connection writes. -/
inductive Request where
  | takeControl
  | releaseControl
  | takeDevice (d : Device)
  | releaseDevice (d : Device)
  deriving DecidableEq, Repr

/-- What logind holds for samvada's connection. -/
structure Logind where
  controller : Bool := false
  granted : List Device := []
  deriving DecidableEq, Repr

/-- How logind answers: a METHOD_RETURN, or an ERROR of this name. -/
inductive Reply where
  | success
  | error (name : String)
  deriving DecidableEq, Repr

def notInControl : Reply := .error "org.freedesktop.login1.NotInControl"
def deviceIsTaken : Reply := .error "org.freedesktop.login1.DeviceIsTaken"
def deviceNotTaken : Reply := .error "org.freedesktop.login1.DeviceNotTaken"

/-- logind processes one request. -/
def Logind.process (l : Logind) : Request → Reply × Logind
  | .takeControl => (.success, { l with controller := true })
  | .releaseControl => if l.controller then (.success, {}) else (notInControl, l)
  | .takeDevice d =>
    if l.controller then
      if d ∈ l.granted then (deviceIsTaken, l)
      else (.success, { l with granted := l.granted ++ [d] })
    else (notInControl, l)
  | .releaseDevice d =>
    if l.controller then
      if d ∈ l.granted then (.success, { l with granted := l.granted.filter (· ≠ d) })
      else (deviceNotTaken, l)
    else (notInControl, l)

/-- logind after a sequence of requests. -/
def Logind.after (l : Logind) (rs : List Request) : Logind :=
  rs.foldl (fun l r => (l.process r).2) l

/-- The errno of a reply: 0, or what the native backend maps the name to. -/
def Reply.rc : Reply → Int
  | .success => 0
  | .error name => dbusSessionMapError (lit name) (lit name).length

/-- What the native backend's checks make of an answer they refuse: only TakeDevice's
answer carries something to refuse. -/
def Request.refusal : Request → Int → Int
  | .takeDevice _, rc => if rc = 0 then -9 else rc
  | _, rc => rc

/-! ## The connection to it -/

/-- What logind does on its own account. -/
inductive Own where
  /-- process the oldest request not yet processed -/
  | process
  /-- drop a device, as when it is unplugged -/
  | drop (d : Device)
  deriving DecidableEq, Repr

/-- How a call ends. -/
inductive Fate where
  /-- logind has processed everything and answers in time -/
  | answered
  /-- the same, but the native backend refuses a TakeDevice reply: -EBADF, nothing handed out -/
  | refused
  /-- logind answers in time with some other error, and does nothing -/
  | denied (errno : Nat)
  /-- the request was written and no answer was read: the deadline's errno, or another -/
  | late (errno : Nat)
  /-- nothing was written -/
  | unsent (errno : Nat)
  deriving DecidableEq, Repr

/-- What becomes of one call: what logind does before it, and how it ends. -/
structure Turn where
  own : List Own := []
  fate : Fate := .answered
  deriving DecidableEq, Repr

/-- logind and what lies between: the requests written and not yet processed, and
what becomes of the calls to come. -/
structure Peer where
  logind : Logind := {}
  backlog : List Request := []
  turns : List Turn := []
  /-- the results of the calls that are not about control or devices -/
  results : List Int := []
  /-- the number the kernel gives a descriptor -/
  fd : FdNum := 7
  deriving DecidableEq, Repr

namespace Peer

def own (p : Peer) : Own → Peer
  | .process => match p.backlog with
    | [] => p
    | r :: rest => { p with logind := (p.logind.process r).2, backlog := rest }
  | .drop d => { p with logind := { p.logind with granted := p.logind.granted.filter (· ≠ d) } }

/-- logind once it has processed everything written. -/
def settled (p : Peer) : Logind := p.logind.after p.backlog

/-- Ask logind, the call ending as `fate` says: its errno, and the peer after. -/
def ask (p : Peer) (r : Request) : Fate → Int × Peer
  | .answered =>
    ((p.settled.process r).1.rc, { p with logind := (p.settled.process r).2, backlog := [] })
  | .refused =>
    (r.refusal (p.settled.process r).1.rc,
      { p with logind := (p.settled.process r).2, backlog := [] })
  | .denied e => (-(e + 1 : Nat), { p with logind := p.settled, backlog := [] })
  | .late e => (-(e + 1 : Nat), { p with backlog := p.backlog ++ [r] })
  | .unsent e => (-(e + 1 : Nat), p)

/-- One call: the next turn of the script, logind answering in time once it is used up. -/
def call (r : Request) : Prog Peer Int := Prog.modifyGet fun p =>
  let turn := p.turns.headD {}
  (turn.own.foldl own { p with turns := p.turns.tail }).ask r turn.fate

/-- A result that is not logind's. -/
def result : Prog Peer Int :=
  Prog.modifyGet fun p => (p.results.headD 0, { p with results := p.results.tail })

/-- A TakeDevice call: a descriptor with success. -/
def takeDevice (d : Device) : Prog Peer (Int × Option Int × Option Int) := do
  let rc ← call (.takeDevice d)
  let fd ← Prog.gets Peer.fd
  pure (if rc = 0 then (0, some (fd.val : Int), some 0) else (rc, none, none))

/-- A new connection: logind knows nothing of it. -/
def openSystemBus : Prog Peer (Int × Option Int) := do
  let n ← result
  if n < 0 then pure (n, none)
  else do
    Prog.modify fun p => { p with logind := {}, backlog := [] }
    pure (0, some (3 + n))

/-- Closing the connection ends everything logind held for it. -/
def closeBus : Prog Peer Int := do
  Prog.modify fun p => { p with logind := {}, backlog := [] }
  pure 0

end Peer

/-- A backend with logind at the other end: what the native one makes of its answers. -/
def peerTable : Table Peer where
  kind := samvadaBackendKindPureCyrius
  openSystemBus := some Peer.openSystemBus
  getSessionPath := some fun _ _ _ => do
    let rc ← Peer.result
    pure (rc, if rc < 0 then none else some (lit "/org/freedesktop/login1/session/_31"))
  takeDevice := some fun _ _ major minor => Peer.takeDevice (major, minor)
  releaseDevice := some fun _ _ major minor => Peer.call (.releaseDevice (major, minor))
  pumpSignals := some fun _ => Peer.result
  closeBus := some fun _ => Peer.closeBus
  takeControl := some fun _ _ => Peer.call .takeControl
  releaseControl := some fun _ _ => Peer.call .releaseControl

theorem peerTable_wired : peerTable.closeBus.isSome := rfl

/-! ## What logind answers -/

/-- Every refusal of logind's is an EINVAL. -/
theorem refusals_rc : notInControl.rc = -22 ∧ deviceIsTaken.rc = -22 ∧
    deviceNotTaken.rc = -22 := by decide +kernel

theorem deviceIsTaken_rc : deviceIsTaken.rc = -22 := refusals_rc.2.1

/-- Only releasing control ends it. -/
theorem process_controller {l : Logind} {r : Request} (hr : r ≠ .releaseControl)
    (hl : l.controller = true) : (l.process r).2.controller = true := by
  cases r with
  | takeControl => rfl
  | releaseControl => exact absurd rfl hr
  | takeDevice d =>
    simp only [Logind.process, hl, if_true]
    split_ifs
    · exact hl
    · rfl
  | releaseDevice d =>
    simp only [Logind.process, hl, if_true]
    split_ifs
    · rfl
    · exact hl

theorem after_controller {l : Logind} {rs : List Request} (hr : .releaseControl ∉ rs)
    (hl : l.controller = true) : (l.after rs).controller = true := by
  induction rs generalizing l with
  | nil => exact hl
  | cons r rest ih =>
    have first : r ≠ .releaseControl := fun e => hr (e ▸ List.mem_cons_self)
    exact ih (fun h => hr (List.mem_cons_of_mem _ h)) (process_controller first hl)

namespace Peer

/-- samvada is the controller, and nothing it has written will change that. -/
structure Holding (p : Peer) : Prop where
  controller : p.logind.controller = true
  backlog : .releaseControl ∉ p.backlog

theorem Holding.settled {p : Peer} (h : p.Holding) : p.settled.controller = true :=
  after_controller h.backlog h.controller

theorem Holding.own {p : Peer} (h : p.Holding) (o : Own) : (p.own o).Holding := by
  cases o with
  | drop d => exact ⟨h.controller, h.backlog⟩
  | process =>
    unfold Peer.own
    cases hb : p.backlog with
    | nil => exact h
    | cons r rest =>
      have hbl := h.backlog
      rw [hb] at hbl
      refine ⟨process_controller (fun e => hbl (e ▸ List.mem_cons_self)) h.controller, fun hr =>
        hbl (List.mem_cons_of_mem _ hr)⟩

theorem Holding.turn {p : Peer} (h : p.Holding) (os : List Own) :
    (os.foldl Peer.own p).Holding := by
  induction os generalizing p with
  | nil => exact h
  | cons o rest ih => exact ih (h.own o)

theorem Holding.ask {p : Peer} (h : p.Holding) {r : Request} (hr : r ≠ .releaseControl) (f : Fate) :
    (p.ask r f).2.Holding := by
  have none : .releaseControl ∉ ([] : List Request) := by simp
  cases f with
  | answered => exact ⟨process_controller hr h.settled, none⟩
  | refused => exact ⟨process_controller hr h.settled, none⟩
  | denied e => exact ⟨h.settled, none⟩
  | late e =>
    refine ⟨h.controller, fun hb => ?_⟩
    obtain hb | hb := List.mem_append.mp hb
    · exact h.backlog hb
    · exact hr (List.mem_singleton.mp hb).symm
  | unsent e => exact h

theorem call_holding {r : Request} (hr : r ≠ .releaseControl) :
    Spec Holding (call r) (fun _ => Holding) fun _ => True :=
  Spec.modifyGet fun p hp =>
    Holding.ask (Holding.turn (p := { p with turns := p.turns.tail }) ⟨hp.controller, hp.backlog⟩ _)
    hr _

/-- A turn writes nothing. -/
theorem turn_backlog (os : List Own) (p : Peer) {r : Request}
    (h : r ∈ (os.foldl Peer.own p).backlog) : r ∈ p.backlog := by
  induction os generalizing p with
  | nil => exact h
  | cons o rest ih =>
    have one := ih (p.own o) h
    cases o with
    | drop d => exact one
    | process =>
      unfold Peer.own at one
      cases hb : p.backlog with
      | nil =>
        rw [hb] at one
        exact hb ▸ one
      | cons r' rest' =>
        rw [hb] at one
        exact List.mem_cons_of_mem _ one

/-- What a call leaves unprocessed was, or is its own request. -/
theorem ask_backlog (p : Peer) (r : Request) (f : Fate) {x : Request}
    (h : x ∈ (p.ask r f).2.backlog) : x ∈ p.backlog ∨ x = r := by
  cases f with
  | answered => exact absurd h List.not_mem_nil
  | refused => exact absurd h List.not_mem_nil
  | denied e => exact absurd h List.not_mem_nil
  | late e =>
    obtain h | h := List.mem_append.mp h
    · exact .inl h
    · exact .inr (List.mem_singleton.mp h)
  | unsent e => exact .inl h

theorem call_backlog {B : Request → Prop} {r : Request} (hr : B r) :
    Spec (fun p => ∀ x ∈ p.backlog, B x) (call r) (fun _ p => ∀ x ∈ p.backlog, B x) fun _ =>
    True := by
  refine Spec.modifyGet fun p hp x hx => ?_
  obtain hx | rfl := ask_backlog _ _ _ hx
  · exact hp x (turn_backlog _ { p with turns := p.turns.tail } hx)
  · exact hr

/-- A request answered with success left nothing unprocessed. -/
theorem ask_success {p : Peer} {r : Request} {f : Fate} (h : 0 ≤ (p.ask r f).1) :
    (p.ask r f).2.backlog = [] := by
  cases f with
  | answered => rfl
  | refused => rfl
  | denied e => rfl
  | late e =>
    have : (0 : Int) ≤ -(e + 1 : Nat) := h
    omega
  | unsent e =>
    have : (0 : Int) ≤ -(e + 1 : Nat) := h
    omega

theorem call_success (r : Request) : Spec (fun _ => True) (call r)
    (fun rc p => 0 ≤ rc → p.backlog = []) fun _ => True :=
  Spec.modifyGet fun _ _ => ask_success

/-- A TakeControl answered with success was the last request processed. -/
theorem ask_takeControl (p : Peer) (f : Fate) (h : 0 ≤ (p.ask .takeControl f).1) :
    (p.ask .takeControl f).2.Holding := by
  have granted :
    ({ p with logind := (p.settled.process .takeControl).2, backlog := [] } : Peer).Holding :=
    ⟨rfl, by simp⟩
  cases f with
  | answered => exact granted
  | refused => exact granted
  | denied e =>
    have : (0 : Int) ≤ -(e + 1 : Nat) := h
    omega
  | late e =>
    have : (0 : Int) ≤ -(e + 1 : Nat) := h
    omega
  | unsent e =>
    have : (0 : Int) ≤ -(e + 1 : Nat) := h
    omega

theorem takeControl_holding : Spec (fun _ => True) (call .takeControl)
    (fun rc p => 0 ≤ rc → p.Holding) fun _ => True :=
  Spec.modifyGet fun _ _ => ask_takeControl _ _

end Peer

/-! ## The table and control -/

/-- A call over the backend with logind at its other end. -/
def ApiOp.native : ApiOp Peer → Prop
  | .init (some t) => t = peerTable
  | _ => True

/-- The table of the API, with the keys it holds. -/
def Over (hs : List Key) (p : Public Peer) : Prop :=
  (∀ t, p.table = some t → t = peerTable) ∧ p.held = hs

/-- What the keys held rest on: samvada is the controller and stays so, and nothing
it has written gives a device held back. -/
structure Peer.Guards (hs : List Key) (p : Peer) : Prop where
  holding : hs ≠ [] → p.Holding
  kept : ∀ r ∈ p.backlog, ∀ d, InRange d → deviceKey d ∈ hs → r ≠ .releaseDevice d

/-- While any device is held, samvada is the controller and stays so, and the device is not being
given back. -/
def InHand (hs : List Key) (h : Host Peer) : Prop := h.back.Guards hs ∧ Over hs h.pub

section
variable {σ α : Type}

/-- A dispatch changes the backend's state and not the API's. -/
theorem dispatch_spec {x : Prog σ α} {d : α → Dispatch} {B V : σ → Prop} {C : α → σ → Prop}
    {F : Public σ → Prop}
    (hx : Spec B x C V) : Spec (fun h => B h.back ∧ F h.pub) (dispatch x d)
    (fun a h => C a h.back ∧ F h.pub) fun h => V h.back := by
  intro h hs
  have run := hx h.back hs.1
  unfold dispatch
  cases e : x h.back with
  | waiting b =>
    rw [e] at run
    exact run
  | done a b =>
    rw [e] at run
    exact ⟨run, hs.2⟩

end

/-- The table behind the API, and what it holds. -/
def Host.holds {σ : Type} (h : Host σ) : Option (Table σ) × List Key := (h.pub.table, h.pub.held)

abbrev FixesHolds {σ α : Type} (x : Api σ α) : Prop := Fixes Host.holds x

theorem dispatch_holds {σ α : Type} {x : Prog σ α} {d : α → Dispatch} : FixesHolds (dispatch x d) :=
  dispatch_pub.part fun p => (p.table, p.held)

theorem dropControl_holds {σ : Type} (closing : Bool) :
    FixesHolds (samvadaDropControl closing : Api σ Int) := by
  have set (c : Control) (rc : Int) : FixesHolds (do
      setControl c
      pure rc : Api σ Int) := Fixes.bind (Fixes.modify fun _ => rfl) fun _ => Fixes.pure _
  have call : FixesHolds (releaseControlCall : Api σ Int) := by
    refine Fixes.bind Fixes.gets fun call => ?_
    cases call with
    | none => exact Fixes.pure _
    | some call => exact Fixes.bind Fixes.gets fun p => dispatch_holds
  exact Fixes.bind Fixes.gets fun c =>
    Fixes.ite (Fixes.pure _) (Fixes.ite (set _ _) (Fixes.bind call fun rc =>
    Fixes.ite (set _ _) (set _ _)))

/-- What leaves the table and the keys alone, leaves them. -/
theorem FixesHolds.over {α : Type} {x : Api Peer α} (hx : FixesHolds x) (hs : List Key) :
    Spec (fun h => Over hs h.pub) x (fun _ h => Over hs h.pub) fun _ => True := by
  intro h ho
  have fixed := hx h
  generalize x h = o at fixed
  cases o with
  | waiting h' => trivial
  | done a h' =>
    obtain ⟨ht, hh⟩ : h'.pub.table = h.pub.table ∧ h'.pub.held = h.pub.held := by
      simpa [Host.holds] using fixed
    exact ⟨ht ▸ ho.1, hh ▸ ho.2⟩

theorem Peer.Guards.nil (p : Peer) : p.Guards [] :=
  ⟨fun h => absurd rfl h, fun _ _ _ _ h => absurd h List.not_mem_nil⟩

theorem inHand_nil {h : Host Peer} : InHand [] h ↔ Over [] h.pub :=
  ⟨fun h => h.2, fun h => ⟨.nil _, h⟩⟩

theorem call_guards {hs : List Key} {r : Request} (hr : r ≠ .releaseControl)
    (hd : ∀ d, InRange d → deviceKey d ∈ hs → r ≠ .releaseDevice d) :
    Spec (Peer.Guards hs) (Peer.call r) (fun _ => Peer.Guards hs) fun _ => True := by
  have holding : Spec (Peer.Guards hs) (Peer.call r) (fun _ b => hs ≠ [] → b.Holding) fun _ =>
    True := by
    by_cases h : hs = []
    · exact Spec.any.mono (fun _ _ => trivial) (fun _ _ _ hne => absurd h hne) fun _ h => h
    · exact (Peer.call_holding hr).mono (fun _ hb => hb.holding h) (fun _ _ hb _ => hb) fun _ h => h
  have kept :=
    (Peer.call_backlog (B := fun r => ∀ d, InRange d → deviceKey d ∈ hs → r ≠ .releaseDevice d)
    hd).mono
    (P := Peer.Guards hs) (fun _ hb => hb.kept) (fun _ _ h => h) fun _ h => h
  exact (holding.and kept).mono (fun _ h => h) (fun _ _ h => ⟨h.1, h.2⟩) fun _ h => h

/-- A wired slot is `peerTable`'s. -/
theorem slot_spec {β γ : Type} {f : Table Peer → Option β} {c : β} {P : Host Peer → Prop}
    {x : Api Peer γ} {Q : γ → Host Peer → Prop}
    (hP : ∀ h, P h → ∀ t, h.pub.table = some t → t = peerTable)
    (hx : f peerTable = some c → Spec P x Q fun _ => True) :
    Spec (fun h => P h ∧ h.pub.table.bind f = some c) x Q fun _ => True := by
  by_cases hc : f peerTable = some c
  · exact (hx hc).mono (fun _ h => h.1) (fun _ _ h => h) fun _ h => h
  · intro h hs
    obtain ⟨t, ht, hf⟩ := Option.bind_eq_some_iff.mp hs.2
    rw [hP h hs.1 t ht] at hf
    exact absurd hf hc

/-- A slot that is known to be wired. -/
theorem slot_wired {σ β γ : Type} {t : Table σ} {f : Table σ → Option β} {c : β}
    {k : Option β → Api σ γ} {P W : Host σ → Prop} {Q : γ → Host σ → Prop} (hf : f t = some c)
    (hP : ∀ h, P h → h.pub.table = some t) (hk : Spec P (k (some c)) Q W) :
    Spec P (slot f >>= k) Q W := by
  intro h hp
  have run := hk h hp
  have wired : h.pub.table.bind f = some c := by rw [hP h hp, Option.bind_some, hf]
  rw [← wired] at run
  exact run

theorem setControl_inHand (hs : List Key) (c : Control) : Spec (InHand hs) (setControl c)
    (fun _ => InHand hs) fun _ => True :=
  Spec.modify fun _ hk => ⟨hk.1, hk.2.1, hk.2.2⟩

/-- A result that leaves the API's state as it is. -/
theorem kept_of {hs : List Key} {α : Type} {x : Api Peer α}
    (hx : Spec (InHand hs) x (fun _ => InHand hs) fun _ => True)
    {P : Host Peer → Prop} (hP : ∀ h, P h → InHand hs h) : Spec P x (fun _ => InHand hs) fun _ =>
    True :=
  hx.mono hP (fun _ _ h => h) fun _ h => h

theorem takeControl_inHand (hs : List Key) :
    Spec (InHand hs) (samvadaTakeControl : Api Peer Int)
    (fun tc h => InHand hs h ∧ (0 ≤ tc → h.back.Holding)) fun _ => True := by
  refine Spec.gets_bind fun call => ?_
  cases call with
  | none => exact Spec.pure fun h hk => ⟨hk.1, fun h => absurd h (by decide)⟩
  | some call =>
    refine slot_spec (fun h hk => hk.2.1) fun hc => ?_
    obtain rfl : call = fun _ _ => Peer.call .takeControl := (Option.some.inj hc).symm
    refine Spec.bind (Q := fun _ => InHand hs) (Spec.gets fun _ h => h) fun p => ?_
    -- success means the request was processed; any errno leaves what was held
    refine Spec.bind (Q := fun rc h => InHand hs h ∧ (0 ≤ rc → h.back.Holding)) ?_ fun rc => ?_
    · intro h hk
      have ask : Spec (Peer.Guards hs) (Peer.call .takeControl) (fun _ => Peer.Guards hs) fun _ =>
        True :=
        call_guards (by decide) fun _ _ _ => by simp
      have kept := dispatch_spec (d := .takeControl p.bus) (F := Over hs) ask h hk
      have success := dispatch_spec (d := .takeControl p.bus) (F := fun _ => True)
        Peer.takeControl_holding h ⟨trivial, trivial⟩
      generalize dispatch (Peer.call .takeControl) (.takeControl p.bus) h = o at kept success
      cases o with
      | waiting h' => trivial
      | done rc h' => exact ⟨kept, success.1⟩
    · refine Spec.ite (fun hrc => ?_) fun _ =>
        Spec.ite (fun hneg => Spec.pure fun h hk => ⟨hk.1, fun h => by omega⟩) fun hneg => ?_
      · refine Spec.bind (kept_of (setControl_inHand hs _) fun _ h => h.1) fun _ =>
          Spec.pure fun h hk => ⟨hk, fun h => by omega⟩
      · refine Spec.bind (Q := fun _ h => InHand hs h ∧ h.back.Holding)
          (Spec.modify fun h hk => ?_) fun _ =>
          Spec.pure fun h hk => ⟨hk.1, fun _ => hk.2⟩
        exact ⟨⟨hk.1.1, hk.1.2.1, hk.1.2.2⟩, hk.2 (by omega)⟩

theorem acquireControl_inHand (hs : List Key) :
    Spec (InHand hs) (acquireControl : Api Peer Int)
    (fun tc h => InHand hs h ∧ (0 ≤ tc → h.back.Holding)) fun _ => True := by
  refine Spec.gets_bind fun held => Spec.ite (fun _ => ?_) fun hne => Spec.pure fun h hk => ?_
  · exact (takeControl_inHand hs).mono (fun _ h => h.1) (fun _ _ h => h) fun _ h => h
  · obtain ⟨hk, rfl⟩ := hk
    have some_held : hs ≠ [] := by
      intro e
      rw [hk.2.2, e] at hne
      exact hne rfl
    exact ⟨hk, fun _ => hk.1.holding some_held⟩

theorem dropControl_inHand (closing : Bool) : Spec (InHand []) (samvadaDropControl closing)
    (fun _ => InHand []) fun _ => True :=
  ((dropControl_holds closing).over []).mono (fun _ h => inHand_nil.mp h)
    (fun _ _ h => inHand_nil.mpr h) fun _ h => h

theorem takeFailed_inHand {hs : List Key} {major minor : Int}
    (new : heldKey major minor ∉ hs) (rc : Int) : Spec (InHand hs) (takeFailed major minor rc)
    (fun _ => InHand hs) fun _ => True := by
  refine Spec.gets_bind fun p => Spec.ite (fun hnil => ?_) fun _ => Spec.ite (fun _ => ?_) fun _ =>
    Spec.ite (fun _ => ?_) fun _ => ?_
  · by_cases e : hs = []
    · subst e
      exact Spec.bind (kept_of (dropControl_inHand false) fun _ h => h.1) fun _ =>
        Spec.pure fun _ h => h
    · intro h hk
      obtain ⟨hk, rfl⟩ := hk
      rw [hk.2.2] at hnil
      exact absurd (List.eq_nil_of_length_eq_zero hnil) e
  · exact Spec.bind (kept_of (setControl_inHand hs _) fun _ h => h.1) fun _ =>
      Spec.pure fun _ h => h
  · exact Spec.pure fun _ h => h.1
  · refine Spec.gets_bind fun call => ?_
    cases call with
    | none => exact Spec.pure fun _ h => h.1.1
    | some call =>
      refine slot_spec (fun h hk => hk.1.2.1) fun hc => ?_
      obtain rfl : call = fun _ _ M m => Peer.call (.releaseDevice (M, m)) :=
        (Option.some.inj hc).symm
      refine Spec.bind (Q := fun _ => InHand hs) ?_ fun _ => Spec.pure fun _ h => h
      have other : ∀ d, InRange d → deviceKey d ∈ hs →
        Request.releaseDevice (major, minor) ≠ .releaseDevice d := by
        rintro d - hk e
        cases e
        exact new hk
      exact kept_of (dispatch_spec (call_guards (by simp) other)) fun _ h => h.1

/-- Some keys are held, and control with them. -/
def Keeping (h : Host Peer) : Prop := ∃ hs, InHand hs h

/-- What a TakeDevice call leaves; answered with success, it leaves nothing unprocessed. -/
theorem takeDevice_guards (hs : List Key) (d : Device) :
    Spec (fun b : Peer => b.Guards hs ∧ b.Holding) (Peer.takeDevice d)
    (fun r b => (b.Guards hs ∧ b.Holding) ∧ (0 ≤ r.1 → b.backlog = [])) fun _ => True := by
  have guards : Spec (fun b : Peer => b.Guards hs ∧ b.Holding) (Peer.call (.takeDevice d))
    (fun _ => Peer.Guards hs) fun _ => True :=
    (call_guards (by simp) fun _ _ _ => by simp).mono (fun _ h => h.1) (fun _ _ h => h) fun _ h => h
  have holding : Spec (fun b : Peer => b.Guards hs ∧ b.Holding) (Peer.call (.takeDevice d))
    (fun _ => Peer.Holding) fun _ => True :=
    (Peer.call_holding (by simp)).mono (fun _ h => h.2) (fun _ _ h => h) fun _ h => h
  have empty := (Peer.call_success (.takeDevice d)).mono
    (P := fun b : Peer => b.Guards hs ∧ b.Holding) (fun _ _ => trivial)
    (fun _ _ h => h) fun _ h => h
  refine Spec.bind ((guards.and holding).and empty) fun rc =>
    Spec.bind (Q := fun _ b => (b.Guards hs ∧ b.Holding) ∧ (0 ≤ rc → b.backlog = []))
    (Spec.gets fun _ h => h) fun fd => Spec.pure fun b hb => ⟨hb.1, fun h => hb.2 ?_⟩
  by_cases h0 : rc = 0
  · omega
  · rwa [if_neg h0] at h

theorem takeHolding_keeping {hs : List Key} {major minor : Int} (new : heldKey major minor ∉ hs) :
    Spec (fun h => InHand hs h ∧ h.back.Holding)
    (takeHolding (fun _ _ M m => Peer.takeDevice (M, m)) major minor)
      (fun _ => Keeping) fun _ => True := by
  let Held (rc : Int) (b : Peer) : Prop := (b.Guards hs ∧ b.Holding) ∧ (0 ≤ rc → b.backlog = [])
  have failed {r : Int} (rc : Int) : Spec (fun h => Held r h.back ∧ Over hs h.pub)
    (takeFailed major minor rc) (fun _ => Keeping) fun _ => True :=
    (takeFailed_inHand new rc).mono (fun h hk => ⟨hk.1.1.1, hk.2⟩) (fun _ _ h => ⟨hs, h⟩) fun _ h =>
      h
  refine Spec.bind (Q := fun _ h => (h.back.Guards hs ∧ h.back.Holding) ∧ Over hs h.pub)
    (Spec.modify fun h hk => ⟨⟨hk.1.1, hk.2⟩, hk.1.2⟩)
    fun _ => Spec.bind (Q := fun _ h => (h.back.Guards hs ∧ h.back.Holding) ∧ Over hs h.pub)
    (Spec.gets fun _ h => h) fun p => ?_
  refine Spec.bind (dispatch_spec (takeDevice_guards hs (major, minor))) fun r => ?_
  refine Spec.bind (Q := fun _ h => Held r.1 h.back ∧ Over hs h.pub)
    (Spec.modify fun h hk => ⟨hk.1, hk.2⟩) fun _ => ?_
  refine Spec.ite (fun hrc => Spec.ite (fun _ => ?_) fun _ => failed _) fun _ => failed _
  refine Spec.bind (Q := fun _ => Keeping) (Spec.modify fun h hk => ?_) fun _ =>
    Spec.pure fun _ h => h
  refine ⟨_, ⟨fun _ => hk.1.1.2, fun x hx => ?_⟩, hk.2.1, rfl⟩
  rw [show h.back.backlog = [] from hk.1.2 hrc] at hx
  exact absurd hx List.not_mem_nil

theorem takeDevice_keeping (major minor : Int) :
    Spec Keeping (samvadaSessionTakeDevice major minor) (fun _ => Keeping) fun _ => True := by
  intro h hk
  obtain ⟨hs, hk⟩ := hk
  refine takeDevice_rule (P := InHand hs) (d := (major, minor)) (fun _ _ _ hk _ => ⟨hs, hk⟩)
    (fun call => ?_) h hk
  refine (slot_spec (f := (·.takeDevice))
    (P := fun h => InHand hs h ∧ Taking (major, minor) call h)
    (fun h hk => hk.1.2.1) fun hc => ?_).pre fun h hk => ⟨hk, hk.2.wired.slot⟩
  obtain rfl : call = fun _ _ M m => Peer.takeDevice (M, m) := (Option.some.inj hc).symm
  intro h hk
  obtain ⟨hk, taking⟩ := hk
  have new : heldKey major minor ∉ hs := by
    intro member
    have found : (samvadaHeldFind h.pub.held major minor).isSome = true := by
      rw [hk.2.2, samvadaHeldFind, List.findIdx?_isSome, List.any_eq_true]
      exact ⟨_, member, beq_self_eq_true _⟩
    rw [taking.unheld] at found
    cases found
  refine Spec.bind (acquireControl_inHand hs) (fun tc => ?_) h hk
  refine Spec.ite (fun _ => Spec.pure fun h hk => ⟨hs, hk.1⟩) fun granted => ?_
  exact (takeHolding_keeping new).pre fun h hk => ⟨hk.1, hk.2 (Int.not_lt.mp granted)⟩

theorem releaseDevice_keeping (major minor : Int) :
    Spec (fun h => TableSound h ∧ Keeping h) (samvadaSessionReleaseDevice major minor)
    (fun _ => Keeping) fun _ => True := by
  intro h hk
  obtain ⟨⟨l, s, sound⟩, hs, hk⟩ := hk
  obtain rfl : l = hs := sound.held.symm.trans hk.2.2
  have keys := sound.keys
  have range := sound.range
  refine releaseDevice_rule (P := InHand l) (d := (major, minor)) (fun _ _ _ hk => ⟨l, hk⟩)
    (fun call p hd => ?_) h hk
  refine (slot_spec (f := (·.releaseDevice)) (P := fun h => InHand l h ∧ h.pub = p)
    (fun h hk => hk.1.2.1) fun hc => ?_).pre fun h hk => ⟨⟨hk.1.1, hk.2⟩, hk.1.2.slot⟩
  obtain rfl : call = fun _ _ M m => Peer.call (.releaseDevice (M, m)) :=
    (Option.some.inj hc).symm
  -- a key fewer is held, or none was there to give back
  generalize hleft : samvadaHeldDel l (samvadaHeldFind l major minor) = left
  have gone : Slots.Holds deviceKey left (s.erase (major, minor)) :=
    hleft ▸ heldDel_holds (d := (major, minor)) keys range hd
  have member {e : Device} (he : InRange e) (hm : deviceKey e ∈ left) : e ≠ (major, minor) ∧
    deviceKey e ∈ l := by
    have := (gone.mem_iff fun x hx => deviceKey_inj (range x (Finset.mem_of_mem_erase hx)) he).mp
      hm
    exact ⟨Finset.ne_of_mem_erase this, keys.mem (Finset.mem_of_mem_erase this)⟩
  have fewer {b : Peer} (hb : b.Guards l) : b.Guards left := by
    refine ⟨fun hne => hb.holding fun e => hne ?_, fun r hr e he hm =>
      hb.kept r hr e he (member he hm).2⟩
    rw [← hleft, e]
    rfl
  have call : Spec (fun b : Peer => b.Guards left) (Peer.call (.releaseDevice (major, minor)))
    (fun _ b => b.Guards left) fun _ => True :=
    call_guards (by simp) fun e he hm h => (member he hm).1 (Request.releaseDevice.inj h).symm
  have released :=
    dispatch_spec (d := fun rc => .releaseDevice p.bus major minor rc) (F := Over l) call
  refine Spec.bind (released.pre fun _ h => ⟨fewer h.1.1, h.1.2⟩)
    fun rc => ?_
  refine Spec.bind (Q := fun _ => InHand left) (Spec.modify fun h hk => ⟨hk.1, hk.2.1, ?_⟩)
    fun _ => ?_
  · show samvadaHeldDel h.pub.held (samvadaHeldFind h.pub.held major minor) = left
    rw [hk.2.2, hleft]
  · refine Spec.bind (Q := fun _ => Keeping) ?_ fun _ =>
      Spec.ite (fun _ => Spec.pure fun _ h => h) fun _ => Spec.pure fun _ h => h
    refine Spec.gets_bind fun held => Spec.ite (fun hnil => ?_) fun _ =>
      Spec.pure fun h hk => ⟨left, hk.1⟩
    by_cases e : left = []
    · rw [e]
      exact Spec.bind (kept_of (dropControl_inHand false) fun _ h => h.1) fun _ =>
        Spec.pure fun h hk => ⟨[], hk⟩
    · intro h hk
      obtain ⟨hk, rfl⟩ := hk
      rw [hk.2.2] at hnil
      exact absurd (List.eq_nil_of_length_eq_zero hnil) e

theorem pumpSignals_keeping : Spec Keeping samvadaPumpSignals (fun _ => Keeping) fun _ => True := by
  intro h hk
  obtain ⟨hs, hk⟩ := hk
  refine callable_rule (P := InHand hs) (f := (·.pumpSignals)) (fun _ => rfl)
    (fun _ _ _ hk _ => ⟨hs, hk⟩) (fun call p => ?_) h hk
  refine (slot_spec (f := (·.pumpSignals)) (P := InHand hs) (fun h hk => hk.2.1)
    fun hc => ?_).pre fun h hk => ⟨hk.1.1, hk.1.2.slot⟩
  obtain rfl : call = fun _ => Peer.result := (Option.some.inj hc).symm
  have result : Spec (Peer.Guards hs) Peer.result (fun _ => Peer.Guards hs) fun _ => True :=
    Spec.modifyGet fun b hb =>
      ⟨fun hne => ⟨(hb.holding hne).controller, (hb.holding hne).backlog⟩, hb.kept⟩
  exact (dispatch_spec result).post fun _ _ h => ⟨hs, h⟩

/-! ## Opening and closing the connection -/

/-- A release leaves no table and nothing held, whatever was there. -/
theorem release_over : Spec (fun _ => True) (samvadaRelease : Api Peer Int)
    (fun _ h => Over [] h.pub) fun _ => True :=
  Spec.bind Spec.any fun _ => Spec.bind (Q := fun _ h => Over [] h.pub)
    (Spec.modify fun _ _ => ⟨fun _ ht => (nomatch ht), rfl⟩) fun _ =>
    Spec.pure fun _ h => h

theorem releaseWith_over {P : Host Peer → Prop} (rc : Int) :
    Spec P (releaseWith rc) (fun _ h => Over [] h.pub) fun _ => True :=
  Spec.bind (release_over.mono (fun _ _ => trivial) (fun _ _ h => h) fun _ h => h) fun _ =>
    Spec.pure fun _ h => h

theorem initSession_over : Spec (fun h => Over [] h.pub) (initSession : Api Peer Int)
    (fun _ h => Over [] h.pub) fun _ => True := by
  refine Spec.gets_bind fun call => ?_
  cases call with
  | none => exact releaseWith_over _
  | some call =>
    refine Spec.bind (Q := fun _ h => Over [] h.pub) (Spec.gets fun _ h => h.1) fun bus =>
      Spec.bind (Q := fun _ h => Over [] h.pub) (Spec.gets fun _ h => h) fun pid =>
        Spec.bind (dispatch_holds.over []) fun r => ?_
    refine Spec.bind (Q := fun _ h => Over [] h.pub) (Spec.modify fun h ho => ho) fun _ =>
      Spec.ite (fun _ => releaseWith_over _) fun _ => Spec.gets_bind fun tc => ?_
    cases tc with
    | none => exact releaseWith_over _
    | some tc => exact Spec.pure fun _ h => h.1

/-- From the scratch on nothing is held, whatever the table held before. -/
theorem initBus_over : Spec (fun h => ∀ t, h.pub.table = some t → t = peerTable)
    (initBus : Api Peer Int) (fun _ h => Over [] h.pub) fun _ => True := by
  refine Spec.bind (Q := fun _ h => Over [] h.pub) (Spec.modify fun h ht => ⟨ht, rfl⟩) fun _ =>
    Spec.gets_bind fun call => ?_
  cases call with
  | none => exact releaseWith_over _
  | some call =>
    refine Spec.bind ((dispatch_holds.over []).mono (fun _ h => h.1) (fun _ _ h => h) fun _ h => h)
      fun r => ?_
    refine Spec.bind (Q := fun _ h => Over [] h.pub) (Spec.modify fun h ho => ho) fun _ =>
      Spec.ite (fun _ => releaseWith_over _) fun _ => ?_
    refine Spec.bind (Q := fun _ h => Over [] h.pub) (Spec.modify fun h ho => ho) fun _ =>
      Spec.ite (fun _ => releaseWith_over _) fun _ => initSession_over

/-- Allocating leaves the table behind the API. -/
theorem ensure_table {σ : Type} {t : Table σ} {has : Public σ → Bool}
    {put : Public σ → Bytes → Public σ} (hput : ∀ p c, (put p c).table = p.table) :
    Spec (fun h => h.pub.table = some t) (ensure has put) (fun _ h => h.pub.table = some t)
    fun _ => True := by
  refine Spec.gets_bind fun there => Spec.ite (fun _ => Spec.pure fun _ h => h.1) fun _ =>
    Spec.bind (Q := fun _ h => h.pub.table = some t) (Spec.modifyGet fun _ h => h.1) fun c => ?_
  cases c with
  | none => exact Spec.pure fun _ h => h
  | some c =>
    exact Spec.bind (Q := fun _ h => h.pub.table = some t)
      (Spec.modify fun h table => (hput h.pub c).trans table) fun _ => Spec.pure fun _ h => h

theorem initAccepted_over : Spec (fun h => h.pub.table = some peerTable)
    (initAccepted : Api Peer Int) (fun _ h => Over [] h.pub) fun _ => True := by
  refine Spec.bind (ensure_table fun _ _ => rfl) fun _ => Spec.ite (fun _ => ?_) fun _ =>
    releaseWith_over _
  refine Spec.bind (ensure_table fun _ _ => rfl) fun _ => Spec.ite (fun _ => ?_) fun _ =>
    releaseWith_over _
  refine Spec.bind (ensure_table fun _ _ => rfl) fun _ => Spec.ite (fun _ => ?_) fun _ =>
    releaseWith_over _
  exact initBus_over.mono (fun h ht t e => Option.some.inj (e.symm.trans ht))
    (fun _ _ h => h) fun _ h => h

theorem init_keeping {table : Option (Table Peer)} (ht : (ApiOp.init table).native) :
    Spec Keeping (samvadaInit table) (fun _ => Keeping) fun _ => True := by
  cases table with
  | none => exact Spec.pure fun _ h => h
  | some t =>
    obtain rfl : t = peerTable := ht
    refine Spec.gets_bind fun there => Spec.ite (fun _ => Spec.pure fun _ h => h.1) fun _ =>
      Spec.ite (fun _ => Spec.pure fun _ h => h.1) fun _ => ?_
    exact Spec.bind (Q := fun _ h => h.pub.table = some peerTable)
      (Spec.modify fun _ _ => rfl) fun _ =>
      initAccepted_over.mono (fun _ h => h) (fun _ _ h => ⟨[], inHand_nil.mpr h⟩) fun _ h => h

theorem ApiOp.native.closable {op : ApiOp Peer} (h : op.native) : op.closable := by
  cases op with
  | init table =>
    cases table with
    | none => trivial
    | some t =>
      obtain rfl : t = peerTable := h
      exact peerTable_wired
  | takeDevice major minor => trivial
  | releaseDevice major minor => trivial
  | pumpSignals => trivial
  | release => trivial

/-- The table stands for what is in hand, and control is kept for it. -/
def Grounded (h : Host Peer) : Prop := TableSound h ∧ Keeping h

theorem run_grounded {op : ApiOp Peer} (hop : op.native) : Spec Grounded op.run (fun _ => Grounded)
    fun _ => True := by
  have sound : Spec Grounded op.run (fun _ => TableSound) fun _ => True :=
    (run_sound hop.closable).mono (fun _ h => h.1) (fun _ _ h => h) fun _ h => h
  have keeping {x : Api Peer Int} (hx : Spec Keeping x (fun _ => Keeping) fun _ => True) :
    Spec Grounded x (fun _ => Keeping) fun _ => True :=
    hx.mono (fun _ h => h.2) (fun _ _ h => h) fun _ h => h
  refine sound.and (V := fun _ => True) ?_
  cases op with
  | init table => exact keeping (init_keeping hop)
  | takeDevice major minor => exact keeping (takeDevice_keeping major minor)
  | releaseDevice major minor => exact releaseDevice_keeping major minor
  | pumpSignals => exact keeping pumpSignals_keeping
  | release =>
    exact release_over.mono (fun _ _ => trivial) (fun _ _ h => ⟨[], inHand_nil.mpr h⟩) fun _ h => h

theorem runApi_grounded : ∀ {ops : List (ApiOp Peer)}, (∀ op ∈ ops, op.native) →
    Spec Grounded (runApi ops) (fun _ => Grounded) fun _ => True
  | [], _ => Spec.pure fun _ h => h
  | _ :: _, hops => Spec.bind (run_grounded (hops _ List.mem_cons_self)) fun _ =>
      Spec.bind (runApi_grounded fun op hop => hops op (List.mem_cons_of_mem _ hop)) fun _ =>
        Spec.pure fun _ h => h

theorem start_grounded {h : Host Peer} (hpub : h.pub = {}) (hlog : h.log = []) : Grounded h := by
  refine ⟨start_sound hpub hlog, [], inHand_nil.mpr ⟨fun t ht => ?_, ?_⟩⟩
  · rw [hpub] at ht
    cases ht
  · rw [hpub]

/-- **While a device is held, logind has samvada as the controller and keeps it.** In
every state a run of the API reaches over a model of logind, whatever logind did
meanwhile, late, refusing or dropping devices: while any device is in the table
samvada is the controller at logind, and no ReleaseControl and no ReleaseDevice of
a device in the table is still to be processed. -/
theorem control_while_held (h₀ : Host Peer) (hpub : h₀.pub = {}) (hlog : h₀.log = [])
    (ops : List (ApiOp Peer))
    (hops : ∀ op ∈ ops, op.native) {rcs : List Int} {h : Host Peer}
    (hrun : runApi ops h₀ = .done rcs h) :
    (h.pub.held ≠ [] → h.back.logind.controller = true ∧ .releaseControl ∉ h.back.backlog ∧
    h.back.settled.controller = true) ∧
    ∀ d, InRange d → (samvadaHeldFind h.pub.held d.1 d.2).isSome →
    .releaseDevice d ∉ h.back.backlog := by
  obtain ⟨⟨l, s, hs⟩, hs', hk⟩ := (runApi_grounded hops).of_done (start_grounded hpub hlog) hrun
  obtain rfl := hs.held
  obtain rfl := hk.2.2
  refine ⟨fun hne => ?_, fun d hd hfind hr => ?_⟩
  · have holding := hk.1.holding hne
    exact ⟨holding.controller, holding.backlog, holding.settled⟩
  · have member := hs.keys.mem ((hs.find_isSome hd).mp hfind)
    exact hk.1.kept _ hr d hd member rfl

/-- A host over logind, and what becomes of the calls. -/
def besideLogind (turns : List Turn) : Host Peer :=
  { back := { turns := turns, results := [5, 0] }, allocs := [some [], some [], some []] }

/-- With one device in the table samvada is the controller. -/
theorem control_while_held_one :
    let h := (runApi [.init (some peerTable), .takeDevice 13 64] (besideLogind [])).state
    h.pub.held = [deviceKey (13, 64)] ∧ h.back.logind.controller = true := by
  intro h
  have native : ∀ op ∈ [ApiOp.init (some peerTable), .takeDevice 13 64], op.native := by
    intro op hop
    simp only [List.mem_cons, List.not_mem_nil, or_false] at hop
    obtain rfl | rfl := hop
    · exact rfl
    · trivial
  have ended : (runApi [.init (some peerTable), .takeDevice 13 64] (besideLogind [])).value = some
    [0, 7] := by decide +kernel
  have held : h.pub.held = [deviceKey (13, 64)] := by decide +kernel
  refine ⟨held,
    ((control_while_held (besideLogind []) rfl rfl _ native (Outcome.eq_done ended)).1 ?_).1⟩
  rw [show (runApi [.init (some peerTable), .takeDevice 13 64] (besideLogind [])).state.pub.held =
    [deviceKey (13, 64)] from held]
  exact List.cons_ne_nil _ _

end Samvada
