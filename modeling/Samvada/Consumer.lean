import Samvada.Lib.Commands
import Samvada.Conservation
import Samvada.Handing
import Samvada.HeldTable
import Samvada.SessionPath

/- The public API over the native backend: what a consumer of `samvada_native_init`
   runs. Whatever calls the consumer makes and whatever the kernel answers, what they
   do to the native backend is a run of native operations, on the one bus the API has
   open, each with arguments the backend takes and a request that fits. So what every
   run of native operations keeps holds of the whole: every descriptor the consumer
   was given is its own, and samvada holds none once it is released. -/
namespace Samvada
open Octets Framing Ledger Resumable Resumable.Prog

/-! ## The consumer's calls -/

/-- `samvada_native_init`: `ready` if the table is allocated, then or before. -/
def samvadaNativeInit (ready : Bool) : Api World Int := if ready then samvadaInit (some nativeTable)
else pure (-12)

/-- What a consumer does. -/
inductive ConsumerOp where
  | nativeInit (ready : Bool)
  | takeDevice (major minor : Int)
  | releaseDevice (major minor : Int)
  | pumpSignals
  | release
  /-- close(2) on a descriptor it was given -/
  | close (fd : Int)
  deriving DecidableEq, Repr

/-- What the consumer does to its own descriptors. -/
def consumerClose (fd : Int) : Api World Int := do
  Prog.modify fun h => { h with back := h.back.emit [.returned fd] }
  pure 0

def ConsumerOp.run : ConsumerOp → Api World Int
  | nativeInit ready => samvadaNativeInit ready
  | takeDevice major minor => samvadaSessionTakeDevice major minor
  | releaseDevice major minor => samvadaSessionReleaseDevice major minor
  | pumpSignals => samvadaPumpSignals
  | release => samvadaRelease
  | close fd => consumerClose fd

/-- Calls one after the other: what each returned. -/
def runConsumer : List ConsumerOp → Api World (List Int)
  | [] => pure []
  | op :: rest => do
    let rc ← op.run
    let rcs ← runConsumer rest
    pure (rc :: rcs)

/-- The descriptors a call gave the consumer, from what it returned. -/
def ConsumerOp.got : ConsumerOp → Int → List Int
  | takeDevice _ _, rc => if 0 ≤ rc then [rc] else []
  | _, _ => []

/-- The descriptors a run gave the consumer, in order. -/
def gotten (ops : List ConsumerOp) (rcs : List Int) : List Int :=
  (List.zipWith ConsumerOp.got ops rcs).flatten

/-! ## The operations the API makes -/

/-- Its arguments are ones the backend takes, and its request fits in the encoder's buffer. -/
def BusOp.Proper (op : BusOp) : Prop :=
  op.accepts = true ∧ (op.asks = true → ∀ s, (op.request s).bad = false)

def NativeOp.Proper : NativeOp → Prop
  | .on _ op => op.Proper
  | _ => True

/-- A session string of the API: an object path, in the API's buffer. -/
def SessionReady (s : Bytes) : Prop :=
  dbusSessionSessOk (some s) = true ∧ s.length ≤ samvadaSessBuflen

theorem SessionReady.proper {s : Bytes} {o : BusOp} (h : SessionReady s) (hsess : o.sess = some s)
    (ok : o.accepts = true) : o.Proper := by
  obtain ⟨-, hpath⟩ := sess_asks hsess
  have short : o.path.length ≤ 512 := by
    rw [hpath, cstr, List.length_take]
    exact Nat.le_trans (Nat.min_le_right _ _) h.2
  have hm : o.path.length < memMax := by
    unfold memMax
    omega
  refine ⟨ok, fun _ serial => (session_bad hsess ok hm serial).mpr ?_⟩
  have rest : o.rest ≤ 112 := by
    unfold BusOp.rest
    split <;> omega
  have padded : align (25 + o.path.length) 8 ≤ 25 + o.path.length + 7 := by
    unfold align
    omega
  unfold BusOp.fits
  omega

/-- The request for the session path fits. -/
theorem sessionPath_proper (pid : Int) {outLen : Int} (h : 0 < outLen) :
    (BusOp.sessionPath pid (some outLen)).Proper := by
  have ok : (BusOp.sessionPath pid (some outLen)).accepts = true := decide_eq_true h
  have hm : (BusOp.sessionPath pid (some outLen)).path.length < memMax := by
    show (lit "/org/freedesktop/login1").length < memMax
    decide
  refine ⟨ok, fun ha s => ?_⟩
  obtain ⟨g, m, d, u, p⟩ : (lit "GetSessionByPID").length = 15 ∧
    (lit "org.freedesktop.login1.Manager").length = 30 ∧
      (lit "org.freedesktop.login1").length = 22 ∧ (lit "u").length = 1 ∧
      (lit "/org/freedesktop/login1").length = 23 := by decide
  have hu : ¬ "u" = "" := by decide
  rw [request_bad ha ok hm, decide_eq_false_iff_not, Nat.not_lt, BusOp.size, messageBytes_length]
  -- the lengths of the fields, each from the word the one before it ends in
  simp only [fieldsBytes, bodyBytes, BusOp.fields, BusOp.args, BusOp.signature, BusOp.member,
    BusOp.interface, BusOp.destination,
    BusOp.path, hu, if_false, List.cons_append, List.nil_append, List.append_nil, layout,
    HeaderField.bytes, HeaderField.value,
    BodyValue.bytes, BodyValue.value, fieldBytes, List.length_append, List.length_cons,
    List.length_nil, le32_length, padBytes_length, g, m, d, u, p, align8_eq, align4_eq]
  omega

/-! ## The API and the backend, between commands -/

/-- Descriptors as the API answers them: their low 32 bits, where those are no errno. -/
def asWords (fds : List Int) : List Int := (fds.map fdWord).filter fun fd => decide (0 ≤ fd)

theorem asWords_append (fds fds' : List Int) : asWords (fds ++ fds') = asWords fds ++
    asWords fds' := by
  rw [asWords, List.map_append, List.filter_append]
  rfl

/-- The bus the API has open. -/
def Public.opened (p : Public World) : List Int := if p.bus = 0 then [] else [p.bus]

/-- The API runs over the native backend, and its bus is the one that is open (a bus
opened as 0 is lost to it); if control may be held, there is a session to release it in. -/
structure Attached (bs : List Int) (p : Public World) : Prop where
  table : ∀ t, p.table = some t → t = nativeTable
  live : p.bus ≠ 0 → p.table = some nativeTable
  buses : ∃ n, bs = p.opened ++ List.replicate n 0
  control : p.control ≠ .no → p.bus ≠ 0 ∧ SessionReady (sessArg p)

/-- Between calls of the API. -/
def Serving (bs : List Int) (p : Public World) : Prop :=
  Attached bs p ∧ (p.bus ≠ 0 → SessionReady (sessArg p))

/-- `x` runs proper native operations. -/
abbrev Native {α : Type} (P : List Int → Host World → Prop) (x : Api World α)
    (Q : α → List Int → Host World → Prop) : Prop :=
  Drives Host.back (fun op buses => NativeOp.run buses op) NativeOp.Proper P x Q

/-- The backend is sound, it handed the consumer `got`, and the API is in `F`. -/
def Backed (got : List Int) (F : List Int → Public World → Prop) (bs : List Int) (h : Host World) :
    Prop :=
  Sound bs h.back ∧ asWords h.back.handed = got ∧ F bs h.pub

section
variable {α β : Type} {got : List Int} {F G : List Int → Public World → Prop}

theorem setPub_native {f : Public World → Public World} (h : ∀ bs p, F bs p → G bs (f p)) :
    Native (Backed got F) (setPub f) (fun _ => Backed got G) :=
  Drives.modify (fun _ => rfl) fun bs _ hs => ⟨hs.1, hs.2.1, h bs _ hs.2.2⟩

/-- A slot of the native table. -/
theorem slot_native {f : Table World → Option β} {c : β} {k : Option β → Api World α}
    {Q : α → List Int → Host World → Prop}
    (hc : f nativeTable = some c) (hF : ∀ bs p, F bs p → p.table = some nativeTable)
    (hk : Native (Backed got F) (k (some c)) Q) : Native (Backed got F) (slot f >>= k) Q := by
  refine Drives.gets_bind fun found => ⟨fun bs h hs => ?_⟩
  obtain ⟨hs, rfl⟩ := hs
  rw [hF bs h.pub hs.2.2, Option.bind_some, hc]
  exact hk.ends bs h hs

/-- What the API reads of itself. -/
theorem pub_native {k : Public World → Api World α} {Q : α → List Int → Host World → Prop}
    (hk : ∀ p, Native (Backed got fun bs q => F bs q ∧ q = p) (k p) Q) :
    Native (Backed got F) (Prog.gets (·.pub) >>= k) Q :=
  Drives.gets_bind fun p => (hk p).mono (fun _ _ h => ⟨h.1.1, h.1.2.1, h.1.2.2, h.2⟩) fun _ _ _ h =>
    h

/-- **A dispatch is a native operation**: what `x` answers is in `R`, and it hands out `g`. -/
theorem dispatch_native {x : M α} {d : α → Dispatch} {c : NativeOp} {f : α → List Int → List Int}
    {R : α → Prop} {g : α → List Int} (proper : c.Proper)
    (run : ∀ bs p, F bs p → NativeOp.run bs c = x >>= fun a => pure (f a bs))
    (hx : ∀ old, Spec (fun w => w.fr.Good ∧ w.handed = old) x
    (fun a w => R a ∧ w.handed = old ++ g a) fun _ => True) : Native (Backed got F) (dispatch x d)
      (fun a bs h => (Sound bs h.back ∧ asWords h.back.handed = got ++ asWords (g a) ∧ ∃ bs₀,
      bs = f a bs₀ ∧ F bs₀ h.pub) ∧ R a) where
  ends bs h hs := by
    obtain ⟨sound, rfl, hF⟩ := hs
    have command : execs (fun op buses => NativeOp.run buses op) bs [c]
      h.back = (x >>= fun a => pure (f a bs) : M (List Int)) h.back := by
      rw [execs_one]
      exact congrFun (run bs h.pub hF) h.back
    have kept := NativeOp.run_sound c bs h.back sound
    have answers := hx h.back.handed h.back ⟨sound.kept.good, rfl⟩
    have legal : ∀ c' ∈ [c], c'.Proper := fun c' hc => (List.mem_singleton.mp hc).symm ▸ proper
    rw [run bs h.pub hF] at kept
    unfold dispatch
    -- the dispatch waits where the operation does
    cases hxw : x h.back with
    | waiting w =>
      rw [bind_waiting hxw] at command
      exact .waiting [c] legal command
    | done a w =>
      rw [bind_done hxw] at command kept
      rw [hxw] at answers
      refine .done [c] legal command ⟨⟨kept, ?_, bs, rfl, hF⟩, answers.1⟩
      show asWords w.handed = _
      rw [answers.2, asWords_append]

/-- What hands nothing out, and is asked nothing else. -/
theorem HandsNothing.quiet {x : M α} (h : HandsNothing x) (old : List Int) :
    Spec (fun w => w.fr.Good ∧ w.handed = old) x (fun _ w => True ∧ w.handed = old ++ []) fun _ =>
    True :=
  (h.still old).mono (fun _ hw => hw.2)
    (fun _ _ hw => ⟨trivial, hw.trans (List.append_nil old).symm⟩) fun _ _ => trivial

end

/-! ## Calls on the bus the API has open -/

/-- The API has the bus `b` open, for the session `s`. -/
structure OnBus (b : Int) (s : Bytes) (bs : List Int) (p : Public World) : Prop where
  attached : Attached bs p
  bus : p.bus = b
  sess : sessArg p = s

section
variable {α : Type} {got : List Int} {b : Int} {s : Bytes}

namespace OnBus
variable {bs : List Int} {p q : Public World}

theorem table (h : OnBus b s bs p) (hb : b ≠ 0) : p.table = some nativeTable :=
  h.attached.live (h.bus.symm ▸ hb)

theorem mem (h : OnBus b s bs p) (hb : b ≠ 0) : b ∈ bs := by
  obtain ⟨n, e⟩ := h.attached.buses
  rw [e, Public.opened, h.bus, if_neg hb]
  exact List.mem_append_left _ (List.mem_singleton_self b)

/-- Control and the table of devices may change; so may the scratch. -/
theorem of_pub (h : OnBus b s bs p) (hb : b ≠ 0) (hs : SessionReady s) (table : q.table = p.table)
    (bus : q.bus = p.bus) (sess : q.sess = p.sess) : OnBus b s bs q where
  attached := by
    have opened : q.opened = p.opened := by rw [Public.opened, Public.opened, bus]
    have ready : sessArg q = s := by rw [sessArg, sess, ← sessArg, h.sess]
    exact ⟨table ▸ h.attached.table, bus ▸ table ▸ h.attached.live, opened ▸ h.attached.buses,
      fun _ => ⟨bus ▸ h.bus ▸ hb, ready ▸ hs⟩⟩
  bus := bus.trans h.bus
  sess := by rw [sessArg, sess, ← sessArg, h.sess]

end OnBus

/-- The API asks about its session. -/
theorem ask_native {x : M α} {o : BusOp} {d : α → Dispatch} {R : α → Prop} {g : α → List Int}
    (hb : b ≠ 0) (proper : o.Proper)
    (run : ∀ bs : List Int, (o.run b >>= fun _ => pure bs : M (List Int)) = x >>= fun _ => pure bs)
    (hx : ∀ old, Spec (fun w => w.fr.Good ∧ w.handed = old) x
    (fun a w => R a ∧ w.handed = old ++ g a) fun _ => True) :
    Native (Backed got (OnBus b s)) (dispatch x d)
    (fun a bs h => Backed (got ++ asWords (g a)) (OnBus b s) bs h ∧ R a) := by
  have command (bs : List Int) (p : Public World) (h : OnBus b s bs p) :
    NativeOp.run bs (.on b o) = x >>= fun a => pure bs := by
    rw [← run bs]
    exact if_pos (h.mem hb)
  refine (dispatch_native (c := .on b o) (f := fun _ bs => bs) proper command hx).mono
    (fun _ _ h => h) fun a bs h hq => ?_
  obtain ⟨⟨sound, handed, _, rfl, on⟩, hr⟩ := hq
  exact ⟨⟨sound, handed, on⟩, hr⟩

/-- The same where nothing is handed out. -/
theorem ask_quiet {x : M α} {o : BusOp} {d : α → Dispatch} (hb : b ≠ 0) (proper : o.Proper)
    (run : ∀ bs : List Int, (o.run b >>= fun _ => pure bs : M (List Int)) = x >>= fun _ => pure bs)
    (hx : HandsNothing x) : Native (Backed got (OnBus b s)) (dispatch x d)
    (fun _ => Backed got (OnBus b s)) := by
  refine (ask_native (R := fun _ => True) (g := fun _ => []) hb proper run hx.quiet).mono
    (fun _ _ h => h) fun a bs h hq => ?_
  have same : got ++ asWords [] = got := List.append_nil got
  exact same ▸ hq.1

/-- What the API reads of itself, on its bus. -/
theorem self_native {k : Public World → Api World α} {Q : α → List Int → Host World → Prop}
    (hk : ∀ p, p.bus = b → sessArg p = s → Native (Backed got (OnBus b s)) (k p) Q) :
    Native (Backed got (OnBus b s)) (Prog.gets (·.pub) >>= k) Q := by
  refine pub_native fun p => ⟨fun bs h hs => ?_⟩
  obtain ⟨sound, handed, on, rfl⟩ := hs
  exact (hk h.pub on.bus on.sess).ends bs h ⟨sound, handed, on⟩

theorem setControl_native (hb : b ≠ 0) (hs : SessionReady s) (c : Control) :
    Native (Backed got (OnBus b s)) (setControl c) (fun _ => Backed got (OnBus b s)) :=
  setPub_native fun _ _ h => h.of_pub hb hs rfl rfl rfl

theorem takeControl_native (hb : b ≠ 0) (hs : SessionReady s) :
    Native (Backed got (OnBus b s)) samvadaTakeControl (fun _ => Backed got (OnBus b s)) := by
  refine slot_native (c := fun bus sess => dbusNativeTakeControl bus (some sess)) rfl
    (fun _ _ h => h.table hb) ?_
  refine self_native fun p hbus hsess => ?_
  rw [hbus, hsess]
  have ask : Native (Backed got (OnBus b s)) (dispatch _ fun rc => .takeControl b rc) _ :=
    ask_quiet hb
    (hs.proper (o := .takeControl (some s)) rfl hs.1) (fun _ => rfl) (takeControl_hands b (some s))
  refine Drives.bind ask fun rc => Drives.ite (fun _ => ?_) fun _ =>
    Drives.ite (fun _ => Drives.pure fun _ _ h => h) fun _ => ?_
  · exact Drives.bind (setControl_native hb hs _) fun _ => Drives.pure fun _ _ h => h
  · exact Drives.bind (setControl_native hb hs _) fun _ => Drives.pure fun _ _ h => h

theorem releaseControlCall_native (hb : b ≠ 0) (hs : SessionReady s) :
    Native (Backed got (OnBus b s)) releaseControlCall (fun _ => Backed got (OnBus b s)) := by
  refine slot_native (c := fun bus sess => dbusNativeReleaseControl bus (some sess)) rfl
    (fun _ _ h => h.table hb) ?_
  refine self_native fun p hbus hsess => ?_
  rw [hbus, hsess]
  exact ask_quiet hb (hs.proper (o := .releaseControl (some s)) rfl hs.1) (fun _ => rfl)
    (releaseControl_hands b (some s))

/-- Dropping control, for a session there is if control may be held. -/
theorem dropControl_native (hb : b ≠ 0) (closing : Bool) :
    Native (Backed got (OnBus b s)) (samvadaDropControl closing)
    (fun _ => Backed got (OnBus b s)) := by
  refine Drives.gets_bind fun c => Drives.ite (fun _ => Drives.pure fun _ _ h => h.1) fun hc =>
    ⟨fun bs h hstands => ?_⟩
  obtain ⟨stands, rfl⟩ := hstands
  -- control may be held, so there is a session to release it in
  have hs : SessionReady s := stands.2.2.sess ▸ (stands.2.2.attached.control hc).2
  refine Drives.ends ?_ bs h stands
  have set (c : Control) (rc : Int) : Native (Backed got (OnBus b s)) (do
      setControl c
      pure rc) (fun _ => Backed got (OnBus b s)) := Drives.bind (setControl_native hb hs c) fun _ =>
        Drives.pure fun _ _ h => h
  refine Drives.ite (fun _ => set _ _) fun _ =>
    Drives.bind (releaseControlCall_native hb hs) fun rc => ?_
  exact Drives.ite (fun _ => set _ _) fun _ => set _ _

/-! ## Devices -/

theorem devnumOk_same (v : Int) : dbusSessionDevnumOk v = samvadaDevnumOk v := rfl

theorem inRange_of_ok {major minor : Int}
    (h : ¬ (samvadaDevnumOk major = false ∨ samvadaDevnumOk minor = false)) :
    InRange (major, minor) := by
  rw [not_or, Bool.not_eq_false, Bool.not_eq_false, devnumOk_iff, devnumOk_iff] at h
  exact h

theorem deviceOp_accepts {d : Device} (hs : SessionReady s) (hd : InRange d) :
    (BusOp.takeDevice (some s) d.1 d.2).accepts = true ∧
    (BusOp.releaseDevice (some s) d.1 d.2).accepts = true := by
  have range :
    (dbusSessionSessOk (some s) && dbusSessionDevnumOk d.1 && dbusSessionDevnumOk d.2) = true := by
    rw [hs.1, devnumOk_same, devnumOk_same, devnumOk_iff.mpr hd.1, devnumOk_iff.mpr hd.2]
    rfl
  exact ⟨range, range⟩

theorem releaseCall_native {d : Device} (hb : b ≠ 0) (hs : SessionReady s) (hd : InRange d)
    (log : Int → Dispatch) :
    Native (Backed got (OnBus b s)) (dispatch (dbusNativeReleaseDevice b (some s) d.1 d.2) log)
    (fun _ => Backed got (OnBus b s)) :=
  ask_quiet hb (hs.proper (o := .releaseDevice (some s) d.1 d.2) rfl (deviceOp_accepts hs hd).2)
    (fun _ => rfl) (releaseDevice_hands b (some s) d.1 d.2)

theorem takeFailed_native {d : Device} (hb : b ≠ 0) (hs : SessionReady s)
    (hd : InRange d) (rc : Int) :
    Native (Backed got (OnBus b s)) (takeFailed d.1 d.2 rc)
    (fun r bs h => r = rc ∧ Backed got (OnBus b s) bs h) := by
  have finish {bs : List Int} : ∀ h, Backed got (OnBus b s) bs h → rc = rc ∧ Backed got (OnBus b s)
    bs h := fun _ h => ⟨rfl, h⟩
  refine self_native fun p hbus hsess => ?_
  rw [hbus, hsess]
  refine Drives.ite (fun _ => ?_) fun _ => Drives.ite (fun _ => ?_) fun _ =>
    Drives.ite (fun _ => Drives.pure fun _ => finish) fun _ => ?_
  · exact Drives.bind (dropControl_native hb false) fun _ => Drives.pure fun _ => finish
  · exact Drives.bind (setControl_native hb hs _) fun _ => Drives.pure fun _ => finish
  · refine slot_native (c := fun bus sess major minor => dbusNativeReleaseDevice bus (some sess)
      major minor) rfl (fun _ _ h => h.table hb) ?_
    exact Drives.bind (releaseCall_native hb hs hd _) fun _ => Drives.pure fun _ => finish

/-- The native TakeDevice, as the table has it. -/
def nativeTake (bus : Int) (sess : Bytes) (major minor : Int) :
    M (Int × Option Int × Option Int) := do
  let (rc, out) ← dbusNativeTakeDevice bus (some sess) major minor
  pure (rc, out.map (·.1), out.map fun o => (o.2 : Int))

/-- What it answers: an errno, or 0 with a descriptor. -/
def TakeAnswer (a : Int × Option Int × Option Int) : Prop :=
  a.1 < 0 ∨ ∃ fd inactive, a = (0, some fd, inactive) ∧ 0 ≤ fd

def takenOut (a : Int × Option Int × Option Int) : List Int := if 0 ≤ a.1 then a.2.1.toList else []

theorem nativeTake_hands (bus : Int) (sess : Bytes) (major minor : Int) (old : List Int) :
    Spec (fun w => w.fr.Good ∧ w.handed = old)
    (nativeTake bus sess major minor) (fun a w => TakeAnswer a ∧ w.handed = old ++ takenOut a)
    fun _ => True := by
  refine Spec.bind ((takeDevice_hands old bus (some sess) major minor).mono (fun _ hw => hw.2)
    (fun _ _ h => h) fun _ _ => trivial) fun r => ?_
  refine Spec.pure fun w hw => ?_
  rcases hw with ⟨fd, inactive, rfl, hfd, handed⟩ | ⟨neg, handed⟩
  · exact ⟨.inr ⟨fd, some (inactive : Int), rfl, hfd⟩, handed⟩
  · refine ⟨.inl neg, ?_⟩
    rw [handed, takenOut, if_neg (Int.not_le.mpr neg), List.append_nil]

/-- The consumer's share of an answer. -/
def answered (rc : Int) : List Int := if 0 ≤ rc then [rc] else []

theorem takeHolding_native {d : Device} (hb : b ≠ 0) (hs : SessionReady s) (hd : InRange d) :
    Native (Backed got (OnBus b s)) (takeHolding nativeTake d.1 d.2)
    (fun rc => Backed (got ++ answered rc) (OnBus b s)) := by
  have failed {rc : Int} (neg : rc < 0) : Native (Backed got (OnBus b s)) (takeFailed d.1 d.2 rc)
    (fun rc => Backed (got ++ answered rc) (OnBus b s)) := by
    refine (takeFailed_native hb hs hd rc).mono (fun _ _ h => h) fun r bs h hr => ?_
    obtain ⟨rfl, stands⟩ := hr
    rwa [answered, if_neg (Int.not_le.mpr neg), List.append_nil]
  refine Drives.bind (Q := fun _ => Backed got (OnBus b s))
    (setPub_native fun _ _ h => h.of_pub hb hs rfl rfl rfl) fun _ =>
    self_native fun p hbus hsess => ?_
  rw [hbus, hsess]
  have run (bs : List Int) :
    ((BusOp.takeDevice (some s) d.1 d.2).run b >>= fun _ => pure bs : M (List Int)) =
      nativeTake b s d.1 d.2 >>= fun _ => pure bs := by
    have mapped :
      nativeTake b s d.1 d.2 = (fun r : Int × Option (Int × Nat) =>
      (r.1, r.2.map (·.1), r.2.map fun o => (o.2 : Int))) <$>
        dbusNativeTakeDevice b (some s) d.1 d.2 := rfl
    rw [mapped, map_forget]
    exact map_forget _ _ _
  refine Drives.bind (ask_native hb (hs.proper rfl (deviceOp_accepts hs hd).1) run
    (nativeTake_hands b s d.1 d.2)) fun a => Drives.known fun answer => ?_
  refine Drives.bind (Q := fun _ => Backed (got ++ asWords (takenOut a)) (OnBus b s))
    (setPub_native fun _ _ h => h.of_pub hb hs rfl rfl rfl) fun _ => ?_
  rcases answer with neg | ⟨fd, inactive, rfl, hfd⟩
  · -- an errno hands nothing out
    have none : got ++ asWords (takenOut a) = got := by
      rw [takenOut, if_neg (Int.not_le.mpr neg)]
      exact List.append_nil got
    rw [none]
    exact Drives.ite (fun h => absurd h (Int.not_le.mpr neg)) fun _ => failed neg
  · -- a descriptor whose low 32 bits read as an errno is not the consumer's
    show Native (Backed (got ++ asWords [fd]) (OnBus b s)) _ _
    refine Drives.ite (fun _ => Drives.ite (fun word => ?_) fun word => ?_) fun h =>
      absurd (Int.le_refl 0) h
    · refine Drives.bind (Q := fun _ => Backed (got ++ asWords [fd]) (OnBus b s))
        (setPub_native fun _ _ h => h.of_pub hb hs rfl rfl rfl) fun _ =>
        Drives.pure fun _ h hst => ?_
      have one : asWords [fd] = answered (fdWord fd) := by
        simp [asWords, answered, show 0 ≤ fdWord fd from word]
      rwa [one] at hst
    · have none : asWords [fd] = [] := by simp [asWords, show fdWord fd < 0 from Int.not_le.mp word]
      rw [none, List.append_nil]
      exact failed (by decide)

/-- On the bus the API has open, for the session it stored. -/
theorem live_native {x : Api World α} {out : α → List Int} {p : Public World} (live : p.bus ≠ 0)
    (hx : ∀ b s, b ≠ 0 → SessionReady s → p.bus = b → sessArg p = s →
    Native (Backed got (OnBus b s)) x fun a => Backed (out a) (OnBus b s)) :
    Native (Backed got fun bs q => Serving bs q ∧ q = p) x fun a => Backed (out a) Serving where
  ends bs h hs := by
    obtain ⟨sound, handed, serving, rfl⟩ := hs
    have ready := serving.2 live
    have run := (hx _ _ live ready rfl rfl).mono (fun _ _ h => h) fun a bs q hq =>
      (⟨hq.1, hq.2.1, hq.2.2.attached, fun _ => ?_⟩ : Backed (out a) Serving bs q)
    · exact run.ends bs h ⟨sound, handed, serving.1, rfl, rfl⟩
    · rw [hq.2.2.sess]
      exact ready

/-- An errno gives the consumer nothing. -/
theorem refuse_native {P : List Int → Public World → Prop} {rc : Int} (neg : rc < 0)
    (hP : ∀ bs p, P bs p → Serving bs p) : Native (Backed got P) (pure rc) fun rc =>
    Backed (got ++ answered rc) Serving := by
  refine Drives.pure fun bs h hs => ?_
  rw [answered, if_neg (Int.not_le.mpr neg), List.append_nil]
  exact ⟨hs.1, hs.2.1, hP _ _ hs.2.2⟩

/-- A call that asks nothing. -/
theorem idle_native {P : List Int → Public World → Prop} {rc : Int}
    (hP : ∀ bs p, P bs p → Serving bs p) :
    Native (Backed got P) (pure rc) fun _ => Backed got Serving :=
    Drives.pure fun _ _ h => ⟨h.1, h.2.1, hP _ _ h.2.2⟩

theorem takeDevice_native (major minor : Int) : Native (Backed got Serving)
    (samvadaSessionTakeDevice major minor) fun rc => Backed (got ++ answered rc) Serving := by
  refine pub_native fun p =>
    Drives.ite (fun _ => refuse_native (by decide) fun _ _ h => h.1) fun _ =>
    Drives.ite (fun _ => refuse_native (by decide) fun _ _ h => h.1) fun live =>
      live_native live fun b s hb hs hbus hsess => ?_
  have refuse {rc : Int} (neg : rc < 0) : Native (Backed got (OnBus b s)) (pure rc) fun rc =>
    Backed (got ++ answered rc) (OnBus b s) := by
    refine Drives.pure fun _ _ h => ?_
    rwa [answered, if_neg (Int.not_le.mpr neg), List.append_nil]
  refine slot_native (c := nativeTake) rfl (fun _ _ h => h.table hb) ?_
  refine Drives.ite (fun _ => refuse (by decide)) fun range =>
    Drives.ite (fun _ => refuse (by decide)) fun _ =>
    Drives.ite (fun _ => refuse (by decide)) fun _ => ?_
  have hd : InRange (major, minor) := inRange_of_ok range
  have acquire : Native (Backed got (OnBus b s)) acquireControl (fun _ => Backed got (OnBus b s)) :=
    Drives.gets_bind fun held =>
      (Drives.ite (fun _ => takeControl_native hb hs) fun _ => Drives.pure fun _ _ h => h).mono
      (fun _ _ h => h.1) fun _ _ _ h => h
  exact Drives.bind acquire fun tc => Drives.ite refuse fun _ =>
    takeHolding_native (d := (major, minor)) hb hs hd

theorem releaseDevice_native (major minor : Int) : Native (Backed got Serving)
    (samvadaSessionReleaseDevice major minor) fun _ => Backed got Serving := by
  refine pub_native fun p => Drives.ite (fun _ => idle_native fun _ _ h => h.1) fun _ =>
    Drives.ite (fun _ => idle_native fun _ _ h => h.1) fun live =>
    live_native live fun b s hb hs hbus hsess => ?_
  refine slot_native (c := fun bus sess major minor => dbusNativeReleaseDevice bus (some sess) major
    minor) rfl (fun _ _ h => h.table hb) ?_
  refine Drives.ite (fun _ => Drives.pure fun _ _ h => h) fun range => ?_
  have hd : InRange (major, minor) := inRange_of_ok range
  rw [hbus, hsess]
  have drop : Native (Backed got (OnBus b s)) dropWhenEmpty (fun _ => Backed got (OnBus b s)) := by
    refine Drives.gets_bind fun held => Drives.ite (fun _ => ?_) fun _ =>
      Drives.pure fun _ _ h => h.1
    refine Drives.bind ((dropControl_native hb false).mono (fun _ _ h => h.1) fun _ _ _ h => h)
      fun _ => Drives.pure fun _ _ h => h
  refine Drives.bind (releaseCall_native (d := (major, minor)) hb hs hd _) fun rc =>
    Drives.bind (Q := fun _ => Backed got (OnBus b s))
      (setPub_native fun _ _ h => h.of_pub hb hs rfl rfl rfl) fun _ =>
    Drives.bind drop fun _ => Drives.ite (fun _ => Drives.pure fun _ _ h => h) fun _ =>
      Drives.pure fun _ _ h => h

theorem pumpSignals_native : Native (Backed got Serving) samvadaPumpSignals fun _ =>
    Backed got Serving := by
  refine pub_native fun p => Drives.ite (fun _ => idle_native fun _ _ h => h.1) fun _ =>
    Drives.ite (fun _ => idle_native fun _ _ h => h.1) fun live =>
    live_native live fun b s hb hs hbus hsess => ?_
  refine slot_native (c := dbusNativePumpSignals) rfl (fun _ _ h => h.table hb) ?_
  rw [hbus]
  exact ask_quiet (o := .pump) hb ⟨rfl, fun h => absurd h (by decide)⟩ (fun _ => rfl) (pump_hands b)

/-! ## Release -/

/-- The API has no bus open. -/
structure Shut (bs : List Int) (p : Public World) : Prop where
  table : ∀ t, p.table = some t → t = nativeTable
  bus : p.bus = 0
  buses : ∃ n, bs = List.replicate n 0

theorem closeLiveBus_native : Native (Backed got Attached) closeLiveBus fun _ =>
    Backed got Shut := by
  refine Drives.gets_bind fun b => Drives.ite (fun hb => Drives.pure fun bs h hs => ?_) fun hb =>
    ⟨fun bs h hs => ?_⟩
  · obtain ⟨⟨sound, handed, attached⟩, bus⟩ := hs
    obtain ⟨n, e⟩ := attached.buses
    rw [Public.opened, if_pos (bus.trans hb)] at e
    exact ⟨sound, handed, attached.table, bus.trans hb, n, e⟩
  · -- the API's bus is the head of the open ones, so closing it leaves the rest
    obtain ⟨⟨sound, handed, attached⟩, rfl⟩ := hs
    refine Drives.ends (P := Backed got (OnBus h.pub.bus (sessArg h.pub))) ?_ bs h
      ⟨sound, handed, attached, rfl, rfl⟩
    refine Drives.bind (dropControl_native hb true) fun _ =>
      slot_native (c := dbusNativeCloseBus) rfl (fun _ _ h => h.table hb) ?_
    have command (bs : List Int) (p : Public World) (on : OnBus h.pub.bus (sessArg h.pub) bs p) :
      NativeOp.run bs (.close h.pub.bus) =
        dbusNativeCloseBus h.pub.bus >>= fun _ => pure (bs.erase h.pub.bus) := if_pos (on.mem hb)
    have close : Native (Backed got (OnBus h.pub.bus (sessArg h.pub)))
      (dispatch _ fun rc => .closeBus h.pub.bus rc) _ := dispatch_native
      (c := .close h.pub.bus) (f := fun _ bs => bs.erase h.pub.bus) trivial command
      (closeBus_hands h.pub.bus).quiet
    refine Drives.bind close fun rc => Drives.modify (fun _ => rfl) fun bs q hq => ?_
    obtain ⟨⟨sound, handed, bs₀, rfl, on⟩, -⟩ := hq
    obtain ⟨n, e⟩ := on.attached.buses
    refine ⟨sound, handed.trans (List.append_nil got), on.attached.table, rfl, n, ?_⟩
    rw [e, Public.opened, on.bus, if_neg hb]
    exact List.erase_cons_head _ _

theorem Shut.serving {bs : List Int} {p q : Public World} (h : Shut bs p) (table : q.table = none)
    (bus : q.bus = p.bus) (control : q.control = .no) : Serving bs q := by
  have closed : q.bus = 0 := bus.trans h.bus
  obtain ⟨n, e⟩ := h.buses
  refine ⟨⟨fun t ht => ?_, fun hq => absurd closed hq, ⟨n, ?_⟩, fun hc => absurd control hc⟩,
    fun hq => absurd closed hq⟩
  · rw [table] at ht
    cases ht
  · rw [e, Public.opened, if_pos closed]
    rfl

theorem release_native : Native (Backed got Attached) samvadaRelease fun _ => Backed got Serving :=
  Drives.bind closeLiveBus_native fun _ =>
    Drives.bind (setPub_native fun _ _ h => h.serving rfl rfl rfl) fun _ =>
    Drives.pure fun _ _ h => h

theorem releaseWith_native {P : List Int → Public World → Prop}
    (hP : ∀ bs p, P bs p → Attached bs p) (rc : Int) : Native (Backed got P) (releaseWith rc)
    fun _ => Backed got Serving := by
  have release := release_native.mono (fun _ _ (h : Backed got P _ _) => ⟨h.1, h.2.1, hP _ _ h.2.2⟩)
    fun _ _ _ h => h
  exact Drives.bind release fun _ => Drives.pure fun _ _ h => h

/-! ## Init -/

/-- The table is accepted, and no bus is open yet. -/
structure Starting (bs : List Int) (p : Public World) : Prop where
  table : p.table = some nativeTable
  bus : p.bus = 0
  control : p.control = .no
  buses : ∃ n, bs = List.replicate n 0

theorem Starting.attached {bs : List Int} {p : Public World} (h : Starting bs p) :
    Attached bs p := by
  obtain ⟨n, e⟩ := h.buses
  refine ⟨fun t ht => (Option.some.inj (h.table.symm.trans ht)).symm, fun _ => h.table, ⟨n, ?_⟩,
    fun hc => absurd h.control hc⟩
  rw [e, Public.opened, if_pos h.bus]
  rfl

theorem ensure_native {has : Public World → Bool} {put : Public World → Bytes → Public World}
    {P : List Int → Public World → Prop}
    (hput : ∀ bs p c, P bs p → P bs (put p c)) : Native (Backed got P) (ensure has put)
    (fun _ => Backed got P) := by
  refine Drives.gets_bind fun some => Drives.ite (fun _ => Drives.pure fun _ _ h => h.1) fun _ => ?_
  refine Drives.bind (Q := fun _ => Backed got P) (Drives.modifyGet (fun _ => rfl) fun _ _ h => h.1)
    fun c => ?_
  cases c with
  | none => exact Drives.pure fun _ _ h => h
  | some c =>
    exact Drives.bind (setPub_native fun bs p h => hput bs p c h) fun _ =>
      Drives.pure fun _ _ h => h

/-- The same, with a session buffer. -/
def Buffered (bs : List Int) (p : Public World) : Prop := Starting bs p ∧ p.sess.isSome = true

theorem ensureSess_native : Native (Backed got Starting) ensureSess fun ok => Backed got fun bs p =>
    Starting bs p ∧ (ok = true → p.sess.isSome = true) := by
  refine Drives.gets_bind fun has => Drives.ite (fun hhas => Drives.pure fun bs h hs => ?_) fun _ =>
    ?_
  · obtain ⟨⟨sound, handed, starting⟩, rfl⟩ := hs
    exact ⟨sound, handed, starting, fun _ => hhas⟩
  refine Drives.bind (Q := fun _ => Backed got Starting)
    (Drives.modifyGet (fun _ => rfl) fun _ _ h => h.1) fun c => ?_
  cases c with
  | none => exact Drives.pure fun _ _ h => ⟨h.1, h.2.1, h.2.2, fun h => absurd h (by decide)⟩
  | some c =>
    refine Drives.bind (Q := fun _ => Backed got Buffered)
      (setPub_native fun bs p h => ⟨⟨h.table, h.bus, h.control, h.buses⟩, rfl⟩) fun _ =>
      Drives.pure fun _ _ h => ⟨h.1, h.2.1, h.2.2.1, fun _ => h.2.2.2⟩

/-- What opening the bus answers: an errno, or 0 and the bus. -/
def OpenAnswer (r : Int × Option Int) : Prop := (r.1 < 0 ∧ r.2 = none) ∨ ∃ fd, r = (0, some fd)

theorem openSystemBus_answers (old : List Int) : Spec (fun w => w.fr.Good ∧ w.handed = old)
    dbusNativeOpenSystemBus (fun r w => OpenAnswer r ∧ w.handed = old ++ []) fun _ => True := by
  have failed {rc : Int} {P : World → Prop} (neg : rc < 0) :
    Spec P (pure (rc, none) : M (Int × Option Int)) (fun r _ => OpenAnswer r) fun _ => True :=
    Spec.pure fun _ _ => .inl ⟨neg, rfl⟩
  have answer : Spec (fun _ => True) dbusNativeOpenSystemBus (fun r _ => OpenAnswer r) fun _ =>
    True := by
    refine Spec.bind Spec.any fun _ => Spec.bind Spec.any fun _ => Spec.bind Spec.any fun _ =>
      Spec.bind Spec.any fun ok =>
      Spec.ite (fun _ => ?_) fun _ => failed (by decide)
    refine Spec.bind Spec.any fun fd => Spec.ite failed fun _ => Spec.bind Spec.any fun rc =>
      Spec.ite (fun neg => ?_) fun _ =>
      Spec.pure fun _ _ => .inr ⟨fd, rfl⟩
    exact Spec.bind Spec.any fun _ => failed neg
  exact ((openSystemBus_hands.quiet old).and
    (answer.mono (fun _ _ => trivial) (fun _ _ h => h) fun _ h => h)).mono (fun _ h => h)
    (fun _ _ h => ⟨h.2, h.1.2⟩) fun _ h => h

/-- What the session path call answers: an errno, or 0 and a path that fits. -/
def PathAnswer (outLen : Int) (r : Int × Option Bytes) : Prop :=
  (r.1 < 0 ∧ r.2 = none) ∨ ∃ path, r = (0, some (path ++ [0])) ∧ path.length + 1 ≤ outLen ∧
    ObjectPath path

theorem sessionPath_answers (bus pid : Int) {outLen : Int} (h0 : 0 < outLen) (old : List Int) :
    Spec (fun w => w.fr.Good ∧ w.handed = old)
    (dbusNativeGetSessionPath bus pid (some outLen))
    (fun r w => PathAnswer outLen r ∧ w.handed = old ++ []) fun _ => True := by
  intro w hw
  have handed := (sessionPath_hands bus pid (some outLen)).quiet old w hw
  have run := getSessionPath_run bus pid outLen h0 w
  cases e : dbusNativeGetSessionPath bus pid (some outLen) w with
  | waiting w' => trivial
  | done r w' =>
    rw [e] at handed
    rw [e] at run
    refine ⟨?_, handed.2⟩
    obtain failed | ⟨path, answer, fits, hpath, -⟩ := sessionPath_ended hw.1 run.symm
    · exact .inl failed
    · exact .inr ⟨path, answer, fits, hpath⟩

/-- What the path call stored is a session to ask about. -/
theorem stored_ready {path old : Bytes} (h : ObjectPath path) (fits : path.length + 1 ≤ 512) :
    SessionReady ((path ++ [0] ++ old.drop (path ++ [(0 : UInt8)]).length).take
    samvadaSessBuflen) := by
  have len : (path ++ [(0 : UInt8)]).length = path.length + 1 := by
    rw [List.length_append, List.length_singleton]
  have cut : (path ++ [0] ++ old.drop (path ++ [(0 : UInt8)]).length).take samvadaSessBuflen =
      bufferAfter (old.take samvadaSessBuflen) (some (path ++ [0])) := by
    rw [bufferAfter, List.take_append, List.take_of_length_le (len.symm ▸ fits), List.drop_take]
  refine ⟨?_, List.length_take_le _ _⟩
  rw [cut]
  exact (stored_path h _).accepted

/-- A bus just opened: control was never asked for, the session is not known yet. -/
structure JustOpened (b : Int) (bs : List Int) (p : Public World) : Prop where
  table : p.table = some nativeTable
  bus : p.bus = b
  control : p.control = .no
  sess : p.sess.isSome = true
  buses : ∃ n, bs = b :: List.replicate n 0

theorem JustOpened.attached {b : Int} {bs : List Int} {p : Public World} (h : JustOpened b bs p)
    (hb : b ≠ 0) : Attached bs p := by
  obtain ⟨n, e⟩ := h.buses
  refine ⟨fun t ht => (Option.some.inj (h.table.symm.trans ht)).symm, fun _ => h.table, ⟨n, ?_⟩,
    fun hc => absurd h.control hc⟩
  rw [e, Public.opened, h.bus, if_neg hb]
  rfl

/-- Asking for the session path, on the bus just opened. -/
theorem pathCall_native (pid : Int) {room : Int} (hroom : 0 < room)
    (log : Int × Option Bytes → Dispatch) : Native (Backed got (JustOpened b))
    (dispatch (dbusNativeGetSessionPath b pid (some room)) log)
      fun r bs h => Backed got (JustOpened b) bs h ∧ PathAnswer room r := by
  have command (bs : List Int) (p : Public World) (h : JustOpened b bs p) :
    NativeOp.run bs (.on b (.sessionPath pid (some room))) =
      dbusNativeGetSessionPath b pid (some room) >>= fun _ => pure bs := by
    obtain ⟨n, e⟩ := h.buses
    have mem : b ∈ bs := e ▸ List.mem_cons_self
    exact (if_pos mem).trans (map_forget _ _ _)
  have ask : Native (Backed got (JustOpened b)) (dispatch _ log) _ :=
    dispatch_native (c := .on b (.sessionPath pid (some room)))
    (f := fun _ bs => bs) (sessionPath_proper pid hroom) command (sessionPath_answers b pid hroom)
  refine ask.mono (fun _ _ h => h) fun r bs h hq => ?_
  obtain ⟨⟨sound, handed, _, rfl, opening⟩, answer⟩ := hq
  exact ⟨⟨sound, handed.trans (List.append_nil got), opening⟩, answer⟩

theorem initSession_native (hb : b ≠ 0) : Native (Backed got (JustOpened b)) initSession fun _ =>
    Backed got Serving := by
  refine slot_native (c := fun bus pid outLen => dbusNativeGetSessionPath bus pid (some outLen)) rfl
    (fun _ _ h => h.table) ?_
  refine Drives.gets_bind fun bus => ⟨fun bs h hs => ?_⟩
  obtain ⟨stands, rfl⟩ := hs
  rw [stands.2.2.bus]
  refine Drives.ends (P := Backed got (JustOpened b)) ?_ bs h stands
  refine Drives.gets_bind fun pid =>
    (Drives.bind (pathCall_native pid (by decide) _) fun r => Drives.known fun answer => ?_).mono
    (fun _ _ h => h.1) fun _ _ _ h => h
  rcases answer with ⟨neg, none⟩ | ⟨path, rfl, fits, hpath⟩
  · refine Drives.bind (Q := fun _ => Backed got (JustOpened b))
      (setPub_native fun bs p h => ?_) fun _ =>
      Drives.ite (fun _ => releaseWith_native (fun _ _ h => h.attached hb) _) fun h => absurd neg h
    exact ⟨h.table, h.bus, h.control, (Option.isSome_map ..).trans h.sess, h.buses⟩
  · -- the session is stored, and the API is up
    refine Drives.bind (Q := fun _ => Backed got fun bs p => JustOpened b bs p ∧ SessionReady
      (sessArg p)) (setPub_native fun bs p h => ?_) fun _ =>
      Drives.ite (fun h => absurd h (by decide)) fun _ => ?_
    · obtain ⟨old, hold⟩ := Option.isSome_iff_exists.mp h.sess
      refine ⟨⟨h.table, h.bus, h.control, (Option.isSome_map ..).trans h.sess, h.buses⟩, ?_⟩
      have stored :
        sessArg (p.storeSess (some (path ++ [0]))) =
        (path ++ [0] ++ old.drop (path ++ [(0 : UInt8)]).length).take samvadaSessBuflen := by
        rw [sessArg, Public.storeSess, hold]
        rfl
      rw [stored]
      unfold samvadaSessBuflen at fits
      exact stored_ready hpath (by omega)
    · refine slot_native (c := fun bus sess => dbusNativeTakeControl bus (some sess)) rfl
        (fun _ _ h => h.1.table) ?_
      exact Drives.pure fun _ _ h => ⟨h.1, h.2.1, h.2.2.1.attached hb, fun _ => h.2.2.2⟩

theorem initBus_native : Native (Backed got Buffered) initBus fun _ => Backed got Serving := by
  refine Drives.bind (Q := fun _ => Backed got Buffered) (setPub_native fun bs p h => ?_) fun _ =>
    ?_
  · exact ⟨⟨h.1.table, h.1.bus, h.1.control, h.1.buses⟩, (Option.isSome_map ..).trans h.2⟩
  refine slot_native (c := dbusNativeOpenSystemBus) rfl (fun _ _ h => h.1.table) ?_
  have opened : Native (Backed got Buffered) (dispatch dbusNativeOpenSystemBus fun r =>
    .openSystemBus r.1 (r.2.getD 0)) _ := dispatch_native (c := .openBus)
    (f := fun r bs => r.2.toList ++ bs) trivial (fun _ _ _ => rfl) openSystemBus_answers
  refine Drives.bind opened fun r => Drives.known fun answer => ?_
  rcases answer with ⟨neg, none⟩ | ⟨fd, rfl⟩
  · refine Drives.bind (Q := fun _ => Backed got Buffered)
      (Drives.modify (fun _ => rfl) fun bs h hs => ?_) fun _ =>
      Drives.ite (fun _ => releaseWith_native (fun _ _ h => h.1.attached) _) fun h => absurd neg h
    obtain ⟨sound, handed, bs₀, rfl, buffered⟩ := hs
    rw [none] at sound ⊢
    exact ⟨sound, handed.trans (List.append_nil got),
      ⟨buffered.1.table, buffered.1.bus, buffered.1.control, buffered.1.buses⟩, buffered.2⟩
  · -- the bus is open, and not yet the API's
    refine Drives.bind (Q := fun _ bs h => Sound bs h.back ∧ asWords h.back.handed = got ∧ ∃ bs₀,
      bs = fd :: bs₀ ∧ Buffered bs₀ h.pub)
      (Drives.modify (fun _ => rfl) fun bs h hs => ?_) fun _ =>
      Drives.ite (fun h => absurd h (by decide)) fun _ => ?_
    · obtain ⟨sound, handed, bs₀, rfl, buffered⟩ := hs
      exact ⟨sound, handed.trans (List.append_nil got), bs₀, rfl,
        ⟨buffered.1.table, buffered.1.bus, buffered.1.control, buffered.1.buses⟩, buffered.2⟩
    refine Drives.bind (Q := fun _ => Backed got (JustOpened fd))
      (Drives.modify (fun _ => rfl) fun bs h hs => ?_) fun _ =>
      Drives.ite (fun hfd => ?_) fun hfd => initSession_native hfd
    · obtain ⟨sound, handed, bs₀, rfl, buffered⟩ := hs
      obtain ⟨n, e⟩ := buffered.1.buses
      exact ⟨sound, handed, buffered.1.table, rfl, buffered.1.control, buffered.2, n,
        congrArg (fd :: ·) e⟩
    · -- the bus 0 is refused
      refine releaseWith_native (fun bs p h => ?_) _
      obtain ⟨n, e⟩ := h.buses
      have h0 : fd = 0 := hfd
      exact (Starting.mk h.table (h.bus.trans h0) h.control ⟨n + 1, by rw [e, h0]; rfl⟩).attached

theorem nativeInit_native (ready : Bool) : Native (Backed got Serving) (samvadaNativeInit ready)
    fun _ => Backed got Serving := by
  have fail {P : List Int → Public World → Prop} (hP : ∀ bs p, P bs p → Starting bs p) :
      Native (Backed got P) (releaseWith (-12)) fun _ => Backed got Serving :=
      releaseWith_native (fun bs p h => (hP bs p h).attached) _
  refine Drives.ite (fun _ => ?_) fun _ => idle_native fun _ _ h => h
  refine Drives.gets_bind fun table =>
    Drives.ite (fun _ => Drives.pure fun _ _ h => h.1) fun free =>
    Drives.ite (fun h => absurd rfl h.2) fun _ => ?_
  refine Drives.bind (Q := fun _ => Backed got Starting)
    (Drives.modify (fun _ => rfl) fun bs h hs => ?_) fun _ => ?_
  · obtain ⟨⟨sound, handed, attached, -⟩, rfl⟩ := hs
    -- the table is free, so no bus is open
    have closed : h.pub.bus = 0 := by
      by_contra hb
      rw [attached.live hb] at free
      exact free rfl
    obtain ⟨n, e⟩ := attached.buses
    rw [Public.opened, if_pos closed] at e
    refine ⟨sound, handed, rfl, closed, ?_, n, e⟩
    by_contra hc
    exact (attached.control hc).1 closed
  refine Drives.bind ensureSess_native fun ok => Drives.ite (fun hok => ?_) fun _ =>
    fail fun _ _ h => h.1
  have keep {f : Public World → Bool} {g : Public World → Bytes → Public World}
    (table : ∀ p c, (g p c).table = p.table)
      (bus : ∀ p c, (g p c).bus = p.bus) (control : ∀ p c, (g p c).control = p.control)
      (sess : ∀ p c, (g p c).sess = p.sess) :
      Native (Backed got Buffered) (ensure f g) (fun _ => Backed got Buffered) :=
        ensure_native fun bs p c h =>
    ⟨⟨(table p c).trans h.1.table, (bus p c).trans h.1.bus, (control p c).trans h.1.control,
      h.1.buses⟩, (sess p c).symm ▸ h.2⟩
  have buffered := keep (f := fun p => p.outs.isSome)
    (g := fun p c =>
    { p with outs := some (int64 (load64 (block 16 c) 0), int64 (load64 (block 16 c) 8)) })
    (fun _ _ => rfl) (fun _ _ => rfl) (fun _ _ => rfl) fun _ _ => rfl
  refine Drives.bind (buffered.mono (fun _ _ h => ⟨h.1, h.2.1, h.2.2.1, h.2.2.2 hok⟩)
    fun _ _ _ h => h) fun ok =>
    Drives.ite (fun _ => ?_) fun _ => fail fun _ _ h => h.1
  refine Drives.bind (keep (fun _ _ => rfl) (fun _ _ => rfl) (fun _ _ => rfl) fun _ _ => rfl)
    fun ok =>
    Drives.ite (fun _ => initBus_native) fun _ => fail fun _ _ h => h.1

/-! ## Runs -/

theorem consumerClose_native (fd : Int) : Native (Backed got Serving) (consumerClose fd) fun _ =>
    Backed got Serving := by
  have closed : Native (Backed got Serving)
    (Prog.modify fun h : Host World => { h with back := h.back.emit [.returned fd] })
      fun _ => Backed got Serving := by
    refine ⟨fun bs h hs => ?_⟩
    obtain ⟨sound, handed, serving⟩ := hs
    refine .done [.returned fd] (fun c hc => (List.mem_singleton.mp hc).symm ▸ trivial) rfl
      ⟨?_, ?_, serving⟩
    · exact (NativeOp.run_sound (.returned fd) bs) h.back sound
    · show asWords (h.back.emit [.returned fd]).handed = got
      rw [handed_keeps rfl, handed]
  exact Drives.bind closed fun _ => Drives.pure fun _ _ h => h

theorem consumerOp_native (op : ConsumerOp) : Native (Backed got Serving) op.run fun rc =>
    Backed (got ++ op.got rc) Serving := by
  have nothing {x : Api World Int} (hx : Native (Backed got Serving) x fun _ =>
    Backed got Serving) :
      Native (Backed got Serving) x fun _ => Backed (got ++ []) Serving := by
    rwa [List.append_nil]
  cases op with
  | nativeInit ready => exact nothing (nativeInit_native ready)
  | takeDevice major minor => exact takeDevice_native major minor
  | releaseDevice major minor => exact nothing (releaseDevice_native major minor)
  | pumpSignals => exact nothing pumpSignals_native
  | release =>
    exact nothing (release_native.mono (fun _ _ h => ⟨h.1, h.2.1, h.2.2.1⟩) fun _ _ _ h => h)
  | close fd => exact nothing (consumerClose_native fd)

end

theorem runConsumer_native : ∀ (ops : List ConsumerOp) (got : List Int),
    Native (Backed got Serving) (runConsumer ops) fun rcs => Backed (got ++ gotten ops rcs) Serving
  | [], got => Drives.pure fun _ _ h => by
    rwa [gotten, List.zipWith_nil_left, List.flatten_nil, List.append_nil]
  | op :: ops, got => by
    refine Drives.bind (consumerOp_native op) fun rc =>
      Drives.bind (runConsumer_native ops (got ++ op.got rc)) fun rcs =>
      Drives.pure fun _ _ h => ?_
    rwa [gotten, List.zipWith_cons_cons, List.flatten_cons, ← gotten, ← List.append_assoc]

/-! ## What every run keeps -/

/-- A process that has made no call yet. -/
def freshProcess (k : Kernel) (allocs : List (Option Bytes)) (pid : Int) : Host World :=
  { allocs := allocs, pid := pid, back := { k := k } }

theorem fresh_backed (k : Kernel) (allocs : List (Option Bytes)) (pid : Int) :
    Backed [] Serving [] (freshProcess k allocs pid) := by
  have quiet : Holding [] [] { k := k } :=
    ⟨⟨⟨Nat.zero_le _, Nat.zero_le _⟩, by simp⟩, List.nil_prefix, fun _ => After.nil⟩
  refine ⟨⟨quiet, by simp, fun _ => rfl⟩, rfl,
    ⟨?_, fun h => absurd rfl h, ⟨0, rfl⟩, fun h => absurd rfl h⟩, fun h => absurd rfl h⟩
  intro t ht
  cases ht

/-- Native operations are commands. -/
theorem runNative_execs : ∀ (nops : List NativeOp) (buses : List Int), runNative buses nops = execs
    (fun op buses => NativeOp.run buses op) buses nops
  | [], _ => rfl
  | op :: nops, buses =>
    congrArg (op.run buses >>= ·) (funext fun buses' => runNative_execs nops buses')

/-- A run of the consumer, from nothing. -/
theorem fresh_driven (k : Kernel) (allocs : List (Option Bytes)) (pid : Int)
    (ops : List ConsumerOp) :
    Driven Host.back (fun op buses => NativeOp.run buses op) NativeOp.Proper [] { k := k }
    (fun rcs => Backed (gotten ops rcs) Serving)
      (runConsumer ops (freshProcess k allocs pid)) :=
  (runConsumer_native ops []).ends [] (freshProcess k allocs pid) (fresh_backed k allocs pid)

/-- **The API over the native backend is a run of the backend.** Whatever calls a
consumer makes, in any order, what they do to the native backend is a run of its
operations on the one bus the API has open, each with arguments the backend takes
and a request that fits the encoder's buffer. -/
theorem consumer_runs_native (k : Kernel) (allocs : List (Option Bytes)) (pid : Int)
    (ops : List ConsumerOp) : ∃ nops : List NativeOp, (∀ op ∈ nops, op.Proper) ∧
      (∀ rcs h, runConsumer ops (freshProcess k allocs pid) = .done rcs h →
        ∃ n, runNative [] nops { k := k } = .done (h.pub.opened ++ List.replicate n 0) h.back) ∧
      ∀ h, runConsumer ops (freshProcess k allocs pid) = .waiting h →
      runNative [] nops { k := k } = .waiting h.back := by
  have run := fresh_driven k allocs pid ops
  generalize runConsumer ops (freshProcess k allocs pid) = o at run
  cases run with
  | waiting nops proper run =>
    rw [← runNative_execs] at run
    refine ⟨nops, proper, fun rcs h e => ?_, fun h e => ?_⟩
    · cases e
    · cases e
      exact run
  | done nops proper run stands =>
    rw [← runNative_execs] at run
    obtain ⟨n, e⟩ := stands.2.2.1.buses
    refine ⟨nops, proper, fun rcs h e' => ?_, fun h e' => ?_⟩
    · cases e'
      exact ⟨n, e ▸ run⟩
    · cases e'

/-- A descriptor the kernel installs is a C int. -/
def Event.narrow : Event → Prop
  | .socket fd => fd < 2147483648
  | .dupfd _ new => new < 2147483648
  | _ => True

instance : (e : Event) → Decidable e.narrow
  | .socket fd => fd.decLt 2147483648
  | .dupfd _ new => new.decLt 2147483648
  | .clock .. | .poll .. | .send .. | .recv .. | .getfl .. | .statx .. | .connect .. | .setsockopt
      .. | .close .. | .next .. | .received ..
  | .queued .. | .claimed .. | .handed .. | .returned .. | .advanced .. | .answered .. =>
    instDecidableTrue

theorem acquire_narrow {e : Event} {fd : Int} (h : .acquire fd ∈ e.moves) (hn : e.narrow) : 0 ≤ fd ∧
    fd < 2147483648 := by
  have installed {new : Int} (h : .acquire fd ∈ if 0 ≤ new then [Move.acquire new] else [])
    (hn : new < 2147483648) : 0 ≤ fd ∧ fd < 2147483648 := by
    split_ifs at h with h0
    · cases List.mem_singleton.mp h
      exact ⟨h0, hn⟩
    · exact absurd h List.not_mem_nil
  cases e with
  | recv _ _ _ _ _ anc _ =>
    obtain ⟨fd', hfd, e⟩ := List.mem_map.mp h
    obtain ⟨num, -, rfl⟩ := List.mem_map.mp hfd
    cases e
    exact ⟨Int.natCast_nonneg _, Int.ofNat_lt.mpr num.isLt⟩
  | socket new => exact installed h hn
  | dupfd _ new => exact installed h hn
  | close _ => cases List.mem_singleton.mp h
  | handed _ => cases List.mem_singleton.mp h
  | returned _ => cases List.mem_singleton.mp h
  | _ => exact absurd h List.not_mem_nil

/-- C ints are what the API answers. -/
theorem asWords_narrow {fds : List Int} (h : ∀ fd ∈ fds, 0 ≤ fd ∧ fd < 2147483648) :
    asWords fds = fds := by
  have same : fds.map fdWord = fds := by
    refine (List.map_congr_left fun fd hfd => ?_).trans (List.map_id fds)
    obtain ⟨h0, h1⟩ := h fd hfd
    have word : fd % 4294967296 = fd := Int.emod_eq_of_lt h0 (by omega)
    rw [fdWord, word, if_neg (by omega), id_eq]
  rw [asWords, same]
  exact List.filter_eq_self.mpr fun fd hfd => decide_eq_true (h fd hfd).1

/-- **A consumer's descriptors.** Whatever calls a consumer makes and whatever the
kernel answers, at every point of the run the books balance: no descriptor is open
twice, the consumer has, or has closed, just what was handed over, and samvada
closes only what is its own. Where the calls have returned, what was handed over
is what they returned, in order; samvada's own are what is queued and its bus, and
with no bus open it has none. -/
theorem consumer_descriptors (k : Kernel) (allocs : List (Option Bytes)) (pid : Int)
    (ops : List ConsumerOp) (o : Outcome (Host World) (List Int))
    (ho : o = runConsumer ops (freshProcess k allocs pid)) (hl : Lawful o.state.back.trace)
    (hn : ∀ e ∈ o.state.back.trace, e.narrow) :
    (∀ es es', o.state.back.trace = es ++ es' → ∃ b, Books.replay {} (history es) = some b ∧
    (b.held + b.given).Nodup ∧
      b.given + b.returned = (handovers es : Multiset Int) ∧ ∀ fd es'', es' = .close fd :: es'' →
      fd ∈ b.held ∧ fd ∉ b.given) ∧
    ∀ rcs h, o = .done rcs h → handovers h.back.trace = gotten ops rcs ∧
      ∃ b, Books.replay {} (history h.back.trace) = some b ∧
      b.held = (h.back.fr.fdq : Multiset Int) + (h.pub.opened : Multiset Int) ∧
        (h.pub.bus = 0 → b.held = 0) := by
  have run := fresh_driven k allocs pid ops
  rw [← ho] at run
  have seen : ∃ socks, Holding [] socks o.state.back := by
    cases run with
    | done nops proper run stands => exact ⟨_, stands.1.kept⟩
    | waiting nops proper run =>
      have kept := runNative_sound nops [] { k := k } (fresh_backed k allocs pid).1
      rw [runNative_execs, run] at kept
      obtain ⟨socks, hk, -⟩ := kept
      exact ⟨socks, hk⟩
  obtain ⟨socks, hk⟩ := seen
  obtain ⟨b, hb, -⟩ := hk.after hl
  constructor
  · intro es es' he
    rw [he] at hl hb
    rw [history_append] at hb
    obtain ⟨b₁, hb₁, -⟩ := replay_prefix hb
    refine ⟨b₁, hb₁, honest_nodup hl.left.honest hb₁, ?_, ?_⟩
    · calc b₁.given + b₁.returned = given (history es) + 0 := replay_given hb₁
        _ = (handovers es : Multiset Int) := (Multiset.add_zero _).trans (given_history es)
    · rintro fd es'' rfl
      rw [history_cons] at hb
      exact closed_held hb hb₁ hl.left.honest
  · rintro rcs h rfl
    cases run with
    | @done _ _ bs nops proper run stands =>
      obtain ⟨sound, handed, ⟨⟨-, -, ⟨n, hbs⟩, -⟩, -⟩⟩ := stands
      -- a bus is above stdio, so none was opened as 0
      have closed : n = 0 := by
        by_contra hn
        have mem : (0 : Int) ∈ bs := by
          rw [hbs]
          exact List.mem_append_right _ (List.mem_replicate.mpr ⟨hn, rfl⟩)
        exact absurd ((sound.connected 0 mem).2 hl) (by decide)
      rw [closed, List.replicate_zero, List.append_nil] at hbs
      obtain ⟨b', hb', held⟩ := sound.kept.after hl
      refine ⟨?_, b', hb', hbs ▸ held, fun hbus => ?_⟩
      · rw [← handed]
        refine (asWords_narrow fun fd hfd => ?_).symm
        have mem : fd ∈ given (history h.back.trace) := by
          rw [given_history]
          exact hfd
        obtain ⟨e, he, hm⟩ := List.mem_flatMap.mp (given_acquired hb' mem)
        exact acquire_narrow hm (hn e he)
      · have none : bs = [] := by rw [hbs, Public.opened, if_pos hbus]
        rw [held, Frame.queue, sound.empty none, none]
        rfl

/-- The replies of a day's calls: Hello, the session path, control, the device with
one descriptor, control again. -/
def seatReplies : Bytes :=
  let reply (n : Nat) := dbusMarshalFieldU32 (dbusMarshalBegin 2 0 n) dbusMarshalFReplyser n
  let sized (m : Marshal) (sig : Bytes) :=
    dbusMarshalFieldSig m dbusMarshalFSignature sig sig.length
  let path := dbusMarshalBodyStr (dbusMarshalEndFields (sized (reply 2) (lit "o"))) (lit "/s") 2
  let device := dbusMarshalFieldU32 (sized (reply 4) (lit "hb")) dbusMarshalFUnixfds 1
  helloReply.buf ++ (dbusMarshalFinish path).2.buf ++
    (dbusMarshalFinish (dbusMarshalEndFields (reply 3))).2.buf ++
    (dbusMarshalFinish
    (dbusMarshalBodyBool (dbusMarshalBodyU32 (dbusMarshalEndFields device) 0) 0)).2.buf ++
    (dbusMarshalFinish (dbusMarshalEndFields (reply 5))).2.buf

/-- A bus on socket 0, moved to 3; the device's reply brings what `oneDevice`'s does. -/
def oneSeat : Kernel where
  alloc := List.replicate 4 true
  socket := [0]
  fcntl := [3, 2]
  connect := [0]
  statx := [{ mode := 8192, rdevMajor := 226 }]
  clock := List.replicate 24 {}
  send := [48, 128, 156, 140, 144, 128]
  poll := List.replicate 16 1
  recv := [{ ret := 58 }, { ret := 16 }, { ret := 25 }, { ret := 16 }, { ret := 23 }, { ret := 16 },
    { ret := 8 }] ++ oneDevice.recv.drop 3 ++ [{ ret := 16 }, { ret := 8 }]
  inbox := lit "DATA\r\nOK 0123456789abcdef0123456789abcdef\r\nAGREE_UNIX_FD\r\n" ++ seatReplies

/-- Init, a device, release, and the device closed: one was handed over, and nothing is left open.
-/
theorem consumer_descriptors_one_seat :
    let ops : List ConsumerOp := [.nativeInit true, .takeDevice 226 0, .release, .close 7]
    let es :=
      (runConsumer ops (freshProcess oneSeat (List.replicate 3 (some [])) 5)).state.back.trace
    handovers es = [7] ∧ ∃ b, Books.replay {} (history es) = some b ∧ b.held = 0 := by
  intro ops es
  have hl : Lawful es := by decide +kernel
  have hn : ∀ e ∈ es, e.narrow := by decide +kernel
  have hv : (runConsumer ops (freshProcess oneSeat (List.replicate 3 (some [])) 5)).value = some
    [0, 7, 0, 0] := by decide +kernel
  have closed :
    (runConsumer ops (freshProcess oneSeat (List.replicate 3 (some [])) 5)).state.pub.bus = 0 := by
    decide +kernel
  obtain ⟨handed, b, hb, -, none⟩ :=
    (consumer_descriptors oneSeat _ 5 ops _ rfl hl hn).2 _ _ (Outcome.eq_done hv)
  exact ⟨handed, b, hb, none closed⟩

end Samvada
