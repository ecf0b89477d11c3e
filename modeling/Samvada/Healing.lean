import Samvada.Logind

/- samvada and logind find back to one view. After timeouts, failed releases and
   unplugged devices logind may hold a device samvada's table does not have, or the
   other way round. From every state a run can reach, once logind answers in time,
   taking a device that is not in the table needs two calls at most: the first may
   be refused as taken, and then gives back what logind has of it. -/
namespace Samvada
open Octets Resumable Resumable.Prog

/-! ## Calls answered in time -/

/-- logind answers in time from here on, and has `l` once it has processed everything written. -/
def Peer.Timely (l : Logind) (p : Peer) : Prop := p.turns = [] ∧ p.settled = l

theorem call_timely (l : Logind) (r : Request) : Spec (Peer.Timely l) (Peer.call r)
    (fun rc p => rc = (l.process r).1.rc ∧ Peer.Timely (l.process r).2 p ∧ p.backlog = []) fun _ =>
    False := by
  refine Spec.modifyGet fun p hp => ?_
  obtain ⟨turns, rfl⟩ := hp
  rw [turns]
  exact ⟨rfl, ⟨rfl, rfl⟩, rfl⟩

/-- A TakeDevice call hands a descriptor out with success, and nothing without. -/
theorem takeDevice_timely (l : Logind) (d : Device) : Spec (Peer.Timely l) (Peer.takeDevice d)
    (fun r p => (r.1 = (l.process (.takeDevice d)).1.rc ∧ (r.1 = 0 → 0 ≤ fdWord (r.2.1.getD 0))) ∧
      Peer.Timely (l.process (.takeDevice d)).2 p ∧ p.backlog = []) fun _ => False := by
  refine Spec.bind (call_timely l _) fun rc =>
    Spec.bind (Q := fun fd p => rc = (l.process (.takeDevice d)).1.rc ∧
    Peer.Timely (l.process (.takeDevice d)).2 p ∧ p.backlog = []) (Spec.gets fun _ h => h) fun fd =>
      Spec.pure fun p hp => ?_
  by_cases h0 : rc = 0
  · rw [if_pos h0]
    refine ⟨⟨h0.symm.trans hp.1, fun _ => ?_⟩, hp.2⟩
    have small := fd.isLt
    show 0 ≤ fdWord (fd.val : Int)
    rw [fdWord]
    split_ifs <;> omega
  · rw [if_neg h0]
    exact ⟨⟨hp.1, fun h => absurd h h0⟩, hp.2⟩

/-! ## The API on an open bus -/

/-- The bus is open over `peerTable`, with these keys in the table. -/
structure Seated (hs : List Key) (p : Public Peer) : Prop where
  table : p.table = some peerTable
  bus : p.bus ≠ 0
  held : p.held = hs

section
variable {hs : List Key} {l : Logind} {d : Device}

theorem Seated.of_pub {p q : Public Peer} (h : Seated hs p) (table : q.table = p.table)
    (bus : q.bus = p.bus) (held : q.held = p.held) : Seated hs q :=
    ⟨table.trans h.table, bus ▸ h.bus, held.trans h.held⟩

/-- Control is taken: at logind, and in the flag. -/
theorem takeControl_timely : Spec (fun h => Peer.Timely l h.back ∧ Seated hs h.pub)
    (samvadaTakeControl : Api Peer Int)
    (fun tc h => tc = 0 ∧ (Peer.Timely { l with controller := true } h.back ∧ Seated hs h.pub) ∧
    h.pub.control = .yes) fun _ => False := by
  refine slot_wired (c := fun _ _ => Peer.call .takeControl) rfl (fun h hs => hs.2.table) ?_
  refine Spec.bind (Q := fun _ h => Peer.Timely l h.back ∧ Seated hs h.pub)
    (Spec.gets fun _ h => h) fun p =>
    Spec.bind (dispatch_spec (call_timely l .takeControl)) fun rc => ?_
  intro h hh
  obtain ⟨⟨rfl, timely, -⟩, seated⟩ := hh
  exact ⟨rfl, ⟨timely, seated.of_pub rfl rfl rfl⟩, rfl⟩

/-- Control given back with nothing held: logind forgets everything. -/
theorem dropControl_timely (hc : l.controller = true) :
    Spec (fun h => (Peer.Timely l h.back ∧ Seated hs h.pub) ∧ h.pub.control = .yes)
    (samvadaDropControl false : Api Peer Int)
      (fun _ h => Peer.Timely {} h.back ∧ Seated hs h.pub) fun _ => False := by
  have given : l.process .releaseControl = (.success, {}) := by simp [Logind.process, hc]
  have call : Spec (fun h => Peer.Timely l h.back ∧ Seated hs h.pub)
    (releaseControlCall : Api Peer Int)
      (fun rc h => rc = 0 ∧ Peer.Timely {} h.back ∧ Seated hs h.pub) fun _ => False := by
    refine slot_wired (c := fun _ _ => Peer.call .releaseControl) rfl (fun h hs => hs.2.table) ?_
    refine Spec.bind (Q := fun _ h => Peer.Timely l h.back ∧ Seated hs h.pub)
      (Spec.gets fun _ h => h) fun p => ?_
    refine (dispatch_spec (call_timely l .releaseControl)).mono (fun _ h => h)
      (fun rc h hh => ?_) fun _ h => h
    rw [given] at hh
    exact ⟨hh.1.1, hh.1.2.1, hh.2⟩
  refine Spec.gets_bind fun c => Spec.ite (fun hno h hh => ?_) fun _ =>
    Spec.ite (fun closing => absurd closing.1 (by decide)) fun _ => ?_
  · obtain ⟨⟨-, yes⟩, rfl⟩ := hh
    exact absurd (yes.symm.trans hno) Control.yes_ne
  · refine Spec.bind (call.mono (fun _ h => h.1.1) (fun _ _ h => h) fun _ h => h) fun rc h hh => ?_
    obtain ⟨rfl, timely, seated⟩ := hh
    exact ⟨timely, seated.of_pub rfl rfl rfl⟩

/-- What logind has after a take of `d` it refused as taken, with `hs` in the table: with
nothing held control went back, and everything with it; else only `d` did. -/
def Logind.afterTaken (l : Logind) (hs : List Key) (d : Device) : Logind :=
  if hs = [] then {} else { l with granted := l.granted.filter (· ≠ d) }

theorem takeFailed_timely (hc : l.controller = true) (hg : d ∈ l.granted) :
    Spec (fun h => (Peer.Timely l h.back ∧ Seated hs h.pub) ∧ (hs = [] → h.pub.control = .yes))
    (takeFailed d.1 d.2 (-22))
      (fun rc h => rc = -22 ∧ Peer.Timely (l.afterTaken hs d) h.back ∧ Seated hs h.pub) fun _ =>
      False := by
  have given :
    l.process (.releaseDevice d) = (.success, { l with granted := l.granted.filter (· ≠ d) }) := by
    simp [Logind.process, hc, hg]
  by_cases e : hs = []
  · subst e
    refine Spec.gets_bind fun p => Spec.ite (fun _ => ?_) fun hne h hh => ?_
    · exact Spec.bind ((dropControl_timely hc).mono (fun h hh => ⟨hh.1.1, hh.1.2 rfl⟩)
        (fun _ _ h => h) fun _ h => h) fun _ =>
        Spec.pure fun h hh => ⟨rfl, hh⟩
    · obtain ⟨⟨hh, -⟩, rfl⟩ := hh
      rw [hh.2.held] at hne
      exact absurd rfl hne
  · have left : l.afterTaken hs d = { l with granted := l.granted.filter (· ≠ d) } := if_neg e
    rw [left]
    refine Spec.gets_bind fun p => Spec.ite (fun hnil h hh => ?_) fun _ =>
      Spec.ite (fun h => absurd h (by decide)) fun _ =>
      Spec.ite (fun h => absurd h (by decide)) fun _ => ?_
    · obtain ⟨⟨hh, -⟩, rfl⟩ := hh
      rw [hh.2.held] at hnil
      exact absurd (List.eq_nil_of_length_eq_zero hnil) e
    · refine slot_wired (c := fun _ _ M m => Peer.call (.releaseDevice (M, m))) rfl
        (fun h hh => hh.1.1.2.table) ?_
      have release := dispatch_spec (d := fun rc => .releaseDevice p.bus d.1 d.2 rc)
        (F := Seated hs) (call_timely l (.releaseDevice d))
      refine Spec.bind (release.mono (fun _ h => h.1.1) (fun _ _ h => h) fun _ h => h) fun rc =>
        Spec.pure fun h hh => ⟨rfl, ?_, hh.2⟩
      rw [given] at hh
      exact hh.1.2.1

/-- With control held: the device is granted, or it was and is given back. -/
theorem takeHolding_timely (hc : l.controller = true) (room : hs.length < 256) :
    Spec (fun h => (Peer.Timely l h.back ∧ Seated hs h.pub) ∧ (hs = [] → h.pub.control = .yes))
      (takeHolding (fun _ _ M m => Peer.takeDevice (M, m)) d.1 d.2)
      (fun rc h => if d ∈ l.granted then rc < 0 ∧ Peer.Timely (l.afterTaken hs d) h.back ∧
      Seated hs h.pub
        else 0 ≤ rc ∧
          (Peer.Timely { l with granted := l.granted ++ [d] } h.back ∧ h.back.backlog = []) ∧
          Seated (hs ++ [deviceKey d]) h.pub)
      fun _ => False := by
  let Pub (q : Public Peer) : Prop := Seated hs q ∧ (hs = [] → q.control = .yes)
  refine Spec.bind (Q := fun _ h => Peer.Timely l h.back ∧ Pub h.pub)
    (Spec.modify fun h hh => ⟨hh.1.1, hh.1.2.of_pub rfl rfl rfl, hh.2⟩) fun _ =>
    Spec.bind (Q := fun _ h => Peer.Timely l h.back ∧ Pub h.pub) (Spec.gets fun _ h => h) fun p =>
      Spec.bind (dispatch_spec (takeDevice_timely l d)) fun r => ?_
  by_cases hg : d ∈ l.granted
  · have taken : l.process (.takeDevice d) = (deviceIsTaken, l) := by simp [Logind.process, hc, hg]
    rw [taken]
    simp only [hg, if_true, deviceIsTaken_rc]
    refine Spec.bind
      (Q := fun _ h => ((Peer.Timely l h.back ∧ Seated hs h.pub) ∧ (hs = [] → h.pub.control = .yes))
      ∧ r.1 = -22)
      (Spec.modify fun h hh => ⟨⟨⟨hh.1.2.1, hh.2.1.of_pub rfl rfl rfl⟩, hh.2.2⟩, hh.1.1.1⟩) fun _ =>
      Spec.known fun hr => ?_
    refine Spec.ite (fun h0 => absurd h0 (by omega)) fun _ => ?_
    rw [hr]
    exact (takeFailed_timely hc hg).mono (fun _ h => h) (fun rc h hh => ⟨by omega, hh.2⟩) fun _ h =>
      h
  · have granted : l.process (.takeDevice d) = (.success, { l with granted := l.granted ++ [d] }) :=
      by simp [Logind.process, hc, hg]
    rw [granted]
    simp only [hg, if_false]
    have ok : Reply.success.rc = 0 := rfl
    refine Spec.bind
      (Q := fun _ h =>
      ((Peer.Timely { l with granted := l.granted ++ [d] } h.back ∧ h.back.backlog = []) ∧
      Seated hs h.pub) ∧
        r.1 = 0 ∧ 0 ≤ fdWord (r.2.1.getD 0))
      (Spec.modify fun h hh =>
        ⟨⟨hh.1.2, hh.2.1.of_pub rfl rfl rfl⟩, hh.1.1.1.trans ok, hh.1.1.2 (hh.1.1.1.trans ok)⟩)
        fun _ =>
        Spec.known fun hr => ?_
    refine Spec.ite (fun _ => Spec.ite (fun _ => ?_) fun hfd => absurd hr.2 hfd) fun h0 =>
      absurd h0 (by omega)
    refine Spec.bind
      (Q := fun _ h =>
      (Peer.Timely { l with granted := l.granted ++ [d] } h.back ∧ h.back.backlog = []) ∧
        Seated (hs ++ [deviceKey d]) h.pub) (Spec.modify fun h hh =>
        ⟨hh.1, hh.2.table, hh.2.bus, ?_⟩) fun _ => Spec.pure fun h hh => ⟨hr.2, hh⟩
    have fits : ¬ samvadaHeldCap ≤ h.pub.held.length := by
      rw [hh.2.held]
      exact Nat.not_le.mpr room
    show (samvadaHeldAdd h.pub.held d.1 d.2).2 = _
    rw [samvadaHeldAdd, if_neg fits, hh.2.held]
    rfl

/-- One call: the device is granted, or it was and is given back. -/
theorem takeDevice_call (hd : InRange d) (new : (samvadaHeldFind hs d.1 d.2).isSome = false)
    (room : hs.length < 256) (hc : hs ≠ [] → l.controller = true) :
    Spec (fun h => Peer.Timely l h.back ∧ Seated hs h.pub) (samvadaSessionTakeDevice d.1 d.2)
      (fun rc h => if d ∈ l.granted then rc < 0 ∧ Peer.Timely
      (({ l with controller := true } : Logind).afterTaken hs d) h.back ∧ Seated hs h.pub
        else 0 ≤ rc ∧ (Peer.Timely { controller := true, granted := l.granted ++ [d] } h.back ∧
          h.back.backlog = []) ∧ Seated (hs ++ [deviceKey d]) h.pub) fun _ => False := by
  have holding := @takeHolding_timely hs { l with controller := true } d rfl room
  have acquire : Spec (fun h => Peer.Timely l h.back ∧ Seated hs h.pub)
    (acquireControl : Api Peer Int) (fun tc h => tc = 0 ∧
      (Peer.Timely { l with controller := true } h.back ∧ Seated hs h.pub) ∧
      (hs = [] → h.pub.control = .yes)) fun _ => False := by
    refine Spec.gets_bind fun held => Spec.ite (fun _ => ?_) fun hne => Spec.pure fun h hh => ?_
    · exact takeControl_timely.mono (fun _ h => h.1)
        (fun tc h hh => ⟨hh.1, hh.2.1, fun _ => hh.2.2⟩) fun _ h => h
    · obtain ⟨hh, rfl⟩ := hh
      have some_held : hs ≠ [] := by
        rintro rfl
        rw [hh.2.held] at hne
        exact hne rfl
      have same : ({ l with controller := true } : Logind) = l := by rw [← hc some_held]
      exact ⟨rfl, same.symm ▸ hh, fun e => absurd e some_held⟩
  -- nothing refuses it
  have ready (h : Host Peer) (hh : Peer.Timely l h.back ∧ Seated hs h.pub) :
      Taking d (fun _ _ M m => Peer.takeDevice (M, m)) h := by
    refine ⟨⟨hh.2.bus, ?_⟩, hd, ?_, ?_⟩
    · rw [hh.2.table]
      rfl
    · rw [hh.2.held]
      exact new
    · rw [hh.2.held]
      exact room
  refine takeDevice_rule (fun rc h _ hh refused => absurd (ready h hh) (refused _)) fun call h hh =>
    ?_
  obtain ⟨hh, taking⟩ := hh
  obtain rfl : call = fun _ _ M m => Peer.takeDevice (M, m) :=
    Option.some.inj (taking.wired.slot.symm.trans (ready h hh).wired.slot)
  refine Spec.bind acquire (fun tc => ?_) h hh
  refine Spec.ite (fun neg h hh => ?_) fun _ => holding.pre fun _ h => h.2
  have granted := hh.1
  omega

end

/-! ## Healing -/

theorem process_granted {l : Logind} {r : Request} {e : Device} (hr : r ≠ .releaseControl)
    (he : r ≠ .releaseDevice e) (hg : e ∈ l.granted) : e ∈ (l.process r).2.granted := by
  cases r with
  | takeControl => exact hg
  | releaseControl => exact absurd rfl hr
  | takeDevice d =>
    simp only [Logind.process]
    split_ifs
    · exact hg
    · exact List.mem_append_left _ hg
    · exact hg
  | releaseDevice d =>
    have other : e ≠ d := fun h => he (h ▸ rfl)
    simp only [Logind.process]
    split_ifs
    · exact List.mem_filter.mpr ⟨hg, by simp [other]⟩
    · exact hg
    · exact hg

/-- A device logind grants, and nothing written gives back, stays granted. -/
theorem after_granted {l : Logind} {rs : List Request} {e : Device} (hr : .releaseControl ∉ rs)
    (he : .releaseDevice e ∉ rs) (hg : e ∈ l.granted) : e ∈ (l.after rs).granted := by
  induction rs generalizing l with
  | nil => exact hg
  | cons r rest ih =>
    have first : r ≠ .releaseControl := fun h => hr (h ▸ List.mem_cons_self)
    have second : r ≠ .releaseDevice e := fun h => he (h ▸ List.mem_cons_self)
    exact ih (fun h => hr (List.mem_cons_of_mem _ h)) (fun h => he (List.mem_cons_of_mem _ h))
      (process_granted first second hg)

/-- `d` is in the table and at logind; the devices that were in the table are there
still, and at logind if they were; and logind grants nothing else it would not
have granted after what was written already. -/
structure Healed (d : Device) (h h' : Host Peer) : Prop where
  held : h'.pub.held = h.pub.held ++ [deviceKey d]
  granted : d ∈ h'.back.logind.granted
  others : ∀ e, InRange e → (samvadaHeldFind h.pub.held e.1 e.2).isSome →
    e ∈ h.back.logind.granted → e ∈ h'.back.logind.granted
  only : ∀ e ∈ h'.back.logind.granted, e = d ∨ e ∈ h.back.settled.granted
  current : h'.back.backlog = []

/-- A take that was granted heals, if logind granted nothing more before, and no less of the table.
-/
theorem Healed.of_granted {h h' : Host Peer} {gs : List Device} {d : Device}
    (seated : Seated (h.pub.held ++ [deviceKey d]) h'.pub)
    (settled : h'.back.settled = { controller := true, granted := gs ++ [d] })
    (current : h'.back.backlog = []) (less : ∀ e ∈ gs, e ∈ h.back.settled.granted)
    (others : ∀ e, InRange e → (samvadaHeldFind h.pub.held e.1 e.2).isSome →
    e ∈ h.back.logind.granted → e ∈ gs) : Healed d h h' := by
  have now : h'.back.logind.granted = gs ++ [d] := by
    rw [Peer.settled, current] at settled
    exact congrArg Logind.granted settled
  refine ⟨seated.held, ?_, fun e he hf hg => ?_, fun e hg => ?_, current⟩
  · rw [now]
    exact List.mem_append_right _ List.mem_cons_self
  · rw [now]
    exact List.mem_append_left _ (others e he hf hg)
  · rw [now] at hg
    obtain hg | hg := List.mem_append.mp hg
    · exact .inr (less e hg)
    · exact .inl (List.mem_singleton.mp hg)

theorem afterTaken_granted {l : Logind} {hs : List Key} {d e : Device} :
    e ∈ (l.afterTaken hs d).granted ↔ hs ≠ [] ∧ e ∈ l.granted ∧ e ≠ d := by
  by_cases h : hs = []
  · simp [Logind.afterTaken, h]
  · simp [Logind.afterTaken, h]

/-- **samvada and logind heal.** In every state a run of the API reaches over a model of
logind, whatever logind did meanwhile, late, refusing or dropping devices: once it
answers in time, with the bus open, at most two takes of a device that is not in
the table, the table not full, put it in the table and have logind grant it,
without revoking another device of the table. -/
theorem samvada_heals (h₀ : Host Peer) (hpub : h₀.pub = {}) (hlog : h₀.log = [])
    (ops : List (ApiOp Peer)) (hops : ∀ op ∈ ops, op.native)
    {rcs : List Int} {h : Host Peer} (hrun : runApi ops h₀ = .done rcs h)
    (timely : h.back.turns = []) (bus : h.pub.bus ≠ 0) (d : Device)
    (hd : InRange d) (new : (samvadaHeldFind h.pub.held d.1 d.2).isSome = false)
    (room : h.pub.held.length < 256) : ∃ rc h₁, samvadaSessionTakeDevice d.1 d.2 h = .done rc h₁ ∧
    ((0 ≤ rc ∧ Healed d h h₁) ∨
      (rc < 0 ∧ ∃ rc' h₂, samvadaSessionTakeDevice d.1 d.2 h₁ = .done rc' h₂ ∧ 0 ≤ rc' ∧
      Healed d h h₂)) := by
  obtain ⟨⟨k, s, hs⟩, hs', hk⟩ := (runApi_grounded hops).of_done (start_grounded hpub hlog) hrun
  obtain rfl := hs.held
  obtain rfl := hk.2.2
  obtain ⟨t, ht⟩ := Option.isSome_iff_exists.mp (hs.live bus)
  have seated : Seated h.pub.held h.pub := ⟨(hk.2.1 t ht) ▸ ht, bus, rfl⟩
  have control : h.pub.held ≠ [] → h.back.settled.controller = true :=
    fun hne => (hk.1.holding hne).settled
  -- what is in the table stays granted while logind processes what was written
  have keeps (e : Device) (he : InRange e) (hf : (samvadaHeldFind h.pub.held e.1 e.2).isSome)
    (hg : e ∈ h.back.logind.granted) :
      deviceKey e ∈ h.pub.held ∧ e ∈ h.back.settled.granted := by
    have member := hs.keys.mem ((hs.find_isSome he).mp hf)
    have holding := hk.1.holding (List.ne_nil_of_mem member)
    exact ⟨member, after_granted holding.backlog (fun hr => hk.1.kept _ hr e he member rfl) hg⟩
  obtain ⟨rc, h₁, run, post⟩ := (takeDevice_call hd new room control).total ⟨⟨timely, rfl⟩, seated⟩
  refine ⟨rc, h₁, run, ?_⟩
  by_cases hg : d ∈ h.back.settled.granted
  · rw [if_pos hg] at post
    obtain ⟨neg, timely₁, seated₁⟩ := post
    refine .inr ⟨neg, ?_⟩
    let l : Logind := ({ h.back.settled with controller := true } : Logind).afterTaken h.pub.held d
    have gone : d ∉ l.granted := fun hd => (afterTaken_granted.mp hd).2.2 rfl
    have control₁ : h.pub.held ≠ [] → l.controller = true := by
      intro hne
      show (Logind.afterTaken _ _ _).controller = true
      rw [Logind.afterTaken, if_neg hne]
    obtain ⟨rc', h₂, run', post'⟩ := (takeDevice_call hd new room control₁).total ⟨timely₁, seated₁⟩
    rw [if_neg gone] at post'
    obtain ⟨pos, ⟨⟨-, settled⟩, empty⟩, seated₂⟩ := post'
    refine ⟨rc', h₂, run', pos, .of_granted seated₂ settled empty
      (fun e he => (afterTaken_granted.mp he).2.1) fun e he hf hg => ?_⟩
    obtain ⟨member, there⟩ := keeps e he hf hg
    refine afterTaken_granted.mpr ⟨List.ne_nil_of_mem member, there, ?_⟩
    rintro rfl
    rw [new] at hf
    cases hf
  · rw [if_neg hg] at post
    obtain ⟨pos, ⟨⟨-, settled⟩, empty⟩, seated₁⟩ := post
    exact .inl ⟨pos, .of_granted seated₁ settled empty (fun e he => he) fun e he hf hg =>
      (keeps e he hf hg).2⟩

/-- A healing whose first call was refused took a second. -/
theorem healed_second {x : Api Peer Int} {h : Host Peer} {A B : Host Peer → Prop}
    (refused : (x h).value = some (-22))
    (healed : ∃ rc h₁, x h = .done rc h₁ ∧
    ((0 ≤ rc ∧ A h₁) ∨ (rc < 0 ∧ ∃ rc' h₂, x h₁ = .done rc' h₂ ∧ 0 ≤ rc' ∧ B h₂))) :
    ∃ h₁ rc h₂, x h = .done (-22) h₁ ∧ x h₁ = .done rc h₂ ∧ 0 ≤ rc ∧ B h₂ := by
  obtain ⟨rc, h₁, run, healed⟩ := healed
  obtain rfl : rc = -22 := by
    rw [run] at refused
    exact Option.some.inj refused
  rcases healed with ⟨pos, -⟩ | ⟨-, rc', h₂, run', pos, hb⟩
  · exact absurd pos (by decide)
  · exact ⟨h₁, rc', h₂, run, run', pos, hb⟩

/-- The calls before: one device taken, another's take answered too late. -/
def lateTake : List (ApiOp Peer) := [.init (some peerTable), .takeDevice 13 64, .takeDevice 226 0]

/-- Their host: the late take is still to be processed. -/
def lateHost : Host Peer := (runApi lateTake (besideLogind [{}, {}, { fate := .late 109 }])).state

/-- A take that timed out was granted late: the next is refused as taken and gives
it back, and the one after is granted, the other device untouched. -/
theorem samvada_heals_late : ∃ h₁ rc h₂, samvadaSessionTakeDevice 226 0 lateHost = .done (-22) h₁ ∧
    samvadaSessionTakeDevice 226 0 h₁ = .done rc h₂ ∧ 0 ≤ rc ∧ Healed (226, 0) lateHost h₂ := by
  have native : ∀ op ∈ lateTake, op.native := by
    intro op hop
    simp only [lateTake, List.mem_cons, List.not_mem_nil, or_false] at hop
    obtain rfl | rfl | rfl := hop
    · exact rfl
    · trivial
    · trivial
  have ended : (runApi lateTake (besideLogind [{}, {}, { fate := .late 109 }])).value = some
    [0, 7, -110] := by decide +kernel
  have run : runApi lateTake (besideLogind [{}, {}, { fate := .late 109 }]) = .done [0, 7, -110]
    lateHost := Outcome.eq_done ended
  have refused : (samvadaSessionTakeDevice 226 0 lateHost).value = some (-22) := by decide +kernel
  have timely : lateHost.back.turns = [] := by decide +kernel
  have bus : lateHost.pub.bus ≠ 0 := by decide +kernel
  have held : lateHost.pub.held = [deviceKey (13, 64)] := by decide +kernel
  have new : (samvadaHeldFind [deviceKey (13, 64)] 226 0).isSome = false := by decide +kernel
  have room : lateHost.pub.held.length < 256 := by
    rw [held]
    decide
  have range : InRange (226, 0) := by decide
  rw [← held] at new
  exact healed_second refused (samvada_heals (besideLogind [{}, {}, { fate := .late 109 }]) rfl rfl
    lateTake native run timely bus (226, 0) range new room)

end Samvada
