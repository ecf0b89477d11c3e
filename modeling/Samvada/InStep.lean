import Samvada.Budgets

/- The held-device table and the wire, over any backend and with any of its slots null.
   Replaying what a call dispatched over the table it found gives the table it leaves,
   and what it dispatched was rightful over the table of that moment: control is asked
   for, and given back, over an empty table, no device of the table is asked for again,
   and none is given back but by the consumer's own release. Whatever follows such a
   replay keeps the table a set of keys (`InStep.keyed`). -/
namespace Samvada
open Octets Resumable Resumable.Prog

/-- The table after a dispatch. -/
def Dispatch.entered (l : List Key) : Dispatch → List Key
  | .takeDevice _ major minor rc fd =>
    if 0 ≤ rc ∧ 0 ≤ fd then l ++ [deviceKey (major, minor)] else l
  | .releaseDevice _ major minor _ => samvadaHeldDel l (samvadaHeldFind l major minor)
  | .closeBus _ _ => []
  | _ => l

/-- The table after what was dispatched. -/
def tableAfter (l : List Key) (post : List Dispatch) : List Key := post.foldl Dispatch.entered l

/-- What a call may dispatch over a table. -/
def Rightful {σ : Type} (op : ApiOp σ) (l : List Key) : Dispatch → Prop
  | .takeControl _ _ => l = []
  | .releaseControl _ _ => l = [] ∨ op = .release
  | .takeDevice _ major minor _ _ =>
    InRange (major, minor) ∧ deviceKey (major, minor) ∉ l ∧ l.length < 256
  | .releaseDevice _ major minor _ =>
    InRange (major, minor) ∧ (deviceKey (major, minor) ∈ l → op = .releaseDevice major minor)
  | .closeBus _ _ => l = [] ∨ op = .release
  | _ => True

/-- Replayed over `l`, what was dispatched gives `t`, every dispatch rightful in its turn. -/
inductive InStep {σ : Type} (op : ApiOp σ) (l : List Key) : List Dispatch → List Key → Prop where
  | nil : InStep op l [] l
  | snoc {post : List Dispatch} {t : List Key} {d : Dispatch} (h : InStep op l post t)
      (hd : Rightful op t d) : InStep op l (post ++ [d]) (d.entered t)

section
variable {σ α : Type} {op : ApiOp σ} {l t : List Key} {post : List Dispatch} {d : Dispatch}

theorem tableAfter_concat (l : List Key) (post : List Dispatch) (d : Dispatch) :
    tableAfter l (post ++ [d]) = d.entered (tableAfter l post) := by
  rw [tableAfter, List.foldl_append]
  rfl

namespace InStep

theorem replay (h : InStep op l post t) : tableAfter l post = t := by
  induction h with
  | nil => rfl
  | snoc h hd ih => rw [tableAfter_concat, ih]

/-- Each dispatch, over the table of its moment. -/
theorem rightful (h : InStep op l post t) {before after : List Dispatch}
    (e : post = before ++ d :: after) : Rightful op (tableAfter l before) d := by
  induction h generalizing before after with
  | nil =>
    have none := congrArg List.length e
    rw [List.length_append, List.length_cons, List.length_nil] at none
    omega
  | @snoc post t d' h hd ih =>
    rcases List.eq_nil_or_concat after with rfl | ⟨after', x, rfl⟩
    · obtain ⟨rfl, last⟩ := List.append_inj' e rfl
      rw [h.replay, ← List.singleton_inj.mp last]
      exact hd
    · rw [List.concat_eq_append] at e
      exact ih (List.append_inj' (e.trans (List.append_assoc before (d :: after') [x]).symm) rfl).1

/-- The same table, where the dispatch leaves it. -/
theorem step (h : InStep op l post t) (hd : Rightful op t d) {t' : List Key}
    (e : d.entered t = t') : InStep op l (post ++ [d]) t' := e ▸ h.snoc hd

theorem releaseControl (h : InStep op l post t) (own : t = [] ∨ op = .release) (bus rc : Int) :
    InStep op l (post ++ [.releaseControl bus rc]) t := h.snoc (d := .releaseControl bus rc) own

theorem closeBus (h : InStep op l post t) (own : t = [] ∨ op = .release) (bus rc : Int) :
    InStep op l (post ++ [.closeBus bus rc]) [] := h.snoc (d := .closeBus bus rc) own

end InStep

/-! ## A set of keys -/

/-- The table is an array of the keys of distinct devices in range, no more than 256. -/
def Keyed (l : List Key) : Prop :=
  ∃ s : Finset Device, Slots.Holds deviceKey l s ∧ (∀ d ∈ s, InRange d) ∧ s.card ≤ 256

namespace Keyed

theorem nil : Keyed [] :=
  ⟨∅, .nil, fun e he => absurd he (Finset.notMem_empty e), Nat.zero_le _⟩

theorem nodup (h : Keyed l) : l.Nodup := by
  obtain ⟨s, holds, range, -⟩ := h
  exact holds.nodup fun d hd e he => deviceKey_inj (range d hd) (range e he)

theorem length_le (h : Keyed l) : l.length ≤ 256 := by
  obtain ⟨s, holds, -, room⟩ := h
  exact holds.length ▸ room

theorem of_mem (h : Keyed l) {k : Key} (hk : k ∈ l) : ∃ d, InRange d ∧ deviceKey d = k := by
  obtain ⟨s, holds, range, -⟩ := h
  obtain ⟨d, hd, key⟩ := holds.exists_of_mem hk
  exact ⟨d, range d hd, key⟩

/-- A rightful dispatch keeps it so. -/
theorem entered (h : Keyed l) (hd : Rightful op l d) : Keyed (d.entered l) := by
  obtain ⟨s, holds, range, room⟩ := h
  cases d with
  | openSystemBus rc bus => exact ⟨s, holds, range, room⟩
  | getSessionPath bus pid rc => exact ⟨s, holds, range, room⟩
  | takeControl bus rc => exact ⟨s, holds, range, room⟩
  | releaseControl bus rc => exact ⟨s, holds, range, room⟩
  | pumpSignals bus rc => exact ⟨s, holds, range, room⟩
  | closeBus bus rc => exact nil
  | takeDevice bus major minor rc fd =>
    simp only [Rightful] at hd
    obtain ⟨inRange, new, fits⟩ := hd
    rw [Dispatch.entered]
    split_ifs with granted
    · have unheld : (major, minor) ∉ s := fun member => new (holds.mem member)
      refine ⟨insert (major, minor) s, holds.insert unheld, fun e he => ?_, ?_⟩
      · rcases Finset.mem_insert.mp he with rfl | he
        · exact inRange
        · exact range e he
      · rw [Finset.card_insert_of_notMem unheld, ← holds.length]
        omega
    · exact ⟨s, holds, range, room⟩
  | releaseDevice bus major minor rc =>
    simp only [Rightful] at hd
    have left : Slots.Holds deviceKey (samvadaHeldDel l (samvadaHeldFind l major minor))
        (s.erase (major, minor)) := heldDel_holds (d := (major, minor)) holds range hd.1
    exact ⟨s.erase (major, minor), left, fun e he => range e (Finset.mem_of_mem_erase he),
      Finset.card_erase_le.trans room⟩

end Keyed

theorem InStep.keyed (h : InStep op l post t) (hl : Keyed l) : Keyed t := by
  induction h with
  | nil => exact hl
  | snoc h hd ih => exact ih.entered hd

/-- Taking a device's entry out takes its key out, and nothing else. -/
theorem heldDel_erase (l : List Key) (major minor : Int) :
    (samvadaHeldDel l (samvadaHeldFind l major minor) : Multiset Key) =
      (l : Multiset Key).erase (deviceKey (major, minor)) := by
  cases hf : samvadaHeldFind l major minor with
  | none =>
    have absent : deviceKey (major, minor) ∉ l := by
      intro member
      have differs := List.findIdx?_eq_none_iff.mp hf _ member
      simp [deviceKey] at differs
    rw [Multiset.erase_of_notMem (Multiset.mem_coe.not.mpr absent)]
    rfl
  | some i =>
    obtain ⟨hi, found, -⟩ := List.findIdx?_eq_some_iff_getElem.mp hf
    have key : l[i] = deviceKey (major, minor) := eq_of_beq found
    have gone : (deviceKey (major, minor) ::ₘ (Slots.swapRemove l i : Multiset Key)) = l := by
      rw [← key]
      exact Multiset.coe_eq_coe.mpr (Slots.swapRemove_perm hi)
    rw [heldDel_eq hi, ← gone, Multiset.erase_cons_head]

/-- Of a device that is not there, nothing is taken out. -/
theorem heldDel_absent {major minor : Int} (absent : deviceKey (major, minor) ∉ l) :
    samvadaHeldDel l (samvadaHeldFind l major minor) = l := by
  have none : samvadaHeldFind l major minor = none := by
    refine List.findIdx?_eq_none_iff.mpr fun k hk => ?_
    refine beq_false_of_ne fun same => absent ?_
    rw [deviceKey, ← same]
    exact hk
  rw [none]
  rfl

end

/-! ## What a call does -/

section
variable {σ α : Type} {op : ApiOp σ} {l : List Key} {t : Table σ} {L : List Dispatch}
    {T T' : List Dispatch → Prop} {F G : Public σ → Prop} {d : Device}

/-- The table is `l`, over the backend `t`; while it is not empty, control is held or
may be. -/
structure Stood (l : List Key) (t : Table σ) (p : Public σ) : Prop where
  held : p.held = l
  table : p.table = some t
  control : l ≠ [] → p.control ≠ .no

/-- The API between two calls. -/
structure Standing (p : Public σ) : Prop where
  keyed : Keyed p.held
  control : p.held ≠ [] → p.control ≠ .no
  idle : p.table = none → p.held = [] ∧ p.control = .no

/-- A TakeControl was answered with success. -/
def Granted (post : List Dispatch) : Prop := ∃ bus rc, 0 ≤ rc ∧ .takeControl bus rc ∈ post

/-- The last that was dispatched is a ReleaseControl. -/
def HandsBack (post : List Dispatch) : Prop :=
  ∃ before bus rc, post = before ++ [.releaseControl bus rc]

/-- Giving control back, where nothing is known of the outcome: it is asked for, or there
is nothing to ask, or nobody. -/
theorem dropControl_asks (closing : Bool) (still : ∀ p, F p → p.control = .no → G p)
    (set : ∀ p c, F p → p.control ≠ .no → G { p with control := c })
    (quiet : ∀ p post, F p → T post → p.control = .no ∨ closing = true ∨
      p.table.bind (·.releaseControl) = none → T' post)
    (asked : ∀ post bus rc, T post → T' (post ++ [.releaseControl bus rc])) :
    Spec (Trail L T F) (samvadaDropControl closing : Api σ Int) (fun _ => Trail L T' G)
    fun _ => True := by
  refine Spec.gets_bind fun c => Spec.ite (fun no => Spec.pure fun h ht => ?_) fun held =>
    Spec.ite (fun maybe => ?_) fun _ => ?_
  · obtain ⟨⟨hp, post, hlog, hpost⟩, rfl⟩ := ht
    exact ⟨still _ hp no, post, hlog, quiet _ _ hp hpost (.inl no)⟩
  · refine Spec.bind (Q := fun _ => Trail L T' G) (Spec.modify fun h ht => ?_) fun _ =>
      Spec.pure fun _ h => h
    obtain ⟨⟨hp, post, hlog, hpost⟩, rfl⟩ := ht
    exact ⟨set _ _ hp held, post, hlog, quiet _ _ hp hpost (.inr (.inl maybe.1))⟩
  · have call : Spec (Trail L T fun p => F p ∧ p.control ≠ .no) (releaseControlCall : Api σ Int)
        (fun _ => Trail L T' fun p => F p ∧ p.control ≠ .no) fun _ => True := by
      refine Spec.gets_bind fun call => ?_
      cases call with
      | none =>
        refine Spec.pure fun h ht => ?_
        obtain ⟨⟨hp, post, hlog, hpost⟩, null⟩ := ht
        exact ⟨hp, post, hlog, quiet _ _ hp.1 hpost (.inr (.inr null))⟩
      | some call =>
        refine Spec.bind (Q := fun _ => Trail L T fun p => F p ∧ p.control ≠ .no)
          (Spec.gets fun _ h => h.1) fun p => ?_
        exact dispatch_trail fun rc post hp => asked post p.bus rc hp
    have flag (c : Control) (rc : Int) : Spec (Trail L T' fun p => F p ∧ p.control ≠ .no) (do
        setControl c
        pure rc : Api σ Int) (fun _ => Trail L T' G) fun _ => True :=
      Spec.bind (setPub_trail fun p hp => set p c hp.1 hp.2) fun _ => Spec.pure fun _ h => h
    refine (Spec.bind call fun rc => Spec.ite (fun _ => flag _ _) fun _ => flag _ _).pre ?_
    intro h ht
    obtain ⟨⟨hp, trail⟩, rfl⟩ := ht
    exact ⟨⟨hp, held⟩, trail⟩

/-- Over an empty table the flag may be anything. -/
theorem Stood.flagged {p : Public σ} (h : Stood [] t p) (c : Control) :
    Stood [] t { p with control := c } :=
  ⟨h.held, h.table, fun some => absurd rfl some⟩

/-- TakeControl, over an empty table. -/
theorem takeControl_inStep (op : ApiOp σ) : Spec (Trail L (· = []) (Stood [] t))
    (samvadaTakeControl : Api σ Int)
    (fun tc h =>
      (tc < 0 ∧ Trail L (fun post => InStep op [] post [] ∧ ¬ Granted post) (Stood [] t) h) ∨
      (0 ≤ tc ∧ Trail L (InStep op [] · []) (fun p => Stood [] t p ∧ p.control ≠ .no) h))
    fun _ => True := by
  refine Spec.gets_bind fun call => ?_
  cases call with
  | none =>
    refine Spec.pure fun h ht => .inl ⟨by decide, ht.1.mono (fun post e => ?_) fun _ h => h⟩
    rw [e]
    refine ⟨.nil, fun granted => ?_⟩
    obtain ⟨_, _, -, member⟩ := granted
    cases member
  | some call =>
    refine Spec.bind (Q := fun _ => Trail L (· = []) (Stood [] t)) (Spec.gets fun _ h => h.1)
      fun p => ?_
    have ask := dispatch_trail (σ := σ) (L := L) (x := call p.bus (sessArg p))
      (d := fun rc => .takeControl p.bus rc) (F := Stood [] t) (T := (· = []))
      (D := fun rc post => InStep op [] post [] ∧ (rc < 0 → ¬ Granted post)) fun rc post e => by
        rw [e]
        refine ⟨InStep.nil.snoc (d := .takeControl p.bus rc) rfl, fun neg granted => ?_⟩
        obtain ⟨_, _, pos, member⟩ := granted
        cases List.mem_singleton.mp member
        omega
    have refused {rc : Int} (neg : rc < 0) (h : Host σ)
        (ht : Trail L (fun post => InStep op [] post [] ∧ (rc < 0 → ¬ Granted post))
          (Stood [] t) h) :
        Trail L (fun post => InStep op [] post [] ∧ ¬ Granted post) (Stood [] t) h :=
      ht.mono (fun _ hp => ⟨hp.1, hp.2 neg⟩) fun _ h => h
    refine Spec.bind ask fun rc => Spec.ite (fun late => ?_) fun _ =>
      Spec.ite (fun neg => Spec.pure fun h ht => .inl ⟨neg, refused neg h ht⟩) fun pos => ?_
    · refine Spec.bind (setPub_trail (G := Stood [] t) fun p hp => hp.flagged _) fun _ =>
        Spec.pure fun h ht => .inl ⟨by omega, refused (by omega) h ht⟩
    · refine Spec.bind (setPub_trail (G := fun p => Stood [] t p ∧ p.control ≠ .no)
        fun p hp => ⟨hp.flagged _, Control.yes_ne⟩) fun _ =>
        Spec.pure fun h ht => .inr ⟨by decide, ht.mono (fun _ hp => hp.1) fun _ h => h⟩

/-- What a take that failed dispatched: the table is as it was, and control that it was
granted over an empty table goes back, where it can. -/
def Undone (op : ApiOp σ) (l : List Key) (t : Table σ) (post : List Dispatch) : Prop :=
  InStep op l post l ∧ (l = [] → t.releaseControl.isSome → Granted post → HandsBack post)

theorem takeFailed_inStep (range : InRange d) (new : deviceKey d ∉ l) (rc : Int) :
    Spec (Trail L (InStep op l · l) fun p => Stood l t p ∧ p.control ≠ .no)
    (takeFailed d.1 d.2 rc : Api σ Int)
    (fun r h => r = rc ∧ Trail L (Undone op l t) (Stood l t) h) fun _ => True := by
  refine Spec.gets_bind fun p => Spec.ite (fun hnil h ht => ?_) fun some => ?_
  · -- nothing is held: control goes back
    obtain ⟨⟨⟨stood, flag⟩, trail⟩, rfl⟩ := ht
    rw [stood.held] at hnil
    obtain rfl := List.eq_nil_of_length_eq_zero hnil
    have drop : Spec (Trail L (InStep op [] · []) fun p => Stood [] t p ∧ p.control ≠ .no)
        (samvadaDropControl false : Api σ Int) (fun _ => Trail L (Undone op [] t) (Stood [] t))
        fun _ => True := by
      apply dropControl_asks
      · exact fun p hp no => absurd no hp.2
      · exact fun p c hp _ => hp.1.flagged c
      · intro p post hp hpost null
        refine ⟨hpost, fun _ wired _ => ?_⟩
        rcases null with no | closing | null
        · exact absurd no hp.2
        · cases closing
        · rw [hp.1.table, Option.bind_some] at null
          rw [null] at wired
          cases wired
      · intro post bus rc hpost
        exact ⟨hpost.releaseControl (.inl rfl) bus rc, fun _ _ _ => ⟨post, bus, rc, rfl⟩⟩
    exact Spec.bind drop (fun _ => Spec.pure fun _ ht => ⟨rfl, ht⟩) h ⟨⟨stood, flag⟩, trail⟩
  -- others are held, and control stays
  have undone {post : List Dispatch} (hl : l ≠ []) (hp : InStep op l post l) : Undone op l t post :=
    ⟨hp, fun none => absurd none hl⟩
  have start (h : Host σ)
      (ht : Trail L (InStep op l · l) (fun p => Stood l t p ∧ p.control ≠ .no) h ∧ h.pub = p) :
      Trail L (InStep op l · l) (fun p => Stood l t p ∧ l ≠ []) h := by
    obtain ⟨⟨hp, trail⟩, rfl⟩ := ht
    refine ⟨⟨hp.1, fun none => some ?_⟩, trail⟩
    rw [hp.1.held, none, List.length_nil]
  have kept (h : Host σ) (ht : Trail L (InStep op l · l) (fun p => Stood l t p ∧ l ≠ []) h) :
      Trail L (Undone op l t) (Stood l t) h := by
    obtain ⟨⟨stood, hl⟩, post, hlog, hpost⟩ := ht
    exact ⟨stood, post, hlog, undone hl hpost⟩
  refine Spec.pre ?_ start
  refine Spec.ite (fun _ => ?_) fun _ => Spec.ite (fun _ => ?_) fun _ => ?_
  · refine Spec.bind (Q := fun _ => Trail L (Undone op l t) (Stood l t))
      (Spec.modify fun h ht => ?_) fun _ => Spec.pure fun h ht => ⟨rfl, ht⟩
    obtain ⟨stood, trail⟩ := kept h ht
    exact ⟨⟨stood.held, stood.table, fun _ => Control.maybe_ne⟩, trail⟩
  · exact Spec.pure fun h ht => ⟨rfl, kept h ht⟩
  · refine Spec.gets_bind fun call => ?_
    cases call with
    | none => exact Spec.pure fun h ht => ⟨rfl, kept h ht.1⟩
    | some call =>
      -- the device is not in the table, so its release takes nothing out
      have ask := dispatch_trail (σ := σ) (L := L) (x := call p.bus (sessArg p) d.1 d.2)
        (d := fun rc => .releaseDevice p.bus d.1 d.2 rc) (F := fun p => Stood l t p ∧ l ≠ [])
        (T := (InStep op l · l)) (D := fun _ post => InStep op l post l) fun rc post hp => by
          have unheld : Rightful op l (.releaseDevice p.bus d.1 d.2 rc) :=
            ⟨range, fun member => absurd member new⟩
          exact hp.step unheld (heldDel_absent new)
      exact Spec.bind (ask.pre fun _ h => h.1) fun _ => Spec.pure fun h ht => ⟨rfl, kept h ht⟩

/-- A take enters its device, which was not there, or leaves the table. -/
def Entered (op : ApiOp σ) (L : List Dispatch) (l : List Key) (t : Table σ) (d : Device) (rc : Int)
    (h : Host σ) : Prop :=
  (0 ≤ rc ∧ InRange d ∧ deviceKey d ∉ l ∧
    Trail L (InStep op l · (l ++ [deviceKey d])) (Stood (l ++ [deviceKey d]) t) h) ∨
  (rc < 0 ∧ Trail L (Undone op l t) (Stood l t) h)

theorem takeHolding_inStep (range : InRange d) (new : deviceKey d ∉ l) (room : l.length < 256)
    (call : Int → Bytes → Int → Int → Prog σ (Int × Option Int × Option Int)) :
    Spec (Trail L (InStep op l · l) fun p => Stood l t p ∧ p.control ≠ .no)
    (takeHolding call d.1 d.2) (fun rc => Entered op L l t d rc) fun _ => True := by
  have outs (o : Int × Int → Int × Int) {T : List Dispatch → Prop} :
      Spec (Trail L T fun p => Stood l t p ∧ p.control ≠ .no)
      (setPub fun p => { p with outs := p.outs.map o } : Api σ Unit)
      (fun _ => Trail L T fun p => Stood l t p ∧ p.control ≠ .no) fun _ => True :=
    setPub_trail fun p hp => ⟨⟨hp.1.held, hp.1.table, hp.1.control⟩, hp.2⟩
  refine Spec.bind (outs _) fun _ =>
    Spec.bind (Q := fun _ => Trail L (InStep op l · l) fun p => Stood l t p ∧ p.control ≠ .no)
      (Spec.gets fun _ h => h) fun p => ?_
  have ask := dispatch_trail (σ := σ) (L := L) (x := call p.bus (sessArg p) d.1 d.2)
    (F := fun p => Stood l t p ∧ p.control ≠ .no) (T := (InStep op l · l))
    (d := fun r => .takeDevice p.bus d.1 d.2 r.1 (fdWord (r.2.1.getD 0)))
    (D := fun r post => InStep op l post
      (if 0 ≤ r.1 ∧ 0 ≤ fdWord (r.2.1.getD 0) then l ++ [deviceKey d] else l)) fun r post hp => by
      have rightful : Rightful op l (.takeDevice p.bus d.1 d.2 r.1 (fdWord (r.2.1.getD 0))) :=
        ⟨range, new, room⟩
      exact hp.step rightful rfl
  refine Spec.bind ask fun r => Spec.bind (outs _) fun _ => ?_
  -- without a descriptor nothing was entered
  have failed {rc : Int} (neg : rc < 0) (none : ¬ (0 ≤ r.1 ∧ 0 ≤ fdWord (r.2.1.getD 0))) :
      Spec (Trail L (fun post => InStep op l post
        (if 0 ≤ r.1 ∧ 0 ≤ fdWord (r.2.1.getD 0) then l ++ [deviceKey d] else l))
        fun p => Stood l t p ∧ p.control ≠ .no)
      (takeFailed d.1 d.2 rc : Api σ Int) (fun rc => Entered op L l t d rc) fun _ => True := by
    rw [if_neg none]
    refine (takeFailed_inStep range new rc).post fun r h ht => .inr ⟨?_, ht.2⟩
    rw [ht.1]
    exact neg
  refine Spec.ite (fun hrc => Spec.ite (fun hfd => ?_) fun hfd => ?_) fun hrc => ?_
  · refine Spec.bind (Q := fun _ => Trail L (InStep op l · (l ++ [deviceKey d]))
      (Stood (l ++ [deviceKey d]) t)) (Spec.modify fun h ht => ?_) fun _ =>
      Spec.pure fun h ht => .inl ⟨hfd, range, new, ht⟩
    obtain ⟨⟨stood, flag⟩, post, hlog, hpost⟩ := ht
    rw [if_pos ⟨hrc, hfd⟩] at hpost
    have fits : ¬ samvadaHeldCap ≤ h.pub.held.length := by
      rw [stood.held]
      exact Nat.not_le.mpr room
    refine ⟨⟨?_, stood.table, fun _ => flag⟩, post, hlog, hpost⟩
    show (samvadaHeldAdd h.pub.held d.1 d.2).2 = _
    rw [samvadaHeldAdd, if_neg fits, stood.held]
    rfl
  · exact failed (by decide) fun h => hfd h.2
  · exact failed (by omega) fun h => hrc h.1

theorem heldFind_isSome : (samvadaHeldFind l d.1 d.2).isSome = true ↔ deviceKey d ∈ l := by
  rw [samvadaHeldFind, List.findIdx?_isSome, List.any_eq_true]
  simp only [beq_iff_eq, exists_eq_right]
  rfl

theorem takeDevice_inStep : Spec (Trail L (· = []) (Stood l t))
    (samvadaSessionTakeDevice d.1 d.2 : Api σ Int) (fun rc => Entered op L l t d rc) fun _ =>
    True := by
  have idle {post : List Dispatch} (e : post = []) : Undone op l t post := by
    rw [e]
    refine ⟨.nil, fun _ _ granted => ?_⟩
    obtain ⟨_, _, -, member⟩ := granted
    cases member
  refine takeDevice_rule (fun rc h neg ht _ => .inr ⟨neg, ht.mono (fun _ e => idle e) fun _ h => h⟩)
    fun call h ht => ?_
  obtain ⟨ht, taking⟩ := ht
  have stood := ht.1
  have new : deviceKey d ∉ l := by
    intro member
    have found := heldFind_isSome.mpr member
    rw [← stood.held, taking.unheld] at found
    cases found
  have room : l.length < 256 := stood.held ▸ taking.room
  -- control is asked for over an empty table only
  have acquire : Spec (Trail L (· = []) (Stood l t)) (acquireControl : Api σ Int)
      (fun tc h => (tc < 0 ∧ Trail L (Undone op l t) (Stood l t) h) ∨
        (0 ≤ tc ∧ Trail L (InStep op l · l) (fun p => Stood l t p ∧ p.control ≠ .no) h))
      fun _ => True := by
    refine Spec.gets_bind fun held => Spec.ite (fun hnil h ht => ?_) fun some =>
      Spec.pure fun h ht => .inr ⟨Int.le_refl 0, ?_⟩
    · obtain ⟨⟨stood, trail⟩, rfl⟩ := ht
      rw [stood.held] at hnil
      obtain rfl := List.eq_nil_of_length_eq_zero hnil
      refine (takeControl_inStep op).post (fun tc h ht => ?_) h ⟨stood, trail⟩
      rcases ht with ⟨neg, ht⟩ | granted
      · refine .inl ⟨neg, ht.mono (fun _ hp => ⟨hp.1, fun _ _ granted => ?_⟩) fun _ h => h⟩
        exact absurd granted hp.2
      · exact .inr granted
    · obtain ⟨⟨stood, post, hlog, e⟩, rfl⟩ := ht
      have hl : l ≠ [] := by
        intro none
        rw [stood.held, none] at some
        exact some rfl
      exact ⟨⟨stood, stood.control hl⟩, post, hlog, e ▸ .nil⟩
  refine Spec.bind acquire (fun tc => Spec.ite (fun neg => ?_) fun pos => ?_) h ht
  · refine Spec.pure fun h ht => ?_
    rcases ht with ⟨-, ht⟩ | ⟨h0, -⟩
    · exact .inr ⟨neg, ht⟩
    · omega
  · refine (takeHolding_inStep taking.range new room call).pre fun h ht => ?_
    rcases ht with ⟨neg, -⟩ | ⟨-, ht⟩
    · exact absurd neg pos
    · exact ht

/-- The table without a device. -/
def without (l : List Key) (d : Device) : List Key := samvadaHeldDel l (samvadaHeldFind l d.1 d.2)

/-- What a release that asks dispatches: the device's own first. -/
def Released (σ : Type) (l : List Key) (d : Device) (post : List Dispatch) : Prop :=
  (∃ bus rc rest, post = .releaseDevice bus d.1 d.2 rc :: rest) ∧
    InStep (.releaseDevice d.1 d.2 : ApiOp σ) l post (without l d)

/-- Over a table left empty, control goes back. -/
theorem dropWhenEmpty_inStep (l : List Key) :
    Spec (Trail L (Released σ l d) (Stood (without l d) t))
    (dropWhenEmpty : Api σ Unit) (fun _ => Trail L (Released σ l d) (Stood (without l d) t))
    fun _ => True := by
  refine Spec.gets_bind fun held => Spec.ite (fun hnil h ht => ?_) fun _ => Spec.pure fun _ h => h.1
  obtain ⟨⟨stood, trail⟩, rfl⟩ := ht
  have empty : without l d = [] := by
    rw [← stood.held]
    exact List.eq_nil_of_length_eq_zero hnil
  rw [empty] at stood ⊢
  have drop : Spec (Trail L (Released σ l d) (Stood [] t)) (samvadaDropControl false : Api σ Int)
      (fun _ => Trail L (Released σ l d) (Stood [] t)) fun _ => True := by
    apply dropControl_asks
    · exact fun p hp _ => hp
    · exact fun p c hp _ => hp.flagged c
    · exact fun p post _ hpost _ => hpost
    · intro post bus rc hpost
      obtain ⟨⟨bus', rc', rest, rfl⟩, steps⟩ := hpost
      rw [empty] at steps
      exact ⟨⟨bus', rc', rest ++ [.releaseControl bus rc], rfl⟩,
        empty ▸ steps.releaseControl (.inl rfl) bus rc⟩
  have dropped : Spec (Trail L (Released σ l d) (Stood [] t)) (do
      let _ ← samvadaDropControl false
      pure () : Api σ Unit) (fun _ => Trail L (Released σ l d) (Stood [] t)) fun _ => True :=
    Spec.bind drop fun _ => Spec.pure fun _ h => h
  exact dropped h ⟨stood, trail⟩

/-- A release is refused before anything is dispatched, or takes its device's entry out. -/
def TakenOut (L : List Dispatch) (l : List Key) (t : Table σ) (d : Device) (rc : Int)
    (h : Host σ) : Prop :=
  (rc < 0 ∧ Trail L (· = []) (Stood l t) h) ∨
    Trail L (Released σ l d) (Stood (without l d) t) h

theorem releaseDevice_inStep : Spec (Trail L (· = []) (Stood l t))
    (samvadaSessionReleaseDevice d.1 d.2 : Api σ Int) (fun rc => TakenOut L l t d rc) fun _ =>
    True := by
  refine releaseDevice_rule (fun rc h neg ht => .inl ⟨neg, ht⟩) fun call p range => ?_
  have ask := dispatch_trail (σ := σ) (L := L) (x := call p.bus (sessArg p) d.1 d.2)
    (d := fun rc => .releaseDevice p.bus d.1 d.2 rc) (F := Stood l t) (T := (· = []))
    (D := fun rc post => post = [.releaseDevice p.bus d.1 d.2 rc]) fun rc post e => by
      rw [e, List.nil_append]
  refine Spec.bind (ask.pre fun _ h => h.1.1) fun rc => ?_
  -- whatever the answer, the entry goes
  have out : Spec (Trail L (· = [.releaseDevice p.bus d.1 d.2 rc]) (Stood l t))
      (setPub fun p => { p with held := samvadaHeldDel p.held (samvadaHeldFind p.held d.1 d.2) }
        : Api σ Unit)
      (fun _ => Trail L (Released σ l d) (Stood (without l d) t)) fun _ => True := by
    refine Spec.modify fun h ht => ?_
    obtain ⟨stood, post, hlog, rfl⟩ := ht
    have some (left : without l d ≠ []) : l ≠ [] := by
      intro none
      rw [none] at left
      exact left rfl
    have own : Rightful (.releaseDevice d.1 d.2 : ApiOp σ) l (.releaseDevice p.bus d.1 d.2 rc) :=
      ⟨range, fun _ => rfl⟩
    refine ⟨⟨?_, stood.table, fun left => stood.control (some left)⟩, _, hlog,
      ⟨p.bus, rc, [], rfl⟩, InStep.nil.step own rfl⟩
    show samvadaHeldDel h.pub.held (samvadaHeldFind h.pub.held d.1 d.2) = _
    rw [stood.held, without]
  refine Spec.bind out fun _ => Spec.bind (dropWhenEmpty_inStep l) fun _ => ?_
  exact Spec.ite (fun _ => Spec.pure fun h ht => .inr ht) fun _ => Spec.pure fun h ht => .inr ht

theorem pumpSignals_inStep : Spec (Trail L (· = []) (Stood l t)) (samvadaPumpSignals : Api σ Int)
    (fun _ => Trail L (InStep (.pumpSignals : ApiOp σ) l · l) (Stood l t)) fun _ => True := by
  refine callable_rule (f := (·.pumpSignals)) (fun _ => rfl) (fun rc _ _ ht _ => ?_)
    fun call p => ?_
  · exact ht.mono (fun _ e => e ▸ .nil) fun _ h => h
  have ask := dispatch_trail (σ := σ) (L := L) (x := call p.bus)
    (d := fun rc => .pumpSignals p.bus rc) (F := Stood l t) (T := (· = []))
    (D := fun _ => (InStep (.pumpSignals : ApiOp σ) l · l)) fun rc post e => by
      rw [e]
      exact InStep.nil.snoc (d := .pumpSignals p.bus rc) trivial
  exact ask.pre fun _ h => h.1.1

/-! ## Release and init -/

/-- Nothing is held, and control is not. -/
structure Bare (p : Public σ) : Prop where
  held : p.held = []
  control : p.control = .no

theorem Bare.standing {p : Public σ} (h : Bare p) : Standing p :=
  ⟨h.held ▸ Keyed.nil, fun some => absurd h.held some, fun _ => ⟨h.held, h.control⟩⟩

theorem release_bare (asked : ∀ post bus rc, T post → T (post ++ [.releaseControl bus rc]))
    (closed : ∀ post bus rc, T post → T (post ++ [.closeBus bus rc])) :
    Spec (Trail L T F) (samvadaRelease : Api σ Int) (fun _ => Trail L T Bare) fun _ => True := by
  have drop : Spec (Trail L T F) (samvadaDropControl true : Api σ Int)
      (fun _ => Trail L T fun _ => True) fun _ => True :=
    dropControl_asks true (fun _ _ _ => trivial) (fun _ _ _ _ => trivial)
      (fun _ _ _ hpost _ => hpost) asked
  have down : Spec (Trail L T fun _ => True) (setPub fun p => { p with bus := 0 } : Api σ Unit)
      (fun _ => Trail L T fun _ => True) fun _ => True := setPub_trail fun _ _ => trivial
  have close : Spec (Trail L T F) (closeLiveBus : Api σ Unit) (fun _ => Trail L T fun _ => True)
      fun _ => True := by
    refine Spec.gets_bind fun bus => Spec.ite (fun _ => Spec.pure fun h ht => ?_) fun _ => ?_
    · exact ht.1.mono (fun _ h => h) fun _ _ => trivial
    refine Spec.bind (drop.pre fun _ h => h.1) fun _ => Spec.gets_bind fun call => ?_
    cases call with
    | none => exact down.pre fun _ h => h.1
    | some call =>
      have ask := dispatch_trail (σ := σ) (L := L) (x := call bus) (d := fun rc => .closeBus bus rc)
        (F := fun _ => True) (T := T) (D := fun _ => T) fun rc post hp => closed post bus rc hp
      exact Spec.bind (ask.pre fun _ h => h.1) fun _ => down
  exact Spec.bind close fun _ => Spec.bind (setPub_trail fun _ _ => ⟨rfl, rfl⟩) fun _ =>
    Spec.pure fun _ h => h

theorem release_inStep : Spec (Trail L (· = []) F) (samvadaRelease : Api σ Int)
    (fun _ => Trail L (fun post => ∃ left, InStep (.release : ApiOp σ) l post left) Bare) fun _ =>
    True := by
  have released : Spec (Trail L (fun post => ∃ left, InStep (.release : ApiOp σ) l post left) F)
      (samvadaRelease : Api σ Int)
      (fun _ => Trail L (fun post => ∃ left, InStep (.release : ApiOp σ) l post left) Bare) fun _ =>
      True := by
    apply release_bare
    · intro post bus rc hpost
      obtain ⟨left, steps⟩ := hpost
      exact ⟨left, steps.releaseControl (.inr rfl) bus rc⟩
    · intro post bus rc hpost
      obtain ⟨left, steps⟩ := hpost
      exact ⟨[], steps.closeBus (.inr rfl) bus rc⟩
  exact released.pre fun h ht => ht.mono (fun _ e => ⟨l, e ▸ .nil⟩) fun _ h => h

/-- What init dispatches, over an empty table that stays so. -/
abbrev Opens (op : ApiOp σ) (L : List Dispatch) (h : Host σ) : Prop :=
  Trail L (InStep op [] · []) Bare h

theorem releaseWith_opens (op : ApiOp σ) (rc : Int) : Spec (Opens op L)
    (releaseWith rc : Api σ Int) (fun _ => Opens op L) fun _ => True := by
  have released : Spec (Opens op L) (samvadaRelease : Api σ Int) (fun _ => Opens op L) fun _ =>
      True := by
    apply release_bare
    · exact fun post bus rc steps => steps.releaseControl (.inl rfl) bus rc
    · exact fun post bus rc steps => steps.closeBus (.inl rfl) bus rc
  exact Spec.bind released fun _ => Spec.pure fun _ h => h

theorem initSession_opens (op : ApiOp σ) : Spec (Opens op L) (initSession : Api σ Int)
    (fun _ => Opens op L) fun _ => True := by
  refine Spec.gets_bind fun call => ?_
  cases call with
  | none => exact (releaseWith_opens op _).pre fun _ h => h.1
  | some call =>
    refine Spec.bind (Q := fun _ => Opens op L) (Spec.gets fun _ h => h.1) fun bus =>
      Spec.bind (Q := fun _ => Opens op L) (Spec.gets fun _ h => h) fun pid => ?_
    have ask := dispatch_trail (σ := σ) (L := L) (x := call bus pid samvadaSessBuflen)
      (d := fun r => .getSessionPath bus pid r.1) (F := Bare) (T := (InStep op [] · []))
      (D := fun _ => (InStep op [] · [])) fun r post steps =>
        steps.snoc (d := .getSessionPath bus pid r.1) trivial
    refine Spec.bind ask fun r =>
      Spec.bind (setPub_trail (G := Bare) fun _ h => ⟨h.held, h.control⟩) fun _ =>
        Spec.ite (fun _ => releaseWith_opens op _) fun _ => Spec.gets_bind fun slot => ?_
    cases slot with
    | none => exact (releaseWith_opens op _).pre fun _ h => h.1
    | some _ => exact Spec.pure fun _ h => h.1

theorem initBus_opens (op : ApiOp σ) : Spec (Opens op L) (initBus : Api σ Int)
    (fun _ => Opens op L) fun _ => True := by
  refine Spec.bind (setPub_trail (G := Bare) fun _ h => ⟨rfl, h.control⟩) fun _ =>
    Spec.gets_bind fun call => ?_
  cases call with
  | none => exact (releaseWith_opens op _).pre fun _ h => h.1
  | some call =>
    have ask := dispatch_trail (σ := σ) (L := L) (x := call)
      (d := fun r => .openSystemBus r.1 (r.2.getD 0)) (F := Bare) (T := (InStep op [] · []))
      (D := fun _ => (InStep op [] · [])) fun r post steps =>
        steps.snoc (d := .openSystemBus r.1 (r.2.getD 0)) trivial
    refine Spec.bind (ask.pre fun _ h => h.1) fun r =>
      Spec.bind (setPub_trail (G := Bare) fun _ h => ⟨h.held, h.control⟩) fun _ =>
        Spec.ite (fun _ => releaseWith_opens op _) fun _ =>
          Spec.bind (setPub_trail (G := Bare) fun _ h => ⟨h.held, h.control⟩) fun _ =>
            Spec.ite (fun _ => releaseWith_opens op _) fun _ => initSession_opens op

/-- Without a table, init opens over an empty one; with a table it is refused. -/
theorem init_inStep (table : Option (Table σ)) (h : Host σ) (standing : Standing h.pub) (rc : Int)
    (h' : Host σ) (run : samvadaInit table h = .done rc h') :
    rc < 0 ∧ h' = h ∨ h.pub.held = [] ∧ Opens (.init table) h.log h' := by
  have spec : Spec (fun s => s = h) (samvadaInit table)
      (fun rc s => rc < 0 ∧ s = h ∨ h.pub.held = [] ∧ Opens (.init table) h.log s)
      fun _ => True := by
    cases table with
    | none => exact Spec.pure fun _ h => .inl ⟨by decide, h⟩
    | some t =>
      refine Spec.gets_bind fun old => Spec.ite
        (fun _ => Spec.pure fun _ h => .inl ⟨by decide, h.1⟩) fun new =>
        Spec.ite (fun _ => Spec.pure fun _ h => .inl ⟨by decide, h.1⟩) fun _ => ?_
      let op : ApiOp σ := .init (some t)
      have fresh : Spec (fun s => s = h ∧ s.pub.table = old)
          (setPub fun p => { p with table := some t } : Api σ Unit)
          (fun _ s => Opens op h.log s ∧ h.pub.held = []) fun _ => True := by
        refine Spec.modify fun s hs => ?_
        obtain ⟨rfl, hold⟩ := hs
        have idle := standing.idle (hold.trans (Option.not_isSome_iff_eq_none.mp new))
        exact ⟨⟨⟨idle.1, idle.2⟩, [], (List.append_nil _).symm, .nil⟩, idle.1⟩
      have accepted : Spec (Opens op h.log) (initAccepted : Api σ Int)
          (fun _ => Opens op h.log) fun _ => True := by
        have keep {has : Public σ → Bool} {put : Public σ → Bytes → Public σ}
            (hput : ∀ p b, (put p b).held = p.held ∧ (put p b).control = p.control) :
            Spec (Opens op h.log) (ensure has put) (fun _ => Opens op h.log) fun _ => True :=
          ensure_trail fun p b idle =>
            ⟨(hput p b).1.trans idle.held, (hput p b).2.trans idle.control⟩
        refine Spec.bind (keep fun _ _ => ⟨rfl, rfl⟩) fun _ => Spec.ite (fun _ => ?_) fun _ =>
          releaseWith_opens op _
        refine Spec.bind (keep fun _ _ => ⟨rfl, rfl⟩) fun _ => Spec.ite (fun _ => ?_) fun _ =>
          releaseWith_opens op _
        exact Spec.bind (keep fun _ _ => ⟨rfl, rfl⟩) fun _ => Spec.ite
          (fun _ => initBus_opens op) fun _ => releaseWith_opens op _
      exact Spec.bind fresh fun _ => Spec.known fun none =>
        accepted.post fun _ _ opens => .inr ⟨none, opens⟩
  have ended := spec h rfl
  rw [run] at ended
  exact ended

/-! ## Every call -/

/-- What a call does to the table, and what it dispatches. -/
structure CallKept (op : ApiOp σ) (h : Host σ) (rc : Int) (h' : Host σ) (post : List Dispatch) :
    Prop where
  log : h'.log = h.log ++ post
  /-- every dispatch, over the table of its moment -/
  rightful : ∀ before d after, post = before ++ d :: after →
    Rightful op (tableAfter h.pub.held before) d
  /-- the table is what the wire made of it; `samvada_release` forgets it -/
  table : h'.pub.held = tableAfter h.pub.held post ∨ op = .release ∧ h'.pub.held = []
  entered : ∀ d : Device, op = .takeDevice d.1 d.2 → 0 ≤ rc →
    InRange d ∧ deviceKey d ∉ h.pub.held ∧ h'.pub.held = h.pub.held ++ [deviceKey d]
  failed : ∀ d : Device, op = .takeDevice d.1 d.2 → rc < 0 → h'.pub.held = h.pub.held
  /-- a release that is dispatched takes out its own entry -/
  out : ∀ d : Device, op = .releaseDevice d.1 d.2 →
    (rc < 0 ∧ post = [] ∧ h'.pub.held = h.pub.held) ∨
    ((∃ bus rc rest, post = .releaseDevice bus d.1 d.2 rc :: rest) ∧
      (h'.pub.held : Multiset Key) = (h.pub.held : Multiset Key).erase (deviceKey d))
  /-- control granted to a take that fails with nothing held goes back -/
  back : ∀ (d : Device) (t : Table σ), op = .takeDevice d.1 d.2 → rc < 0 → h'.pub.held = [] →
    h.pub.table = some t → t.releaseControl.isSome → Granted post → HandsBack post

/-- A call that does nothing. -/
theorem CallKept.refl (op : ApiOp σ) (h : Host σ) {rc : Int} (neg : rc < 0) :
    CallKept op h rc h [] where
  log := (List.append_nil _).symm
  rightful before d after e := by
    have none := congrArg List.length e
    rw [List.length_append, List.length_cons, List.length_nil] at none
    omega
  table := .inl rfl
  entered _ _ pos := absurd pos (Int.not_le.mpr neg)
  failed _ _ _ := rfl
  out _ _ := .inl ⟨neg, rfl, rfl⟩
  back _ _ _ _ _ _ _ granted := by
    obtain ⟨_, _, -, member⟩ := granted
    cases member

theorem Stood.standing {p : Public σ} (h : Stood l t p) (keyed : Keyed l) : Standing p := by
  refine ⟨h.held ▸ keyed, fun some => h.control (h.held ▸ some), fun none => ?_⟩
  rw [h.table] at none
  cases none

/-- Without a table a call other than init is refused. -/
theorem unset_refused {k : Public σ → Api σ Int} {h : Host σ} (unset : h.pub.table = none) :
    (do let p ← Prog.gets (·.pub)
        if p.table.isNone then pure (-22) else k p : Api σ Int) h = .done (-22) h := by
  rw [Prog.bind_run, Prog.gets_run]
  exact congrFun (if_pos (Option.isNone_iff_eq_none.mpr unset)) h

theorem start_trail {h : Host σ} (standing : Standing h.pub) (table : h.pub.table = some t) :
    Trail h.log (· = []) (Stood h.pub.held t) h :=
  ⟨⟨rfl, table, standing.control⟩, [], (List.append_nil _).symm, rfl⟩

section
variable {h h' : Host σ} {rc : Int}

theorem takeDevice_kept (standing : Standing h.pub)
    (run : samvadaSessionTakeDevice d.1 d.2 h = .done rc h') :
    Standing h'.pub ∧ ∃ post, CallKept (.takeDevice d.1 d.2) h rc h' post := by
  cases table : h.pub.table with
  | none =>
    obtain ⟨rfl, rfl⟩ := Outcome.done.inj ((unset_refused table).symm.trans run)
    exact ⟨standing, [], .refl _ _ (by decide)⟩
  | some t =>
    have same {e : Device} (he : (.takeDevice d.1 d.2 : ApiOp σ) = .takeDevice e.1 e.2) :
        d = e := by
      obtain ⟨major, minor⟩ := ApiOp.takeDevice.inj he
      exact Prod.ext major minor
    rcases takeDevice_inStep.of_done (start_trail standing table) run with
      ⟨pos, range, new, stood, post, hlog, steps⟩ | ⟨neg, stood, post, hlog, steps, back⟩
    · refine ⟨stood.standing (steps.keyed standing.keyed), post, hlog,
        fun _ _ _ e => steps.rightful e, .inl (stood.held.trans steps.replay.symm), ?_, ?_, ?_, ?_⟩
      · intro e he _
        obtain rfl := same he
        exact ⟨range, new, stood.held⟩
      · exact fun _ _ neg => absurd pos (Int.not_le.mpr neg)
      · intro _ he
        cases he
      · exact fun _ _ _ neg => absurd pos (Int.not_le.mpr neg)
    · refine ⟨stood.standing standing.keyed, post, hlog, fun _ _ _ e => steps.rightful e,
        .inl (stood.held.trans steps.replay.symm), ?_, fun _ _ _ => stood.held, ?_, ?_⟩
      · exact fun _ _ pos => absurd pos (Int.not_le.mpr neg)
      · intro _ he
        cases he
      · intro _ t' _ _ none table' wired granted
        obtain rfl := Option.some.inj (table.symm.trans table')
        exact back (stood.held.symm.trans none) wired granted

theorem releaseDevice_kept (standing : Standing h.pub)
    (run : samvadaSessionReleaseDevice d.1 d.2 h = .done rc h') :
    Standing h'.pub ∧ ∃ post, CallKept (.releaseDevice d.1 d.2) h rc h' post := by
  cases table : h.pub.table with
  | none =>
    obtain ⟨rfl, rfl⟩ := Outcome.done.inj ((unset_refused table).symm.trans run)
    exact ⟨standing, [], .refl _ _ (by decide)⟩
  | some t =>
    rcases releaseDevice_inStep.of_done (start_trail standing table) run with
      ⟨neg, stood, post, hlog, rfl⟩ | ⟨stood, post, hlog, ⟨asked, steps⟩⟩
    · refine ⟨stood.standing standing.keyed, [], ?_⟩
      exact { CallKept.refl (.releaseDevice d.1 d.2) h neg with
        log := hlog
        table := .inl stood.held
        failed := fun _ _ _ => stood.held
        entered := fun _ he => by cases he
        out := fun _ _ => .inl ⟨neg, rfl, stood.held⟩
        back := fun _ _ he => by cases he }
    · refine ⟨stood.standing (steps.keyed standing.keyed), post, hlog,
        fun _ _ _ e => steps.rightful e, .inl (stood.held.trans steps.replay.symm), ?_, ?_, ?_, ?_⟩
      · intro _ he
        cases he
      · intro _ he
        cases he
      · intro e he
        obtain ⟨major, minor⟩ := ApiOp.releaseDevice.inj he
        obtain rfl : d = e := Prod.ext major minor
        exact .inr ⟨asked, by rw [stood.held]; exact heldDel_erase h.pub.held d.1 d.2⟩
      · intro _ _ he
        cases he

/-- A call that is about no device. -/
theorem kept_of_steps {post : List Dispatch} {left : List Key} (log : h'.log = h.log ++ post)
    (steps : InStep op h.pub.held post left)
    (table : h'.pub.held = left ∨ op = .release ∧ h'.pub.held = [])
    (noTake : ∀ major minor, op ≠ .takeDevice major minor)
    (noRelease : ∀ major minor, op ≠ .releaseDevice major minor) : CallKept op h rc h' post where
  log := log
  rightful _ _ _ e := steps.rightful e
  table := steps.replay.symm ▸ table
  entered _ he := absurd he (noTake _ _)
  failed _ he := absurd he (noTake _ _)
  out _ he := absurd he (noRelease _ _)
  back _ _ he := absurd he (noTake _ _)

/-- The step lemma: one call, from any state between two. -/
theorem run_kept (standing : Standing h.pub) (run : op.run h = .done rc h') :
    Standing h'.pub ∧ ∃ post, CallKept op h rc h' post := by
  cases op with
  | init table =>
    rcases init_inStep table h standing rc h' run with
      ⟨neg, rfl⟩ | ⟨none, bare, post, hlog, steps⟩
    · exact ⟨standing, [], .refl _ _ neg⟩
    · rw [← none] at steps
      have same : h'.pub.held = h.pub.held := bare.held.trans none.symm
      refine ⟨bare.standing, post, kept_of_steps hlog steps (.inl same) ?_ ?_⟩
      · exact fun _ _ e => by cases e
      · exact fun _ _ e => by cases e
  | takeDevice major minor => exact takeDevice_kept (d := (major, minor)) standing run
  | releaseDevice major minor => exact releaseDevice_kept (d := (major, minor)) standing run
  | pumpSignals =>
    cases table : h.pub.table with
    | none =>
      obtain ⟨rfl, rfl⟩ := Outcome.done.inj ((unset_refused table).symm.trans run)
      exact ⟨standing, [], .refl _ _ (by decide)⟩
    | some t =>
      obtain ⟨stood, post, hlog, steps⟩ :=
        pumpSignals_inStep.of_done (start_trail standing table) run
      refine ⟨stood.standing standing.keyed, post, kept_of_steps hlog steps (.inl stood.held) ?_ ?_⟩
      · exact fun _ _ e => by cases e
      · exact fun _ _ e => by cases e
  | release =>
    have start : Trail h.log (· = []) (fun _ => True) h :=
      ⟨trivial, [], (List.append_nil _).symm, rfl⟩
    obtain ⟨bare, post, hlog, left, steps⟩ := release_inStep.of_done start run
    refine ⟨bare.standing, post, kept_of_steps hlog steps (.inr ⟨rfl, bare.held⟩) ?_ ?_⟩
    · exact fun _ _ e => by cases e
    · exact fun _ _ e => by cases e

end

/-- The run lemma. -/
theorem runApi_standing : ∀ {ops : List (ApiOp σ)}, Spec (fun h : Host σ => Standing h.pub)
    (runApi ops) (fun _ h => Standing h.pub) fun _ => True := by
  intro ops
  induction ops with
  | nil => exact Spec.pure fun _ h => h
  | cons op rest ih =>
    have step : Spec (fun h : Host σ => Standing h.pub) op.run (fun _ h => Standing h.pub) fun _ =>
        True := by
      intro h standing
      cases ended : op.run h with
      | done rc h' => exact (run_kept standing ended).1
      | waiting h' => trivial
    exact Spec.bind step fun _ => Spec.bind ih fun _ => Spec.pure fun _ h => h

/-- **The held-device table and the wire stay in step.** In every state a run of the API
reaches, over backends that answer whatever they like with whatever slots wired: the
table's entries are distinct, no more than 256, each the key of a device in range, and no
two devices have one key; while it is not empty, control is held or may be. And whatever
call is made next, the table it leaves is what the wire made of the one it found: a take
enters its device or leaves the table, a release that is dispatched takes out its own
entry and no other, and over the table of its moment every dispatch is rightful:
ReleaseControl over an empty one, but for `samvada_release`, and ReleaseDevice of an
entry by the consumer's own release only. A take that fails with nothing held gives back
the control it was granted. -/
theorem held_in_step (h₀ : Host σ) (hpub : h₀.pub = {}) (ops : List (ApiOp σ)) {rcs : List Int}
    {h : Host σ} (hrun : runApi ops h₀ = .done rcs h) :
    h.pub.held.Nodup ∧ h.pub.held.length ≤ 256 ∧
    (∀ k ∈ h.pub.held, ∃ d, InRange d ∧ deviceKey d = k) ∧
    (∀ d e, InRange d → InRange e → deviceKey d = deviceKey e → d = e) ∧
    (h.pub.held ≠ [] → h.pub.control = .yes ∨ h.pub.control = .maybe) ∧
    ∀ op rc h', op.run h = .done rc h' → ∃ post, CallKept op h rc h' post := by
  have start : Standing h₀.pub := by
    rw [hpub]
    exact ⟨.nil, fun some => absurd rfl some, fun _ => ⟨rfl, rfl⟩⟩
  have standing := runApi_standing.of_done start hrun
  refine ⟨standing.keyed.nodup, standing.keyed.length_le, fun k => standing.keyed.of_mem,
    fun d e hd he => deviceKey_inj hd he, fun some => ?_, fun op rc h' run => ?_⟩
  · have flag := standing.control some
    cases control : h.pub.control with
    | no => exact absurd control flag
    | yes => exact .inl rfl
    | maybe => exact .inr rfl
  · exact (run_kept standing run).2

end

/-- A seat that grants control and refuses every device. -/
def refusingSeat : Table Unit :=
  { openSeat with
    takeDevice := some fun _ _ _ _ => pure (-13, none, none)
    releaseControl := some fun _ _ => pure 0 }

/-- Of two devices the first is given back, though the backend refuses it, and the second
stays; and a seat that refuses its only device gets its control back. -/
theorem held_in_step_two :
    let h := (runApi [.init (some openSeat), .takeDevice 226 0, .takeDevice 13 64] seated).state
    let r := (runApi [.init (some refusingSeat)] seated).state
    (∃ h', samvadaSessionReleaseDevice 226 0 h = .done (-5) h' ∧
      (h'.pub.held : Multiset Key) =
        (h.pub.held : Multiset Key).erase (deviceKey (226, 0)) ∧
      h'.pub.held = [deviceKey (13, 64)]) ∧
    ∃ h' post, samvadaSessionTakeDevice 226 0 r = .done (-13) h' ∧ h'.log = r.log ++ post ∧
      HandsBack post := by
  intro h r
  constructor
  · let ops : List (ApiOp Unit) := [.init (some openSeat), .takeDevice 226 0, .takeDevice 13 64]
    have ended : (runApi ops seated).value = some [0, 7, 7] := by decide +kernel
    have refused : (samvadaSessionReleaseDevice 226 0 h).value = some (-5) := by decide +kernel
    have left : (samvadaSessionReleaseDevice 226 0 h).state.pub.held = [deviceKey (13, 64)] := by
      decide +kernel
    have before : h.pub.held ≠ [deviceKey (13, 64)] := by decide +kernel
    have release := Outcome.eq_done refused
    obtain ⟨-, -, -, -, -, calls⟩ := held_in_step seated rfl _ (Outcome.eq_done ended)
    obtain ⟨post, kept⟩ := calls (.releaseDevice 226 0) _ _ release
    rcases kept.out (226, 0) rfl with ⟨-, -, same⟩ | ⟨-, out⟩
    · exact absurd (same.symm.trans left) before
    · exact ⟨_, release, out, left⟩
  · have ended : (runApi [.init (some refusingSeat)] seated).value = some [0] := by decide +kernel
    have refused : (samvadaSessionTakeDevice 226 0 r).value = some (-13) := by decide +kernel
    have none : (samvadaSessionTakeDevice 226 0 r).state.pub.held = [] := by decide +kernel
    have log : (samvadaSessionTakeDevice 226 0 r).state.log =
        r.log ++ [.takeControl 5 0, .takeDevice 5 226 0 (-13) 0, .releaseControl 5 0] := by
      decide +kernel
    have take := Outcome.eq_done refused
    obtain ⟨-, -, -, -, -, calls⟩ := held_in_step seated rfl _ (Outcome.eq_done ended)
    obtain ⟨post, kept⟩ := calls (.takeDevice 226 0) _ _ take
    have asked := List.append_cancel_left (kept.log.symm.trans log)
    have granted : Granted post := by
      rw [asked]
      exact ⟨5, 0, Int.le_refl 0, List.mem_cons_self⟩
    exact ⟨_, post, take, kept.log,
      kept.back (226, 0) refusingSeat rfl (by decide) none rfl rfl granted⟩

end Samvada
