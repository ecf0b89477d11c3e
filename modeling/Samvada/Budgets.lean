import Samvada.HeldTable

/- What a call of the API waits for, over any backend. An ask that went unanswered has
   used up a budget, so after one a call asks nothing more: it gives control back, if
   nothing is held, or closes the bus. -/
namespace Samvada
open Octets Resumable Resumable.Prog

/-- Did the ask wait for its whole budget? Pumping and closing wait for nothing. -/
def Dispatch.unanswered : Dispatch → Bool
  | .openSystemBus rc _ => rc == -110
  | .getSessionPath _ _ rc => rc == -110
  | .takeControl _ rc => rc == -110
  | .releaseControl _ rc => rc == -110
  | .takeDevice _ _ _ rc _ => rc == -110
  | .releaseDevice _ _ _ rc => rc == -110
  | _ => false

/-- What is dispatched on the way out. -/
def Dispatch.parting : Dispatch → Bool
  | .releaseControl _ _ => true
  | .closeBus _ _ => true
  | _ => false

def unanswered (log : List Dispatch) : List Dispatch := log.filter Dispatch.unanswered

/-- Every ask was answered. -/
def AllAnswered (post : List Dispatch) : Prop := ∀ d ∈ post, d.unanswered = false

/-- What a call that returns `rc` may dispatch: `n` budgets waited out, only partings
after one, and no success where another ask went unanswered. -/
structure Brief (n : Nat) (rc : Int) (post : List Dispatch) : Prop where
  few : (unanswered post).length ≤ n
  last : ∀ before d rest, post = before ++ d :: rest → d.unanswered = true → ∀ e ∈ rest,
    e.parting = true
  told : 0 ≤ rc → ∀ d ∈ post, d.unanswered = true → d.parting = true

section
variable {n m : Nat} {rc : Int} {post : List Dispatch} {d : Dispatch}

theorem AllAnswered.nil : AllAnswered [] := fun _ hd => absurd hd List.not_mem_nil

theorem AllAnswered.snoc (h : AllAnswered post) (hd : d.unanswered = false) :
    AllAnswered (post ++ [d]) := by
  intro e he
  rcases List.mem_append.mp he with he | he
  · exact h e he
  · rw [List.mem_singleton.mp he, hd]

theorem AllAnswered.unanswered (h : AllAnswered post) : unanswered post = [] := by
  refine List.filter_eq_nil_iff.mpr fun e he => ?_
  rw [h e he]
  exact Bool.false_ne_true

theorem AllAnswered.brief (h : AllAnswered post) (n : Nat) (rc : Int) : Brief n rc post where
  few := by
    rw [h.unanswered]
    exact Nat.zero_le n
  last before d rest e hd := by
    have hmem : d ∈ post := e ▸ List.mem_append_right before List.mem_cons_self
    rw [h d hmem] at hd
    cases hd
  told _ d hmem hd := by
    rw [h d hmem] at hd
    cases hd

theorem Brief.mono (h : Brief n rc post) (hn : n ≤ m) : Brief m rc post :=
  ⟨Nat.le_trans h.few hn, h.last, h.told⟩

/-- One more, where nothing before it went unanswered. -/
theorem AllAnswered.ask (h : AllAnswered post) (hd : 0 ≤ rc → d.unanswered = false) :
    Brief 1 rc (post ++ [d]) where
  few := by
    rw [Samvada.unanswered, List.filter_append, ← Samvada.unanswered, h.unanswered, List.nil_append]
    exact List.length_filter_le _ _
  last before e rest he hun := by
    rcases List.eq_nil_or_concat rest with rfl | ⟨rest', x, rfl⟩
    · exact fun x hx => absurd hx List.not_mem_nil
    · -- what went unanswered is the last
      rw [List.concat_eq_append] at he
      have inside : post = before ++ e :: rest' :=
        (List.append_inj' (he.trans (List.append_assoc before (e :: rest') [x]).symm) rfl).1
      have mem : e ∈ post := inside ▸ List.mem_append_right before List.mem_cons_self
      rw [h e mem] at hun
      cases hun
  told h0 e he hun := by
    rw [h.snoc (hd h0) e he] at hun
    cases hun

/-- A parting. -/
theorem Brief.part (h : Brief n rc post) (hd : d.parting = true) :
    Brief (n + 1) rc (post ++ [d]) where
  few := by
    rw [unanswered, List.filter_append, List.length_append]
    exact Nat.add_le_add h.few (List.length_filter_le _ _)
  last before e rest he hun := by
    rcases List.eq_nil_or_concat rest with rfl | ⟨rest', x, rfl⟩
    · exact fun x hx => absurd hx List.not_mem_nil
    · rw [List.concat_eq_append] at he ⊢
      obtain ⟨inside, last⟩ :=
        List.append_inj' (he.trans (List.append_assoc before (e :: rest') [x]).symm) rfl
      intro y hy
      rcases List.mem_append.mp hy with hy | hy
      · exact h.last before e rest' inside hun y hy
      · rw [List.mem_singleton.mp hy, ← List.singleton_inj.mp last, hd]
  told h0 e he hun := by
    rcases List.mem_append.mp he with he | he
    · exact h.told h0 e he hun
    · rw [List.mem_singleton.mp he, hd]

/-- A parting that waits for nothing. -/
theorem Brief.close (h : Brief n rc post) (hp : d.parting = true) (hd : d.unanswered = false) :
    Brief n rc (post ++ [d]) where
  few := by
    have same : unanswered (post ++ [d]) = unanswered post := by
      rw [unanswered, List.filter_append, List.filter_cons_of_neg
        (by rw [hd]; exact Bool.false_ne_true), List.filter_nil, List.append_nil]
      rfl
    rw [same]
    exact h.few
  last := (h.part hp).last
  told := (h.part hp).told

end

section
variable {σ α : Type} {L : List Dispatch} {T : List Dispatch → Prop} {F G : Public σ → Prop}
    {n : Nat} {rc : Int} {l : List Key}

/-- What was dispatched since `L`, and the API's state. -/
def Trail (L : List Dispatch) (T : List Dispatch → Prop) (F : Public σ → Prop) (h : Host σ) :
    Prop := F h.pub ∧ ∃ post, h.log = L ++ post ∧ T post

theorem Trail.mono {T' : List Dispatch → Prop} {h : Host σ} (ht : Trail L T F h)
    (hT : ∀ post, T post → T' post) (hF : ∀ p, F p → G p) : Trail L T' G h := by
  obtain ⟨hp, post, hlog, hpost⟩ := ht
  exact ⟨hF _ hp, post, hlog, hT post hpost⟩

theorem dispatch_trail {x : Prog σ α} {d : α → Dispatch} {D : α → List Dispatch → Prop}
    (h : ∀ a post, T post → D a (post ++ [d a])) : Spec (Trail L T F) (dispatch x d)
    (fun a => Trail L (D a) F) fun _ => True := by
  refine (dispatch_logs (P := fun p log => F p ∧ ∃ post, log = L ++ post ∧ T post)).mono
    (fun _ h => h) (fun a s hs => ?_) fun _ h => h
  obtain ⟨log, ⟨hp, post, rfl, hpost⟩, hlog⟩ := hs
  exact ⟨hp, post ++ [d a], hlog.trans (List.append_assoc ..), h a post hpost⟩

theorem setPub_trail {f : Public σ → Public σ} (h : ∀ p, F p → G (f p)) :
    Spec (Trail L T F) (setPub f) (fun _ => Trail L T G) fun _ => True :=
  Spec.modify fun _ hs => ⟨h _ hs.1, hs.2⟩

/-! ## Control -/

/-- TakeControl: an errno, it may be after a budget, or answered. -/
theorem takeControl_trail : Spec (Trail L AllAnswered (·.held = l)) (samvadaTakeControl : Api σ Int)
    (fun tc h => (tc < 0 ∧ Trail L (Brief 1 tc) (·.held = l) h) ∨
    (0 ≤ tc ∧ Trail L AllAnswered (·.held = l) h)) fun _ => True := by
  refine Spec.gets_bind fun call => ?_
  cases call with
  | none =>
    -- the table has no slot for it
    exact Spec.pure fun h ht => .inl ⟨by decide, ht.1.mono (fun _ hp => hp.brief _ _) fun _ h => h⟩
  | some call =>
    refine Spec.bind (Q := fun _ => Trail L AllAnswered (·.held = l))
      (Spec.gets fun _ h => h.1) fun p => ?_
    refine Spec.bind
      (dispatch_trail (D := fun rc post => Brief 1 rc post ∧ (rc ≠ -110 → AllAnswered post))
      fun rc post hp => ?_) fun rc => ?_
    · have seen (h : rc ≠ -110) : (Dispatch.takeControl p.bus rc).unanswered = false :=
        beq_false_of_ne h
      exact ⟨hp.ask fun h0 => seen (by omega), fun h => hp.snoc (seen h)⟩
    refine Spec.ite (fun hrc => ?_) fun hrc => Spec.ite (fun neg => ?_) fun pos => ?_
    · refine Spec.bind (setPub_trail (G := (·.held = l)) fun _ h => h) fun _ =>
        Spec.pure fun _ ht => .inl ⟨by omega, ?_⟩
      exact ht.mono (fun _ hp => hp.1) fun _ h => h
    · exact Spec.pure fun _ ht => .inl ⟨neg, ht.mono (fun _ hp => hp.1) fun _ h => h⟩
    · refine Spec.bind (setPub_trail (G := (·.held = l)) fun _ h => h) fun _ =>
        Spec.pure fun _ ht => .inr ⟨by decide, ?_⟩
      exact ht.mono (fun _ hp => hp.2 hrc) fun _ h => h

/-- The budgets giving control back can take. -/
def owed (closing : Bool) (c : Control) : Nat := if c = .no ∨ closing = true ∧ c = .maybe then 0
else 1

theorem dropControl_trail (closing : Bool) (c : Control)
    (hF : ∀ p c, F p → F { p with control := c }) :
    Spec (Trail L (Brief n rc) fun p => F p ∧ p.control = c)
    (samvadaDropControl closing : Api σ Int)
      (fun _ => Trail L (Brief (n + owed closing c) rc) F) fun _ => True := by
  refine Spec.gets_bind fun c' => Spec.ite (fun no => Spec.pure fun h ht => ?_) fun held =>
    Spec.ite (fun maybe => ?_) fun asked => ?_
  · exact ht.1.mono (fun _ hp => hp.mono (Nat.le_add_right n _)) fun _ hp => hp.1
  · -- at the close, control that may be held is left to the bus
    refine Spec.bind (Q := fun _ => Trail L (Brief n rc) F)
      (Spec.modify fun h ht => ⟨hF _ _ ht.1.1.1, ht.1.2⟩) fun _ =>
      Spec.pure fun h ht => ht.mono (fun _ hp => hp.mono (Nat.le_add_right n _)) fun _ hp => hp
  · intro h ht
    obtain ⟨⟨⟨hp, rfl⟩, trail⟩, rfl⟩ := ht
    have one : owed closing h.pub.control = 1 := if_neg fun none => none.elim held asked
    rw [one]
    have set (c : Control) (rc' : Int) : Spec (Trail L (Brief (n + 1) rc) F) (do
        setControl c
        pure rc' : Api σ Int) (fun _ => Trail L (Brief (n + 1) rc) F) fun _ => True :=
      Spec.bind (setPub_trail fun p hp => hF p c hp) fun _ => Spec.pure fun _ ht => ht
    have call : Spec (Trail L (Brief n rc) F) (releaseControlCall : Api σ Int)
      (fun _ => Trail L (Brief (n + 1) rc) F) fun _ => True := by
      refine Spec.gets_bind fun call => ?_
      cases call with
      | none =>
        exact Spec.pure fun _ ht =>
          ht.1.mono (fun _ hp => hp.mono (Nat.le_add_right n 1)) fun _ hp => hp
      | some call =>
        refine Spec.bind (Q := fun _ => Trail L (Brief n rc) F) (Spec.gets fun _ h => h.1) fun p =>
          ?_
        exact dispatch_trail fun _ _ hp => hp.part rfl
    exact Spec.bind call (fun rc' => Spec.ite (fun _ => set _ _) fun _ => set _ _) h ⟨hp, trail⟩

theorem owed_le (closing : Bool) (c : Control) : owed closing c ≤ 1 := by
  unfold owed
  split_ifs <;> decide

/-- The same, whatever the control. -/
theorem dropControl_once (closing : Bool) : Spec (Trail L (Brief n rc) F)
    (samvadaDropControl closing : Api σ Int) (fun _ => Trail L (Brief (n + 1) rc) fun _ => True)
    fun _ => True := by
  intro h ht
  have drop : Spec (Trail L (Brief n rc) _) (samvadaDropControl closing : Api σ Int) _ _ :=
    dropControl_trail (F := fun _ : Public σ => True) closing h.pub.control fun _ _ h => h
  refine (drop.mono (fun _ h => h) (fun _ q hq => ?_) fun _ h => h) h ⟨⟨trivial, rfl⟩, ht.2⟩
  exact hq.mono (fun _ hp => hp.mono (Nat.add_le_add_left (owed_le _ _) n)) fun _ h => h

/-! ## Devices -/

/-- The budgets a take can use up: with nothing held, ReleaseControl's too. -/
def takeBudget (held : List Key) : Nat := if held.length = 0 then 2 else 1

theorem takeBudget_pos (held : List Key) : 1 ≤ takeBudget held := by
  unfold takeBudget
  split_ifs <;> decide

theorem takeFailed_trail (major minor : Int) (neg : rc < 0) :
    Spec (Trail L (fun post => Brief 1 rc post ∧ (rc ≠ -110 → AllAnswered post)) (·.held = l))
    (takeFailed major minor rc : Api σ Int)
      (fun r h => r = rc ∧ Trail L (Brief (takeBudget l) rc) (fun _ => True) h) fun _ => True := by
  have enough {T : List Dispatch → Prop} {F : Public σ → Prop}
    (hT : ∀ post, T post → Brief 1 rc post) (h : Host σ) (ht : Trail L T F h) :
      rc = rc ∧ Trail L (Brief (takeBudget l) rc) (fun _ => True) h :=
    ⟨rfl, ht.mono (fun post hp => (hT post hp).mono (takeBudget_pos l)) fun _ _ => trivial⟩
  refine Spec.gets_bind fun p => Spec.ite (fun hnil => ?_) fun _ =>
    Spec.ite (fun _ => ?_) fun out => Spec.ite (fun _ => ?_) fun _ => ?_
  · -- nothing is held: control goes back
    intro h ht
    obtain ⟨⟨hl, trail⟩, rfl⟩ := ht
    have two : takeBudget l = 1 + 1 := by rw [takeBudget, ← hl, if_pos hnil]
    rw [two]
    refine Spec.bind (dropControl_once false) (fun _ => Spec.pure fun _ ht => ⟨rfl, ht⟩) h
      (Trail.mono (F := (·.held = l)) ⟨hl, trail⟩ ?_ fun _ h => h)
    exact fun _ hp => hp.1
  · -- a timeout: control may be held, and nothing more is asked
    refine Spec.bind
      (Q := fun _ => Trail L (fun post => Brief 1 rc post ∧ (rc ≠ -110 → AllAnswered post))
      (·.held = l))
      (Spec.modify fun _ ht => ⟨ht.1.1, ht.1.2⟩) fun _ => Spec.pure fun h ht =>
      enough (fun _ hp => hp.1) h ht
  · exact Spec.pure fun h ht => enough (fun _ hp => hp.1) h ht.1
  · refine Spec.gets_bind fun call => ?_
    cases call with
    | none => exact Spec.pure fun h ht => enough (fun _ hp => hp.1) h ht.1.1
    | some call =>
      -- the take was answered, so its release is the first that may go unanswered
      have release := dispatch_trail (σ := σ) (L := L) (x := call p.bus (sessArg p) major minor)
        (d := fun rc => .releaseDevice p.bus major minor rc)
        (F := (·.held = l)) (T := AllAnswered) (D := fun _ => Brief 1 rc) fun _ _ hp =>
        hp.ask fun h0 => absurd h0 (Int.not_le.mpr neg)
      refine Spec.bind (release.mono (fun _ ht => ht.1.1.mono (fun _ hp => hp.2 out) fun _ h => h)
        (fun _ _ h => h) fun _ h => h) fun _ =>
        Spec.pure fun h ht => enough (fun _ hp => hp) h ht

theorem takeHolding_trail (call : Int → Bytes → Int → Int → Prog σ (Int × Option Int × Option Int))
    (major minor : Int) :
    Spec (Trail L AllAnswered (·.held = l)) (takeHolding call major minor)
    (fun rc => Trail L (Brief (takeBudget l) rc) fun _ => True) fun _ => True := by
  refine Spec.bind (setPub_trail (G := (·.held = l)) fun _ h => h) fun _ =>
    Spec.bind (Q := fun _ => Trail L AllAnswered (·.held = l)) (Spec.gets fun _ h => h)
    fun p => ?_
  have ask := dispatch_trail (σ := σ) (L := L) (x := call p.bus (sessArg p) major minor)
    (F := (·.held = l)) (T := AllAnswered)
    (d := fun r => .takeDevice p.bus major minor r.1 (fdWord (r.2.1.getD 0)))
    (D := fun r post => (0 ≤ r.1 → AllAnswered post) ∧ (r.1 < 0 → Brief 1 r.1 post) ∧
    (r.1 ≠ -110 → AllAnswered post)) fun r post hp => by
      have seen (h : r.1 ≠ -110) :
        (Dispatch.takeDevice p.bus major minor r.1 (fdWord (r.2.1.getD 0))).unanswered = false :=
        beq_false_of_ne h
      exact ⟨fun h0 => hp.snoc (seen (by omega)), fun _ => hp.ask fun h0 => seen (by omega),
        fun h => hp.snoc (seen h)⟩
  refine Spec.bind ask fun r => Spec.bind (setPub_trail (G := (·.held = l)) fun _ h => h) fun _ =>
    ?_
  have fail {rc : Int} (neg : rc < 0) :
    Spec (Trail L (fun post => Brief 1 rc post ∧ (rc ≠ -110 → AllAnswered post)) (·.held = l))
      (takeFailed major minor rc : Api σ Int) (fun rc => Trail L (Brief (takeBudget l) rc) fun _ =>
      True) fun _ => True :=
    (takeFailed_trail major minor neg).mono (fun _ h => h)
      (fun r h hr => hr.1.symm ▸ hr.2) fun _ h => h
  refine Spec.ite (fun h0 => Spec.ite (fun _ => ?_) fun _ => ?_) fun neg => ?_
  · refine Spec.bind (setPub_trail (G := fun _ => True) fun _ _ => trivial) fun _ =>
      Spec.pure fun h ht => ?_
    exact ht.mono (fun _ hp => (hp.1 h0).brief _ _) fun _ h => h
  · refine (fail (by decide)).mono (fun h ht => ht.mono (fun _ hp => ?_) fun _ h => h)
      (fun _ _ h => h) fun _ h => h
    exact ⟨(hp.1 h0).brief _ _, fun _ => hp.1 h0⟩
  · refine (fail (by omega)).mono (fun h ht => ht.mono (fun _ hp => ?_) fun _ h => h)
      (fun _ _ h => h) fun _ h => h
    exact ⟨hp.2.1 (by omega), hp.2.2⟩

/-- What a call dispatches from a log on. -/
def Spends (L : List Dispatch) (n : Nat) (rc : Int) (h : Host σ) : Prop :=
  Trail L (Brief n rc) (fun _ => True) h

/-- A call that dispatches nothing. -/
theorem Trail.quiet {h : Host σ} (ht : Trail L (· = []) F h) (n : Nat) (rc : Int) :
    Spends L n rc h :=
  ht.mono (fun _ e => e ▸ AllAnswered.nil.brief n rc) fun _ _ => trivial

theorem takeDevice_spends (major minor : Int) : Spec (Trail L (· = []) (·.held = l))
    (samvadaSessionTakeDevice major minor : Api σ Int) (fun rc => Spends L (takeBudget l) rc)
    fun _ => True := by
  refine takeDevice_rule (d := (major, minor)) (fun rc _ _ ht _ => ht.quiet _ rc) fun call => ?_
  have start (h : Host σ) (ht : Trail L (· = []) (·.held = l) h) :
      Trail L AllAnswered (·.held = l) h :=
    ht.mono (fun _ e => e ▸ AllAnswered.nil) fun _ h => h
  -- control is asked for only when nothing is held; its budget may be all there is
  have acquire : Spec (Trail L AllAnswered (·.held = l)) (acquireControl : Api σ Int)
      (fun tc h => (tc < 0 ∧ Trail L (Brief 1 tc) (·.held = l) h) ∨
        (0 ≤ tc ∧ Trail L AllAnswered (·.held = l) h)) fun _ => True := by
    refine Spec.gets_bind fun held => Spec.ite (fun _ => ?_) fun _ => ?_
    · exact takeControl_trail.pre fun _ h => h.1
    · exact Spec.pure fun _ ht => .inr ⟨Int.le_refl 0, ht.1⟩
  refine Spec.bind (acquire.pre fun h ht => start h ht.1) fun tc => ?_
  refine Spec.ite (fun neg => ?_) fun pos => ?_
  · refine Spec.pure fun h ht => ?_
    rcases ht with ⟨-, ht⟩ | ⟨h0, -⟩
    · exact ht.mono (fun _ hp => hp.mono (takeBudget_pos l)) fun _ _ => trivial
    · omega
  · refine (takeHolding_trail call major minor).pre fun h ht => ?_
    rcases ht with ⟨neg, -⟩ | ⟨-, ht⟩
    · exact absurd neg pos
    · exact ht

theorem releaseDevice_spends (major minor : Int) : Spec (Trail L (· = []) (·.held = l))
    (samvadaSessionReleaseDevice major minor : Api σ Int)
    (fun rc => Spends L (takeBudget (samvadaHeldDel l (samvadaHeldFind l major minor))) rc) fun _ =>
    True := by
  refine releaseDevice_rule (d := (major, minor)) (fun rc _ _ ht => ht.quiet _ rc)
    fun call p _ => ?_
  have ask := dispatch_trail (σ := σ) (L := L) (x := call p.bus (sessArg p) major minor)
    (d := fun rc => .releaseDevice p.bus major minor rc)
    (F := (·.held = l)) (T := AllAnswered) (D := fun rc => Brief 1 (if rc < 0 then rc else 0))
    fun rc _ hp => hp.ask fun h0 => by
      have answered : rc ≠ -110 := by
        rintro rfl
        exact absurd h0 (by decide)
      exact beq_false_of_ne answered
  refine Spec.bind
    (ask.mono (fun h ht => ht.1.1.mono (fun _ e => e ▸ AllAnswered.nil) fun _ h => h)
    (fun _ _ h => h) fun _ h => h) fun rc => ?_
  refine Spec.bind
    (setPub_trail (G := (·.held = samvadaHeldDel l (samvadaHeldFind l major minor))) fun p h =>
    by rw [← h]) fun _ => ?_
  -- what is left decides whether control goes back too
  generalize samvadaHeldDel l (samvadaHeldFind l major minor) = l'
  have drop : Spec (Trail L (Brief 1 (if rc < 0 then rc else 0)) (·.held = l'))
    (dropWhenEmpty : Api σ Unit)
      (fun _ => Trail L (Brief (takeBudget l') (if rc < 0 then rc else 0)) fun _ => True) fun _ =>
      True := by
    refine Spec.gets_bind fun held => Spec.ite (fun hnil h ht => ?_) fun _ =>
      Spec.pure fun _ ht => ?_
    · obtain ⟨⟨rfl, trail⟩, rfl⟩ := ht
      have two : takeBudget h.pub.held = 1 + 1 := if_pos hnil
      rw [two]
      have drop : Spec (Trail L (Brief 1 (if rc < 0 then rc else 0)) fun _ => True) (do
          let _ ← samvadaDropControl false
          pure () : Api σ Unit) (fun _ => Trail L (Brief (1 + 1) (if rc < 0 then rc else 0))
            fun _ => True) fun _ => True :=
        Spec.bind (dropControl_once false) fun _ => Spec.pure fun _ ht => ht
      exact drop h ⟨trivial, trail⟩
    · exact ht.1.mono (fun _ hp => hp.mono (takeBudget_pos l')) fun _ _ => trivial
  refine Spec.bind drop fun _ => Spec.ite (fun neg => ?_) fun pos => ?_
  · rw [if_pos neg]
    exact Spec.pure fun _ ht => ht
  · rw [if_neg pos]
    exact Spec.pure fun _ ht => ht

theorem pumpSignals_spends : Spec (Trail L (· = []) F) (samvadaPumpSignals : Api σ Int)
    (fun rc => Spends L 0 rc) fun _ => True := by
  refine callable_rule (f := (·.pumpSignals)) (fun _ => rfl) (fun rc _ _ ht _ => ht.quiet _ rc)
    fun call p => ?_
  have ask := dispatch_trail (σ := σ) (L := L) (x := call p.bus)
    (d := fun rc => .pumpSignals p.bus rc) (F := F) (T := (· = [])) (D := fun rc => Brief 0 rc)
    fun rc post e => by
      rw [e]
      exact (AllAnswered.nil.snoc rfl).brief 0 rc
  exact ask.mono (fun _ h => h.1.1) (fun _ _ h => h.mono (fun _ h => h) fun _ _ => trivial)
    fun _ h => h

/-! ## Release and init -/

theorem closeLiveBus_trail (c : Control) : Spec (Trail L (Brief n rc) (·.control = c))
    (closeLiveBus : Api σ Unit) (fun _ => Trail L (Brief (n + owed true c) rc) fun _ => True)
    fun _ => True := by
  refine Spec.gets_bind fun bus => Spec.ite (fun _ => Spec.pure fun _ ht => ?_) fun _ => ?_
  · exact ht.1.mono (fun _ hp => hp.mono (Nat.le_add_right n _)) fun _ _ => trivial
  · have drop : Spec (Trail L (Brief n rc) _) (samvadaDropControl true : Api σ Int) _ _ :=
      dropControl_trail (F := fun _ => True) true c fun _ _ h => h
    refine Spec.bind (drop.mono (fun _ ht => ht.1.mono (fun _ h => h) fun _ h => ⟨trivial, h⟩)
      (fun _ _ h => h) fun _ h => h) fun _ =>
      Spec.gets_bind fun call => ?_
    cases call with
    | none =>
      exact (setPub_trail (F := fun _ => True) fun _ h => h).mono (fun _ h => h.1)
        (fun _ _ h => h) fun _ h => h
    | some call =>
      refine Spec.bind ((dispatch_trail fun _ _ hp => hp.close rfl rfl).mono (fun _ h => h.1)
        (fun _ _ h => h) fun _ h => h) fun _ => ?_
      exact setPub_trail fun _ h => h

theorem release_spends (c : Control) : Spec (Trail L (Brief n rc) (·.control = c))
    (samvadaRelease : Api σ Int) (fun r h => r = 0 ∧ Spends L (n + owed true c) rc h) fun _ =>
    True :=
  Spec.bind (closeLiveBus_trail c) fun _ => Spec.bind (setPub_trail fun _ h => h) fun _ =>
    Spec.pure fun _ h => ⟨rfl, h⟩

/-- An init that fails releases what it has. -/
theorem releaseWith_spends (c : Control) (rc : Int) : Spec (Trail L (Brief 1 rc) (·.control = c))
    (releaseWith rc : Api σ Int) (fun rc => Spends L (1 + owed true c) rc) fun _ => True :=
  Spec.bind (release_spends c) fun _ => Spec.pure fun _ h => h.2

theorem ensure_trail {has : Public σ → Bool} {put : Public σ → Bytes → Public σ}
    (hput : ∀ p b, F p → F (put p b)) : Spec (Trail L T F) (ensure has put) (fun _ => Trail L T F)
    fun _ => True := by
  refine Spec.gets_bind fun there => Spec.ite (fun _ => Spec.pure fun _ h => h.1) fun _ => ?_
  refine Spec.bind (Q := fun _ => Trail L T F) (Spec.modifyGet fun _ h => h.1) fun b => ?_
  cases b with
  | none => exact Spec.pure fun _ h => h
  | some b => exact Spec.bind (setPub_trail fun p h => hput p b h) fun _ => Spec.pure fun _ h => h

/-- An ask of init: an errno, it may be after a budget, or answered. -/
def InitAsk (rc : Int) (post : List Dispatch) : Prop :=
  (rc < 0 → Brief 1 rc post) ∧ (0 ≤ rc → AllAnswered post)

theorem AllAnswered.asked {d : Dispatch} {post : List Dispatch} (h : AllAnswered post)
    (hd : rc ≠ -110 → d.unanswered = false) : InitAsk rc (post ++ [d]) :=
  ⟨fun _ => h.ask fun h0 => hd (by omega), fun h0 => h.snoc (hd (by omega))⟩

theorem initSession_spends (c : Control) : Spec (Trail L AllAnswered (·.control = c))
    (initSession : Api σ Int) (fun rc => Spends L (1 + owed true c) rc) fun _ => True := by
  have fail (rc : Int) {F : Public σ → Prop} (hF : ∀ p, F p → p.control = c) :
    Spec (Trail L AllAnswered F) (releaseWith rc : Api σ Int)
      (fun rc => Spends L (1 + owed true c) rc) fun _ => True :=
    (releaseWith_spends c rc).mono (fun _ ht => ht.mono (fun _ hp => hp.brief 1 rc) hF)
      (fun _ _ h => h) fun _ h => h
  refine Spec.gets_bind fun call => ?_
  cases call with
  | none => exact (fail _ fun _ h => h).mono (fun _ h => h.1) (fun _ _ h => h) fun _ h => h
  | some call =>
    refine Spec.bind (Q := fun _ => Trail L AllAnswered (·.control = c))
      (Spec.gets fun _ h => h.1) fun bus =>
      Spec.bind (Q := fun _ => Trail L AllAnswered (·.control = c))
        (Spec.gets fun _ h => h) fun pid => ?_
    have ask := dispatch_trail (σ := σ) (L := L) (x := call bus pid samvadaSessBuflen)
      (d := fun r => .getSessionPath bus pid r.1) (F := (·.control = c))
      (T := AllAnswered) (D := fun r => InitAsk r.1) fun r post hp => hp.asked fun h =>
      beq_false_of_ne h
    refine Spec.bind ask fun r => Spec.bind (setPub_trail (G := (·.control = c)) fun _ h => h)
      fun _ => Spec.ite (fun neg => ?_) fun pos => ?_
    · exact (releaseWith_spends c r.1).mono (fun _ ht => ht.mono (fun _ hp => hp.1 neg) fun _ h =>
        h) (fun _ _ h => h) fun _ h => h
    · have answered (h : Host σ) (ht : Trail L (InitAsk r.1) (·.control = c) h) :
        Trail L AllAnswered (·.control = c) h :=
        ht.mono (fun _ hp => hp.2 (by omega)) fun _ h => h
      refine Spec.gets_bind fun slot => ?_
      cases slot with
      | none =>
        exact (fail _ fun _ h => h).mono (fun h ht => answered h ht.1) (fun _ _ h => h) fun _ h => h
      | some _ =>
        exact Spec.pure fun h ht => (answered h ht.1).mono (fun _ hp => hp.brief _ _) fun _ _ =>
          trivial

theorem initBus_spends (c : Control) : Spec (Trail L AllAnswered (·.control = c))
    (initBus : Api σ Int) (fun rc => Spends L (1 + owed true c) rc) fun _ => True := by
  have fail (rc : Int) : Spec (Trail L AllAnswered (·.control = c)) (releaseWith rc : Api σ Int)
      (fun rc => Spends L (1 + owed true c) rc) fun _ => True :=
    (releaseWith_spends c rc).mono (fun _ ht => ht.mono (fun _ hp => hp.brief 1 rc) fun _ h => h)
      (fun _ _ h => h) fun _ h => h
  refine Spec.bind (setPub_trail (G := (·.control = c)) fun _ h => h) fun _ =>
    Spec.gets_bind fun call => ?_
  cases call with
  | none => exact (fail _).mono (fun _ h => h.1) (fun _ _ h => h) fun _ h => h
  | some call =>
    have ask := dispatch_trail (σ := σ) (L := L) (x := call)
      (d := fun r => .openSystemBus r.1 (r.2.getD 0)) (F := (·.control = c))
      (T := AllAnswered) (D := fun r => InitAsk r.1) fun r post hp => hp.asked fun h =>
      beq_false_of_ne h
    refine Spec.bind (ask.mono (fun _ h => h.1) (fun _ _ h => h) fun _ h => h) fun r =>
      Spec.bind (setPub_trail (G := (·.control = c)) fun _ h => h) fun _ =>
        Spec.ite (fun neg => ?_) fun pos => ?_
    · exact (releaseWith_spends c r.1).mono (fun _ ht => ht.mono (fun _ hp => hp.1 neg) fun _ h =>
        h) (fun _ _ h => h) fun _ h => h
    · refine Spec.bind (setPub_trail (G := (·.control = c)) fun _ h => h) fun _ => ?_
      have answered (h : Host σ) (ht : Trail L (InitAsk r.1) (·.control = c) h) :
        Trail L AllAnswered (·.control = c) h :=
        ht.mono (fun _ hp => hp.2 (by omega)) fun _ h => h
      refine (Spec.ite (fun _ => fail _) fun _ => initSession_spends c).mono answered
        (fun _ _ h => h) fun _ h => h

theorem init_spends (c : Control) (table : Option (Table σ)) :
    Spec (Trail L (· = []) (·.control = c)) (samvadaInit table)
    (fun rc => Spends L (1 + owed true c) rc) fun _ => True := by
  have fail (rc : Int) : Spec (Trail L AllAnswered (·.control = c)) (releaseWith rc : Api σ Int)
      (fun rc => Spends L (1 + owed true c) rc) fun _ => True :=
    (releaseWith_spends c rc).mono (fun _ ht => ht.mono (fun _ hp => hp.brief 1 rc) fun _ h => h)
      (fun _ _ h => h) fun _ h => h
  cases table with
  | none => exact Spec.pure fun _ h => h.quiet _ _
  | some t =>
    refine Spec.gets_bind fun old => Spec.ite (fun _ => Spec.pure fun _ h => h.1.quiet _ _) fun _ =>
      Spec.ite (fun _ => Spec.pure fun _ h => h.1.quiet _ _) fun _ => ?_
    have start (h : Host σ) (ht : Trail L (· = []) (·.control = c) h) :
      Trail L AllAnswered (·.control = c) h := ht.mono (fun _ e => e ▸ AllAnswered.nil) fun _ h => h
    refine Spec.bind
      ((setPub_trail (G := (·.control = c)) fun _ h => h).mono (fun h ht => start h ht.1)
      (fun _ _ h => h) fun _ h => h) fun _ => ?_
    refine Spec.bind (ensure_trail fun _ _ h => h) fun _ => Spec.ite (fun _ => ?_) fun _ => fail _
    refine Spec.bind (ensure_trail fun _ _ h => h) fun _ => Spec.ite (fun _ => ?_) fun _ => fail _
    exact Spec.bind (ensure_trail fun _ _ h => h) fun _ =>
      Spec.ite (fun _ => initBus_spends c) fun _ => fail _

/-! ## Every call -/

/-- The budgets a call can use up at worst. A ReleaseControl that went unanswered is not
sent again at the close. -/
def ApiOp.budget (p : Public σ) : ApiOp σ → Nat
  | .init _ => 1 + owed true p.control
  | .takeDevice _ _ => takeBudget p.held
  | .releaseDevice major minor =>
    takeBudget (samvadaHeldDel p.held (samvadaHeldFind p.held major minor))
  | .pumpSignals => 0
  | .release => owed true p.control

/-- **Worst-case latency.** From any state, over any backend, a call of the API waits
out at most its budget of asks: a take two with nothing held and one otherwise, a
release of a device two where it was the last, a release one where control is held,
a pump none. After an ask that went unanswered it asks nothing more, but for giving
control back and closing the bus; and where another ask went unanswered it does not
report success. -/
theorem api_budgets (op : ApiOp σ) (h : Host σ) (rc : Int) (h' : Host σ)
    (run : op.run h = .done rc h') : ∃ post, h'.log = h.log ++ post ∧
    (unanswered post).length ≤ op.budget h.pub ∧
      (∀ before d rest, post = before ++ d :: rest → d.unanswered = true → ∀ e ∈ rest,
      e.parting = true) ∧ (0 ≤ rc → ∀ d ∈ post, d.unanswered = true → d.parting = true) := by
  have start {F : Public σ → Prop} (hF : F h.pub) (s : Host σ) (hs : s = h) :
    Trail h.log (· = []) F s := by
    rw [hs]
    exact ⟨hF, [], (List.append_nil _).symm, rfl⟩
  have spends : Spends h.log (op.budget h.pub) rc h' := by
    have spec : Spec (fun s => s = h) op.run (fun rc => Spends h.log (op.budget h.pub) rc) fun _ =>
      True := by
      cases op with
      | init table =>
        exact (init_spends h.pub.control table).mono (start rfl) (fun _ _ h => h) fun _ h => h
      | takeDevice major minor =>
        exact (takeDevice_spends major minor).mono (start rfl) (fun _ _ h => h) fun _ h => h
      | releaseDevice major minor =>
        exact (releaseDevice_spends major minor).mono (start rfl) (fun _ _ h => h) fun _ h => h
      | pumpSignals =>
        exact (pumpSignals_spends (F := fun _ => True)).mono (start trivial)
          (fun _ _ h => h) fun _ h => h
      | release =>
        have released : Spec (Trail h.log (Brief 0 0) (·.control = h.pub.control))
          (samvadaRelease : Api σ Int)
            (fun r s => r = 0 ∧ Spends h.log (0 + owed true h.pub.control) 0 s) fun _ => True :=
            release_spends _
        refine released.mono (fun s hs => ?_) (fun rc s hs => ?_) fun _ h => h
        · exact (start (F := (·.control = h.pub.control)) rfl s hs).mono
            (fun _ e => e ▸ AllAnswered.nil.brief 0 0) fun _ h => h
        · obtain ⟨rfl, hs⟩ := hs
          rw [Nat.zero_add] at hs
          exact hs
    have ended := spec h rfl
    rw [run] at ended
    exact ended
  obtain ⟨-, post, hlog, brief⟩ := spends
  exact ⟨post, hlog, brief.few, brief.last, brief.told⟩

end

/-- logind answers TakeControl, and nothing after it. -/
def silentSeat : Table Unit where
  kind := samvadaBackendKindPureCyrius
  takeDevice := some fun _ _ _ _ => pure (-110, none, none)
  takeControl := some fun _ _ => pure 0
  releaseControl := some fun _ _ => pure (-110)

/-- Two budgets at worst, and both are used up. -/
theorem api_budgets_two :
    let h : Host Unit := { pub := { table := some silentSeat, bus := 3 }, back := () }
    let post := (samvadaSessionTakeDevice 226 0 h).state.log
    post = [.takeControl 3 0, .takeDevice 3 226 0 (-110) 0, .releaseControl 3 (-110)] ∧
      (unanswered post).length = 2 ∧ (unanswered post).length ≤ 2 := by
  intro h post
  refine ⟨by decide, by decide, ?_⟩
  have hv : ((ApiOp.takeDevice 226 0).run h).value = some (-110) := by decide
  obtain ⟨since, hlog, few, -⟩ := api_budgets (.takeDevice 226 0) h (-110) _ (Outcome.eq_done hv)
  have all : post = since := hlog.trans (List.nil_append since)
  rw [all]
  exact few

end Samvada
