import Samvada.BigEndian
import Samvada.Requests

/- What an operation returns. A call ends with the verdict on the one message it
   takes as its answer, and is negative where it takes none; an operation that asks
   succeeds only on a verdict, and returns the errno of an ERROR as it is. -/
namespace Samvada
open Octets Framing Resumable Resumable.Prog

/-- A verdict on a message: the serial it answers, where it stands in the stream, and
what the call returns. -/
def Event.verdict : Event → Option (Nat × Nat × Int)
  | .answered s pos rc => some (s, pos, rc)
  | _ => none

def verdicts (es : List Event) : List (Nat × Nat × Int) := es.filterMap Event.verdict

def World.verdicts (w : World) : List (Nat × Nat × Int) := Samvada.verdicts w.trace

abbrev FixesVerdicts {α : Type} (x : M α) : Prop := Fixes World.verdicts x

@[simp] theorem verdicts_append (es es' : List Event) : verdicts (es ++ es') = verdicts es ++
    verdicts es' :=
  List.filterMap_append

theorem mem_verdicts {es : List Event} {s pos : Nat} {rc : Int} :
    (s, pos, rc) ∈ verdicts es ↔ .answered s pos rc ∈ es := by
  simp only [verdicts, List.mem_filterMap]
  constructor
  · rintro ⟨e, he, hv⟩
    cases e with
    | answered s' pos' rc' =>
      cases hv
      exact he
    | _ => cases hv
  · intro h
    exact ⟨_, h, rfl⟩

/-! ## What passes no verdict -/

theorem verdicts_aside {es : List Event} (h : ∀ e ∈ es, e.head = false) : verdicts es = [] := by
  refine List.filterMap_eq_nil_iff.mpr fun e he => ?_
  have := h e he
  cases e with
  | answered s pos rc => cases this
  | _ => rfl

theorem Aside.verdicts {α : Type} {x : M α} (h : Aside x) : FixesVerdicts x := by
  intro w
  obtain ⟨es, ht, he⟩ := h w
  rw [World.verdicts, ht, verdicts_append, verdicts_aside he, List.append_nil, World.verdicts]

theorem emit_verdicts (w : World) {es : List Event} (h : verdicts es = []) :
    (w.emit es).verdicts = w.verdicts := by
  rw [World.verdicts, emit_trace, verdicts_append, h, List.append_nil, World.verdicts]

theorem next_verdicts : FixesVerdicts frameNext := by
  refine Fixes.modifyGet fun w => ?_
  refine emit_verdicts { w with fr := _ } ?_
  rw [verdicts_append, verdicts_aside closes_aside]
  rfl

theorem advance_verdicts (n : Nat) : FixesVerdicts (frameAdvance n) := by
  refine Fixes.modify fun w => ?_
  show ({ w with fr := (dbusFrameAdvance w.fr n).1 }.emit (advanceEvents w.fr n)).verdicts = _
  refine emit_verdicts _ ?_
  show verdicts ((dbusFrameAdvance w.fr n).2.map Event.close) = []
  exact verdicts_aside closes_aside

theorem decode_verdicts {α : Type} (x : World → Decode α) : FixesVerdicts (decode x) :=
  Fixes.modifyGet fun _ => rfl

theorem done_verdicts : FixesVerdicts dbusSessionDone := by
  apply Fixes.bind next_verdicts
  intro s
  cases s with
  | msg r => exact advance_verdicts r
  | _ => exact Fixes.pure _

/-- What fixes the verdicts keeps any statement about them. -/
theorem FixesVerdicts.spec {α : Type} {x : M α} (h : FixesVerdicts x)
    {P : List (Nat × Nat × Int) → Prop} :
    Spec (fun w => P w.verdicts) x (fun _ w => P w.verdicts) fun w => P w.verdicts := by
  intro w hw
  have kept : P (x w).state.verdicts := by
    rw [h w]
    exact hw
  cases hx : x w with
  | done a w' =>
    rw [hx] at kept
    exact kept
  | waiting w' =>
    rw [hx] at kept
    exact kept

/-! ## A call -/

section
variable {base : List (Nat × Nat × Int)}

/-- How a call for `s` ended with `v`: negative and with no verdict, or with one, which is `v`. -/
def Judged (s : Nat) (base : List (Nat × Nat × Int)) (v : Int) (w : World) : Prop :=
  (v < 0 ∧ w.verdicts = base) ∨ ∃ pos, w.verdicts = base ++ [(s, pos, v)]

abbrev Unjudged (base : List (Nat × Nat × Int)) (w : World) : Prop := w.verdicts = base

theorem FixesVerdicts.still {α : Type} {x : M α} (h : FixesVerdicts x) :
    Spec (Unjudged base) x (fun _ => Unjudged base) (Unjudged base) :=
  h.spec (P := (· = base))

/-- A call stops short of a verdict with an errno. -/
theorem Judged.stop {s : Nat} {v : Int} (h : v < 0) : Spec (Unjudged base) (pure v : M Int)
    (Judged s base) (Unjudged base) :=
  Spec.pure fun _ hw => .inl ⟨h, hw⟩

theorem ioFail_judged (s : Nat) {e : Int} (h : e < 0) : Spec (Unjudged base) (dbsIoFail e)
    (Judged s base) (Unjudged base) := by
  refine Spec.ite (fun _ => ?_) fun _ => Judged.stop h
  refine Spec.bind (Q := fun _ => Unjudged base) (Spec.modify fun _ hw => hw) fun _ => ?_
  exact Judged.stop (by decide)

/-- Reading the buffered messages: one verdict if one answers, and else none. -/
theorem scan_judged (s wm : Nat) : Spec (Unjudged base) (dbsScan s wm)
    (fun r w => match r with
      | .answered rc => ∃ pos, w.verdicts = base ++ [(s, pos, rc)]
      | .stopped _ => Unjudged base w) (Unjudged base) := by
  refine Spec.loop (I := fun _ => Unjudged base) (dbsScan_lowers s wm) (fun _ => ?_) ()
  refine Spec.bind next_verdicts.still fun r => ?_
  have judge (pos : Nat) (rc : Int) : Spec (Unjudged base) (emit [.answered s pos rc])
      (fun _ w => ∃ pos, w.verdicts = base ++ [(s, pos, rc)]) (Unjudged base) := by
    refine Spec.modify fun w hw => ⟨pos, ?_⟩
    rw [World.verdicts, emit_trace, verdicts_append]
    exact congrArg (· ++ [(s, pos, rc)]) hw
  cases r with
  | msg t =>
    refine Spec.bind (decode_verdicts _).still fun v =>
      Spec.bind (Q := fun _ => Unjudged base) (Spec.gets fun _ h => h) fun pos => ?_
    cases v with
    | success => exact Spec.bind (judge pos 0) fun _ => Spec.pure fun _ h => h
    | failure rc =>
      refine Spec.bind (judge pos rc) fun _ => ?_
      refine Spec.bind (Q := fun _ w => ∃ pos, w.verdicts = base ++ [(s, pos, rc)])
        (Spec.modify fun w hw => ?_) fun _ => Spec.pure fun _ h => h
      obtain ⟨pos', hv⟩ := hw
      exact ⟨pos', (advance_verdicts t w).trans hv⟩
    | other => exact Spec.bind (advance_verdicts t).still fun _ => Spec.pure fun _ h => h
  | _ => exact Spec.pure fun _ h => h

/-- After a round of the wait: another, or the call's end. -/
def AwaitStep (s : Nat) (base : List (Nat × Nat × Int)) : Nat ⊕ Int → World → Prop
  | .inl _ => Unjudged base
  | .inr v => Judged s base v

/-- A receive answers nothing: it goes on, or stops with an errno. -/
theorem receive_judged (s : Nat) (fd : Int) (flags : Nat) (deadline : Int) (reads : Nat) :
    Spec (Unjudged base) (dbsReceive fd flags deadline reads) (AwaitStep s base)
      (Unjudged base) := by
  refine Spec.bind (recv_aside fd flags).verdicts.still fun got => ?_
  refine Spec.ite (fun _ => Spec.pure fun _ h => h) fun _ => Spec.ite (fun _ => ?_) fun _ =>
    Spec.ite (fun hneg => ?_) fun _ => Spec.pure fun _ h => h
  · refine Spec.ite (fun _ => Spec.pure fun _ h => h) fun _ => Spec.pure fun _ h => ?_
    exact .inl ⟨by decide, h⟩
  · exact Spec.map (ioFail_judged s hneg)

/-- A wait that fails, fails with an errno. -/
theorem waitReadable_judged (fd deadline : Int) :
    Spec (Unjudged base) (dbsWaitReadable fd deadline)
      (fun r w => Unjudged base w ∧ ∀ e, r = .failed e → e < 0) (Unjudged base) := by
  refine Spec.bind nowMs_rests.aside.verdicts.still fun now => ?_
  refine Spec.ite (fun _ => Spec.pure fun _ h => ⟨h, by simp⟩) fun _ =>
    Spec.ite (fun _ => Spec.pure fun _ h => ⟨h, by simp⟩) fun _ => ?_
  refine Spec.bind (sysPoll_rests fd false _).aside.verdicts.still fun ready => ?_
  refine Spec.ite (fun _ => Spec.pure fun _ h => ⟨h, by simp⟩) fun _ =>
    Spec.ite (fun _ => Spec.pure fun _ h => ⟨h, by simp⟩) fun _ =>
    Spec.ite (fun hneg => Spec.pure fun _ h => ⟨h, fun e he => ?_⟩) fun _ =>
    Spec.pure fun _ h => ⟨h, by simp⟩
  cases he
  exact hneg

theorem await_judged (fd : Int) (s wm : Nat) (deadline : Int) :
    Spec (Unjudged base) (dbsAwait fd s wm deadline) (Judged s base) fun _ => True := by
  refine (Spec.loop (I := fun _ => Unjudged base) (W := Unjudged base)
    (dbsAwait_lowers fd s wm deadline) (fun reads => ?_) 0).mono (fun _ h => h)
    (fun _ _ h => h) fun _ _ => trivial
  refine Spec.mono (B := AwaitStep s base) ?_ (fun _ h => h) (fun r _ h => by cases r <;> exact h)
    fun _ h => h
  refine Spec.bind (scan_judged s wm) fun scan => ?_
  cases scan with
  | answered rc => exact Spec.pure fun _ h => .inr h
  | stopped r =>
    refine Spec.bind (frameFault_aside r).verdicts.still fun fault =>
      Spec.ite (fun hneg => Spec.pure fun _ h => .inl ⟨hneg, h⟩) fun _ => ?_
    refine Spec.ite (fun _ => ?_) fun _ =>
      Spec.ite (fun _ => Spec.pure fun _ h => .inl ⟨by decide, h⟩) fun _ =>
      receive_judged s fd 0 deadline (reads + 1)
    refine Spec.bind (waitReadable_judged fd deadline) fun wait => Spec.known fun failed => ?_
    cases wait with
    | timedOut => exact Spec.pure fun _ h => .inl ⟨by decide, h⟩
    | again => exact Spec.pure fun _ h => h
    | failed e => exact Spec.map (ioFail_judged s (failed e rfl))
    | ready => exact receive_judged s fd dbusSysMsgDontwait deadline reads

/-- **A call returns its verdict**, or a negative errno without one. -/
theorem call_judged (fd : Int) (s : Nat) :
    Spec (Unjudged base) (dbusSessionCall fd s) (Judged s base) fun _ => True := by
  have keeps {α : Type} {x : M α} (h : FixesVerdicts x) :
      Spec (Unjudged base) x (fun _ => Unjudged base) fun _ => True :=
    h.still.mono (fun _ h => h) (fun _ _ h => h) fun _ _ => trivial
  have stops {v : Int} (h : v < 0) : Spec (Unjudged base) (pure v : M Int) (Judged s base)
      fun _ => True :=
    Spec.pure fun _ hw => .inl ⟨h, hw⟩
  refine Spec.bind (keeps Fixes.gets) fun m => Spec.bind (keeps Fixes.gets) fun closed =>
    Spec.ite (fun _ => stops (by decide)) fun _ => Spec.ite (fun _ => stops (by decide)) fun _ => ?_
  refine Spec.bind (keeps next_verdicts) fun lost =>
    Spec.bind (keeps (frameFault_aside lost).verdicts) fun lf =>
    Spec.ite (fun hneg => stops hneg) fun _ => ?_
  refine Spec.bind (keeps Fixes.gets) fun wm =>
    Spec.bind (keeps nowMs_rests.aside.verdicts) fun t0 => Spec.bind (keeps Fixes.gets) fun ms => ?_
  refine Spec.bind (keeps (write_aside fd m.buf _).verdicts) fun n =>
    Spec.ite (fun _ => stops (by decide)) fun _ => Spec.ite (fun hneg => ?_) fun _ => ?_
  · exact (ioFail_judged s hneg).mono (fun _ h => h) (fun _ _ h => h) fun _ _ => trivial
  · exact await_judged fd s wm _

/-! ## An operation that asks -/

/-- How an operation that asked ended with `v`, having heard these verdicts: none and `v` is
an errno, or one, and `v` is its errno if it is one. -/
inductive Rendered (v : Int) : List (Nat × Nat × Int) → Prop where
  | unheard (h : v < 0) : Rendered v []
  | heard (s pos : Nat) {rc : Int} (h : rc < 0 → v = rc) : Rendered v [(s, pos, rc)]

/-- An operation that asked and returned `v`. -/
def Returned (base : List (Nat × Nat × Int)) (v : Int) (w : World) : Prop :=
  ∃ vs, w.verdicts = base ++ vs ∧ Rendered v vs

theorem Judged.returned {s : Nat} {v : Int} {w : World} (h : Judged s base v w) :
    Returned base v w := by
  rcases h with ⟨hneg, hw⟩ | ⟨pos, hw⟩
  · exact ⟨[], hw.trans (List.append_nil _).symm, .unheard hneg⟩
  · exact ⟨_, hw, .heard s pos fun _ => rfl⟩

/-- What is made of a call's value: an errno as it is, or what follows a reply. -/
theorem reply_returned {α : Type} (f : α → Int) (fail : Int → α) {tail : M α} (bus : Int) (s : Nat)
    (hf : ∀ rc, f (fail rc) = rc) (ht : FixesVerdicts tail) :
    Spec (Unjudged base) (do
        let rc ← dbusSessionCall bus s
        if rc < 0 then pure (fail rc) else tail) (fun a => Returned base (f a)) fun _ => True := by
  refine Spec.bind (call_judged bus s) fun rc => Spec.ite (fun hneg => ?_) fun hpos => ?_
  · refine Spec.pure fun w hw => ?_
    rw [hf]
    exact hw.returned
  · intro w hw
    have judged : ∃ pos, w.verdicts = base ++ [(s, pos, rc)] := by
      rcases hw with hw | hw
      · exact absurd hw.1 hpos
      · exact hw
    obtain ⟨pos, hw⟩ := judged
    have same := ht w
    cases hx : tail w with
    | waiting w' => trivial
    | done a w' =>
      rw [hx] at same
      exact ⟨_, same.trans hw, .heard s pos fun h => absurd h hpos⟩

/-- `Returned` of how a run ended, if it did. -/
inductive Concludes {α : Type} (f : α → Int) (base : List (Nat × Nat × Int)) :
    Outcome World α → Prop where
  | done {a : α} {w : World} (h : Returned base (f a) w) : Concludes f base (.done a w)
  | waiting {w : World} : Concludes f base (.waiting w)

/-- Taking the next serial, building the request, and going on. -/
theorem asked_concludes {α : Type} {f : α → Int} {request : Nat → Marshal} {body : Nat → M α}
    {w : World} (hw : w.verdicts = base)
    (hb : ∀ s, Spec (Unjudged base) (body s) (fun a => Returned base (f a)) fun _ => True) :
    Concludes f base ((do
      let serial ← dbusSessionNextSerial
      setMarshal (request serial)
      body serial : M α) w) := by
  have run : (do
      let serial ← dbusSessionNextSerial
      setMarshal (request serial)
      body serial : M α) w = body (dbusSessionWrapSerial (w.dbs.serial + 1))
        (w.asking (dbusSessionWrapSerial (w.dbs.serial + 1))
          (request (dbusSessionWrapSerial (w.dbs.serial + 1)))) := rfl
  rw [run]
  have ended := hb (dbusSessionWrapSerial (w.dbs.serial + 1))
    (w.asking (dbusSessionWrapSerial (w.dbs.serial + 1))
      (request (dbusSessionWrapSerial (w.dbs.serial + 1)))) hw
  generalize body _ _ = o at ended
  cases o with
  | done a w' => exact .done ended
  | waiting w' => exact .waiting

theorem refused_concludes {α : Type} {f : α → Int} {a : α} {w : World} (hw : w.verdicts = base)
    (h : f a < 0) : Concludes f base ((pure a : M α) w) :=
  .done ⟨[], hw.trans (List.append_nil _).symm, .unheard h⟩

theorem Concludes.map {α : Type} {f : α → Int} {x : M α} {w : World}
    (h : Concludes f base (x w)) : Concludes id base ((f <$> x : M Int) w) := by
  show Concludes id base ((x >>= fun a => pure (f a) : M Int) w)
  rw [bind_run]
  generalize x w = o at h
  cases h with
  | done h => exact .done h
  | waiting => exact .waiting

theorem callAndDone_concludes {bus : Int} {request : Nat → Marshal} {w : World}
    (hw : w.verdicts = base) : Concludes id base (dbsCallAndDone bus request w) := by
  refine asked_concludes hw fun s => ?_
  refine Spec.bind (call_judged bus s) fun rc => ?_
  refine Spec.ite (fun _ => ?_) fun _ => Spec.pure fun _ h => h.returned
  refine Spec.bind (Q := fun _ => Judged s base rc) (fun w hw => ?_) fun _ =>
    Spec.pure fun _ h => h.returned
  have same := done_verdicts w
  cases hx : dbusSessionDone w with
  | waiting w' => trivial
  | done a w' =>
    rw [hx] at same
    rcases hw with ⟨hneg, hw⟩ | ⟨pos, hw⟩
    · exact .inl ⟨hneg, same.trans hw⟩
    · exact .inr ⟨pos, same.trans hw⟩

end

theorem setUnique_verdicts (p : Bytes) (n : Int) : FixesVerdicts (dbusSessionSetUnique p n) :=
  (setUnique_rests p n).aside.verdicts

theorem fdIsDevice_verdicts (fd major minor : Int) :
    FixesVerdicts (dbusSessionFdIsDevice fd major minor) :=
  (fdIsDevice_rests fd major minor).aside.verdicts

theorem emit_still {es : List Event} (h : ∀ e ∈ es, e.head = false) : FixesVerdicts (emit es) :=
  (emit_aside h).verdicts

theorem takeClaimed_verdicts (major minor : Int) (r inactive : Nat) (fd : Int) :
    FixesVerdicts (takeClaimed major minor r inactive fd) := by
  apply Fixes.ite _ (Fixes.bind (advance_verdicts _) fun _ => Fixes.pure _)
  apply Fixes.bind (fdIsDevice_verdicts fd major minor)
  intro ok
  apply Fixes.ite
  · apply Fixes.bind (advance_verdicts _)
    intro _
    exact Fixes.bind (emit_still (by simp [Event.head])) fun _ => Fixes.pure _
  · apply Fixes.bind (emit_still (by simp [Event.head]))
    intro _
    exact Fixes.bind (advance_verdicts _) fun _ => Fixes.pure _

/-- What TakeDevice does with its reply. -/
theorem takeTail_verdicts (major minor : Int) : FixesVerdicts (takeTail major minor) := by
  apply Fixes.bind Fixes.gets
  intro p
  apply Fixes.bind next_verdicts
  intro q
  apply Fixes.bind (decode_verdicts _)
  intro named
  obtain ⟨index, inactive⟩ := named
  cases index with
  | none => exact Fixes.bind (Fixes.pure _) fun fd => takeClaimed_verdicts major minor _ _ fd
  | some i =>
    refine Fixes.bind (Fixes.modifyGet fun w => ?_) fun fd =>
      takeClaimed_verdicts major minor _ _ fd
    refine emit_verdicts { w with fr := _ } ?_
    split_ifs <;> rfl

theorem takeDevice_concludes {base : List (Nat × Nat × Int)} (bus : Int) (sess : Option Bytes)
    (major minor : Int) {w : World} (hw : w.verdicts = base) :
    Concludes Prod.fst base (dbusNativeTakeDevice bus sess major minor w) := by
  have same := (allocOnce_rests .stx).aside.verdicts w
  unfold dbusNativeTakeDevice
  obtain ⟨ok, v, alloc⟩ : ∃ ok v, allocOnce .stx w = .done ok v := Ends.modifyGet w
  rw [alloc] at same
  have hv : v.verdicts = base := same.trans hw
  rw [bind_done alloc]
  cases ok with
  | false => exact refused_concludes hv (by decide)
  | true =>
    rw [if_pos rfl]
    by_cases hs : dbusSessionSessOk sess = false
    · rw [if_pos hs]
      exact refused_concludes hv (by decide)
    rw [if_neg hs]
    by_cases hM : dbusSessionDevnumOk major = false
    · rw [if_pos hM]
      exact refused_concludes hv (by decide)
    rw [if_neg hM]
    by_cases hm : dbusSessionDevnumOk minor = false
    · rw [if_pos hm]
      exact refused_concludes hv (by decide)
    rw [if_neg hm]
    refine asked_concludes hv fun s => ?_
    exact reply_returned Prod.fst (fun rc => (rc, none)) bus s (fun _ => rfl)
      (takeTail_verdicts major minor)

/-- **An operation that asks** ends on a verdict, or with an errno of its own. -/
theorem body_concludes {base : List (Nat × Nat × Int)} (bus : Int) {op : BusOp}
    (ha : op.asks = true) {w : World} (hw : w.verdicts = base) :
    Concludes id base (op.body bus w) := by
  cases op with
  | call m s => cases ha
  | done => cases ha
  | pump => cases ha
  | hello =>
    refine asked_concludes hw fun s => ?_
    refine reply_returned id id bus s (fun _ => rfl) ?_
    apply Fixes.bind next_verdicts
    intro q
    apply Fixes.bind Fixes.gets
    intro p
    apply Fixes.bind (decode_verdicts _)
    intro name
    cases name with
    | none => exact Fixes.bind (advance_verdicts _) fun _ => Fixes.pure _
    | some x =>
      apply Fixes.bind (setUnique_verdicts x.1 x.2)
      intro su
      exact Fixes.bind (advance_verdicts _) fun _ => Fixes.ite (Fixes.pure _) (Fixes.pure _)
  | sessionPath pid out =>
    refine Concludes.map ?_
    cases out with
    | none => exact refused_concludes hw (by decide)
    | some n =>
      by_cases hn : n ≤ 0
      · rw [show dbusNativeGetSessionPath bus pid (some n) = pure (-22, none) from if_pos hn]
        exact refused_concludes hw (by decide)
      unfold dbusNativeGetSessionPath
      dsimp only
      rw [if_neg hn]
      refine asked_concludes hw fun s => ?_
      refine reply_returned Prod.fst (fun rc => (rc, none)) bus s (fun _ => rfl) ?_
      apply Fixes.bind Fixes.gets
      intro p
      apply Fixes.bind next_verdicts
      intro q
      apply Fixes.bind (decode_verdicts _)
      intro path
      cases path with
      | none => exact Fixes.bind done_verdicts fun _ => Fixes.pure _
      | some x =>
        exact Fixes.ite (Fixes.bind done_verdicts fun _ => Fixes.pure _)
          (Fixes.bind done_verdicts fun _ => Fixes.pure _)
  | takeControl sess =>
    by_cases hs : dbusSessionSessOk sess = true
    · rw [show (BusOp.takeControl sess).body bus = dbsCallAndDone bus
        (dbsTakeControlCall (sess.getD [])) from if_pos hs]
      exact callAndDone_concludes hw
    · rw [show (BusOp.takeControl sess).body bus = pure (-22) from if_neg hs]
      exact refused_concludes hw (by decide)
  | releaseControl sess =>
    by_cases hs : dbusSessionSessOk sess = true
    · rw [show (BusOp.releaseControl sess).body bus = dbsCallAndDone bus
        (dbsReleaseControlCall (sess.getD [])) from if_pos hs]
      exact callAndDone_concludes hw
    · rw [show (BusOp.releaseControl sess).body bus = pure (-22) from if_neg hs]
      exact refused_concludes hw (by decide)
  | releaseDevice sess major minor =>
    by_cases hs : dbusSessionSessOk sess = true
    · by_cases hd : (dbusSessionDevnumOk major && dbusSessionDevnumOk minor) = true
      · rw [show (BusOp.releaseDevice sess major minor).body bus =
          dbsCallAndDone bus (dbsDeviceCall "ReleaseDevice" (sess.getD []) major minor) from (if_pos
          hs).trans (if_pos hd)]
        exact callAndDone_concludes hw
      · rw [show (BusOp.releaseDevice sess major minor).body bus = pure
          (-22) from (if_pos hs).trans (if_neg hd)]
        exact refused_concludes hw (by decide)
    · rw [show (BusOp.releaseDevice sess major minor).body bus = pure (-22) from if_neg hs]
      exact refused_concludes hw (by decide)
  | takeDevice sess major minor =>
    exact Concludes.map (takeDevice_concludes bus sess major minor hw)

end Samvada
