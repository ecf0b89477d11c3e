import Samvada.Wire

/- Every operation on an open bus, and runs of them. An operation either moves
   only, or takes the next serial, builds its request and calls. -/
namespace Samvada
open Octets Resumable Resumable.Prog Relation

/-- An operation on an open bus. -/
inductive BusOp where
  | hello
  | sessionPath (pid : Int) (out : Option Int)
  | takeControl (sess : Option Bytes)
  | releaseControl (sess : Option Bytes)
  | takeDevice (sess : Option Bytes) (major minor : Int)
  | releaseDevice (sess : Option Bytes) (major minor : Int)
  /-- `dbus_session_call` of a message the caller built -/
  | call (m : Marshal) (serial : Nat)
  | done
  | pump
  deriving DecidableEq, Repr

namespace BusOp

/-- Run the operation on the socket `bus`: what it returns. -/
def run (bus : Int) : BusOp → M Int
  | hello => dbusSessionHello bus
  | sessionPath pid out => Prod.fst <$> dbusNativeGetSessionPath bus pid out
  | takeControl sess => dbusNativeTakeControl bus sess
  | releaseControl sess => dbusNativeReleaseControl bus sess
  | takeDevice sess major minor => Prod.fst <$> dbusNativeTakeDevice bus sess major minor
  | releaseDevice sess major minor => dbusNativeReleaseDevice bus sess major minor
  | call m serial => do
    setMarshal m
    dbusSessionCall bus serial
  | done => do
    dbusSessionDone
    pure 0
  | pump => dbusNativePumpSignals bus

/-- The operation, short of what a failed Hello closes. -/
def body (bus : Int) : BusOp → M Int
  | hello => dbsHello bus
  | op => op.run bus

/-- The serial an operation calls under. -/
def serial (w : World) : BusOp → Nat
  | call _ s => s
  | _ => dbusSessionWrapSerial (w.dbs.serial + 1)

/-- Are an operation's arguments ones it does not refuse? -/
def accepts : BusOp → Bool
  | sessionPath _ out => match out with
    | none => false
    | some n => 0 < n
  | takeControl sess => dbusSessionSessOk sess
  | releaseControl sess => dbusSessionSessOk sess
  | takeDevice sess major minor =>
    dbusSessionSessOk sess && dbusSessionDevnumOk major && dbusSessionDevnumOk minor
  | releaseDevice sess major minor =>
    dbusSessionSessOk sess && dbusSessionDevnumOk major && dbusSessionDevnumOk minor
  | _ => true

/-- What an operation asks under the serial `s`; a poisoned message where it asks nothing. -/
def request (s : Nat) : BusOp → Marshal
  | hello => dbsHelloCall s
  | sessionPath pid _ => dbsSessionPathCall pid s
  | takeControl sess => dbsTakeControlCall (sess.getD []) s
  | releaseControl sess => dbsReleaseControlCall (sess.getD []) s
  | takeDevice sess major minor => dbsDeviceCall "TakeDevice" (sess.getD []) major minor s
  | releaseDevice sess major minor => dbsDeviceCall "ReleaseDevice" (sess.getD []) major minor s
  | call m _ => m
  | done => { bad := true }
  | pump => { bad := true }

end BusOp

/-- Run operations one after the other: what each returned. A connection whose
Hello fails is not used again. -/
def runOps (bus : Int) : List BusOp → M (List Int)
  | [] => pure []
  | op :: rest => do
    let rc ← op.run bus
    if op = .hello ∧ rc < 0 then pure [rc]
    else do
      let rcs ← runOps bus rest
      pure (rc :: rcs)

/-! ## The moves of an operation -/

/-- The serial `s` is taken and the request `m` built. -/
def World.asking (w : World) (s : Nat) (m : Marshal) : World :=
  { w with dbm := m, dbs := { w.dbs with serial := s } }

/-- The moves of an operation. -/
inductive Ran (op : BusOp) (s : Nat) (w w' : World) : Prop where
  /-- it only moved: it was refused, or asks nothing -/
  | moved (h : ReflTransGen (Step s) w w')
  /-- it asked, perhaps having allocated first -/
  | asked {w₀ : World} {es : List Event} (ok : op.accepts = true) (h : Unmoved w w₀ es)
    (hc : Calls s (op.request s) (w₀.asking s (op.request s)) w')
  /-- it called with the message it was given -/
  | called {m : Marshal} (hop : op = .call m s) (hc : Calls s m { w with dbm := m } w')

/-- The moves of an operation that waits. -/
inductive RanPart (op : BusOp) (s : Nat) (w w' : World) : Prop where
  | moved (h : ReflTransGen (Step s) w w')
  | asked {w₀ : World} {es : List Event} (ok : op.accepts = true) (h : Unmoved w w₀ es)
    (hc : CallsPart s (op.request s) (w₀.asking s (op.request s)) w')
  | called {m : Marshal} (hop : op = .call m s) (hc : CallsPart s m { w with dbm := m } w')

/-- From `w` the operation came to the end `o`, in `Q` if it is done. -/
inductive RanTo {α : Type} (op : BusOp) (s : Nat) (w : World) (Q : α → World → Prop) :
    Outcome World α → Prop where
  | done {a : α} {w' : World} (h : Ran op s w w') (hq : Q a w') : RanTo op s w Q (.done a w')
  | waiting {w' : World} (h : RanPart op s w w') : RanTo op s w Q (.waiting w')

/-- From a state in `P`, `x` makes the moves of the operation and ends in `Q`. -/
structure Running {α : Type} (op : BusOp) (s : Nat) (P : World → Prop) (x : M α)
    (Q : α → World → Prop) : Prop where
  ends : ∀ w, P w → RanTo op s w Q (x w)

namespace Running
variable {α β : Type} {op : BusOp} {s : Nat} {P : World → Prop} {Q : α → World → Prop}

theorem of_walk {x : M α} (h : Walk (Step s) Eq P x Q) : Running op s P x Q := by
  refine ⟨fun w hw => ?_⟩
  have hx := h w hw
  cases e : x w with
  | done a w' =>
    rw [e] at hx
    exact .done (.moved hx.1) hx.2
  | waiting w' =>
    rw [e] at hx
    obtain ⟨_, hm, rfl⟩ := hx
    exact .waiting (.moved hm)

theorem map {x : M α} {f : α → β} {R : β → World → Prop} (h : Running op s P x fun a => R (f a)) :
    Running op s P (f <$> x) R := by
  refine ⟨fun w hw => ?_⟩
  have hx := h.ends w hw
  show RanTo op s w R ((x >>= fun a => pure (f a)) w)
  rw [bind_run]
  generalize x w = o at hx
  cases hx with
  | done h hq => exact .done h hq
  | waiting h => exact .waiting h

theorem ite {c : Prop} [Decidable c] {x y : M α} (hx : c → Running op s P x Q)
    (hy : ¬c → Running op s P y Q) : Running op s P (if c then x else y) Q := by
  by_cases h : c
  · rw [if_pos h]
    exact hx h
  · rw [if_neg h]
    exact hy h

/-- Taking the next serial, building the request and calling, from `w`, where
nothing but allocation has happened since `w₁`. -/
theorem asks {request : Nat → Marshal} {body : Nat → M α} (ok : op.accepts = true)
    (hr : ∀ s, request s = op.request s)
    (hb : Calling s (op.request s) (fun w => w.fr.Good ∧ w.dbm = op.request s) (body s) Q)
    {w w₀ : World}
    {es : List Event} (hq : Unmoved w w₀ es) (hg : w.fr.Good)
    (hs : dbusSessionWrapSerial (w.dbs.serial + 1) = s) : RanTo op s w Q ((do
      let serial ← dbusSessionNextSerial
      setMarshal (request serial)
      body serial : M α) w₀) := by
  have hserial : dbusSessionWrapSerial (w₀.dbs.serial + 1) = s := by rw [hq.serial, hs]
  have run : (do
      let serial ← dbusSessionNextSerial
      setMarshal (request serial)
      body serial : M α) w₀ = body s (w₀.asking s (op.request s)) := by
    show body (dbusSessionWrapSerial (w₀.dbs.serial + 1))
      { w₀ with
        dbs := { w₀.dbs with serial := dbusSessionWrapSerial (w₀.dbs.serial + 1) }
        dbm := request (dbusSessionWrapSerial (w₀.dbs.serial + 1)) } = _
    rw [hserial, hr]
    rfl
  have hgood : (w₀.asking s (op.request s)).fr.Good := by
    show w₀.fr.Good
    rw [hq.fr]
    exact hg
  rw [run]
  have h := hb (w₀.asking s (op.request s)) ⟨hgood, rfl⟩
  cases e : body s (w₀.asking s (op.request s)) with
  | done a w' =>
    rw [e] at h
    exact .done (.asked ok hq h.1) h.2
  | waiting w' =>
    rw [e] at h
    exact .waiting (.asked ok hq h)

end Running

/-! ## What follows a reply -/

/-- A message of `r` bytes is at the head. -/
def Head (r : Nat) (w : World) : Prop := w.fr.Good ∧ AtRest w.fr (.msg r)

theorem Answered.head {rc : Int} {w : World} (h : Answered rc w.fr) (hn : ¬ rc < 0) :
    ∃ r, Head r w := by
  obtain ⟨hg, h | ⟨-, r, hr⟩⟩ := h
  · exact absurd h hn
  · exact ⟨r, hg, hr⟩

theorem frameNext_head {s r : Nat} : Walk (Step s) Eq (Head r) frameNext fun q w =>
    Head r w ∧ q = .msg r := by
  refine Walk.modifyGet (fun w hw => ?_) fun w hw => ?_
  · rw [hw.2.next]
    exact .next hw.2 (Passed.refl hw.1.ok.off)
  · rw [hw.2.next]
    exact ⟨hw, rfl⟩

theorem frameAdvance_head {s r : Nat} : Walk (Step s) Eq (Head r) (frameAdvance r) fun _ w =>
    w.fr.Good :=
  frameAdvance_moves r

theorem setUnique_rests (p : Bytes) (n : Int) : Rests (dbusSessionSetUnique p n) := by
  refine Rests.ite (Rests.pure _)
    (Rests.ite (Rests.pure _) (Rests.bind (allocOnce_rests _) fun ok => Rests.ite ?_
    (Rests.pure _)))
  exact Rests.bind (Rests.modify fun w => ⟨[], {}⟩) fun _ => Rests.pure _

theorem Rests.head {α : Type} {x : M α} (h : Rests x) (s r : Nat) : Walk (Step s) Eq (Head r) x
    fun _ => Head r :=
  h.moves s fun f => f.Good ∧ AtRest f (.msg r)

/-- A reply whose body nobody reads. -/
theorem callAndDone_calling (bus : Int) (s : Nat) (m : Marshal) :
    Calling s m (fun w => w.fr.Good ∧ w.dbm = m) (do
    let rc ← dbusSessionCall bus s
    if rc = 0 then do
      dbusSessionDone
      pure rc
    else pure rc : M Int) fun _ w => w.fr.Good := by
  refine Calling.after (dbusSessionCall_calling bus s m) fun rc =>
    Walk.ite (fun _ => ?_) fun _ => ?_
  · refine Walk.bind (Q := fun _ w => w.fr.Good) ?_ fun _ => Walk.pure fun _ h => h
    exact dbusSessionDone_moves.mono (fun w hw => hw.1) fun _ _ h => h
  · exact Walk.pure fun w hw => hw.1

/-- What follows a call that succeeded, from the message it left at the head. -/
theorem reply_calling {α : Type} (bus : Int) (s : Nat) (m : Marshal) {fail : Int → M α} {tail : M α}
    (hf : ∀ rc, Walk (Step s) Eq (fun w => w.fr.Good) (fail rc) fun _ w => w.fr.Good)
    (ht : ∀ r, Walk (Step s) Eq (Head r) tail fun _ w => w.fr.Good) :
    Calling s m (fun w => w.fr.Good ∧ w.dbm = m) (do
      let rc ← dbusSessionCall bus s
      if rc < 0 then fail rc else tail) fun _ w => w.fr.Good := by
  refine Calling.after (dbusSessionCall_calling bus s m) fun rc =>
    Walk.ite (fun _ => ?_) fun hn => ?_
  · exact (hf rc).mono (fun w hw => hw.1) fun _ _ h => h
  · exact (Walk.exists_pre ht).mono (fun w hw => hw.head hn) fun _ _ h => h

theorem hello_tail (s r : Nat) : Walk (Step s) Eq (Head r) (do
      let hlen := (← frameNext).len
      let p ← Prog.gets (dbusFrameBase ·.fr)
      match ← decode fun _ => Decode.dbsHelloName hlen p with
      | none => do
        frameAdvance hlen
        pure (-71)
      | some (name, n) => do
        let su ← dbusSessionSetUnique name n
        frameAdvance hlen
        if su < 0 then pure su else pure 0 : M Int) fun _ w => w.fr.Good := by
  refine Walk.bind frameNext_head fun q => Walk.gets_bind fun p => ?_
  intro w hw
  obtain ⟨⟨hhead, rfl⟩, -⟩ := hw
  revert w
  show Walk (Step s) Eq (Head r) _ _
  refine Walk.bind (Q := fun _ => Head r)
    (decode_moves s (fun _ => Decode.helloName_eq _ p) fun _ _ h => h) fun name => ?_
  cases name with
  | none => exact Walk.bind frameAdvance_head fun _ => Walk.pure fun _ h => h
  | some x =>
    refine Walk.bind ((setUnique_rests x.1 x.2).head s r) fun su =>
      Walk.bind frameAdvance_head fun _ =>
      Walk.ite (fun _ => Walk.pure fun _ h => h) fun _ => Walk.pure fun _ h => h

theorem sessionPath_tail (s r : Nat) (outLen : Int) : Walk (Step s) Eq (Head r) (do
        let p ← Prog.gets (dbusFrameBase ·.fr)
        let limit := (← frameNext).len
        match ← decode fun _ => Decode.dbsSessionPath limit p with
        | none => do
          dbusSessionDone
          pure (-71, none)
        | some (path, n) =>
          if outLen < n + 1 then do
            dbusSessionDone
            pure (-105, none)
          else do
            dbusSessionDone
            pure (0, some (loadN path 0 n ++ [0])) : M (Int × Option Bytes)) fun _ w =>
              w.fr.Good := by
  have finish (a : Int × Option Bytes) : Walk (Step s) Eq (Head r) (do
      dbusSessionDone
      pure a : M (Int × Option Bytes)) fun _ w => w.fr.Good :=
    Walk.bind (Q := fun _ w => w.fr.Good)
      (dbusSessionDone_moves.mono (fun w hw => hw.1) fun _ _ h => h) fun _ =>
      Walk.pure fun _ h => h
  refine Walk.bind (Q := fun _ => Head r) (Walk.gets fun _ h => h) fun p =>
    Walk.bind (Q := fun _ => Head r)
    (frameNext_head.mono (fun _ h => h) fun _ _ h => h.1) fun q => ?_
  dsimp only
  refine Walk.bind (Q := fun _ => Head r)
    (decode_moves s (fun _ => Decode.sessionPath_eq _ p) fun _ _ h => h) fun path => ?_
  cases path with
  | none => exact finish (-71, none)
  | some x =>
    exact Walk.ite (fun _ => finish (-105, none)) fun _ => finish (0, some (loadN x.1 0 x.2 ++ [0]))

theorem fdIsDevice_rests (fd major minor : Int) : Rests (dbusSessionFdIsDevice fd major minor) :=
  Rests.bind Rests.gets fun _ => Rests.ite (Rests.pure _) (Rests.bind (sysGetfl_rests fd) fun _ =>
    Rests.ite (Rests.pure _) (Rests.ite (Rests.pure _) (Rests.bind (sysStatx_rests fd) fun _ =>
      Rests.ite (Rests.pure _) (Rests.ite (Rests.pure _) (Rests.pure _)))))

/-- Looking at a descriptor waits for nothing. -/
theorem fdIsDevice_ends (fd major minor : Int) : Ends (dbusSessionFdIsDevice fd major minor) :=
  Ends.bind Ends.gets fun _ => Ends.ite (Ends.pure _) (Ends.bind Ends.modifyGet fun _ =>
    Ends.ite (Ends.pure _) (Ends.ite (Ends.pure _) (Ends.bind Ends.modifyGet fun _ =>
      Ends.ite (Ends.pure _) (Ends.ite (Ends.pure _) (Ends.pure _)))))

theorem claim_good {f g : Frame} {i fd : Int} (h : dbusFrameClaimFd f i = (fd, g)) (hf : f.Good) :
    g.Good ∧ dbusFrameCursor g = dbusFrameCursor f ∧ g.eof = f.eof ∧ (fd < 0 → g = f) := by
  unfold dbusFrameClaimFd at h
  split at h
  · cases h
    exact ⟨hf, rfl, rfl, fun _ => rfl⟩
  · split at h
    · cases h
      exact ⟨hf, rfl, rfl, fun _ => rfl⟩
    · next h0 hlen =>
      cases h
      have hi : i.toNat < f.fdq.length := by omega
      refine ⟨⟨⟨hf.ok.off, hf.ok.cap⟩, fun x hx => hf.fds x (List.mem_of_mem_eraseIdx hx)⟩, rfl,
        rfl, fun hneg => ?_⟩
      rw [List.getD_eq_getElem _ _ hi] at hneg
      exact absurd (hf.fds _ (List.getElem_mem hi)) (by omega)

/-- What `dbus_native_take_device` does with the descriptor it claimed. -/
def takeClaimed (major minor : Int) (r inactive : Nat) (fd : Int) : M (Int × Option (Int × Nat)) :=
  if 0 ≤ fd then do
    if ← dbusSessionFdIsDevice fd major minor then
      frameAdvance r
      emit [.handed fd]
      pure (0, some (fd, inactive))
    else
      sysClose fd
      frameAdvance r
      pure (-9, some (-1, inactive))
  else do
    frameAdvance r
    pure (-9, some (fd, inactive))

/-- What it does once it has read the reply. -/
def takeNamed (major minor : Int) (r : Nat) : Option Nat × Nat → M (Int × Option (Int × Nat)) :=
  fun (index, inactive) => do
  let fd ← match index with
    | none => pure (-1)
    | some i => frameClaimFd i
  takeClaimed major minor r inactive fd

/-- Its part after the call. -/
def takeTail (major minor : Int) : M (Int × Option (Int × Nat)) := do
  let p ← Prog.gets (dbusFrameBase ·.fr)
  let r := (← frameNext).len
  let named ← decode fun w => Decode.dbsTakeReply r p w.fr
  takeNamed major minor r named

theorem frameNext_rest {w : World} {r : FrameStatus} (h : AtRest w.fr r) :
    frameNext w = .done r (w.emit [.next r w.fr]) := by
  simp only [frameNext, Prog.modifyGet, h.next]
  rfl

/-- The message at the head is yielded, claimed from and consumed in one move; only
the decoder is at work in between. -/
theorem take_moves {s r : Nat} {w w₀ : World} (h : Head r w)
    (yielded : Unmoved (w.emit [.next (.msg r) w.fr]) w₀ []) (i major minor : Int)
    (inactive : Nat) : ∃ a w',
    (frameClaimFd i >>= takeClaimed major minor r inactive) w₀ = .done a w' ∧
      ReflTransGen (Step s) w w' ∧ w'.fr.Good := by
  obtain ⟨hg, rest⟩ := h
  have hfr : w₀.fr = w.fr := yielded.fr
  have htrace : w₀.trace = w.trace ++ [.next (.msg r) w.fr] := by
    rw [yielded.trace, emit_trace, List.append_nil]
  obtain ⟨fd, g, hc⟩ : ∃ fd g, dbusFrameClaimFd w.fr i = (fd, g) := ⟨_, _, rfl⟩
  obtain ⟨hgood, hcur, heof, hneg⟩ := claim_good hc hg
  have rest' : AtRest g (.msg r) := rest.congr hcur heof
  have claim : frameClaimFd i w₀ = .done fd
    ({ w₀ with fr := g }.emit (if 0 ≤ fd then [Event.claimed fd] else [])) := by
    simp only [frameClaimFd, Prog.modifyGet, hfr, hc]
  rw [bind_done claim, takeClaimed]
  by_cases h0 : 0 ≤ fd
  · simp only [h0, if_true]
    obtain ⟨ok, w₁, look⟩ :=
      fdIsDevice_ends fd major minor ({ w₀ with fr := g }.emit [Event.claimed fd])
    obtain ⟨qs, hq⟩ := fdIsDevice_rests fd major minor ({ w₀ with fr := g }.emit [Event.claimed fd])
    rw [look, Outcome.state_done] at hq
    have seen : Unmoved ({ w with fr := g }.emit [.next (.msg r) w.fr, .claimed fd]) w₁ qs := by
      refine ⟨hq.fr, hq.dbm.trans yielded.dbm, hq.serial.trans yielded.serial,
        hq.closed.trans yielded.closed, hq.inbox.trans yielded.inbox, ?_, hq.quiet⟩
      rw [hq.trace, emit_trace, emit_trace]
      show (w₀.trace ++ _) ++ _ = _
      simp only [htrace, List.append_assoc]
      rfl
    rw [bind_done look]
    have hfr₁ : w₁.fr = g := hq.fr
    subst hfr₁
    have good' : (dbusFrameAdvance w₁.fr r).1.Good := rest'.advance_good hgood
    cases ok with
    | true =>
      refine ⟨_, _, rfl, .single (.take true rest hc h0 seen ?_), good'⟩
      rw [if_pos rfl]
      simp only [advanceEvents, World.emit, List.append_assoc]
    | false =>
      refine ⟨_, _, rfl, .single (.take false rest hc h0 seen ?_), good'⟩
      simp [advanceEvents, World.emit]
  · -- nothing was claimed
    have hgf : g = w.fr := hneg (by omega)
    have same : { w₀ with fr := w.fr } = w₀ := by rw [← hfr]
    simp only [h0, if_false, hgf, emit_nil, same]
    have next : Step s w (w.emit [.next (.msg r) w.fr]) := .next rest (Passed.refl hg.ok.off)
    have rest₀ : AtRest w₀.fr (.msg r) := hfr ▸ rest
    exact ⟨_, _, rfl, ((ReflTransGen.single next).tail (.quiet yielded)).tail (.advance rest₀),
      rest₀.advance_good (hfr ▸ hg)⟩

theorem takeDevice_tail (s r : Nat) (major minor : Int) :
    Walk (Step s) Eq (Head r) (takeTail major minor) fun _ w => w.fr.Good := by
  intro w hw
  obtain ⟨hg, rest⟩ := hw
  obtain ⟨d, read⟩ := decode_run (fun w' => Decode.takeReply_eq r (dbusFrameBase w.fr) w'.fr)
    (w.emit [.next (.msg r) w.fr])
  generalize hw₀ : { w.emit [.next (.msg r) w.fr] with dbu := d } = w₀ at read
  have yielded : Unmoved (w.emit [.next (.msg r) w.fr]) w₀ [] := by
    subst hw₀
    exact {}
  have run : takeTail major minor w =
      takeNamed major minor r (dbsTakeReply r (dbusFrameBase w.fr) w.fr) w₀ := by
    refine Eq.trans (b := (frameNext >>= fun q =>
      decode (fun w' => Decode.dbsTakeReply q.len (dbusFrameBase w.fr) w'.fr) >>=
      takeNamed major minor q.len) w) rfl ?_
    rw [bind_done (frameNext_rest rest)]
    exact bind_done read
  rw [run]
  obtain ⟨index, inactive⟩ := dbsTakeReply r (dbusFrameBase w.fr) w.fr
  have rest₀ : AtRest w₀.fr (.msg r) := yielded.fr.symm ▸ rest
  have good₀ : w₀.fr.Good := yielded.fr.symm ▸ hg
  cases index with
  | none =>
    have next : Step s w (w.emit [.next (.msg r) w.fr]) := .next rest (Passed.refl hg.ok.off)
    exact ⟨((ReflTransGen.single next).tail (.quiet yielded)).tail (.advance rest₀),
      rest₀.advance_good good₀⟩
  | some i =>
    obtain ⟨a, w', claimed, moves, good⟩ :=
      take_moves (s := s) ⟨hg, rest⟩ yielded i major minor inactive
    have done : takeNamed major minor r (some i, inactive) w₀ = .done a w' := claimed
    rw [done]
    exact ⟨moves, good⟩

/-! ## The operations -/

/-- A refused operation. -/
theorem refused_running {α : Type} (op : BusOp) (s : Nat) (a : α) :
    Running op s (fun w => w.fr.Good ∧ op.serial w = s) (pure a : M α) fun _ w => w.fr.Good :=
  .of_walk (Walk.pure fun _ hw => hw.1)

/-- An operation whose reply carries nothing. -/
theorem callAndDone_running (op : BusOp) (bus : Int) (s : Nat) {request : Nat → Marshal}
    (ok : op.accepts = true)
    (hr : ∀ s, request s = op.request s)
    (hs : ∀ w, op.serial w = dbusSessionWrapSerial (w.dbs.serial + 1)) :
    Running op s (fun w => w.fr.Good ∧ op.serial w = s) (dbsCallAndDone bus request) fun _ w =>
    w.fr.Good :=
  ⟨fun w hw => Running.asks ok hr (callAndDone_calling bus s _) (Unmoved.refl w) hw.1
    ((hs w).symm.trans hw.2)⟩

theorem hello_running (bus : Int) (s : Nat) :
    Running .hello s (fun w => w.fr.Good ∧ BusOp.hello.serial w = s) (dbsHello bus) fun _ w =>
    w.fr.Good := by
  refine ⟨fun w hw => Running.asks rfl (fun _ => rfl) ?_ (Unmoved.refl w) hw.1 hw.2⟩
  exact reply_calling bus s _ (fun rc => Walk.pure fun _ h => h) fun r => hello_tail s r

theorem takeDevice_running (sess : Option Bytes) (bus major minor : Int) (s : Nat) :
    Running (.takeDevice sess major minor) s
      (fun w => w.fr.Good ∧ (BusOp.takeDevice sess major minor).serial w = s)
      (dbusNativeTakeDevice bus sess major minor) fun _ w => w.fr.Good := by
  refine ⟨fun w hw => ?_⟩
  obtain ⟨es, hq⟩ := allocOnce_rests .stx w
  obtain ⟨ok, w₀, ha⟩ : ∃ ok w₀, allocOnce .stx w = .done ok w₀ := Ends.modifyGet w
  rw [ha, Outcome.state_done] at hq
  unfold dbusNativeTakeDevice
  rw [bind_done ha]
  have refused (a : Int × Option (Int × Nat)) :
      RanTo (.takeDevice sess major minor) s w (fun _ w => w.fr.Good) (.done a w₀) :=
    .done (.moved (.single (.quiet hq))) (by rw [hq.fr]; exact hw.1)
  cases ok with
  | false => exact refused (-12, none)
  | true =>
    rw [if_pos rfl]
    by_cases hs : dbusSessionSessOk sess = false
    · rw [if_pos hs]
      exact refused (-22, none)
    rw [if_neg hs]
    by_cases hM : dbusSessionDevnumOk major = false
    · rw [if_pos hM]
      exact refused (-22, none)
    rw [if_neg hM]
    by_cases hm : dbusSessionDevnumOk minor = false
    · rw [if_pos hm]
      exact refused (-22, none)
    rw [if_neg hm]
    refine Running.asks ?_ (fun _ => rfl) ?_ hq hw.1 hw.2
    · show (dbusSessionSessOk sess && dbusSessionDevnumOk major && dbusSessionDevnumOk minor) = true
      simp [hs, hM, hm]
    · exact reply_calling bus s _ (fun rc => Walk.pure fun _ h => h) fun r =>
        takeDevice_tail s r major minor

/-- **Every operation** moves, or asks once and moves, and leaves a good framer. -/
theorem body_running (op : BusOp) (bus : Int) (s : Nat) :
    Running op s (fun w => w.fr.Good ∧ op.serial w = s) (op.body bus) fun _ w => w.fr.Good := by
  cases op with
  | hello => exact hello_running bus s
  | sessionPath pid out =>
    refine Running.map (f := Prod.fst) ?_
    cases out with
    | none => exact refused_running _ s _
    | some n =>
      refine Running.ite (fun _ => refused_running _ s _) fun hn => ⟨fun w hw => ?_⟩
      have ok : (BusOp.sessionPath pid (some n)).accepts = true :=
        decide_eq_true (show 0 < n by omega)
      refine Running.asks ok (fun _ => rfl) ?_ (Unmoved.refl w) hw.1 hw.2
      exact reply_calling bus s _ (fun rc => Walk.pure fun _ h => h) fun r => sessionPath_tail s r n
  | takeControl sess =>
    refine Running.ite (fun h => ?_) fun _ => refused_running _ s _
    exact callAndDone_running (.takeControl sess) bus s h (fun _ => rfl) fun _ => rfl
  | releaseControl sess =>
    refine Running.ite (fun h => ?_) fun _ => refused_running _ s _
    exact callAndDone_running (.releaseControl sess) bus s h (fun _ => rfl) fun _ => rfl
  | takeDevice sess major minor => exact Running.map (takeDevice_running sess bus major minor s)
  | releaseDevice sess major minor =>
    refine Running.ite (fun h => Running.ite (fun h' => ?_) fun _ => refused_running _ s _) fun _ =>
      refused_running _ s _
    refine callAndDone_running (.releaseDevice sess major minor) bus s ?_ (fun _ => rfl) fun _ =>
      rfl
    show (dbusSessionSessOk sess && _ && _) = true
    rw [h, Bool.true_and]
    exact h'
  | call m serial =>
    refine ⟨fun w hw => ?_⟩
    obtain ⟨hg, rfl⟩ := hw
    have h := dbusSessionCall_calling bus serial m { w with dbm := m } ⟨hg, rfl⟩
    show RanTo (.call m serial) serial w _ (dbusSessionCall bus serial { w with dbm := m })
    cases e : dbusSessionCall bus serial { w with dbm := m } with
    | done a w' =>
      rw [e] at h
      exact .done (.called rfl h.1) h.2.1
    | waiting w' =>
      rw [e] at h
      exact .waiting (.called rfl h)
  | done =>
    refine .of_walk ?_
    exact Walk.bind (Q := fun _ w => w.fr.Good)
      (dbusSessionDone_moves.mono (fun w hw => hw.1) fun _ _ h => h) fun _ =>
      Walk.pure fun _ h => h
  | pump => exact .of_walk ((pump_moves bus).mono (fun w hw => hw.1) fun _ _ h => h)

/-! ## Runs -/

/-- What a failed Hello leaves queued is closed. -/
def World.dropFds (w : World) : World :=
  { w with fr := (dbusFrameCloseFds w.fr).1 }.emit ((dbusFrameCloseFds w.fr).2.map Event.close)

theorem run_waiting {op : BusOp} {bus : Int} {w w' : World} (h : op.body bus w = .waiting w') :
    op.run bus w = .waiting w' := by
  cases op with
  | hello => exact bind_waiting h
  | _ => exact h

theorem run_done {op : BusOp} {bus rc : Int} {w w' : World} (h : op.body bus w = .done rc w') :
    op.run bus w = .done rc (if op = .hello ∧ rc < 0 then w'.dropFds else w') := by
  cases op with
  | hello =>
    refine Eq.trans (bind_done h) ?_
    by_cases hn : rc < 0
    · rw [if_pos hn, if_pos ⟨rfl, hn⟩]
      rfl
    · rw [if_neg hn, if_neg (fun h => hn h.2)]
      rfl
  | _ =>
    rw [if_neg (fun h => nomatch h.1)]
    exact h

/-- **The induction over runs**: `I past` is kept by whole operations, `past`
being those run so far. It gives `K` where the run ends, after a Hello that failed
too, and `J` where an operation waits. -/
theorem runOps_along (bus : Int) {I J K : List BusOp → World → Prop}
    (hK : ∀ past w, I past w → K past w) (hdrop : ∀ past w, I past w → K past w.dropFds)
    (hran : ∀ past op w w', w.fr.Good → I past w → Ran op (op.serial w) w w' → I (past ++ [op]) w')
    (hpart : ∀ past op w w', w.fr.Good → I past w → RanPart op (op.serial w) w w' →
    J (past ++ [op]) w') : ∀ (ops past : List BusOp), Spec (fun w => w.fr.Good ∧ I past w)
    (runOps bus ops)
      (fun _ w => ∃ past', past' <+: past ++ ops ∧ K past' w) fun w =>
      ∃ past', past' <+: past ++ ops ∧ J past' w
  | [], past => Spec.pure fun w hw => ⟨past, List.prefix_append past [], hK past w hw.2⟩
  | op :: rest, past => by
    have done : past ++ [op] <+: past ++ op :: rest := ⟨rest, by simp⟩
    refine Spec.bind (Q := fun rc w => if op = .hello ∧ rc < 0 then K (past ++ [op]) w
      else w.fr.Good ∧ I (past ++ [op]) w) ?_ fun rc => Spec.ite (fun hf => Spec.pure fun w hw =>
        ?_) fun hf => ?_
    · rintro w ⟨hg, hw⟩
      have h := (body_running op bus (op.serial w)).ends w ⟨hg, rfl⟩
      generalize ho : op.body bus w = o at h
      cases h with
      | waiting h =>
        rw [run_waiting ho]
        exact ⟨past ++ [op], done, hpart past op w _ hg hw h⟩
      | @done rc w₁ h hg₁ =>
        have hw₁ := hran past op w w₁ hg hw h
        rw [run_done ho]
        show if op = .hello ∧ rc < 0 then _ else _
        by_cases hf : op = .hello ∧ rc < 0
        · rw [if_pos hf, if_pos hf]
          exact hdrop _ w₁ hw₁
        · rw [if_neg hf, if_neg hf]
          exact ⟨hg₁, hw₁⟩
    · rw [if_pos hf] at hw
      exact ⟨past ++ [op], done, hw⟩
    · have ih := runOps_along bus hK hdrop hran hpart rest (past ++ [op])
      rw [List.append_assoc] at ih
      refine Spec.bind (ih.mono (fun w hw => ?_) (fun _ _ h => h) fun _ h => h) fun rcs =>
        Spec.pure fun _ h => h
      rwa [if_neg hf] at hw

/-- The same, for what holds whatever has been run. -/
theorem runOps_inv (bus : Int) {I J : World → Prop} (hIJ : ∀ w, I w → J w)
    (hran : ∀ op w w', w.fr.Good → I w → Ran op (op.serial w) w w' → I w')
    (hpart : ∀ op w w', w.fr.Good → I w → RanPart op (op.serial w) w w' → J w')
    (hdrop : ∀ w, I w → J w.dropFds) (ops : List BusOp) (w : World) (hg : w.fr.Good) (hw : I w) :
    J (runOps bus ops w).state := by
  have h := runOps_along bus (I := fun _ => I) (J := fun _ => J) (K := fun _ => J) (fun _ => hIJ)
    (fun _ => hdrop) (fun _ => hran) (fun _ => hpart) ops [] w ⟨hg, hw⟩
  cases e : runOps bus ops w with
  | done rcs w' =>
    rw [e] at h
    obtain ⟨_, -, hj⟩ := h
    exact hj
  | waiting w' =>
    rw [e] at h
    obtain ⟨_, -, hj⟩ := h
    exact hj

/-! ## Accounts

An account is a predicate of the framer and the events so far. -/

/-- Every move keeps the account. -/
structure Account (K : Frame → List Event → Prop) : Prop where
  step : ∀ {s w w' es}, Step s w w' → K w.fr es → ∃ es', w'.trace = w.trace ++ es' ∧
    K w'.fr (es ++ es')
  offers : ∀ {f es es'}, K f es → (∀ e ∈ es', e.offers = true) → K f (es ++ es')

namespace Account
variable {K J : Frame → List Event → Prop}

theorem moves (h : Account K) {s : Nat} {w w' : World} {es : List Event}
    (hw : ReflTransGen (Step s) w w') (hk : K w.fr es) : ∃ es', w'.trace = w.trace ++ es' ∧
    K w'.fr (es ++ es') := by
  induction hw with
  | refl => exact ⟨[], (List.append_nil _).symm, by rwa [List.append_nil]⟩
  | tail _ last ih =>
    obtain ⟨es₁, ht₁, hk₁⟩ := ih
    obtain ⟨es₂, ht₂, hk₂⟩ := h.step last hk₁
    exact ⟨es₁ ++ es₂, by rw [ht₂, ht₁, List.append_assoc], by rwa [← List.append_assoc]⟩

theorem sent (h : Account K) {buf : Bytes} {n : Nat} {w w' : World} {es qs : List Event}
    (hs : Sent buf n w w' qs) (hk : K w.fr es) : ∃ es', w'.trace = w.trace ++ es' ∧
    K w'.fr (es ++ es') :=
  ⟨qs, hs.trace, hs.fr ▸ h.offers hk hs.events⟩

theorem wrote (h : Account K) {buf : Bytes} {rc : Int} {w w' : World} {es : List Event}
    (hs : Wrote buf w rc w') (hk : K w.fr es) : ∃ es', w'.trace = w.trace ++ es' ∧
    K w'.fr (es ++ es') := by
  cases hs with
  | all hs => exact h.sent hs hk
  | stopped hs _ =>
    have := h.sent hs hk
    exact this

/-- An account kept by two stretches of a run is kept by both together. -/
theorem chain {w w₁ w' : World} {es : List Event}
    (h₁ : ∃ es', w₁.trace = w.trace ++ es' ∧ K w₁.fr (es ++ es'))
    (h₂ : ∀ {es}, K w₁.fr es → ∃ es', w'.trace = w₁.trace ++ es' ∧ K w'.fr (es ++ es')) :
    ∃ es', w'.trace = w.trace ++ es' ∧ K w'.fr (es ++ es') := by
  obtain ⟨es₁, ht₁, hk₁⟩ := h₁
  obtain ⟨es₂, ht₂, hk₂⟩ := h₂ hk₁
  exact ⟨es₁ ++ es₂, by rw [ht₂, ht₁, List.append_assoc], by rwa [← List.append_assoc]⟩

theorem calls (h : Account K) {s : Nat} {m : Marshal} {w w' : World} {es : List Event}
    (hc : Calls s m w w') (hk : K w.fr es) : ∃ es', w'.trace = w.trace ++ es' ∧
    K w'.fr (es ++ es') := by
  cases hc with
  | unsent hw => exact h.moves hw hk
  | sent before hbad hopen hw after =>
    exact chain (chain (h.moves before hk) (h.wrote hw)) (h.moves after)

theorem callsPart (h : Account K) {s : Nat} {m : Marshal} {w w' : World} {es : List Event}
    (hc : CallsPart s m w w') (hk : K w.fr es) : ∃ es', w'.trace = w.trace ++ es' ∧
    K w'.fr (es ++ es') := by
  cases hc with
  | between hc => exact h.calls hc hk
  | sending before hbad hopen hs hlt => exact chain (h.moves before hk) (h.sent hs)

theorem asked (h : Account K) {w w₀ w' : World} {es qs : List Event} {s : Nat} {m : Marshal}
    (hq : Unmoved w w₀ qs)
    (hc : ∀ {es}, K (w₀.asking s m).fr es → ∃ es', w'.trace = (w₀.asking s m).trace ++ es' ∧
    K w'.fr (es ++ es')) (hk : K w.fr es) : ∃ es', w'.trace = w.trace ++ es' ∧
    K w'.fr (es ++ es') :=
  have start : ∃ es', (w₀.asking s m).trace = w.trace ++ es' ∧ K (w₀.asking s m).fr (es ++ es') :=
    ⟨qs, hq.trace, show K w₀.fr _ from hq.fr ▸ h.offers hk hq.offers⟩
  chain start hc

theorem ran (h : Account K) {op : BusOp} {s : Nat} {w w' : World} {es : List Event}
    (hr : Ran op s w w') (hk : K w.fr es) : ∃ es', w'.trace = w.trace ++ es' ∧
    K w'.fr (es ++ es') := by
  cases hr with
  | moved hw => exact h.moves hw hk
  | asked ok hq hc => exact h.asked hq (h.calls hc) hk
  | @called m hop hc => exact h.calls (w := { w with dbm := m }) hc hk

theorem ranPart (h : Account K) {op : BusOp} {s : Nat} {w w' : World} {es : List Event}
    (hr : RanPart op s w w') (hk : K w.fr es) : ∃ es', w'.trace = w.trace ++ es' ∧
    K w'.fr (es ++ es') := by
  cases hr with
  | moved hw => exact h.moves hw hk
  | asked ok hq hc => exact h.asked hq (h.callsPart hc) hk
  | @called m hop hc => exact h.callsPart (w := { w with dbm := m }) hc hk

/-- **An account kept by every move is kept by every run**; `J` is what is left
of it when a failed Hello closes the queue. -/
theorem run (h : Account K) (bus : Int) (hJ : ∀ {f es}, K f es → J f es)
    (hdrop : ∀ {f es}, K f es → J (dbusFrameCloseFds f).1
    (es ++ (dbusFrameCloseFds f).2.map Event.close)) (ops : List BusOp) {w : World}
    {es : List Event} (hg : w.fr.Good) (hk : K w.fr es) :
    ∃ es', (runOps bus ops w).state.trace = w.trace ++ es' ∧ J (runOps bus ops w).state.fr
    (es ++ es') := by
  refine runOps_inv bus (I := fun w' => ∃ es', w'.trace = w.trace ++ es' ∧ K w'.fr (es ++ es'))
    (J := fun w' => ∃ es', w'.trace = w.trace ++ es' ∧ J w'.fr (es ++ es')) ?_ ?_ ?_ ?_ ops w hg
    ⟨[], (List.append_nil _).symm, by rwa [List.append_nil]⟩
  · rintro w' ⟨es', ht, hk⟩
    exact ⟨es', ht, hJ hk⟩
  · intro op w₁ w₂ _ hw hr
    exact chain hw (h.ran hr)
  · intro op w₁ w₂ _ hw hr
    obtain ⟨es', ht, hk⟩ := chain hw (h.ranPart hr)
    exact ⟨es', ht, hJ hk⟩
  · rintro w₁ ⟨es', ht, hk⟩
    refine ⟨es' ++ (dbusFrameCloseFds w₁.fr).2.map Event.close, ?_, ?_⟩
    · show w₁.trace ++ _ = _
      rw [ht, List.append_assoc]
    · rw [← List.append_assoc]
      exact hdrop hk

end Account

end Samvada
