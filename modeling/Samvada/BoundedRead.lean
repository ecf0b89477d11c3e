import Samvada.Wire

/- The bounds that a read keeps. Whatever order the framer's functions are called in,
   the cursor stays inside the buffer and the descriptors inside their queue; and while
   a message is incomplete there is something to ask for, room for it, and it is that
   message's. So no call and no pump takes the branch of a receive that has nothing
   to ask for. -/
namespace Samvada
open Octets Framing Resumable Resumable.Prog

/-! ## The states -/

/-- The framers that the functions of `dbus_frame.cyr` and `_dbs_recv` lead to, in any
order and with any answers of the kernel, with how many descriptors of the head message
have been claimed: that count starts again with `fd_total`. -/
inductive Reached : Frame → Nat → Prop where
  | init (f : Frame) : Reached (dbusFrameInit f).1 0
  | commit {f : Frame} {c : Nat} {d : Bytes} (h : Reached f c)
      (room : d.length ≤ dbusFrameSpace f) :
    Reached (dbusFrameCommit f d) c
  | consume {f : Frame} {c : Nat} (h : Reached f c) (n : Nat) : Reached (dbusFrameConsume f n) c
  | recv {w : World} {c : Nat} (h : Reached w.fr c) (fd : Int) (flags : Nat) :
      Reached (dbsRecv fd flags w).state.fr c
  | next {f : Frame} {c : Nat} (h : Reached f c) :
    Reached (dbusFrameNext f).2.1 (if (dbusFrameNext f).2.1.fdtot = 0 then 0 else c)
  | advance {f : Frame} {c : Nat} (h : Reached f c) (n : Nat) : Reached (dbusFrameAdvance f n).1
      (if n = 0 then c else 0)
  | claim {f : Frame} {c : Nat} (h : Reached f c) (i : Int) :
    Reached (dbusFrameClaimFd f i).2 (if (dbusFrameClaimFd f i).1 < 0 then c else c + 1)
  | close {f : Frame} {c : Nat} (h : Reached f c) : Reached (dbusFrameCloseFds f).1 0

/-- The framer's bounds, with `c` descriptors claimed. -/
structure Fitting (f : Frame) (c : Nat) : Prop where
  ok : f.Ok
  fds : ∀ fd ∈ f.fdq, 0 ≤ fd
  queued : f.fdq.length ≤ 8
  counted : f.fdq.length + c ≤ f.fdtot

section
variable {f g : Frame} {c : Nat}

theorem Fitting.good (h : Fitting f c) : f.Good := ⟨h.ok, h.fds⟩

/-- The descriptors as they were. -/
theorem Fitting.buffer (h : Fitting f c) (hg : g.Ok) (hq : g.fdq = f.fdq) (ht : g.fdtot = f.fdtot) :
    Fitting g c := by
  refine ⟨hg, ?_, ?_, ?_⟩
  · rw [hq]
    exact h.fds
  · rw [hq]
    exact h.queued
  · rw [hq, ht]
    exact h.counted

/-- No descriptor, and none counted. -/
theorem Fitting.none (hg : g.Ok) (hq : g.fdq = []) : Fitting g 0 := by
  refine ⟨hg, ?_, ?_, ?_⟩
  · simp [hq]
  · simp [hq]
  · simp [hq]

theorem Fitting.commit {d : Bytes} (h : Fitting f c) (room : d.length ≤ dbusFrameSpace f) :
    Fitting (dbusFrameCommit f d) c := by
  have cap := h.ok.cap
  simp only [dbusFrameSpace, dbusFrameCap] at room
  exact h.buffer (commit_good h.good (by omega)).ok rfl rfl

theorem Fitting.next (h : Fitting f c) : Fitting (dbusFrameNext f).2.1
    (if (dbusFrameNext f).2.1.fdtot = 0 then 0 else c) := by
  obtain ⟨r, g, closed, e, -, pass⟩ := dbusFrameNext_passed h.ok.off
  rw [e]
  have ok := pass.ok h.ok
  obtain ⟨hq, ht, -⟩ | ⟨hq, ht, -⟩ := pass.fds
  · have same := h.buffer ok hq ht
    dsimp only
    split_ifs with zero
    · -- nothing arrived, so nothing is queued or claimed
      have counted := same.counted
      exact Fitting.none ok (List.eq_nil_of_length_eq_zero (by omega))
    · exact same
  · dsimp only
    rw [if_pos ht]
    exact Fitting.none ok hq

theorem Fitting.advance (h : Fitting f c) (n : Nat) : Fitting (dbusFrameAdvance f n).1
    (if n = 0 then c else 0) := by
  unfold dbusFrameAdvance
  split_ifs with zero
  · exact h
  · exact Fitting.none ⟨Nat.min_le_right _ _, h.ok.cap⟩ rfl

theorem Fitting.claim (h : Fitting f c) (i : Int) :
    Fitting (dbusFrameClaimFd f i).2 (if (dbusFrameClaimFd f i).1 < 0 then c else c + 1) := by
  have none : (-1 : Int) < 0 := by decide
  unfold dbusFrameClaimFd
  by_cases h0 : i < 0
  · rw [if_pos h0, if_pos none]
    exact h
  rw [if_neg h0]
  by_cases past : (f.fdq.length : Int) ≤ i
  · rw [if_pos past, if_pos none]
    exact h
  rw [if_neg past]
  have within : i.toNat < f.fdq.length := by omega
  have there : ¬ f.fdq.getD i.toNat (-1) < 0 := by
    rw [List.getD_eq_getElem _ _ within]
    exact Int.not_lt.mpr (h.fds _ (List.getElem_mem within))
  rw [if_neg there]
  have len : (f.fdq.eraseIdx i.toNat).length = f.fdq.length - 1 := List.length_eraseIdx_of_lt within
  have counted := h.counted
  have queued := h.queued
  refine ⟨⟨h.ok.off, h.ok.cap⟩, fun x hx => h.fds x (List.mem_of_mem_eraseIdx hx), ?_, ?_⟩
  · show (f.fdq.eraseIdx i.toNat).length ≤ 8
    omega
  · show (f.fdq.eraseIdx i.toNat).length + (c + 1) ≤ f.fdtot
    omega

theorem Fitting.push (h : Fitting f c) (fd : Int) : Fitting (dbusFramePushFd f fd).1 c := by
  have good : (dbusFramePushFd f fd).1.Good := pushFd_good h.good
  have counted := h.counted
  have queued := h.queued
  revert good
  unfold dbusFramePushFd
  split_ifs with neg passing full
  · exact fun _ => h
  · exact fun _ => h
  · refine fun good => ⟨good.ok, good.fds, h.queued, ?_⟩
    show f.fdq.length + c ≤ f.fdtot + 1
    omega
  · refine fun good => ⟨good.ok, good.fds, ?_, ?_⟩
    · simp only [dbusFrameFdqCap] at full
      show (f.fdq ++ [fd]).length ≤ 8
      rw [List.length_append, List.length_singleton]
      omega
    · show (f.fdq ++ [fd]).length + c ≤ f.fdtot + 1
      rw [List.length_append, List.length_singleton]
      omega

theorem Queued.fitting {fds moved : List Int} {es : List Event} (hq : Queued f fds moved es g)
    (h : Fitting f c) : Fitting g c := by
  induction hq with
  | nil => exact h
  | keep _ _ ih => exact ih (h.push _)
  | move _ _ _ ih => exact ih (h.push _)

theorem Fitting.incomplete (h : Fitting f c) (trunc : Bool) :
    Fitting (if trunc then dbusFrameFdsIncomplete f else f) c := by
  unfold dbusFrameFdsIncomplete
  split_ifs
  · exact h
  · exact h.buffer ⟨h.ok.off, h.ok.cap⟩ rfl rfl
  · exact h

/-- **One receive keeps the bounds**, whatever the kernel answers. -/
theorem Fitting.recv {w : World} (h : Fitting w.fr c) (fd : Int) (flags : Nat) :
    Fitting (dbsRecv fd flags w).state.fr c := by
  obtain ⟨want, g, e, prepared, -⟩ := dbusFramePrepare_spec h.ok
  have ready : Fitting g c := by
    have room := prepared.room
    exact h.buffer ⟨prepared.off_ok, by omega⟩ prepared.fdq prepared.fdtot
  have prepare : framePrepare w = .done want { w with fr := g } := by
    rw [framePrepare, modifyGet_run, e]
  rw [dbsRecv, bind_done prepare]
  by_cases zero : want = 0
  · rw [if_pos zero]
    exact ready.buffer ⟨ready.ok.off, ready.ok.cap⟩ rfl rfl
  rw [if_neg zero]
  obtain waits | ⟨n, d, anc, trunc, w₁, run, got⟩ :=
    sysRecv_run (show 0 < want by omega) fd flags { w with fr := g }
  · rw [bind_waiting waits]
    exact ready
  rw [bind_done run]
  have same : Fitting w₁.fr c := got.fr ▸ ready
  dsimp only
  by_cases neg : n < 0
  · rw [if_pos neg]
    exact same
  rw [if_neg neg]
  by_cases closed : n = 0
  · rw [if_pos closed]
    exact same.buffer ⟨same.ok.off, same.ok.cap⟩ rfl rfl
  rw [if_neg closed]
  -- bytes were received: they fit, and what they brought is queued
  obtain ⟨-, len⟩ := got.some (show 0 < n by omega)
  have room : d.length ≤ dbusFrameSpace w₁.fr := by
    have room := prepared.room
    rw [got.fr]
    simp only [dbusFrameSpace, dbusFrameCap]
    omega
  obtain ⟨moved, es, w₂, queue, hq, -⟩ :=
    queueFds_run w₁.rx { w₁ with fr := dbusFrameCommit w₁.fr d }
  have run₂ : dbsQueueFds w₁.rx { w₁ with fr := dbusFrameCommit w₁.fr d } = .done moved w₂ := queue
  show Fitting ((dbsQueueFds w₁.rx >>= _) { w₁ with fr := dbusFrameCommit w₁.fr d }).state.fr c
  rw [bind_done run₂]
  exact (hq.fitting (same.commit room)).incomplete w₂.rxtrunc

/-- **The bounds hold in every state.** -/
theorem Reached.fitting (h : Reached f c) : Fitting f c := by
  induction h with
  | init f => exact Fitting.none ⟨Nat.le_refl _, Nat.zero_le _⟩ rfl
  | commit _ room ih => exact ih.commit room
  | consume _ n ih => exact ih.buffer ⟨Nat.min_le_right _ _, ih.ok.cap⟩ rfl rfl
  | recv _ fd flags ih => exact ih.recv fd flags
  | next _ ih => exact ih.next
  | advance _ n ih => exact ih.advance n
  | claim _ i ih => exact ih.claim i
  | close _ ih => exact Fitting.none ⟨ih.ok.off, ih.ok.cap⟩ rfl

end

/-! ## The recursion -/

/-- `dbus_frame_next` with its recursive call left open. -/
def dbusFrameNextWith (again : Frame → FrameStatus × Frame × List Int) (f : Frame) :
    FrameStatus × Frame × List Int :=
  let f0 := dbusFrameDrain f
  if 0 < f0.skip then (dbusFrameShort f0 .truncated, f0, [])
  else
    let (f1, closed) := if 0 < f.skip then dbusFrameCloseFds f0 else (f0, [])
    let avail := dbusFrameHave f1
    if avail = 0 then (dbusFrameShort f1 .eof, f1, closed)
    else if avail < dbusFrameHdrSize then (dbusFrameShort f1 .truncated, f1, closed)
    else match dbusFrameTotal (dbusFrameBase f1) avail with
      | .msg total =>
        if dbusFrameMsgMax ≤ total then (.toolong, f1, closed)
        else if dbusFrameCap < total then
          let (f2, closed') := dbusFrameCloseFds f1
          let (r, f3, closed'') := again { f2 with skip := total }
          (r, f3, closed ++ closed' ++ closed'')
        else if avail < total then (dbusFrameShort f1 .truncated, f1, closed)
        else (.msg total, f1, closed)
      | bad => (bad, f1, closed)

theorem nextN_with (n : Nat) (f : Frame) : dbusFrameNextN (n + 1) f = dbusFrameNextWith
    (dbusFrameNextN n) f := rfl

/-- While a message is being drained there is no recursive call. -/
theorem nextWith_draining {again : Frame → FrameStatus × Frame × List Int} {f : Frame}
    (h : 0 < (dbusFrameDrain f).skip) :
    dbusFrameNextWith again f = (dbusFrameShort (dbusFrameDrain f) .truncated, dbusFrameDrain f,
    []) := if_pos h

/-- The recursive call is made with a message to drain that is longer than the buffer. -/
theorem nextWith_congr {F G : Frame → FrameStatus × Frame × List Int}
    (h : ∀ g, 0 < (dbusFrameDrain g).skip → F g = G g) {f : Frame} (hf : f.Ok) :
    dbusFrameNextWith F f = dbusFrameNextWith G f := by
  unfold dbusFrameNextWith
  by_cases draining : 0 < (dbusFrameDrain f).skip
  · simp only [if_pos draining]
  simp only [if_neg draining]
  generalize hp :
    (if 0 < f.skip then dbusFrameCloseFds (dbusFrameDrain f) else (dbusFrameDrain f, [])) = p
  have buf : p.1.buf = f.buf := by
    rw [← hp]
    split
    · rfl
    · rfl
  obtain ⟨f1, closed⟩ := p
  dsimp only at buf ⊢
  split
  · rfl
  split
  · rfl
  split
  · next total _ =>
    split
    · rfl
    split
    · next beyond =>
      have long : 0 < (dbusFrameDrain { (dbusFrameCloseFds f1).1 with skip := total }).skip := by
        have cap := hf.cap
        rw [← buf] at cap
        simp only [dbusFrameCap] at beyond
        simp only [dbusFrameDrain, dbusFrameHave, dbusFrameCloseFds]
        omega
      rw [h _ long]
    · rfl
  · rfl

/-- **The recursion is one level deep**: what a second recursive call would do is not asked. -/
theorem next_oneLevel (again : Frame → FrameStatus × Frame × List Int) {f : Frame} (hf : f.Ok) :
    dbusFrameNextWith (dbusFrameNextWith again) f = dbusFrameNext f := by
  show _ = dbusFrameNextWith (dbusFrameNextWith (dbusFrameNextN (dbusFrameHave f))) f
  refine nextWith_congr (fun g draining => ?_) hf
  rw [nextWith_draining draining, nextWith_draining draining]

/-! ## What is asked for -/

/-- The next `n` bytes of the stream belong to what is at the head: an over-cap message
being drained, a header, or a message whose header is there. -/
inductive Belongs (f : Frame) (n : Nat) : Prop where
  | drained (hs : 0 < f.skip) (h : dbusFrameReceived f + n ≤ dbusFramePos f + f.skip)
  | header (hs : f.skip = 0) (h : dbusFrameReceived f + n ≤ dbusFramePos f + 16)
  | message (t : Nat) (hs : f.skip = 0) (hh : 16 ≤ dbusFrameHave f)
    (ht : dbusFrameTotal (dbusFrameBase f) (dbusFrameHave f) = .msg t)
    (h : dbusFrameReceived f + n ≤ dbusFramePos f + t)

theorem AtRest.belongs {f : Frame} (ho : f.off ≤ f.buf.length) (rest : AtRest f .needMore) {n : Nat}
    (hn : n ≤ dbusFrameWant f) : Belongs f n := by
  have within := rest.want.2.2
  have received := received_eq ho
  have upTo : dbusFrameReceived f + n ≤ dbusFrameReach f := by omega
  generalize hr : FrameStatus.needMore = r at rest
  cases rest with
  | draining hs hh =>
    rw [reach_skip hs] at upTo
    exact .drained hs upTo
  | empty hs hh => exact .header hs (by simpa [dbusFrameReach, hs, hh] using upTo)
  | header hs h0 hh => exact .header hs (by simpa [dbusFrameReach, hs, hh] using upTo)
  | body t hs hh ht hc hl =>
    rw [reach_total hs hh ht] at upTo
    exact .message t hs hh (dbusFrameTotal_ok hh ht).1 upTo
  | whole t => cases hr
  | bad e => cases e <;> cases hr

/-! ## The branch with nothing to ask for -/

/-- `_dbs_recv`, with `fake` in place of the end of stream that it reports when there is
nothing to ask for. -/
def dbsRecvOr (fake : M Int) (fd : Int) (flags : Nat) : M Int := do
  let want ← framePrepare
  if want = 0 then fake
  else do
    let (got, d) ← dbusSysRecv fd want flags
    if got < 0 then pure got
    else if got = 0 then do
      frameSetEof
      pure 0
    else do
      let pos ← Prog.gets (dbusFrameReceived ·.fr)
      frameCommit d
      let rx ← Prog.gets (·.rx)
      let moved ← dbsQueueFds rx
      let trunc ← Prog.gets (·.rxtrunc)
      Prog.modify fun w => { w with fr := if trunc then dbusFrameFdsIncomplete w.fr else w.fr }
      emit [.received pos d.length moved trunc]
      pure got

theorem dbsRecv_or : dbsRecv = dbsRecvOr (do frameSetEof; pure 0) := rfl

section
variable (recv : Int → Nat → M Int)

/-! The functions that receive, over the receive they make. -/

def dbsReceiveBy (fd : Int) (flags : Nat) (deadline : Int) (reads : Nat) : M (Nat ⊕ Int) := do
  let got ← recv fd flags
  if got = -4 then pure (.inl reads)
  else if got = dbusSessionEagain then
    if 0 < deadline then pure (.inl reads) else pure (.inr (-110))
  else if got < 0 then .inr <$> dbsIoFail got
  else pure (.inl reads)

def dbsAwaitRoundBy (fd : Int) (serial wm : Nat) (deadline : Int) (reads : Nat) :
    M (Nat ⊕ Int) := do
  match ← dbsScan serial wm with
  | .answered rc => pure (.inr rc)
  | .stopped r => do
    let fault ← dbsFrameFault r
    if fault < 0 then pure (.inr fault)
    else if 0 < deadline then do
      match ← dbsWaitReadable fd deadline with
      | .timedOut => pure (.inr (-110))
      | .again => pure (.inl reads)
      | .failed e => .inr <$> dbsIoFail e
      | .ready => dbsReceiveBy recv fd dbusSysMsgDontwait deadline reads
    else if dbusSessionReadBackstop < reads + 1 then pure (.inr (-110))
    else dbsReceiveBy recv fd 0 deadline (reads + 1)

def dbusSessionCallBy (fd : Int) (serial : Nat) : M Int := do
  let m ← Prog.gets (·.dbm)
  let closed ← Prog.gets (·.dbs.closed)
  if m.bad then pure (-22)
  else if closed then pure (-107)
  else do
    let lost ← frameNext
    let lf ← dbsFrameFault lost
    if lf < 0 then pure lf
    else do
      let wm ← Prog.gets (dbusFrameReceived ·.fr)
      let t0 ← dbusSessionNowMs
      let timeout ← Prog.gets (·.dbs.timeoutMs)
      let deadline := if 0 ≤ t0 then int64 (t0 + timeout) else 0
      let n ← dbsWrite fd m.buf deadline
      if n = -110 then pure (-110)
      else if n < 0 then dbsIoFail n
      else Prog.loop World.fuel (dbsAwaitRoundBy recv fd serial wm deadline) 0

def dbsPumpRoundBy (bus : Int) (c : Nat × Nat) : M ((Nat × Nat) ⊕ Int) := do
  let (drained, r) ← dbsDrain c.1
  if 256 ≤ drained then pure (.inr drained)
  else if r = .needMore ∧ 2 < bus ∧ c.2 < 1024 then do
    let got ← recv bus dbusSysMsgDontwait
    if 0 ≤ got then pure (.inl (drained, c.2 + 1))
    else if got = dbusSessionEagain ∨ got = -4 then .inr <$> dbsPumpResult drained r 0
    else do
      let io ← dbsIoFail got
      .inr <$> dbsPumpResult drained r io
  else .inr <$> dbsPumpResult drained r 0

def dbusNativePumpSignalsBy (bus : Int) : M Int :=
  Prog.loop World.fuel (dbsPumpRoundBy recv bus) (0, 0)

end

theorem call_by (fd : Int) (serial : Nat) : dbusSessionCall fd serial = dbusSessionCallBy dbsRecv
    fd serial := rfl

theorem pump_by (bus : Int) : dbusNativePumpSignals bus = dbusNativePumpSignalsBy dbsRecv bus := rfl

section
variable (fake : M Int)

/-- Where more is needed, a receive has something to ask for. -/
theorem recv_replaces (fd : Int) (flags : Nat) :
    Replaces (fun w => w.fr.Good ∧ AtRest w.fr .needMore) (dbsRecv fd flags)
    (dbsRecvOr fake fd flags) fun _ w => w.fr.Good := by
  refine Replaces.ends (B := fun _ _ => True) (fun w h => ⟨?_, fun _ _ _ => trivial⟩)
    (dbsRecv_moves (s := 0) fd flags).spec
  obtain ⟨n, g, e, -, some⟩ := dbusFramePrepare_spec h.1.ok
  obtain ⟨want, room, -⟩ := h.2.want
  have prepare : framePrepare w = .done n { w with fr := g } := by
    rw [framePrepare, modifyGet_run, e]
  have asks : n ≠ 0 := by
    have := some want room
    omega
  rw [dbsRecv, dbsRecvOr, bind_done prepare, bind_done prepare, if_neg asks, if_neg asks]

/-- A round goes on only with a good framer. -/
def GoesOn {β : Type} : β ⊕ Int → World → Prop
  | .inl _, w => w.fr.Good
  | .inr _, _ => True

theorem GoesOn.of_round {β : Type} {r : β ⊕ Int} {w : World} (h : Round r w.fr) : GoesOn r w := by
  cases r with
  | inl b => exact h
  | inr rc => trivial

theorem receive_replaces (fd : Int) (flags : Nat) (deadline : Int) (reads : Nat) :
    Replaces (fun w => w.fr.Good ∧ AtRest w.fr .needMore)
    (dbsReceiveBy dbsRecv fd flags deadline reads)
      (dbsReceiveBy (dbsRecvOr fake) fd flags deadline reads) GoesOn := by
  refine Replaces.ends (B := fun _ _ => True) ?_
    ((dbsReceive_moves (s := 0) fd flags deadline reads).spec.mono (fun _ h => h)
    (fun _ _ h => .of_round h) fun _ h => h)
  exact Replaces.bind (recv_replaces fake fd flags) fun got => Replaces.refl Spec.any

/-- A program that ends the round, whatever it does. -/
theorem stops {P : World → Prop} (x : M Int) : Replaces P (.inr <$> x : M (Nat ⊕ Int))
    (.inr <$> x) GoesOn :=
  Replaces.refl (W := fun _ => True)
    (Spec.map (Spec.any.mono (fun _ h => h) (fun _ _ _ => trivial) fun _ h => h))

theorem awaitRound_replaces (fd : Int) (serial wm : Nat) (deadline : Int) (reads : Nat) :
    Replaces (fun w => w.fr.Good) (dbsAwaitRoundBy dbsRecv fd serial wm deadline reads)
      (dbsAwaitRoundBy (dbsRecvOr fake) fd serial wm deadline reads) GoesOn := by
  have ends {P : World → Prop} (rc : Int) : Replaces P (pure (.inr rc) : M (Nat ⊕ Int))
    (pure (.inr rc)) GoesOn :=
    Replaces.refl (W := fun _ => True) (Spec.pure fun _ _ => trivial)
  refine Replaces.bind (Replaces.refl (dbsScan_moves serial wm).spec) fun s => ?_
  cases s with
  | answered rc => exact ends rc
  | stopped r =>
    refine Replaces.bind
      (Replaces.refl
      (dbsFrameFault_moves (s := 0) (P := fun f => f.Good ∧ AtRest f r ∧ ∀ t, r ≠ .msg t) r).spec)
      fun fault => Replaces.ite (fun _ => ends fault) fun sound => ?_
    -- no fault and no message, so more is needed
    refine Replaces.mono (A := fun w => w.fr.Good ∧ AtRest w.fr .needMore) (B := GoesOn) ?_
      (fun w h => ?_) fun _ _ h => h
    · refine Replaces.ite (fun _ => ?_) fun _ => Replaces.ite (fun _ => ends _) fun _ =>
        receive_replaces fake fd 0 deadline _
      refine Replaces.bind
        (Replaces.refl (dbsWaitReadable_moves (s := 0) (P := fun f => f.Good ∧ AtRest f .needMore)
        fd deadline).spec) fun wait => ?_
      cases wait with
      | timedOut => exact ends _
      | again => exact Replaces.refl (W := fun _ => True) (Spec.pure fun _ h => h.1.1)
      | failed e => exact stops (dbsIoFail e)
      | ready =>
        exact (receive_replaces fake fd _ deadline reads).mono (fun _ h => h.1) fun _ _ h => h
    · obtain ⟨⟨good, rest, noMsg⟩, only⟩ := h
      obtain rfl | ⟨t, rfl⟩ := only sound
      · exact ⟨good, rest⟩
      · exact absurd rfl (noMsg t)

theorem dbsWrite_good (fd : Int) (buf : Bytes) (deadline : Int) :
    Spec (fun w => w.fr.Good) (dbsWrite fd buf deadline) (fun _ w => w.fr.Good) fun _ => True := by
  intro w h
  have run := dbsWrite_spec fd buf deadline w w rfl
  cases hx : dbsWrite fd buf deadline w with
  | waiting w' => trivial
  | done n w' =>
    rw [hx] at run
    cases run with
    | all sent =>
      show w'.fr.Good
      rwa [sent.fr]
    | @stopped w₁ _ _ _ sent _ =>
      show w₁.fr.Good
      rwa [sent.fr]

/-- **A call never has nothing to ask for.** -/
theorem call_replaces (fd : Int) (serial : Nat) : Replaces (fun w => w.fr.Good)
    (dbusSessionCall fd serial) (dbusSessionCallBy (dbsRecvOr fake) fd serial) fun _ _ => True := by
  have any {P : World → Prop} (x : M Int) : Replaces P x x fun _ _ => True := Replaces.refl Spec.any
  have reads {γ : Type} (f : World → γ) : Replaces (fun w => w.fr.Good) (Prog.gets f) (Prog.gets f)
    fun _ w => w.fr.Good :=
    Replaces.refl (W := fun _ => True) (Spec.gets fun _ h => h)
  have still {α : Type} {x : M α} (h : Moves 0 Frame.Good x fun _ => Frame.Good) :
      Replaces (fun w => w.fr.Good) x x fun _ w => w.fr.Good := Replaces.refl h.spec
  rw [call_by]
  refine (reads _).bind fun m => (reads _).bind fun closed => Replaces.ite (fun _ => any _) fun _ =>
    Replaces.ite (fun _ => any _) fun _ => ?_
  refine Replaces.bind (still (frameNext_moves.mono (fun _ h => h) fun _ _ h => h.1)) fun lost => ?_
  refine Replaces.bind (still ((dbsFrameFault_moves lost).mono (fun _ h => h) fun _ _ h => h.1))
    fun lf => ?_
  refine Replaces.ite (fun _ => any _) fun _ => (reads _).bind fun wm => ?_
  refine Replaces.bind (still (nowMs_rests.moves 0 Frame.Good)) fun t0 =>
    (reads _).bind fun timeout => ?_
  refine Replaces.bind (Replaces.refl (dbsWrite_good fd m.buf _)) fun n => ?_
  refine Replaces.ite (fun _ => any _) fun _ => Replaces.ite (fun _ => any _) fun _ => ?_
  refine Replaces.loop (I := fun _ (w : World) => w.fr.Good) (fun reads => ?_) 0
  exact (awaitRound_replaces fake fd serial wm _ reads).mono (fun _ h => h) fun r _ h =>
    by cases r <;> exact h

theorem pump_replaces (bus : Int) : Replaces (fun w => w.fr.Good) (dbusNativePumpSignals bus)
    (dbusNativePumpSignalsBy (dbsRecvOr fake) bus) fun _ _ => True := by
  have ends {P : World → Prop} (x : M Int) : Replaces P (.inr <$> x : M ((Nat × Nat) ⊕ Int))
    (.inr <$> x) GoesOn :=
    Replaces.refl (W := fun _ => True)
      (Spec.map (Spec.any.mono (fun _ h => h) (fun _ _ _ => trivial) fun _ h => h))
  rw [pump_by]
  refine Replaces.loop (I := fun _ (w : World) => w.fr.Good) (fun c => ?_) (0, 0)
  refine Replaces.mono (A := fun w => w.fr.Good) (B := GoesOn) ?_ (fun _ h => h) fun r _ h =>
    by cases r <;> exact h
  refine Replaces.bind (Replaces.refl (dbsDrain_moves (s := 0) c.1).spec) fun d =>
    Replaces.ite (fun _ => ?_) fun _ =>
    Replaces.ite (fun more => ?_) fun _ => ends _
  · exact Replaces.refl (W := fun _ => True) (Spec.pure fun _ _ => trivial)
  refine Replaces.bind (Q := fun _ w => w.fr.Good)
    ((recv_replaces fake bus _).mono (fun w h => ⟨h.1, wants_more h.2 more.1⟩) fun _ _ h => h)
    fun got => Replaces.ite (fun _ => ?_) fun _ => Replaces.ite (fun _ => ends _) fun _ => ?_
  · exact Replaces.refl (W := fun _ => True) (Spec.pure fun w (h : w.fr.Good) => h)
  · exact Replaces.bind (Replaces.refl (W := fun _ => True) Spec.any) fun io => ends _

end

/-- **A bounded read makes progress and stays in bounds.** In every state the framer can
be led to: the cursor is inside the buffer and the buffer inside its 8192 bytes, at most
eight descriptors are queued, and those queued and claimed are no more than arrived; the
recursion of `dbus_frame_next` goes one level deep at most; when it answers that more is
needed, `dbus_frame_prepare` makes room for one byte at least, all of it the head's; and
what a receive does when there is nothing to ask for matters to no call and no pump. -/
theorem bounded_read {f : Frame} {c : Nat} (h : Reached f c) :
    (f.off ≤ f.buf.length ∧ f.buf.length ≤ 8192) ∧ (f.fdq.length ≤ 8 ∧ f.fdq.length + c ≤ f.fdtot) ∧
    (∀ again, dbusFrameNextWith (dbusFrameNextWith again) f = dbusFrameNext f) ∧
    (∀ g closed, dbusFrameNext f = (.needMore, g, closed) →
      1 ≤ (dbusFramePrepare g (dbusFrameWant g)).1 ∧
      (dbusFramePrepare g (dbusFrameWant g)).1 ≤ dbusFrameSpace
      (dbusFramePrepare g (dbusFrameWant g)).2 ∧ Belongs g (dbusFramePrepare g (dbusFrameWant g)).1)
      ∧
    ∀ (fake : M Int) (w : World), w.fr = f →
      (∀ fd serial, dbusSessionCallBy (dbsRecvOr fake) fd serial w = dbusSessionCall fd serial w) ∧
      ∀ bus, dbusNativePumpSignalsBy (dbsRecvOr fake) bus w = dbusNativePumpSignals bus w := by
  have fits := h.fitting
  refine ⟨⟨fits.ok.off, fits.ok.cap⟩, ⟨fits.queued, fits.counted⟩, fun again => next_oneLevel again
    fits.ok, ?_, ?_⟩
  · intro g closed hnext
    obtain ⟨r, g', closed', e, rest, pass⟩ := dbusFrameNext_passed fits.ok.off
    rw [e] at hnext
    cases hnext
    have ok := pass.ok fits.ok
    obtain ⟨n, p, prepare, prepared, some⟩ := dbusFramePrepare_spec ok
    obtain ⟨want, room, -⟩ := rest.want
    rw [prepare]
    refine ⟨some want room, ?_, rest.belongs ok.off prepared.le_want⟩
    have cap := prepared.room
    simp only [dbusFrameSpace, dbusFrameCap]
    omega
  · rintro fake w rfl
    exact ⟨fun fd serial => ((call_replaces fake fd serial w fits.good).1).symm, fun bus =>
      ((pump_replaces fake bus w fits.good).1).symm⟩

/-- With one byte of a header in the buffer, the rest of that header may be read. -/
theorem bounded_read_header :
    let f := dbusFrameCommit (dbusFrameInit {}).1 [108]
    1 ≤ (dbusFramePrepare f (dbusFrameWant f)).1 ∧
      Belongs f (dbusFramePrepare f (dbusFrameWant f)).1 := by
  intro f
  obtain ⟨-, -, -, more, -⟩ := bounded_read (f := f) (.commit (.init {}) (by decide))
  obtain ⟨some, -, own⟩ := more f [] (by decide)
  exact ⟨some, own⟩

end Samvada
