import Samvada.Native

/- Who is handed a descriptor. Only `dbus_native_take_device` hands one out, one at
   most, and it says so: it answers 0 and stores the descriptor. -/
namespace Samvada
open Octets Resumable Resumable.Prog

/-- What an event hands to the consumer. -/
def Event.handsOver : Event → Option Int
  | .handed fd => some fd
  | _ => none

/-- What a trace handed to the consumer, in order. -/
def handovers (es : List Event) : List Int := es.filterMap Event.handsOver

def World.handed (w : World) : List Int := handovers w.trace

/-- `x` hands nothing out. -/
abbrev HandsNothing {α : Type} (x : M α) : Prop := Fixes World.handed x

@[simp] theorem handovers_append (es es' : List Event) : handovers (es ++ es') = handovers es ++
    handovers es' :=
  List.filterMap_append

@[simp] theorem handovers_closes (fds : List Int) : handovers (fds.map Event.close) = [] := by
  induction fds with
  | nil => rfl
  | cons fd fds ih => exact ih

theorem handed_emit (w : World) (es : List Event) : (w.emit es).handed = w.handed ++ handovers es :=
  handovers_append _ _

/-- Events that hand nothing over. -/
theorem handed_keeps {w : World} {es : List Event} (h : handovers es = []) :
    (w.emit es).handed = w.handed := by
  rw [handed_emit, h, List.append_nil]

theorem emit_hands {es : List Event} (h : handovers es = []) : HandsNothing (emit es) :=
  Fixes.modify fun _ => handed_keeps h

/-! ## System calls -/

theorem close_hands (fd : Int) : HandsNothing (sysClose fd) := emit_hands rfl

theorem clock_hands : HandsNothing sysClock := by
  apply Fixes.query
  intro w a w' h
  cases hk : w.k.clock with
  | nil => simp [hk] at h
  | cons b rest =>
    simp only [hk, Option.some.injEq, Prod.mk.injEq] at h
    obtain ⟨-, rfl⟩ := h
    exact handed_keeps (w := { w with k := { w.k with clock := rest } }) rfl

theorem poll_hands (fd : Int) (forWrite : Bool) (ms : Int) :
    HandsNothing (sysPoll fd forWrite ms) := by
  apply Fixes.query
  intro w a w' h
  cases hk : w.k.poll with
  | nil => simp [hk] at h
  | cons b rest =>
    simp only [hk, Option.some.injEq, Prod.mk.injEq] at h
    obtain ⟨-, rfl⟩ := h
    exact handed_keeps (w := { w with k := { w.k with poll := rest } }) rfl

theorem sendto_hands (fd : Int) (offered : Bytes) (flags : Nat) :
    HandsNothing (sysSendto fd offered flags) := by
  apply Fixes.query
  intro w a w' h
  cases hk : w.k.send with
  | nil => simp [hk] at h
  | cons b rest =>
    simp only [hk, Option.some.injEq, Prod.mk.injEq] at h
    obtain ⟨-, rfl⟩ := h
    exact handed_keeps (w := { w with k := { w.k with send := rest } }) rfl

theorem recvmsg_hands (fd : Int) (want flags : Nat) : HandsNothing (sysRecvmsg fd want flags) := by
  apply Fixes.query
  intro w a w' h
  cases hk : w.k.recv with
  | nil => simp [hk] at h
  | cons b rest =>
    simp only [hk] at h
    split_ifs at h with hret hin
    · simp only [Option.some.injEq, Prod.mk.injEq] at h
      obtain ⟨-, rfl⟩ := h
      exact handed_keeps (w := { w with k := { w.k with recv := rest } }) rfl
    · simp only [Option.some.injEq, Prod.mk.injEq] at h
      obtain ⟨-, rfl⟩ := h
      exact handed_keeps (w := { w with k := { w.k with recv := rest, inbox := _ } }) rfl

theorem dupfd_hands (fd : Int) : HandsNothing (sysDupfd fd) :=
  Fixes.modifyGet fun w =>
    handed_keeps (w := { w with k := { w.k with fcntl := w.k.fcntl.tail } }) rfl

theorem getfl_hands (fd : Int) : HandsNothing (sysGetfl fd) :=
  Fixes.modifyGet fun w =>
    handed_keeps (w := { w with k := { w.k with fcntl := w.k.fcntl.tail } }) rfl

theorem statx_hands (fd : Int) : HandsNothing (sysStatx fd) :=
  Fixes.modifyGet fun w =>
    handed_keeps (w := { w with k := { w.k with statx := w.k.statx.tail } }) rfl

theorem socket_hands : HandsNothing sysSocket :=
  Fixes.modifyGet fun w =>
    handed_keeps (w := { w with k := { w.k with socket := w.k.socket.tail } }) rfl

theorem connect_hands (fd : Int) : HandsNothing (sysConnect fd) :=
  Fixes.modifyGet fun w =>
    handed_keeps (w := { w with k := { w.k with connect := w.k.connect.tail } }) rfl

theorem allocOnce_hands (s : Scratch) : HandsNothing (allocOnce s) := by
  apply Fixes.modifyGet
  intro w
  dsimp only
  split_ifs <;> rfl

/-! ## The framer -/

theorem next_hands : HandsNothing frameNext :=
  Fixes.modifyGet fun w => handed_keeps (w := { w with fr := (dbusFrameNext w.fr).2.1 })
    (by rw [handovers_append, handovers_closes]; rfl)

theorem advance_hands (n : Nat) : HandsNothing (frameAdvance n) :=
  Fixes.modify fun w => handed_keeps (w := { w with fr := (dbusFrameAdvance w.fr n).1 })
    (handovers_closes _)

theorem closeFds_hands : HandsNothing frameCloseFds :=
  Fixes.modify fun w => handed_keeps (w := { w with fr := (dbusFrameCloseFds w.fr).1 })
    (handovers_closes _)

theorem init_hands : HandsNothing frameInit :=
  Fixes.modify fun w => handed_keeps (w := { w with fr := (dbusFrameInit w.fr).1 })
    (handovers_closes _)

theorem pushFd_hands (fd : Int) : HandsNothing (framePushFd fd) := by
  apply Fixes.modify
  intro w
  apply handed_keeps (w := { w with fr := (dbusFramePushFd w.fr fd).1 })
  rw [handovers_append, handovers_closes]
  split_ifs <;> rfl

theorem claimFd_hands (i : Int) : HandsNothing (frameClaimFd i) := by
  apply Fixes.modifyGet
  intro w
  apply handed_keeps (w := { w with fr := (dbusFrameClaimFd w.fr i).2 })
  split_ifs <;> rfl

/-! ## A receive, a write, a call -/

theorem aboveStdio_hands (fd : Int) : HandsNothing (dbusSocketAboveStdio fd) :=
  Fixes.ite (Fixes.pure _) (Fixes.bind (dupfd_hands fd) fun _ => Fixes.bind (close_hands fd)
    fun _ => Fixes.pure _)

theorem queueFds_hands (fds : List Int) : HandsNothing (dbsQueueFds fds) := by
  induction fds with
  | nil => exact Fixes.pure _
  | cons fd rest ih =>
    exact Fixes.bind (aboveStdio_hands fd) fun rfd => Fixes.bind (pushFd_hands rfd) fun _ =>
      Fixes.bind ih fun _ => Fixes.pure _

theorem sysRecv_hands (fd : Int) (want flags : Nat) : HandsNothing (dbusSysRecv fd want flags) := by
  refine Fixes.bind (Fixes.modify fun _ => rfl) fun _ => ?_
  apply Fixes.bind (recvmsg_hands fd want flags)
  intro r
  apply Fixes.ite (Fixes.pure _)
  apply Fixes.bind (Fixes.modify fun w => ?_) fun _ => Fixes.pure _
  exact handed_keeps (w := { w with rx := _, rxtrunc := _ }) (handovers_closes _)

theorem recv_hands (fd : Int) (flags : Nat) : HandsNothing (dbsRecv fd flags) := by
  have eof {α : Type} (a : α) : HandsNothing (do
      frameSetEof
      pure a : M α) := Fixes.bind (Fixes.modify fun _ => rfl) fun _ => Fixes.pure _
  apply Fixes.bind (Fixes.modifyGet fun _ => rfl)
  intro want
  apply Fixes.ite (eof 0)
  apply Fixes.bind (sysRecv_hands fd want flags)
  intro r
  apply Fixes.ite (Fixes.pure _) (Fixes.ite (eof 0) _)
  exact Fixes.bind Fixes.gets fun pos => Fixes.bind (Fixes.modify fun _ => rfl) fun _ =>
    Fixes.bind Fixes.gets fun rx =>
    Fixes.bind (queueFds_hands rx) fun moved => Fixes.bind Fixes.gets fun trunc =>
      Fixes.bind (Fixes.modify fun _ => rfl) fun _ =>
      Fixes.bind (emit_hands rfl) fun _ => Fixes.pure _

theorem lost_hands : HandsNothing dbsLost :=
  Fixes.bind (Fixes.modify fun _ => rfl) fun _ => Fixes.pure _

theorem ioFail_hands (e : Int) : HandsNothing (dbsIoFail e) := Fixes.ite lost_hands (Fixes.pure _)

theorem frameFault_hands (r : FrameStatus) : HandsNothing (dbsFrameFault r) := by
  cases r with
  | eof => exact lost_hands
  | truncated => exact lost_hands
  | _ => exact Fixes.pure _

theorem nowMs_hands : HandsNothing dbusSessionNowMs :=
  Fixes.bind Fixes.gets fun _ =>
    Fixes.ite (Fixes.pure _) (Fixes.bind (Fixes.modify fun _ => rfl) fun _ => clock_hands)

theorem waitReadable_hands (fd deadline : Int) : HandsNothing (dbsWaitReadable fd deadline) := by
  apply Fixes.bind nowMs_hands
  intro now
  apply Fixes.ite (Fixes.pure _) (Fixes.ite (Fixes.pure _) _)
  apply Fixes.bind (poll_hands fd false _)
  intro ready
  exact Fixes.ite (Fixes.pure _)
    (Fixes.ite (Fixes.pure _) (Fixes.ite (Fixes.pure _) (Fixes.pure _)))

theorem write_hands (fd : Int) (buf : Bytes) (deadline : Int) :
    HandsNothing (dbsWrite fd buf deadline) := by
  have cut (sent : Nat) (e : Int) : HandsNothing (Sum.inr <$> dbsCut sent e : M (Nat ⊕ Int)) :=
    Fixes.map (Fixes.bind (Fixes.modify fun _ => rfl) fun _ => Fixes.pure _)
  have full : HandsNothing (dbsWriteFull fd deadline) := by
    apply Fixes.ite (Fixes.pure _)
    apply Fixes.bind nowMs_hands
    intro now
    apply Fixes.ite (Fixes.pure _) (Fixes.ite (Fixes.pure _) _)
    apply Fixes.bind (poll_hands fd true _)
    intro ready
    exact Fixes.ite (Fixes.pure _) (Fixes.ite (Fixes.pure _) (Fixes.pure _))
  apply Fixes.loop
  intro sent
  apply Fixes.ite (Fixes.pure _)
  apply Fixes.bind (sendto_hands fd _ _)
  intro n
  apply Fixes.ite (Fixes.pure _)
    (Fixes.ite _ (Fixes.ite (cut _ _) (Fixes.ite (cut _ _) (Fixes.pure _))))
  exact Fixes.bind full fun stop => Fixes.ite (Fixes.pure _) (cut _ _)

theorem decode_hands {α : Type} (x : World → Decode α) : HandsNothing (decode x) :=
  Fixes.modifyGet fun _ => rfl

theorem scan_hands (serial wm : Nat) : HandsNothing (dbsScan serial wm) := by
  apply Fixes.loop
  intro _
  apply Fixes.bind next_hands
  intro s
  cases s with
  | msg r =>
    apply Fixes.bind (decode_hands _)
    intro v
    apply Fixes.bind Fixes.gets
    intro pos
    cases v with
    | success => exact Fixes.bind (emit_hands rfl) fun _ => Fixes.pure _
    | failure rc =>
      exact Fixes.bind (emit_hands rfl) fun _ => Fixes.bind (advance_hands r) fun _ => Fixes.pure _
    | other => exact Fixes.bind (advance_hands r) fun _ => Fixes.pure _
  | _ => exact Fixes.pure _

theorem receive_hands (fd : Int) (flags : Nat) (deadline : Int) (reads : Nat) :
    HandsNothing (dbsReceive fd flags deadline reads) := by
  apply Fixes.bind (recv_hands fd flags)
  intro got
  exact Fixes.ite (Fixes.pure _) (Fixes.ite (Fixes.ite (Fixes.pure _) (Fixes.pure _))
    (Fixes.ite (Fixes.map (ioFail_hands got)) (Fixes.pure _)))

theorem await_hands (fd : Int) (serial wm : Nat) (deadline : Int) :
    HandsNothing (dbsAwait fd serial wm deadline) := by
  apply Fixes.loop
  intro reads
  apply Fixes.bind (scan_hands serial wm)
  intro s
  cases s with
  | answered rc => exact Fixes.pure _
  | stopped r =>
    apply Fixes.bind (frameFault_hands r)
    intro fault
    apply Fixes.ite (Fixes.pure _)
      (Fixes.ite _ (Fixes.ite (Fixes.pure _) (receive_hands fd 0 deadline (reads + 1))))
    apply Fixes.bind (waitReadable_hands fd deadline)
    intro wait
    cases wait with
    | ready => exact receive_hands fd dbusSysMsgDontwait deadline reads
    | failed e => exact Fixes.map (ioFail_hands e)
    | _ => exact Fixes.pure _

theorem call_hands (fd : Int) (serial : Nat) : HandsNothing (dbusSessionCall fd serial) := by
  apply Fixes.bind Fixes.gets
  intro m
  apply Fixes.bind Fixes.gets
  intro closed
  apply Fixes.ite (Fixes.pure _) (Fixes.ite (Fixes.pure _) _)
  apply Fixes.bind next_hands
  intro lost
  apply Fixes.bind (frameFault_hands lost)
  intro lf
  apply Fixes.ite (Fixes.pure _)
  apply Fixes.bind Fixes.gets
  intro wm
  apply Fixes.bind nowMs_hands
  intro t0
  apply Fixes.bind Fixes.gets
  intro timeout
  apply Fixes.bind (write_hands fd m.buf _)
  intro n
  exact Fixes.ite (Fixes.pure _) (Fixes.ite (ioFail_hands n) (await_hands fd serial wm _))

theorem done_hands : HandsNothing dbusSessionDone := by
  apply Fixes.bind next_hands
  intro s
  cases s with
  | msg r => exact advance_hands r
  | _ => exact Fixes.pure _

theorem nextSerial_hands : HandsNothing dbusSessionNextSerial := Fixes.modifyGet fun _ => rfl

theorem setMarshal_hands (m : Marshal) : HandsNothing (setMarshal m) := Fixes.modify fun _ => rfl

/-! ## The handshake -/

theorem sasl_hands (fd : Int) : HandsNothing (dbusSessionSasl fd) := by
  have receive (space flags : Nat) (deadline : Int) (reads : Nat) :
    HandsNothing (dbsSaslReceive fd space flags deadline reads) := by
    apply Fixes.bind (sysRecv_hands fd space flags)
    intro r
    apply Fixes.bind (Fixes.bind Fixes.gets fun rx => emit_hands (handovers_closes rx))
    intro _
    apply Fixes.ite (Fixes.pure _)
      (Fixes.ite (Fixes.ite (Fixes.pure _) (Fixes.pure _))
      (Fixes.ite (Fixes.pure _) (Fixes.ite (Fixes.pure _) _)))
    refine Fixes.bind (Fixes.modify fun _ => rfl) fun _ =>
      Fixes.bind (Fixes.modifyGet fun _ => rfl) fun s => ?_
    cases s with
    | _ => exact Fixes.pure _
  apply Fixes.bind (allocOnce_hands .blob)
  intro ok
  apply Fixes.ite _ (Fixes.pure _)
  apply Fixes.bind nowMs_hands
  intro t0
  apply Fixes.bind Fixes.gets
  intro timeout
  apply Fixes.bind (write_hands fd dbusAuthBlob _)
  intro n
  refine Fixes.ite (Fixes.pure _) (Fixes.loop (fun reads => ?_) _)
  apply Fixes.bind Fixes.gets
  intro space
  apply Fixes.ite (Fixes.pure _)
    (Fixes.ite _ (Fixes.ite (Fixes.pure _) (receive space 0 _ (reads + 1))))
  apply Fixes.bind (waitReadable_hands fd _)
  intro wait
  cases wait with
  | ready => exact receive space dbusSysMsgDontwait _ reads
  | _ => exact Fixes.pure _

theorem hello_hands (fd : Int) : HandsNothing (dbusSessionHello fd) := by
  have hello : HandsNothing (dbsHello fd) := by
    apply Fixes.bind nextSerial_hands
    intro serial
    apply Fixes.bind (setMarshal_hands _)
    intro _
    apply Fixes.bind (call_hands fd serial)
    intro rc
    apply Fixes.ite (Fixes.pure _)
    apply Fixes.bind next_hands
    intro s
    apply Fixes.bind Fixes.gets
    intro p
    apply Fixes.bind (decode_hands _)
    intro name
    cases name with
    | none => exact Fixes.bind (advance_hands _) fun _ => Fixes.pure _
    | some name =>
      apply Fixes.bind (Fixes.ite (Fixes.pure _) (Fixes.ite (Fixes.pure _) _))
      · exact fun su => Fixes.bind (advance_hands _) fun _ =>
          Fixes.ite (Fixes.pure _) (Fixes.pure _)
      · apply Fixes.bind (allocOnce_hands .uniq)
        intro ok
        exact Fixes.ite (Fixes.bind (Fixes.modify fun _ => rfl) fun _ => Fixes.pure _)
          (Fixes.pure _)
  exact Fixes.bind hello fun rc =>
    Fixes.ite (Fixes.bind closeFds_hands fun _ => Fixes.pure _) (Fixes.pure _)

theorem openSystemBus_hands : HandsNothing dbusNativeOpenSystemBus := by
  have connect : HandsNothing dbusSocketConnect := by
    apply Fixes.bind socket_hands
    intro fd₀
    apply Fixes.ite (Fixes.pure _)
    apply Fixes.bind (aboveStdio_hands fd₀)
    intro fd
    apply Fixes.ite (Fixes.pure _)
    apply Fixes.bind (connect_hands fd)
    intro rc
    exact Fixes.ite (Fixes.bind (close_hands fd) fun _ => Fixes.pure _)
      (Fixes.bind (emit_hands rfl) fun _ => Fixes.pure _)
  apply Fixes.bind init_hands
  intro _
  refine Fixes.bind (Fixes.modify fun _ => rfl) fun _ => ?_
  refine Fixes.bind (Fixes.modify fun _ => rfl) fun _ => ?_
  apply Fixes.bind (allocOnce_hands .sa)
  intro ok
  apply Fixes.ite _ (Fixes.pure _)
  apply Fixes.bind connect
  intro fd
  apply Fixes.ite (Fixes.pure _)
  apply Fixes.bind (Fixes.bind (sasl_hands fd) fun rc => Fixes.ite (Fixes.pure _) (hello_hands fd))
  intro rc
  exact Fixes.ite (Fixes.bind (close_hands fd) fun _ => Fixes.pure _) (Fixes.pure _)

/-! ## The operations -/

/-- A call, after its request is built. -/
theorem ask_hands {α : Type} (bus : Int) (request : Nat → Marshal) {k : Int → M α}
    (hk : ∀ rc, HandsNothing (k rc)) : HandsNothing (do
      let serial ← dbusSessionNextSerial
      setMarshal (request serial)
      let rc ← dbusSessionCall bus serial
      k rc : M α) :=
  Fixes.bind nextSerial_hands fun serial => Fixes.bind (setMarshal_hands _) fun _ =>
    Fixes.bind (call_hands bus serial) hk

theorem callAndDone_hands (bus : Int) (request : Nat → Marshal) :
    HandsNothing (dbsCallAndDone bus request) :=
  ask_hands bus request fun _ =>
    Fixes.ite (Fixes.bind done_hands fun _ => Fixes.pure _) (Fixes.pure _)

theorem takeControl_hands (bus : Int) (sess : Option Bytes) :
    HandsNothing (dbusNativeTakeControl bus sess) :=
  Fixes.ite (callAndDone_hands bus _) (Fixes.pure _)

theorem releaseControl_hands (bus : Int) (sess : Option Bytes) :
    HandsNothing (dbusNativeReleaseControl bus sess) :=
  Fixes.ite (callAndDone_hands bus _) (Fixes.pure _)

theorem releaseDevice_hands (bus : Int) (sess : Option Bytes) (major minor : Int) :
    HandsNothing (dbusNativeReleaseDevice bus sess major minor) :=
  Fixes.ite (Fixes.ite (callAndDone_hands bus _) (Fixes.pure _)) (Fixes.pure _)

theorem sessionPath_hands (bus pid : Int) (out : Option Int) :
    HandsNothing (dbusNativeGetSessionPath bus pid out) := by
  cases out with
  | none => exact Fixes.pure _
  | some outLen =>
    apply Fixes.ite (Fixes.pure _)
    apply ask_hands bus (dbsSessionPathCall pid)
    intro rc
    apply Fixes.ite (Fixes.pure _)
    apply Fixes.bind Fixes.gets
    intro p
    apply Fixes.bind next_hands
    intro s
    apply Fixes.bind (decode_hands _)
    intro path
    cases path with
    | none => exact Fixes.bind done_hands fun _ => Fixes.pure _
    | some path =>
      exact Fixes.ite (Fixes.bind done_hands fun _ => Fixes.pure _)
        (Fixes.bind done_hands fun _ => Fixes.pure _)

theorem pump_hands (bus : Int) : HandsNothing (dbusNativePumpSignals bus) := by
  have result (drained : Nat) (r : FrameStatus) (io : Int) :
    HandsNothing (dbsPumpResult drained r io) :=
    Fixes.ite (Fixes.pure _) (Fixes.bind (frameFault_hands r) fun _ => Fixes.ite (Fixes.pure _)
      (Fixes.ite (Fixes.pure _)
      (Fixes.bind Fixes.gets fun _ => Fixes.ite (Fixes.pure _) (Fixes.pure _))))
  have drain (drained : Nat) : HandsNothing (dbsDrain drained) := by
    apply Fixes.loop
    intro n
    apply Fixes.bind next_hands
    intro s
    cases s with
    | msg r => exact Fixes.bind (advance_hands r) fun _ => Fixes.ite (Fixes.pure _) (Fixes.pure _)
    | _ => exact Fixes.pure _
  apply Fixes.loop
  intro c
  apply Fixes.bind (drain c.1)
  intro d
  apply Fixes.ite (Fixes.pure _) (Fixes.ite _ (Fixes.map (result _ _ _)))
  apply Fixes.bind (recv_hands bus _)
  intro got
  exact Fixes.ite (Fixes.pure _) (Fixes.ite (Fixes.map (result _ _ _))
    (Fixes.bind (ioFail_hands got) fun io => Fixes.map (result _ _ _)))

theorem closeBus_hands (bus : Int) : HandsNothing (dbusNativeCloseBus bus) :=
  Fixes.bind closeFds_hands fun _ =>
    Fixes.ite (Fixes.bind (close_hands bus) fun _ => Fixes.pure _) (Fixes.pure _)

theorem fdIsDevice_hands (fd major minor : Int) :
    HandsNothing (dbusSessionFdIsDevice fd major minor) := by
  apply Fixes.bind Fixes.gets
  intro ready
  apply Fixes.ite (Fixes.pure _)
  apply Fixes.bind (getfl_hands fd)
  intro fl
  apply Fixes.ite (Fixes.pure _) (Fixes.ite (Fixes.pure _) _)
  apply Fixes.bind (statx_hands fd)
  intro st
  exact Fixes.ite (Fixes.pure _) (Fixes.ite (Fixes.pure _) (Fixes.pure _))

-- kept whole, so that no elaboration runs it
attribute [local irreducible] dbusSessionCall

/-- What hands nothing out leaves what was handed out. -/
theorem HandsNothing.still {α : Type} {x : M α} (h : HandsNothing x) (old : List Int) :
    Spec (fun w => w.handed = old) x (fun _ w => w.handed = old) fun w => w.handed = old := by
  intro w hw
  have same := h w
  cases hx : x w with
  | done a v =>
    rw [hx] at same
    exact same.trans hw
  | waiting v =>
    rw [hx] at same
    exact same.trans hw

/-- A TakeDevice hands out the descriptor it answers, or it fails and hands out nothing. -/
def HandedOne (old : List Int) (r : Int × Option (Int × Nat)) (w : World) : Prop :=
  (∃ fd inactive, r = (0, some (fd, inactive)) ∧ 0 ≤ fd ∧ w.handed = old ++ [fd]) ∨
    (r.1 < 0 ∧ w.handed = old)

theorem refused_hands {old : List Int} {rc : Int} {out : Option (Int × Nat)} (neg : rc < 0) :
    Spec (fun w => w.handed = old) (pure (rc, out) : M (Int × Option (Int × Nat))) (HandedOne old)
      fun w => w.handed = old :=
  Spec.pure fun _ hw => .inr ⟨neg, hw⟩

theorem ask_handedOne {old : List Int} (bus : Int) (request : Nat → Marshal)
    {k : Int → M (Int × Option (Int × Nat))}
    (hk : ∀ rc, Spec (fun w => w.handed = old) (k rc) (HandedOne old) fun w => w.handed = old) :
    Spec (fun w => w.handed = old) (do
      let serial ← dbusSessionNextSerial
      setMarshal (request serial)
      let rc ← dbusSessionCall bus serial
      k rc) (HandedOne old) fun w => w.handed = old :=
  Spec.bind (nextSerial_hands.still old) fun serial =>
    Spec.bind ((setMarshal_hands _).still old) fun _ =>
    Spec.bind ((call_hands bus serial).still old) hk

/-- The descriptor claimed goes to the consumer if it is the device, and is closed if not. -/
theorem take_hands (old : List Int) (r : Nat) (fd major minor : Int) (inactive : Nat) :
    Spec (fun w => w.handed = old) (do
    if 0 ≤ fd then do
      if ← dbusSessionFdIsDevice fd major minor then
        frameAdvance r
        emit [.handed fd]
        pure (0, some (fd, inactive))
      else
        sysClose fd
        frameAdvance r
        pure (-9, some (-1, inactive))
    else do
      frameAdvance r
      pure (-9, some (fd, inactive)) : M (Int × Option (Int × Nat))) (HandedOne old)
        fun w => w.handed = old := by
  refine Spec.ite (fun hfd => ?_) fun _ => Spec.bind ((advance_hands r).still old) fun _ =>
    refused_hands (by decide)
  refine Spec.bind ((fdIsDevice_hands fd major minor).still old) fun device =>
    Spec.ite (fun _ => ?_) fun _ =>
    Spec.bind ((close_hands fd).still old) fun _ => Spec.bind ((advance_hands r).still old) fun _ =>
      refused_hands (by decide)
  -- the one place that hands out
  refine Spec.bind ((advance_hands r).still old) fun _ =>
    Spec.bind (Q := fun _ w => w.handed = old ++ [fd]) (Spec.modify fun w hw => ?_)
    fun _ => Spec.pure fun w hw => .inl ⟨fd, inactive, rfl, hfd, hw⟩
  rw [handed_emit, hw]
  rfl

theorem takeDevice_hands (old : List Int) (bus : Int) (sess : Option Bytes) (major minor : Int) :
    Spec (fun w => w.handed = old) (dbusNativeTakeDevice bus sess major minor) (HandedOne old)
    fun w => w.handed = old := by
  refine Spec.bind ((allocOnce_hands .stx).still old) fun ok => Spec.ite (fun _ => ?_) fun _ =>
    refused_hands (by decide)
  refine Spec.ite (fun _ => refused_hands (by decide)) fun _ =>
    Spec.ite (fun _ => refused_hands (by decide)) fun _ =>
    Spec.ite (fun _ => refused_hands (by decide)) fun _ => ?_
  refine ask_handedOne bus (dbsDeviceCall "TakeDevice" (sess.getD []) major minor) fun rc =>
    Spec.ite refused_hands fun _ => ?_
  refine Spec.bind (HandsNothing.still Fixes.gets old) fun p =>
    Spec.bind (next_hands.still old) fun s => Spec.bind ((decode_hands _).still old) fun reply => ?_
  obtain ⟨index, inactive⟩ := reply
  cases index with
  | none =>
    exact Spec.bind (HandsNothing.still (Fixes.pure _) old) fun fd =>
      take_hands old s.len fd major minor inactive
  | some i =>
    exact Spec.bind ((claimFd_hands i).still old) fun fd =>
      take_hands old s.len fd major minor inactive

end Samvada
