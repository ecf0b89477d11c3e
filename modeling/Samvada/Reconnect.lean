import Samvada.Moves

/- Opening the bus forgets the connection before. Two worlds with the same kernel
   are run side by side: after `dbus_frame_init`, `dbus_auth_reset` and
   `dbus_session_reset` they differ only in what is written again before it is
   read (the message being built, the last receive's descriptors, the decoder)
   and in what they have shown so far, and every operation keeps it so. -/
namespace Samvada
open Octets Resumable Resumable.Prog

/-- Two worlds that differ only in what is written before it is read, with every
scratch block allocated; `s` has shown `A`, `t` has shown `B`, and both the same since. -/
structure SameSince (A B : List Event) (s t : World) : Prop where
  fr : s.fr = t.fr
  auth : s.auth = t.auth
  dbs : s.dbs = t.dbs
  k : s.k = t.k
  left : ∀ x, x ∈ s.scratch
  right : ∀ x, x ∈ t.scratch
  shown : ∃ es, s.trace = A ++ es ∧ t.trace = B ++ es

namespace SameSince
variable {A B : List Event} {s t : World}

theorem frame (h : SameSince A B s t) {f g : Frame} (e : f = g) : SameSince A B { s with fr := f }
    { t with fr := g } :=
  ⟨e, h.auth, h.dbs, h.k, h.left, h.right, h.shown⟩

theorem sasl (h : SameSince A B s t) {a b : Auth} (e : a = b) : SameSince A B { s with auth := a }
    { t with auth := b } :=
  ⟨h.fr, e, h.dbs, h.k, h.left, h.right, h.shown⟩

theorem session (h : SameSince A B s t) {d e : Session} (eq : d = e) :
    SameSince A B { s with dbs := d } { t with dbs := e } :=
  ⟨h.fr, h.auth, eq, h.k, h.left, h.right, h.shown⟩

theorem kernel (h : SameSince A B s t) {k l : Kernel} (e : k = l) : SameSince A B { s with k := k }
    { t with k := l } :=
  ⟨h.fr, h.auth, h.dbs, e, h.left, h.right, h.shown⟩

theorem received (h : SameSince A B s t) (rx rx' : List Int) (b b' : Bool) :
    SameSince A B { s with rx := rx, rxtrunc := b } { t with rx := rx', rxtrunc := b' } :=
  ⟨h.fr, h.auth, h.dbs, h.k, h.left, h.right, h.shown⟩

theorem built (h : SameSince A B s t) (m m' : Marshal) : SameSince A B { s with dbm := m }
    { t with dbm := m' } :=
  ⟨h.fr, h.auth, h.dbs, h.k, h.left, h.right, h.shown⟩

theorem decoded (h : SameSince A B s t) (d d' : Decoder) : SameSince A B { s with dbu := d }
    { t with dbu := d' } :=
  ⟨h.fr, h.auth, h.dbs, h.k, h.left, h.right, h.shown⟩

theorem emit (h : SameSince A B s t) {es es' : List Event} (e : es = es') :
    SameSince A B (s.emit es) (t.emit es') := by
  obtain ⟨before, hs, ht⟩ := h.shown
  refine ⟨h.fr, h.auth, h.dbs, h.k, h.left, h.right, before ++ es, ?_, ?_⟩
  · show s.trace ++ es = _
    rw [hs, List.append_assoc]
  · show t.trace ++ es' = _
    rw [ht, e, List.append_assoc]

end SameSince

/-- Two such worlds stay so, and `x` has the same result in both. -/
abbrev Same (A B : List Event) {α : Type} (x : M α) : Prop :=
  Twin (SameSince A B) x (SameSince A B) (SameSince A B)

section
variable {A B : List Event} {α : Type}

theorem pure_same (a : α) : Same A B (pure a : M α) := Twin.pure fun _ _ h => h

theorem gets_same {f : World → α} (hf : ∀ s t, SameSince A B s t → f s = f t) :
    Same A B (Prog.gets f) :=
  Twin.gets hf fun _ _ h => h

theorem emit_same (es : List Event) : Same A B (emit es) := Twin.modify fun _ _ h => h.emit rfl

/-! ## System calls -/

theorem clock_same : Same A B sysClock := by
  refine Twin.query (fun _ _ h => h) fun s t h => ?_
  rw [h.k]
  cases t.k.clock with
  | nil => exact .inl ⟨rfl, rfl⟩
  | cons a rest => exact .inr ⟨_, _, _, rfl, rfl, (h.kernel rfl).emit rfl⟩

theorem poll_same (fd : Int) (wr : Bool) (ms : Int) : Same A B (sysPoll fd wr ms) := by
  refine Twin.query (fun _ _ h => h) fun s t h => ?_
  rw [h.k]
  cases t.k.poll with
  | nil => exact .inl ⟨rfl, rfl⟩
  | cons a rest => exact .inr ⟨_, _, _, rfl, rfl, (h.kernel rfl).emit rfl⟩

theorem sendto_same (fd : Int) (offered : Bytes) (flags : Nat) :
    Same A B (sysSendto fd offered flags) := by
  refine Twin.query (fun _ _ h => h) fun s t h => ?_
  rw [h.k]
  cases t.k.send with
  | nil => exact .inl ⟨rfl, rfl⟩
  | cons a rest => exact .inr ⟨_, _, _, rfl, rfl, (h.kernel rfl).emit rfl⟩

/-- A call the kernel answers at once. -/
theorem answer_same {f : Kernel → α} {g : Kernel → Kernel} {e : Kernel → List Event} :
    Same A B (Prog.modifyGet fun w : World => (f w.k, { w with k := g w.k }.emit (e w.k))) :=
  Twin.modifyGet fun _ _ h => ⟨congrArg f h.k, (h.kernel (congrArg g h.k)).emit (congrArg e h.k)⟩

theorem dupfd_same (fd : Int) : Same A B (sysDupfd fd) :=
  answer_same (f := fun k => k.fcntl.headD (-9)) (g := fun k => { k with fcntl := k.fcntl.tail })
    (e := fun k => [.dupfd fd (k.fcntl.headD (-9))])

theorem getfl_same (fd : Int) : Same A B (sysGetfl fd) :=
  answer_same (f := fun k => k.fcntl.headD (-9)) (g := fun k => { k with fcntl := k.fcntl.tail })
    (e := fun k => [.getfl fd (k.fcntl.headD (-9))])

theorem statx_same (fd : Int) : Same A B (sysStatx fd) :=
  answer_same (f := fun k => k.statx.headD { rc := -9 })
    (g := fun k => { k with statx := k.statx.tail })
    (e := fun k => [.statx fd (k.statx.headD { rc := -9 })])

theorem connect_same (fd : Int) : Same A B (sysConnect fd) :=
  answer_same (f := fun k => k.connect.headD (-111))
    (g := fun k => { k with connect := k.connect.tail })
    (e := fun k => [.connect fd (k.connect.headD (-111))])

theorem socket_same : Same A B sysSocket :=
  answer_same (f := fun k => k.socket.headD (-24))
    (g := fun k => { k with socket := k.socket.tail })
    (e := fun k => [.socket (k.socket.headD (-24))])

/-- A block that is there is not allocated again. -/
theorem allocOnce_same (b : Scratch) : Same A B (allocOnce b) := by
  refine Twin.modifyGet fun s t h => ?_
  dsimp only
  rw [if_pos (h.left b), if_pos (h.right b)]
  exact ⟨rfl, h⟩

/-! ## The framer -/

/-- What the framer does, with what it closes and shows. -/
theorem framer_same {f : Frame → α} {g : Frame → Frame} {e : Frame → List Event} :
    Same A B (Prog.modifyGet fun w : World => (f w.fr, { w with fr := g w.fr }.emit (e w.fr))) :=
  Twin.modifyGet fun _ _ h => ⟨congrArg f h.fr, (h.frame (congrArg g h.fr)).emit (congrArg e h.fr)⟩

theorem framing_same {g : Frame → Frame} {e : Frame → List Event} :
    Same A B (Prog.modify fun w : World => { w with fr := g w.fr }.emit (e w.fr)) :=
  Twin.modify fun _ _ h => (h.frame (congrArg g h.fr)).emit (congrArg e h.fr)

theorem frameNext_same : Same A B frameNext :=
  framer_same (f := fun f => (dbusFrameNext f).1) (g := fun f => (dbusFrameNext f).2.1)
    (e := fun f => (dbusFrameNext f).2.2.map Event.close ++
    [Event.next (dbusFrameNext f).1 (dbusFrameNext f).2.1])

theorem frameAdvance_same (n : Nat) : Same A B (frameAdvance n) :=
  framing_same (g := fun f => (dbusFrameAdvance f n).1)
    (e := fun f => .advanced (dbusFramePos f) n :: (dbusFrameAdvance f n).2.map Event.close)

theorem frameCloseFds_same : Same A B frameCloseFds :=
  framing_same (g := fun f => (dbusFrameCloseFds f).1)
    (e := fun f => (dbusFrameCloseFds f).2.map Event.close)

theorem frameInit_same : Same A B frameInit :=
  framing_same (g := fun f => (dbusFrameInit f).1)
    (e := fun f => (dbusFrameInit f).2.map Event.close)

theorem framePushFd_same (fd : Int) : Same A B (framePushFd fd) :=
  framing_same (g := fun f => (dbusFramePushFd f fd).1) (e := fun f => pushEvents f fd)

theorem frameClaimFd_same (i : Int) : Same A B (frameClaimFd i) :=
  framer_same (f := fun f => (dbusFrameClaimFd f i).1) (g := fun f => (dbusFrameClaimFd f i).2)
    (e := fun f => if 0 ≤ (dbusFrameClaimFd f i).1 then [Event.claimed (dbusFrameClaimFd f i).1]
    else [])

theorem framePrepare_same : Same A B framePrepare :=
  Twin.modifyGet fun _ _ h => ⟨congrArg (fun f => (dbusFramePrepare f (dbusFrameWant f)).1) h.fr,
    h.frame (congrArg (fun f => (dbusFramePrepare f (dbusFrameWant f)).2) h.fr)⟩

theorem frameSetEof_same : Same A B frameSetEof :=
  Twin.modify fun _ _ h => h.frame (congrArg dbusFrameSetEof h.fr)

theorem frameCommit_same (d : Bytes) : Same A B (frameCommit d) :=
  Twin.modify fun _ _ h => h.frame (congrArg (dbusFrameCommit · d) h.fr)

theorem frameDrainLines_same : Same A B frameDrainLines := Twin.modifyGet fun s t h => by
  have e : dbusAuthDrainLines s.fr s.auth = dbusAuthDrainLines t.fr t.auth := by rw [h.fr, h.auth]
  exact ⟨congrArg (·.1) e, (h.frame (congrArg (·.2.1) e)).sasl (congrArg (·.2.2) e)⟩

/-- A reading that answers `f` of what the two worlds share. -/
theorem decode_same {x : World → Decode α} {f : World → α} (h : ∀ w d, (x w d).1 = f w)
    (hf : ∀ s t, SameSince A B s t → f s = f t) : Same A B (decode x) := by
  intro s t hst
  obtain ⟨d, hs⟩ := decode_run h s
  obtain ⟨d', ht⟩ := decode_run h t
  rw [hs, ht, hf s t hst]
  exact .done _ (hst.decoded d d')

/-! ## One receive -/

/-- What the last receive brought besides bytes. -/
def World.brought (w : World) : List Int × Bool := (w.rx, w.rxtrunc)

/-- The two worlds also agree on what the last receive brought. -/
def SameReceived (A B : List Event) (s t : World) : Prop :=
  SameSince A B s t ∧ s.brought = t.brought

theorem SameReceived.since {s t : World} (h : SameReceived A B s t) : SameSince A B s t := h.1

theorem SameReceived.answer {s t : World} (h : SameReceived A B s t) {k l : Kernel} (e : k = l)
    (es : List Event) : SameReceived A B ({ s with k := k }.emit es) ({ t with k := l }.emit es) :=
  ⟨(h.1.kernel e).emit rfl, h.2⟩

theorem recvmsg_same (fd : Int) (want flags : Nat) :
    Twin (SameReceived A B) (sysRecvmsg fd want flags) (SameReceived A B) (SameSince A B) := by
  refine Twin.query (fun _ _ h => h.since) fun s t h => ?_
  rw [h.1.k]
  cases t.k.recv with
  | nil => exact .inl ⟨rfl, rfl⟩
  | cons a rest =>
    by_cases h0 : a.ret ≤ 0
    · simp only [h0, if_true]
      exact .inr ⟨_, _, _, rfl, rfl, h.answer rfl _⟩
    · by_cases hin : t.k.inbox = []
      · simp only [h0, hin, if_true, if_false]
        exact .inl ⟨trivial, trivial⟩
      · simp only [h0, hin, if_false]
        exact .inr ⟨_, _, _, rfl, rfl, h.answer rfl _⟩

theorem sysRecv_same (fd : Int) (want flags : Nat) :
    Twin (SameSince A B) (dbusSysRecv fd want flags) (SameReceived A B) (SameSince A B) := by
  refine Twin.bind (Q := SameReceived A B)
    (Twin.modify fun s t h => ⟨h.received [] [] false false, rfl⟩) fun _ => ?_
  refine Twin.bind (recvmsg_same fd want flags) fun r => ?_
  obtain ⟨n, d, ctrl, trunc⟩ := r
  refine Twin.ite (Twin.pure fun _ _ h => h) (Twin.bind (Twin.modify fun s t h => ?_) fun _ =>
    Twin.pure fun _ _ h => h)
  exact ⟨(h.1.received _ _ trunc trunc).emit rfl, rfl⟩

theorem aboveStdio_same (fd : Int) : Same A B (dbusSocketAboveStdio fd) :=
  Twin.ite (pure_same _) (Twin.bind (dupfd_same fd) fun _ => Twin.bind (emit_same _)
    fun _ => pure_same _)

theorem queueFds_same : ∀ fds, Same A B (dbsQueueFds fds)
  | [] => pure_same _
  | fd :: rest =>
    Twin.bind (aboveStdio_same fd) fun rfd => Twin.bind (framePushFd_same rfd) fun _ =>
      Twin.bind (queueFds_same rest) fun _ => pure_same _

theorem queueFds_brought : ∀ fds, Fixes World.brought (dbsQueueFds fds)
  | [] => Fixes.pure _
  | fd :: rest => by
    refine Fixes.bind (Fixes.ite (Fixes.pure _) ?_) fun rfd =>
      Fixes.bind (Fixes.modify fun _ => rfl) fun _ =>
      Fixes.bind (queueFds_brought rest) fun _ => Fixes.pure _
    exact Fixes.bind (Fixes.modifyGet fun _ => rfl) fun _ =>
      Fixes.bind (Fixes.modify fun _ => rfl) fun _ => Fixes.pure _

theorem recv_same (fd : Int) (flags : Nat) : Same A B (dbsRecv fd flags) := by
  have closed : Twin (SameReceived A B) (do
      frameSetEof
      pure 0 : M Int) (SameSince A B) (SameSince A B) :=
    (Twin.bind frameSetEof_same fun _ => pure_same _).mono (fun _ _ h => h.since) fun _ _ h => h
  refine Twin.bind framePrepare_same fun want =>
    Twin.ite (Twin.bind frameSetEof_same fun _ => pure_same _) ?_
  refine Twin.bind (sysRecv_same fd want flags) fun r => ?_
  obtain ⟨got, d⟩ := r
  refine Twin.ite (Twin.pure fun _ _ h => h.since) (Twin.ite closed ?_)
  refine Twin.bind (Q := SameReceived A B) (Twin.gets (fun s t h => by rw [h.1.fr]) fun _ _ h => h)
    fun pos => ?_
  refine Twin.bind ((frameCommit_same d).frame (g := World.brought) fun _ => rfl) fun _ => ?_
  refine Twin.bind (Q := SameReceived A B)
    (Twin.gets (fun s t h => congrArg Prod.fst h.2) fun _ _ h => h) fun rx => ?_
  refine Twin.bind ((queueFds_same rx).frame (queueFds_brought rx)) fun moved => ?_
  refine Twin.bind (Q := SameSince A B) (Twin.gets (fun s t h => congrArg Prod.snd h.2) fun _ _ h =>
    h.1) fun trunc => ?_
  refine Twin.bind (Q := SameSince A B) (Twin.modify fun s t h => h.frame (by rw [h.fr])) fun _ =>
    Twin.bind (emit_same _) fun _ => pure_same _

/-! ## Clock, faults and the bounded write -/

theorem dbs_same {f : Session → Session} :
    Same A B (Prog.modify fun w : World => { w with dbs := f w.dbs }) :=
  Twin.modify fun _ _ h => h.session (congrArg f h.dbs)

theorem nowMs_same : Same A B dbusSessionNowMs := by
  refine Twin.bind (gets_same fun s t h => by rw [h.dbs]) fun fail => Twin.ite (pure_same _) ?_
  exact Twin.bind
    (dbs_same (f := fun d => { d with clockFail := if 1 < fail then fail - 1 else fail })) fun _ =>
    clock_same

theorem lost_same : Same A B dbsLost :=
  Twin.bind (dbs_same (f := fun d => { d with closed := true })) fun _ => pure_same _

theorem ioFail_same (e : Int) : Same A B (dbsIoFail e) := Twin.ite lost_same (pure_same _)

theorem frameFault_same (r : FrameStatus) : Same A B (dbsFrameFault r) := by
  cases r with
  | eof => exact lost_same
  | truncated => exact lost_same
  | _ => exact pure_same _

theorem write_same (fd : Int) (buf : Bytes) (deadline : Int) :
    Same A B (dbsWrite fd buf deadline) := by
  refine Twin.loop (fun s t h => by rw [h.k]) (fun _ _ h => h) (fun sent => ?_) 0
  have cut (rc : Int) : Same A B (.inr <$> dbsCut sent rc : M (Nat ⊕ Int)) :=
    Twin.map (Twin.bind (dbs_same (f := fun d => { d with closed := d.closed || 0 < sent }))
      fun _ => pure_same _)
  have full : Same A B (dbsWriteFull fd deadline) :=
    Twin.ite (pure_same _)
      (Twin.bind nowMs_same fun now => Twin.ite (pure_same _) (Twin.ite (pure_same _)
      (Twin.bind (poll_same _ _ _) fun _ => Twin.ite (pure_same _)
      (Twin.ite (pure_same _) (pure_same _)))))
  refine Twin.ite (pure_same _) (Twin.bind (sendto_same _ _ _) fun n =>
    Twin.ite (pure_same _) (Twin.ite ?_
    (Twin.ite (cut n) (Twin.ite (cut (-32)) (pure_same _)))))
  exact Twin.bind full fun stop => Twin.ite (pure_same _) (cut stop)

/-! ## The call -/

theorem waitReadable_same (fd deadline : Int) : Same A B (dbsWaitReadable fd deadline) :=
  Twin.bind nowMs_same fun _ =>
    Twin.ite (pure_same _) (Twin.ite (pure_same _) (Twin.bind (poll_same _ _ _) fun _ =>
    Twin.ite (pure_same _) (Twin.ite (pure_same _) (Twin.ite (pure_same _) (pure_same _)))))

theorem scan_same (serial wm : Nat) : Same A B (dbsScan serial wm) := by
  refine Twin.loop (fun s t h => by rw [h.fr]) (fun _ _ h => h)
    (fun _ => Twin.bind frameNext_same fun s => ?_) ()
  cases s with
  | msg r =>
    refine Twin.bind
      (decode_same (fun w d => Decode.verdict_eq w.dbs.uniq serial wm (dbusFramePos w.fr) r
      (dbusFrameBase w.fr) d) fun s t h => by rw [h.dbs, h.fr]) fun v =>
      Twin.bind (gets_same fun s t h => by rw [h.fr]) fun pos => ?_
    cases v with
    | success => exact Twin.bind (emit_same _) fun _ => pure_same _
    | failure rc =>
      exact Twin.bind (emit_same _) fun _ => Twin.bind (frameAdvance_same r) fun _ => pure_same _
    | other => exact Twin.bind (frameAdvance_same r) fun _ => pure_same _
  | _ => exact pure_same _

theorem fuel_same {s t : World} (h : SameSince A B s t) : s.fuel = t.fuel := by
  unfold World.fuel
  rw [h.k, h.fr]

theorem await_same (fd : Int) (serial wm : Nat) (deadline : Int) :
    Same A B (dbsAwait fd serial wm deadline) := by
  have receive (flags reads : Nat) : Same A B (dbsReceive fd flags deadline reads) :=
    Twin.bind (recv_same fd flags) fun _ =>
      Twin.ite (pure_same _) (Twin.ite (Twin.ite (pure_same _) (pure_same _))
      (Twin.ite (Twin.map (ioFail_same _)) (pure_same _)))
  refine Twin.loop (fun _ _ h => fuel_same h) (fun _ _ h => h)
    (fun reads => Twin.bind (scan_same serial wm) fun s => ?_) 0
  cases s with
  | answered rc => exact pure_same _
  | stopped r =>
    refine Twin.bind (frameFault_same r) fun _ =>
      Twin.ite (pure_same _) (Twin.ite ?_ (Twin.ite (pure_same _) (receive _ _)))
    refine Twin.bind (waitReadable_same fd deadline) fun wait => ?_
    cases wait with
    | timedOut => exact pure_same _
    | again => exact pure_same _
    | failed e => exact Twin.map (ioFail_same e)
    | ready => exact receive _ _

/-- A call of a message both worlds hold; the message is not read again. -/
theorem call_same (fd : Int) (serial : Nat) : Twin (fun s t => SameSince A B s t ∧ s.dbm = t.dbm)
    (dbusSessionCall fd serial) (SameSince A B) (SameSince A B) := by
  refine Twin.bind (Q := SameSince A B) (Twin.gets (fun _ _ h => h.2) fun _ _ h => h.1) fun m => ?_
  refine Twin.bind (gets_same fun s t h => by rw [h.dbs]) fun closed =>
    Twin.ite (pure_same _) (Twin.ite (pure_same _) ?_)
  refine Twin.bind frameNext_same fun lost => Twin.bind (frameFault_same lost) fun lf =>
    Twin.ite (pure_same _) ?_
  refine Twin.bind (gets_same fun s t h => by rw [h.fr]) fun wm => Twin.bind nowMs_same fun t0 =>
    Twin.bind (gets_same fun s t h => by rw [h.dbs]) fun timeout =>
      Twin.bind (write_same fd m.buf _) fun n => ?_
  exact Twin.ite (pure_same _) (Twin.ite (ioFail_same n) (await_same fd serial wm _))

/-- Building a message, calling with it, and going on with the answer. -/
theorem ask_same {m : Marshal} {fd : Int} {serial : Nat} {k : Int → M α}
    (hk : ∀ rc, Same A B (k rc)) : Same A B (do
      setMarshal m
      let rc ← dbusSessionCall fd serial
      k rc) :=
  Twin.bind (Q := fun s t => SameSince A B s t ∧ s.dbm = t.dbm)
    (Twin.modify fun _ _ h => ⟨h.built m m, rfl⟩) fun _ =>
    Twin.bind (call_same fd serial) hk

theorem done_same : Same A B dbusSessionDone := by
  refine Twin.bind frameNext_same fun r => ?_
  cases r with
  | msg n => exact frameAdvance_same n
  | _ => exact pure_same _

theorem nextSerial_same : Same A B dbusSessionNextSerial :=
  Twin.modifyGet fun _ _ h => ⟨by rw [h.dbs], h.session (by rw [h.dbs])⟩

theorem base_same : Same A B (Prog.gets fun w : World => dbusFrameBase w.fr) :=
  gets_same fun _ _ h => by rw [h.fr]

/-! ## The handshake -/

theorem setUnique_same (p : Bytes) (n : Int) : Same A B (dbusSessionSetUnique p n) := by
  refine Twin.ite (pure_same _)
    (Twin.ite (pure_same _) (Twin.bind (allocOnce_same .uniq) fun ok => Twin.ite ?_ (pure_same _)))
  exact Twin.bind (dbs_same (f := fun d => { d with uniq := loadN p 0 n.toNat })) fun _ =>
    pure_same _

theorem sasl_same (fd : Int) : Same A B (dbusSessionSasl fd) := by
  refine Twin.bind (allocOnce_same .blob) fun ok => Twin.ite ?_ (pure_same _)
  refine Twin.bind nowMs_same fun t0 => Twin.bind (gets_same fun _ _ h => by rw [h.dbs])
    fun timeout => ?_
  generalize (if 0 ≤ t0 then int64 (t0 + timeout) else 0) = deadline
  have receive (space flags reads : Nat) :
    Same A B (dbsSaslReceive fd space flags deadline reads) := by
    refine Twin.bind (sysRecv_same fd space flags) fun r => ?_
    obtain ⟨got, d⟩ := r
    refine Twin.bind (Q := SameSince A B) ?_ fun _ =>
      Twin.ite (pure_same _) (Twin.ite (Twin.ite (pure_same _) (pure_same _))
      (Twin.ite (pure_same _)
        (Twin.ite (pure_same _) (Twin.bind (frameCommit_same d) fun _ => ?_))))
    · refine Twin.bind (Q := SameSince A B)
        (Twin.gets (fun s t h => congrArg Prod.fst h.2) fun _ _ h => h.1) fun rx => ?_
      exact emit_same _
    · refine Twin.bind frameDrainLines_same fun status => ?_
      cases status with
      | ok => exact pure_same _
      | needMore => exact pure_same _
      | _ => exact pure_same _
  refine Twin.bind (write_same fd dbusAuthBlob deadline) fun n => Twin.ite (pure_same _) ?_
  refine Twin.loop (fun s t h => by rw [h.k]) (fun _ _ h => h) (fun reads => ?_) 0
  refine Twin.bind (gets_same fun _ _ h => by rw [h.fr]) fun space =>
    Twin.ite (pure_same _) (Twin.ite ?_
    (Twin.ite (pure_same _) (receive space 0 (reads + 1))))
  refine Twin.bind (waitReadable_same fd deadline) fun wait => ?_
  cases wait with
  | timedOut => exact pure_same _
  | again => exact pure_same _
  | failed e => exact pure_same _
  | ready => exact receive space dbusSysMsgDontwait reads

theorem hello_same (fd : Int) : Same A B (dbusSessionHello fd) := by
  refine Twin.bind ?_ fun rc =>
    Twin.ite (Twin.bind frameCloseFds_same fun _ => pure_same _) (pure_same _)
  refine Twin.bind nextSerial_same fun serial => ask_same fun rc => Twin.ite (pure_same _) ?_
  refine Twin.bind frameNext_same fun r => Twin.bind base_same fun p => ?_
  refine Twin.bind (decode_same (fun _ d => Decode.helloName_eq r.len p d) fun _ _ _ => rfl)
    fun name => ?_
  cases name with
  | none => exact Twin.bind (frameAdvance_same _) fun _ => pure_same _
  | some x =>
    exact Twin.bind (setUnique_same _ _) fun su => Twin.bind (frameAdvance_same _) fun _ =>
      Twin.ite (pure_same _) (pure_same _)

/-- `dbus_socket_connect`, from the socket it created. -/
def connectFrom (fd0 : Int) : M Int :=
  if fd0 < 0 then pure fd0
  else do
    let fd ← dbusSocketAboveStdio fd0
    if fd < 0 then pure fd
    else do
      let rc ← sysConnect fd
      if rc < 0 then do
        sysClose fd
        pure rc
      else do
        emit [.setsockopt fd 20, .setsockopt fd 21]
        pure fd

theorem connectFrom_same (fd0 : Int) : Same A B (connectFrom fd0) := by
  refine Twin.ite (pure_same _) (Twin.bind (aboveStdio_same fd0) fun fd =>
    Twin.ite (pure_same _) ?_)
  refine Twin.bind (connect_same fd) fun rc =>
    Twin.ite (Twin.bind (emit_same _) fun _ => pure_same _) ?_
  exact Twin.bind (emit_same _) fun _ => pure_same _

/-- `dbus_native_open_system_bus`, from the socket it created. -/
def openFrom (fd0 : Int) : M (Int × Option Int) := do
  let fd ← connectFrom fd0
  if fd < 0 then pure (fd, none)
  else do
    let rc ← dbusSessionHandshake fd
    if rc < 0 then do
      sysClose fd
      pure (rc, none)
    else pure (0, some fd)

theorem openFrom_same (fd0 : Int) : Same A B (openFrom fd0) := by
  refine Twin.bind (connectFrom_same fd0) fun fd =>
    Twin.ite (pure_same _) (Twin.bind ?_ fun rc => Twin.ite ?_ (pure_same _))
  · exact Twin.bind (sasl_same fd) fun sr => Twin.ite (pure_same _) (hello_same fd)
  · exact Twin.bind (emit_same _) fun _ => pure_same _

theorem openSystemBus_same : Same A B dbusNativeOpenSystemBus := by
  refine Twin.bind frameInit_same fun _ => Twin.bind (Twin.modify fun _ _ h => h.sasl rfl) fun _ =>
    ?_
  refine Twin.bind (dbs_same (f := fun _ => {})) fun _ => Twin.bind (allocOnce_same .sa) fun ok =>
    Twin.ite ?_ (pure_same _)
  refine Twin.bind (Twin.bind socket_same fun fd0 => connectFrom_same fd0) fun fd =>
    Twin.ite (pure_same _) ?_
  refine Twin.bind ?_ fun rc =>
    Twin.ite (Twin.bind (emit_same _) fun _ => pure_same _) (pure_same _)
  exact Twin.bind (sasl_same fd) fun sr => Twin.ite (pure_same _) (hello_same fd)

/-! ## The operations -/

theorem sessionPath_same (bus pid : Int) (out : Option Int) :
    Same A B (dbusNativeGetSessionPath bus pid out) := by
  cases out with
  | none => exact pure_same _
  | some outLen =>
    refine Twin.ite (pure_same _) (Twin.bind nextSerial_same fun serial => ask_same fun rc =>
      Twin.ite (pure_same _) ?_)
    refine Twin.bind base_same fun p => Twin.bind frameNext_same fun r => ?_
    refine Twin.bind (decode_same (fun _ d => Decode.sessionPath_eq r.len p d) fun _ _ _ => rfl)
      fun path => ?_
    cases path with
    | none => exact Twin.bind done_same fun _ => pure_same _
    | some x =>
      exact Twin.ite (Twin.bind done_same fun _ => pure_same _)
        (Twin.bind done_same fun _ => pure_same _)

theorem callAndDone_same (bus : Int) (request : Nat → Marshal) :
    Same A B (dbsCallAndDone bus request) :=
  Twin.bind nextSerial_same fun _ => ask_same fun _ =>
    Twin.ite (Twin.bind done_same fun _ => pure_same _) (pure_same _)

theorem fdIsDevice_same (fd major minor : Int) :
    Same A B (dbusSessionFdIsDevice fd major minor) := by
  have ready : Same A B (Prog.gets fun w : World => decide (Scratch.stx ∈ w.scratch)) :=
    gets_same fun s t h => by rw [decide_eq_true (h.left _), decide_eq_true (h.right _)]
  refine Twin.bind ready fun _ =>
    Twin.ite (pure_same _) (Twin.bind (getfl_same fd) fun fl => Twin.ite (pure_same _)
    (Twin.ite (pure_same _) (Twin.bind (statx_same fd) fun st => ?_)))
  exact Twin.ite (pure_same _) (Twin.ite (pure_same _) (pure_same _))

theorem takeDevice_same (bus : Int) (sess : Option Bytes) (major minor : Int) :
    Same A B (dbusNativeTakeDevice bus sess major minor) := by
  refine Twin.bind (allocOnce_same .stx) fun ok => Twin.ite ?_ (pure_same _)
  refine Twin.ite (pure_same _) (Twin.ite (pure_same _) (Twin.ite (pure_same _) ?_))
  refine Twin.bind nextSerial_same fun serial => ask_same fun rc => Twin.ite (pure_same _) ?_
  refine Twin.bind base_same fun p => Twin.bind frameNext_same fun r => ?_
  refine Twin.bind (decode_same (fun w d => Decode.takeReply_eq r.len p w.fr d) fun s t h =>
    by rw [h.fr]) fun named => ?_
  obtain ⟨index, inactive⟩ := named
  have tail (fd : Int) : Same A B (do
      if 0 ≤ fd then do
        if ← dbusSessionFdIsDevice fd major minor then
          frameAdvance r.len
          emit [.handed fd]
          pure (0, some (fd, inactive))
        else
          sysClose fd
          frameAdvance r.len
          pure (-9, some (-1, inactive))
      else do
        frameAdvance r.len
        pure (-9, some (fd, inactive)) : M (Int × Option (Int × Nat))) := by
    refine Twin.ite ?_ (Twin.bind (frameAdvance_same _) fun _ => pure_same _)
    refine Twin.bind (fdIsDevice_same fd major minor) fun ok => Twin.ite ?_ ?_
    · exact Twin.bind (frameAdvance_same _) fun _ => Twin.bind (emit_same _) fun _ => pure_same _
    · exact Twin.bind (emit_same _) fun _ => Twin.bind (frameAdvance_same _) fun _ => pure_same _
  cases index with
  | none => exact Twin.bind (pure_same (-1)) tail
  | some i => exact Twin.bind (frameClaimFd_same i) tail

theorem pump_same (bus : Int) : Same A B (dbusNativePumpSignals bus) := by
  have drain (n : Nat) : Same A B (dbsDrain n) := by
    refine Twin.loop (fun s t h => by rw [h.fr]) (fun _ _ h => h)
      (fun drained => Twin.bind frameNext_same fun s => ?_) n
    cases s with
    | msg r => exact Twin.bind (frameAdvance_same r) fun _ => Twin.ite (pure_same _) (pure_same _)
    | _ => exact pure_same _
  have result (drained : Nat) (r : FrameStatus) (io : Int) :
    Same A B (dbsPumpResult drained r io) :=
    Twin.ite (pure_same _) (Twin.bind (frameFault_same r) fun _ => Twin.ite (pure_same _)
      (Twin.ite (pure_same _)
      (Twin.bind (gets_same fun _ _ h => by rw [h.dbs]) fun _ => Twin.ite (pure_same _)
      (pure_same _))))
  refine Twin.loop (fun _ _ h => fuel_same h) (fun _ _ h => h)
    (fun c => Twin.bind (drain c.1) fun x => ?_) (0, 0)
  obtain ⟨drained, r⟩ := x
  refine Twin.ite (pure_same _) (Twin.ite ?_ (Twin.map (result drained r 0)))
  refine Twin.bind (recv_same bus _) fun got =>
    Twin.ite (pure_same _) (Twin.ite (Twin.map (result drained r 0)) ?_)
  exact Twin.bind (ioFail_same got) fun io => Twin.map (result drained r io)

theorem closeBus_same (bus : Int) : Same A B (dbusNativeCloseBus bus) :=
  Twin.bind frameCloseFds_same fun _ =>
    Twin.ite (Twin.bind (emit_same _) fun _ => pure_same _) (pure_same _)

theorem setTimeout_same (ms : Int) : Same A B (dbusSessionSetTimeoutMs ms) :=
  Twin.ite (pure_same _) (Twin.ite (pure_same _)
    (Twin.bind (dbs_same (f := fun d => { d with timeoutMs := ms })) fun _ => pure_same _))

end

/-! ## Runs -/

/-- What an operation gives back: its result, and the out-parameters it wrote. -/
structure Given where
  rc : Int
  bus : Option Int := none
  path : Option Bytes := none
  device : Option (Int × Nat) := none
  deriving DecidableEq, Repr

/-- The operations of the native backend, on any bus, and what its tests may change. -/
inductive BackendOp where
  | openSystemBus
  | getSessionPath (bus pid : Int) (out : Option Int)
  | takeControl (bus : Int) (sess : Option Bytes)
  | releaseControl (bus : Int) (sess : Option Bytes)
  | takeDevice (bus : Int) (sess : Option Bytes) (major minor : Int)
  | releaseDevice (bus : Int) (sess : Option Bytes) (major minor : Int)
  | pumpSignals (bus : Int)
  | closeBus (bus : Int)
  | setTimeoutMs (ms : Int)
  /-- the clock fails after `n` readings, or never -/
  | failClockAfter (n : Int)
  /-- `dbus_session_call` of a message built for it -/
  | call (bus : Int) (m : Marshal) (serial : Nat)
  | done
  deriving DecidableEq, Repr

namespace BackendOp

def run : BackendOp → M Given
  | openSystemBus => do
    let (rc, bus) ← dbusNativeOpenSystemBus
    pure { rc := rc, bus := bus }
  | getSessionPath bus pid out => do
    let (rc, path) ← dbusNativeGetSessionPath bus pid out
    pure { rc := rc, path := path }
  | takeControl bus sess => do pure { rc := ← dbusNativeTakeControl bus sess }
  | releaseControl bus sess => do pure { rc := ← dbusNativeReleaseControl bus sess }
  | takeDevice bus sess major minor => do
    let (rc, device) ← dbusNativeTakeDevice bus sess major minor
    pure { rc := rc, device := device }
  | releaseDevice bus sess major minor =>
    do pure { rc := ← dbusNativeReleaseDevice bus sess major minor }
  | pumpSignals bus => do pure { rc := ← dbusNativePumpSignals bus }
  | closeBus bus => do pure { rc := ← dbusNativeCloseBus bus }
  | setTimeoutMs ms => do pure { rc := ← dbusSessionSetTimeoutMs ms }
  | failClockAfter n => do
    Prog.modify fun w => { w with dbs := { w.dbs with clockFail := if n < 0 then 0 else n + 1 } }
    pure { rc := 0 }
  | call bus m serial => do
    setMarshal m
    pure { rc := ← dbusSessionCall bus serial }
  | done => do
    dbusSessionDone
    pure { rc := 0 }

end BackendOp

/-- Run operations one after the other: what each gave back. -/
def runBackend : List BackendOp → M (List Given)
  | [] => pure []
  | op :: rest => do
    let a ← op.run
    let as ← runBackend rest
    pure (a :: as)

section
variable {A B : List Event}

theorem op_same (op : BackendOp) : Same A B op.run := by
  cases op with
  | openSystemBus => exact Twin.bind openSystemBus_same fun _ => pure_same _
  | getSessionPath bus pid out =>
    exact Twin.bind (sessionPath_same bus pid out) fun _ => pure_same _
  | takeControl bus sess =>
    exact Twin.bind (Twin.ite (callAndDone_same bus _) (pure_same _)) fun _ => pure_same _
  | releaseControl bus sess =>
    exact Twin.bind (Twin.ite (callAndDone_same bus _) (pure_same _)) fun _ => pure_same _
  | takeDevice bus sess major minor =>
    exact Twin.bind (takeDevice_same bus sess major minor) fun _ => pure_same _
  | releaseDevice bus sess major minor =>
    exact Twin.bind (Twin.ite (Twin.ite (callAndDone_same bus _) (pure_same _)) (pure_same _))
      fun _ => pure_same _
  | pumpSignals bus => exact Twin.bind (pump_same bus) fun _ => pure_same _
  | closeBus bus => exact Twin.bind (closeBus_same bus) fun _ => pure_same _
  | setTimeoutMs ms => exact Twin.bind (setTimeout_same ms) fun _ => pure_same _
  | failClockAfter n =>
    exact Twin.bind (dbs_same (f := fun d => { d with clockFail := if n < 0 then 0 else n + 1 }))
      fun _ => pure_same _
  | call bus m serial => exact ask_same fun _ => pure_same _
  | done => exact Twin.bind done_same fun _ => pure_same _

theorem runBackend_same (ops : List BackendOp) : Same A B (runBackend ops) := by
  induction ops with
  | nil => exact pure_same _
  | cons op rest ih => exact Twin.bind (op_same op) fun _ => Twin.bind ih fun _ => pure_same _

end

/-- The world once the connection before is forgotten and a socket created. -/
def World.reopened (w : World) : World :=
  { w with fr := {}, auth := {}, dbs := {}, k := { w.k with socket := w.k.socket.tail } }.emit
    ((w.fr.fdq.filter (0 ≤ ·)).map Event.close ++ [Event.socket (w.k.socket.headD (-24))])

theorem openSystemBus_run {w : World} (hw : Scratch.sa ∈ w.scratch) :
    dbusNativeOpenSystemBus w = openFrom (w.k.socket.headD (-24)) w.reopened := by
  generalize hr :
    ({ w with fr := {}, auth := {}, dbs := {} }.emit
    ((w.fr.fdq.filter (0 ≤ ·)).map Event.close) : World) = w₁
  have resets : dbusNativeOpenSystemBus w = (do
      if ← allocOnce .sa then
        let fd ← sysSocket >>= connectFrom
        if fd < 0 then pure (fd, none)
        else do
          let rc ← dbusSessionHandshake fd
          if rc < 0 then do
            sysClose fd
            pure (rc, none)
          else pure (0, some fd)
      else pure (-12, none) : M (Int × Option Int)) w₁ := by
    rw [← hr]
    rfl
  have there : allocOnce .sa w₁ = .done true w₁ := by
    have hs : Scratch.sa ∈ w₁.scratch := by
      rw [← hr]
      exact hw
    simp only [allocOnce, modifyGet_run, hs, if_true]
  have reopened : w.reopened = { w₁ with k := { w₁.k with socket := w₁.k.socket.tail } }.emit
      [Event.socket (w₁.k.socket.headD (-24))] := by
    rw [← hr]
    simp only [World.reopened, World.emit, List.append_assoc]
  have answer : w.k.socket.headD (-24) = w₁.k.socket.headD (-24) := by
    rw [← hr]
    rfl
  rw [resets, bind_done there, reopened, answer]
  rfl

/-- The run of a new connection, from the socket it created. -/
def runFrom (ops : List BackendOp) (fd0 : Int) : M (List Given) := do
  let (rc, bus) ← openFrom fd0
  let as ← runBackend ops
  pure ({ rc := rc, bus := bus } :: as)

theorem runFrom_same {A B : List Event} (ops : List BackendOp) (fd0 : Int) :
    Same A B (runFrom ops fd0) :=
  Twin.bind (openFrom_same fd0) fun _ => Twin.bind (runBackend_same ops) fun _ => pure_same _

theorem runBackend_reopened {w : World} (hw : Scratch.sa ∈ w.scratch) (ops : List BackendOp) :
    runBackend (.openSystemBus :: ops) w = runFrom ops (w.k.socket.headD (-24)) w.reopened := by
  have first : BackendOp.openSystemBus.run w = (do
      let (rc, bus) ← openFrom (w.k.socket.headD (-24))
      pure { rc := rc, bus := bus } : M Given) w.reopened := by
    show (dbusNativeOpenSystemBus >>= _) w = _
    rw [bind_run, bind_run, openSystemBus_run hw]
  rw [runBackend, bind_run, first, runFrom, bind_run, bind_run]
  cases openFrom (w.k.socket.headD (-24)) w.reopened with
  | waiting u => rfl
  | done r u => rfl

/-- **Reconnecting forgets everything.** Two worlds with the same kernel, whatever
connections they had before and whatever those left behind, open the bus and run
the same operations with the same results and the same out-parameters, and do
the same from the creation of the socket on. Before it each closes what its own
connection left queued. -/
theorem reconnect_forgets (w w' : World) (hk : w.k = w'.k) (hw : ∀ b, b ∈ w.scratch)
    (hw' : ∀ b, b ∈ w'.scratch) (ops : List BackendOp) :
    let o := runBackend (.openSystemBus :: ops) w
    let o' := runBackend (.openSystemBus :: ops) w'
    o.value = o'.value ∧ o.state.k = o'.state.k ∧ ∃ fd es,
      o.state.trace = w.trace ++ (w.fr.fdq.filter (0 ≤ ·)).map Event.close ++
      Event.socket fd :: es ∧
      o'.state.trace = w'.trace ++ (w'.fr.fdq.filter (0 ≤ ·)).map Event.close ++
      Event.socket fd :: es := by
  intro o o'
  have start : SameSince w.reopened.trace w'.reopened.trace w.reopened w'.reopened := by
    refine ⟨rfl, rfl, rfl, ?_, hw, hw', [], (List.append_nil _).symm, (List.append_nil _).symm⟩
    show ({ w.k with socket := w.k.socket.tail } : Kernel) =
      { w'.k with socket := w'.k.socket.tail }
    rw [hk]
  obtain ⟨value, same⟩ := (runFrom_same ops (w.k.socket.headD (-24))).value start
  have run : o = runFrom ops (w.k.socket.headD (-24)) w.reopened := runBackend_reopened (hw .sa) ops
  have run' : o' = runFrom ops (w.k.socket.headD (-24)) w'.reopened := by
    rw [hk]
    exact runBackend_reopened (hw' .sa) ops
  obtain ⟨es, ht, ht'⟩ := same.shown
  rw [run, run']
  refine ⟨value, same.k, w.k.socket.headD (-24), es, ?_, ?_⟩
  · rw [ht]
    simp only [World.reopened, World.emit, List.append_assoc, List.cons_append, List.nil_append]
  · rw [ht', hk]
    simp only [World.reopened, World.emit, List.append_assoc, List.cons_append, List.nil_append]

/-- The reply to a request with this serial, and what is to be in it. -/
def answerTo (serial : Nat) (body : Option Bytes) : Bytes :=
  let m := dbusMarshalFieldU32 (dbusMarshalBegin 2 0 serial) dbusMarshalFReplyser serial
  match body with
  | none => (dbusMarshalFinish (dbusMarshalEndFields m)).2.buf
  | some s =>
    let m := dbusMarshalEndFields (dbusMarshalFieldSig m dbusMarshalFSignature (lit "s") 1)
    (dbusMarshalFinish (dbusMarshalBodyStr m s s.length)).2.buf

/-- A connection that died in the middle of an over-cap message, a descriptor
queued and its name, serial and short timeout still known; the next one names us
and grants control. -/
def wornOut : World where
  fr := { skip := 100, eof := true, fdq := [7], fdtot := 1 }
  dbm := { bad := true }
  dbs := { serial := 9, closed := true, uniq := lit ":1.4", timeoutMs := 5, clockFail := 1 }
  scratch := [.uniq, .sa, .blob, .stx]
  dbu := { limit := 64 }
  k := {
    socket := [5]
    connect := [0]
    clock := List.replicate 8 { sec := 1 }
    send := [48, 1000, 1000]
    poll := List.replicate 5 1
    recv := [{ ret := 58 }, { ret := 16 }, { ret := 25 }, { ret := 16 }, { ret := 8 }]
    inbox := lit "DATA\r\nOK 0123456789abcdef0123456789abcdef\r\nAGREE_UNIX_FD\r\n" ++
      answerTo 1 (some (lit ":1.5")) ++ answerTo 2 none }
  trace := [.socket 4]

/-- The same kernel, and nothing before. -/
def firstOpen : World where
  scratch := [.uniq, .sa, .blob, .stx]
  k := wornOut.k

/-- Nothing of the old connection is there any more: the bus opens, Hello goes out as the first
request, and the call after it is answered. -/
theorem reconnect_forgets_worn_out :
    let ops := [BackendOp.openSystemBus, .takeControl 5 (some (lit "/s"))]
    (runBackend ops wornOut).value = some [{ rc := 0, bus := some 5 }, { rc := 0 }] ∧
      (runBackend ops firstOpen).value = some [{ rc := 0, bus := some 5 }, { rc := 0 }] := by
  intro ops
  have all (b : Scratch) : b ∈ firstOpen.scratch := by cases b <;> decide
  obtain ⟨same, -, -⟩ := reconnect_forgets wornOut firstOpen rfl all all
    [.takeControl 5 (some (lit "/s"))]
  have fresh : (runBackend ops firstOpen).value =
      some [{ rc := 0, bus := some 5 }, { rc := 0 }] := by decide +kernel
  exact ⟨same.trans fresh, fresh⟩

end Samvada
