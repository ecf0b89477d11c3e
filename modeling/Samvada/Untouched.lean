import Samvada.Moves

/- What the session layer leaves alone. A receive touches neither the scratch
   blocks, nor the clock, nor the session's own state; a call frees no scratch
   block. -/
namespace Samvada
open Octets Resumable Resumable.Prog

/-- What a receive does not touch. -/
def World.calm (w : World) : List Scratch × List ClockAnswer × Session :=
  (w.scratch, w.k.clock, w.dbs)

abbrev FixesCalm {α : Type} (x : M α) : Prop := Fixes World.calm x
abbrev FixesScratch {α : Type} (x : M α) : Prop := Fixes World.scratch x

theorem FixesCalm.scratch {α : Type} {x : M α} (h : FixesCalm x) : FixesScratch x := h.part Prod.fst

/-! ## A receive -/

theorem recvmsg_calm (fd : Int) (want flags : Nat) : FixesCalm (sysRecvmsg fd want flags) := by
  refine Fixes.query fun w a w' h => ?_
  cases hc : w.k.recv with
  | nil => simp [hc] at h
  | cons c rest =>
    rw [hc] at h
    simp only at h
    split_ifs at h
    · cases h
      rfl
    · cases h
      rfl

theorem queueFds_calm : ∀ fds, FixesCalm (dbsQueueFds fds)
  | [] => Fixes.pure _
  | fd :: rest => by
    refine Fixes.bind (Fixes.ite (Fixes.pure _) ?_) fun rfd =>
      Fixes.bind (Fixes.modify fun _ => rfl) fun _ =>
      Fixes.bind (queueFds_calm rest) fun _ => Fixes.pure _
    exact Fixes.bind (Fixes.modifyGet fun _ => rfl) fun _ =>
      Fixes.bind (Fixes.modify fun _ => rfl) fun _ => Fixes.pure _

theorem sysRecv_calm (fd : Int) (want flags : Nat) : FixesCalm (dbusSysRecv fd want flags) := by
  refine Fixes.bind (Fixes.modify fun _ => rfl) fun _ =>
    Fixes.bind (recvmsg_calm fd want flags) fun r => ?_
  obtain ⟨n, d, ctrl, trunc⟩ := r
  exact Fixes.ite (Fixes.pure _) (Fixes.bind (Fixes.modify fun _ => rfl) fun _ => Fixes.pure _)

theorem recv_calm (fd : Int) (flags : Nat) : FixesCalm (dbsRecv fd flags) := by
  refine Fixes.bind (Fixes.modifyGet fun _ => rfl) fun want => Fixes.ite
    (Fixes.bind (Fixes.modify fun _ => rfl) fun _ => Fixes.pure _)
    (Fixes.bind (sysRecv_calm fd want flags) fun r => ?_)
  obtain ⟨got, d⟩ := r
  refine Fixes.ite (Fixes.pure _)
    (Fixes.ite (Fixes.bind (Fixes.modify fun _ => rfl) fun _ => Fixes.pure _) ?_)
  refine Fixes.bind Fixes.gets fun _ => Fixes.bind (Fixes.modify fun _ => rfl) fun _ =>
    Fixes.bind Fixes.gets fun rx =>
    Fixes.bind (queueFds_calm rx) fun _ => Fixes.bind Fixes.gets fun _ => ?_
  exact Fixes.bind (Fixes.modify fun _ => rfl) fun _ =>
    Fixes.bind (Fixes.modify fun _ => rfl) fun _ => Fixes.pure _

/-! ## A call -/

theorem nowMs_scratch : FixesScratch dbusSessionNowMs := by
  refine Fixes.bind Fixes.gets fun _ =>
    Fixes.ite (Fixes.pure _) (Fixes.bind (Fixes.modify fun _ => rfl) fun _ => ?_)
  refine Fixes.query fun w a w' h => ?_
  cases hc : w.k.clock with
  | nil => simp [hc] at h
  | cons c rest =>
    rw [hc] at h
    cases h
    rfl

theorem poll_scratch (fd : Int) (wr : Bool) (ms : Int) : FixesScratch (sysPoll fd wr ms) := by
  refine Fixes.query fun w a w' h => ?_
  cases hc : w.k.poll with
  | nil => simp [hc] at h
  | cons c rest =>
    rw [hc] at h
    cases h
    rfl

theorem sendto_scratch (fd : Int) (offered : Bytes) (flags : Nat) :
    FixesScratch (sysSendto fd offered flags) := by
  refine Fixes.query fun w a w' h => ?_
  cases hc : w.k.send with
  | nil => simp [hc] at h
  | cons c rest =>
    rw [hc] at h
    cases h
    rfl

theorem ioFail_scratch (e : Int) : FixesScratch (dbsIoFail e) :=
  Fixes.ite (Fixes.bind (Fixes.modify fun _ => rfl) fun _ => Fixes.pure _) (Fixes.pure _)

theorem frameFault_scratch (r : FrameStatus) : FixesScratch (dbsFrameFault r) := by
  cases r with
  | eof => exact Fixes.bind (Fixes.modify fun _ => rfl) fun _ => Fixes.pure _
  | truncated => exact Fixes.bind (Fixes.modify fun _ => rfl) fun _ => Fixes.pure _
  | _ => exact Fixes.pure _

theorem waitReadable_scratch (fd deadline : Int) : FixesScratch (dbsWaitReadable fd deadline) :=
  Fixes.bind nowMs_scratch fun _ => Fixes.ite (Fixes.pure _) (Fixes.ite (Fixes.pure _)
    (Fixes.bind (poll_scratch _ _ _) fun _ => Fixes.ite (Fixes.pure _) (Fixes.ite (Fixes.pure _)
      (Fixes.ite (Fixes.pure _) (Fixes.pure _)))))

theorem write_scratch (fd : Int) (buf : Bytes) (deadline : Int) :
    FixesScratch (dbsWrite fd buf deadline) := by
  refine Fixes.loop
    (fun sent => Fixes.ite (Fixes.pure _) (Fixes.bind (sendto_scratch _ _ _) fun n => ?_)) 0
  have cut (rc : Int) : FixesScratch (.inr <$> dbsCut sent rc : M (Nat ⊕ Int)) :=
    Fixes.map (Fixes.bind (Fixes.modify fun _ => rfl) fun _ => Fixes.pure _)
  refine Fixes.ite (Fixes.pure _)
    (Fixes.ite (Fixes.bind ?_ fun _ => Fixes.ite (Fixes.pure _) (cut _))
    (Fixes.ite (cut _) (Fixes.ite (cut _) (Fixes.pure _))))
  exact Fixes.ite (Fixes.pure _) (Fixes.bind nowMs_scratch fun _ => Fixes.ite (Fixes.pure _)
    (Fixes.ite (Fixes.pure _)
    (Fixes.bind (poll_scratch _ _ _) fun _ => Fixes.ite (Fixes.pure _)
    (Fixes.ite (Fixes.pure _) (Fixes.pure _)))))

theorem scan_scratch (serial wm : Nat) : FixesScratch (dbsScan serial wm) := by
  refine Fixes.loop (fun _ => Fixes.bind (Fixes.modifyGet fun _ => rfl) fun s => ?_) ()
  cases s with
  | msg r =>
    refine Fixes.bind (Fixes.modifyGet fun _ => rfl) fun v => Fixes.bind Fixes.gets fun pos => ?_
    cases v with
    | success => exact Fixes.bind (Fixes.modify fun _ => rfl) fun _ => Fixes.pure _
    | failure rc =>
      exact Fixes.bind (Fixes.modify fun _ => rfl) fun _ =>
        Fixes.bind (Fixes.modify fun _ => rfl) fun _ => Fixes.pure _
    | other => exact Fixes.bind (Fixes.modify fun _ => rfl) fun _ => Fixes.pure _
  | _ => exact Fixes.pure _

theorem await_scratch (fd : Int) (serial wm : Nat) (deadline : Int) :
    FixesScratch (dbsAwait fd serial wm deadline) := by
  have receive (flags : Nat) (reads : Nat) : FixesScratch (dbsReceive fd flags deadline reads) :=
    Fixes.bind ((recv_calm fd flags).scratch) fun _ =>
      Fixes.ite (Fixes.pure _) (Fixes.ite (Fixes.ite (Fixes.pure _) (Fixes.pure _))
      (Fixes.ite (Fixes.map (ioFail_scratch _)) (Fixes.pure _)))
  refine Fixes.loop (fun reads => Fixes.bind (scan_scratch serial wm) fun s => ?_) 0
  cases s with
  | answered rc => exact Fixes.pure _
  | stopped r =>
    refine Fixes.bind (frameFault_scratch r) fun _ =>
      Fixes.ite (Fixes.pure _) (Fixes.ite ?_ (Fixes.ite (Fixes.pure _) (receive _ _)))
    refine Fixes.bind (waitReadable_scratch fd deadline) fun wait => ?_
    cases wait with
    | timedOut => exact Fixes.pure _
    | again => exact Fixes.pure _
    | failed e => exact Fixes.map (ioFail_scratch e)
    | ready => exact receive _ _

theorem call_scratch (fd : Int) (serial : Nat) : FixesScratch (dbusSessionCall fd serial) := by
  refine Fixes.bind Fixes.gets fun m => Fixes.bind Fixes.gets fun _ =>
    Fixes.ite (Fixes.pure _) (Fixes.ite (Fixes.pure _) ?_)
  refine Fixes.bind (Fixes.modifyGet fun _ => rfl) fun lost =>
    Fixes.bind (frameFault_scratch lost) fun _ =>
    Fixes.ite (Fixes.pure _) (Fixes.bind Fixes.gets fun wm => Fixes.bind nowMs_scratch fun _ =>
      Fixes.bind Fixes.gets fun _ => ?_)
  exact Fixes.bind (write_scratch fd m.buf _) fun _ =>
    Fixes.ite (Fixes.pure _) (Fixes.ite (ioFail_scratch _) (await_scratch _ _ _ _))

end Samvada
