import Samvada.Decoded
import Samvada.FrameStream

/- Every loop of the session layer ends: a round that goes on has consumed a
   message of the buffer, or an answer of the kernel, or met the end of input.
   `Fuel n e` bounds what is left of both. -/
namespace Samvada
open Octets Resumable Resumable.Prog

/-! ## The framer, in any state -/

theorem AtRest.needMore_eof {f : Frame} (h : AtRest f .needMore) : f.eof = false := by
  generalize hr : FrameStatus.needMore = r at h
  have short : ∀ s, s ≠ .needMore → FrameStatus.needMore = dbusFrameShort f s → f.eof = false := by
    intro s hs he
    unfold dbusFrameShort at he
    cases hf : f.eof with
    | false => rfl
    | true =>
      rw [hf] at he
      exact absurd he.symm hs
  cases h with
  | draining hs hh => exact short _ (by decide) hr
  | empty hs hh => exact short _ (by decide) hr
  | header hs h0 hh => exact short _ (by decide) hr
  | body t hs hh ht hc hl => exact short _ (by decide) hr
  | whole t => cases hr
  | bad e => cases e <;> cases hr

/-- What `dbus_frame_next` never does, whatever the framer holds. -/
theorem next_bounds (f : Frame) : ∃ r g c, dbusFrameNext f = (r, g, c) ∧
    dbusFrameHave g ≤ dbusFrameHave f ∧
    g.eof = f.eof ∧ (∀ t, r = .msg t → 0 < t ∧ t ≤ dbusFrameHave g) ∧
    (r = .needMore → f.eof = false) := by
  by_cases h : f.off ≤ f.buf.length
  · obtain ⟨r, g, c, e, rest, pass⟩ := dbusFrameNext_passed h
    refine ⟨r, g, c, e, pass.have_le, pass.eof, ?_, ?_⟩
    · rintro t rfl
      exact ⟨rest.msg_pos, rest.whole_inv.2.2.2⟩
    · rintro rfl
      exact pass.eof ▸ rest.needMore_eof
  · have h0 : dbusFrameHave f = 0 := by
      simp only [dbusFrameHave]
      omega
    by_cases hs : 0 < f.skip
    · have rest : AtRest f (dbusFrameShort f .truncated) := .draining hs h0
      refine ⟨_, f, [], rest.next, Nat.le_refl _, rfl, fun t ht =>
        absurd ht (short_ne_msg f t).2, ?_⟩
      intro hn
      exact AtRest.needMore_eof (hn ▸ rest)
    · have rest : AtRest f (dbusFrameShort f .eof) := .empty (by omega) h0
      refine ⟨_, f, [], rest.next, Nat.le_refl _, rfl, fun t ht =>
        absurd ht (short_ne_msg f t).1, ?_⟩
      intro hn
      exact AtRest.needMore_eof (hn ▸ rest)

theorem advance_lower {f : Frame} {t : Nat} (h0 : 0 < t) (hl : t ≤ dbusFrameHave f) :
    dbusFrameHave (dbusFrameAdvance f t).1 < dbusFrameHave f := by
  have hne : t ≠ 0 := by omega
  simp only [dbusFrameAdvance, hne, if_false, dbusFrameCloseFds, dbusFrameHave] at hl ⊢
  omega

/-! ## The loops over buffered messages -/

/-- A round that goes on lowers `μ`, from its specification from each state. -/
theorem lowers_of {σ α β : Type} {μ : σ → Nat} {body : β → Prog σ (β ⊕ α)}
    (h : ∀ b s₀, Spec (fun s => s = s₀) (body b) (fun r s => ∀ b', r = .inl b' → μ s < μ s₀)
    fun _ => True) : Lowers μ body := by
  intro b s b' s' hb
  exact (h b s).of_done rfl hb b' rfl

/-- What is buffered. -/
def buffered (w : World) : Nat := dbusFrameHave w.fr

theorem frameNext_buffered (n : Nat) : Spec (fun w => buffered w = n) frameNext
    (fun r w => buffered w ≤ n ∧ ∀ t, r = .msg t → 0 < t ∧ t ≤ buffered w) fun _ => True := by
  refine Spec.modifyGet fun w hw => ?_
  obtain ⟨r, g, c, e, hle, -, hmsg, -⟩ := next_bounds w.fr
  simp only [e]
  exact ⟨hw ▸ hle, hmsg⟩

theorem frameAdvance_buffered {n t : Nat} (h0 : 0 < t) :
    Spec (fun w => buffered w ≤ n ∧ t ≤ buffered w) (frameAdvance t) (fun _ w => buffered w < n)
    fun _ => True := by
  refine Spec.modify fun w hw => ?_
  have := advance_lower h0 hw.2
  show dbusFrameHave (dbusFrameAdvance w.fr t).1 < n
  have : buffered w = dbusFrameHave w.fr := rfl
  omega

theorem dbsScan_lowers (serial wm : Nat) : Lowers (dbusFrameHave ·.fr)
    (dbsScanRound serial wm) := by
  refine lowers_of fun b w₀ => ?_
  have stop : ∀ (s : Scan), Spec (fun _ : World => True) (pure (.inr s) : M (Unit ⊕ Scan))
      (fun r w => ∀ b', r = .inl b' → buffered w < buffered w₀) fun _ => True :=
    fun s => Spec.pure fun _ _ b' hb => by cases hb
  refine Spec.bind ((frameNext_buffered (buffered w₀)).mono (fun w hw => by rw [hw])
    (fun _ _ h => h) fun _ h => h) fun r => ?_
  cases r with
  | msg t =>
    refine Spec.bind (decode_spec fun _ _ h => h) fun v => Spec.gets_bind fun pos => ?_
    cases v with
    | success =>
      exact Spec.bind (Q := fun _ _ => True) (Spec.modify fun _ _ => trivial) fun _ => stop _
    | failure rc =>
      refine Spec.bind (Q := fun _ _ => True) (Spec.modify fun _ _ => trivial) fun _ =>
        Spec.bind (Q := fun _ _ => True) (Spec.modify fun _ _ => trivial) fun _ => stop _
    | other =>
      refine Spec.bind (Q := fun _ w => buffered w < buffered w₀) ?_ fun _ =>
        Spec.pure fun w hw _ _ => hw
      intro w hw
      obtain ⟨⟨hle, hm⟩, -⟩ := hw
      obtain ⟨h0, ht⟩ := hm t rfl
      exact frameAdvance_buffered h0 w ⟨hle, ht⟩
  | _ => exact (stop _).mono (fun _ _ => trivial) (fun _ _ h => h) fun _ h => h

theorem dbsDrain_lowers : Lowers (dbusFrameHave ·.fr) dbsDrainRound := by
  refine lowers_of fun drained w₀ => ?_
  refine Spec.bind ((frameNext_buffered (buffered w₀)).mono (fun w hw => by rw [hw])
    (fun _ _ h => h) fun _ h => h) fun r => ?_
  cases r with
  | msg t =>
    refine Spec.bind (Q := fun _ w => buffered w < buffered w₀) ?_ fun _ =>
      Spec.ite (fun _ => Spec.pure fun w hw b' hb => by cases hb) fun _ =>
        Spec.pure fun w hw _ _ => hw
    intro w hw
    obtain ⟨hle, hm⟩ := hw
    obtain ⟨h0, ht⟩ := hm t rfl
    exact frameAdvance_buffered h0 w ⟨hle, ht⟩
  | _ => exact Spec.pure fun w hw b' hb => by cases hb

/-! ## The loops that wait -/

/-- At most `n` answers are left, and the end of input is met or not. -/
def Fuel (n : Nat) (e : Bool) (w : World) : Prop := w.k.size ≤ n ∧ w.fr.eof = e

/-- `x` uses up no more than it finds, and does not touch the end of input. -/
def Keeps {α : Type} (x : M α) : Prop := ∀ n e, Spec (Fuel n e) x (fun _ => Fuel n e) fun _ => True

namespace Keeps
variable {α β : Type}

theorem pure (a : α) : Keeps (Pure.pure a : M α) := fun _ _ => Spec.pure fun _ h => h

theorem modify {f : World → World} (h : ∀ w, (f w).k.size ≤ w.k.size ∧ (f w).fr.eof = w.fr.eof) :
    Keeps (Prog.modify f) :=
      fun _ _ => Spec.modify fun w hw => ⟨(h w).1.trans hw.1, (h w).2.trans hw.2⟩

theorem modifyGet {f : World → α × World}
    (h : ∀ w, (f w).2.k.size ≤ w.k.size ∧ (f w).2.fr.eof = w.fr.eof) : Keeps (Prog.modifyGet f) :=
  fun _ _ => Spec.modifyGet fun w hw => ⟨(h w).1.trans hw.1, (h w).2.trans hw.2⟩

theorem bind {x : M α} {f : α → M β} (hx : Keeps x) (hf : ∀ a, Keeps (f a)) : Keeps (x >>= f) :=
  fun n e => Spec.bind (hx n e) fun a => hf a n e

theorem gets {f : World → α} : Keeps (Prog.gets f) := fun _ _ => Spec.gets fun _ h => h

theorem ite {c : Prop} [Decidable c] {x y : M α} (hx : Keeps x) (hy : Keeps y) :
    Keeps (if c then x else y) :=
  fun n e => Spec.ite (fun _ => hx n e) fun _ => hy n e

end Keeps

theorem emit_keeps (es : List Event) : Keeps (emit es) := Keeps.modify fun _ => ⟨Nat.le_refl _, rfl⟩

theorem advance_eof (f : Frame) (n : Nat) : (dbusFrameAdvance f n).1.eof = f.eof := by
  unfold dbusFrameAdvance
  split <;> rfl

theorem pushFd_eof (f : Frame) (fd : Int) : (dbusFramePushFd f fd).1.eof = f.eof := by
  unfold dbusFramePushFd
  split
  · rfl
  · split
    · rfl
    · split <;> rfl

theorem prepare_eof (f : Frame) (n : Nat) : (dbusFramePrepare f n).2.eof = f.eof := by
  unfold dbusFramePrepare dbusFrameCompact
  split
  · rfl
  · split
    · split <;> rfl
    · rfl

theorem frameAdvance_keeps (n : Nat) : Keeps (frameAdvance n) :=
  Keeps.modify fun w => ⟨Nat.le_refl _, advance_eof w.fr n⟩

theorem framePushFd_keeps (fd : Int) : Keeps (framePushFd fd) :=
  Keeps.modify fun w => ⟨Nat.le_refl _, pushFd_eof w.fr fd⟩

theorem sysDupfd_keeps (fd : Int) : Keeps (sysDupfd fd) :=
  Keeps.modifyGet fun _ => ⟨Nat.le_refl _, rfl⟩

theorem aboveStdio_keeps (fd : Int) : Keeps (dbusSocketAboveStdio fd) :=
  Keeps.ite (Keeps.pure _) (Keeps.bind (sysDupfd_keeps _) fun _ =>
    Keeps.bind (emit_keeps _) fun _ => Keeps.pure _)

theorem dbsQueueFds_keeps : ∀ fds, Keeps (dbsQueueFds fds)
  | [] => Keeps.pure _
  | fd :: rest =>
    Keeps.bind (aboveStdio_keeps fd) fun _ => Keeps.bind (framePushFd_keeps _) fun _ =>
      Keeps.bind (dbsQueueFds_keeps rest) fun _ => Keeps.pure _

theorem dbsLost_keeps : Keeps dbsLost :=
  Keeps.bind (Keeps.modify fun _ => ⟨Nat.le_refl _, rfl⟩) fun _ => Keeps.pure _

theorem dbsFrameFault_keeps (r : FrameStatus) : Keeps (dbsFrameFault r) := by
  cases r with
  | eof => exact dbsLost_keeps
  | truncated => exact dbsLost_keeps
  | _ => exact Keeps.pure _

theorem keeps_query {α : Type} {ask : World → Option (α × World)}
    (h : ∀ w a w', ask w = some (a, w') → w'.k.size ≤ w.k.size ∧ w'.fr.eof = w.fr.eof) :
    Keeps (Prog.query ask) :=
  fun _ _ =>
    Spec.query (fun w a w' hw ha => ⟨(h w a w' ha).1.trans hw.1, (h w a w' ha).2.trans hw.2⟩)
    fun _ _ _ => trivial

/-- A query that takes an answer. -/
theorem takes_query {α : Type} {ask : World → Option (α × World)}
    (h : ∀ w a w', ask w = some (a, w') → w'.k.size < w.k.size ∧ w'.fr.eof = w.fr.eof)
    (n : Nat) (e : Bool) : Spec (Fuel n e) (Prog.query ask) (fun _ w => w.k.size < n ∧ w.fr.eof = e)
    fun _ => True :=
  Spec.query (fun w a w' hw ha => ⟨(h w a w' ha).1.trans_le hw.1, (h w a w' ha).2.trans hw.2⟩)
    fun _ _ _ => trivial

theorem sysClock_keeps : Keeps sysClock := keeps_query fun w a w' h => by
  cases hc : w.k.clock with
  | nil =>
    rw [hc] at h
    cases h
  | cons c rest =>
    rw [hc] at h
    cases h
    refine ⟨?_, rfl⟩
    simp only [Kernel.size, World.emit, hc, List.length_cons]
    omega

theorem nowMs_keeps : Keeps dbusSessionNowMs :=
  Keeps.bind Keeps.gets fun _ => Keeps.ite (Keeps.pure _)
    (Keeps.bind (Keeps.modify fun _ => ⟨Nat.le_refl _, rfl⟩) fun _ => sysClock_keeps)

theorem sysPoll_takes (fd : Int) (wr : Bool) (ms : Int) (n : Nat) (e : Bool) :
    Spec (Fuel n e) (sysPoll fd wr ms) (fun _ w => w.k.size < n ∧ w.fr.eof = e) fun _ => True :=
  takes_query (fun w a w' h => by
    cases hp : w.k.poll with
    | nil =>
      rw [hp] at h
      cases h
    | cons c rest =>
      rw [hp] at h
      cases h
      refine ⟨?_, rfl⟩
      simp only [Kernel.size, World.emit, hp, List.length_cons]
      omega) n e

theorem sysRecvmsg_takes (fd : Int) (want flags n : Nat) (e : Bool) :
    Spec (Fuel n e) (sysRecvmsg fd want flags) (fun _ w => w.k.size < n ∧ w.fr.eof = e) fun _ =>
    True :=
  takes_query (fun w a w' h => by
    cases hr : w.k.recv with
    | nil =>
      rw [hr] at h
      cases h
    | cons c rest =>
      have lower :
        ∀ inbox, ({ w.k with recv := rest, inbox := inbox } : Kernel).size < w.k.size := by
        intro inbox
        simp only [Kernel.size, hr, List.length_cons]
        omega
      rw [hr] at h
      simp only at h
      split at h
      · cases h
        exact ⟨lower _, rfl⟩
      · split at h
        · cases h
        · cases h
          exact ⟨lower _, rfl⟩) n e

theorem dbusSysRecv_takes (fd : Int) (want flags n : Nat) (e : Bool) :
    Spec (Fuel n e) (dbusSysRecv fd want flags) (fun _ w => w.k.size < n ∧ w.fr.eof = e) fun _ =>
    True := by
  refine Spec.bind (Q := fun _ => Fuel n e) (Spec.modify fun w hw => hw) fun _ =>
    Spec.bind (sysRecvmsg_takes fd want flags n e) fun a => ?_
  exact Spec.ite (fun _ => Spec.pure fun _ h => h) fun _ =>
    Spec.bind (Q := fun _ w => w.k.size < n ∧ w.fr.eof = e) (Spec.modify fun _ h => h) fun _ =>
      Spec.pure fun _ h => h

/-- A receive takes an answer, or there was nothing to read and it sets the end of input. -/
theorem dbsRecv_takes (fd : Int) (flags n : Nat) (e : Bool) :
    Spec (Fuel n e) (dbsRecv fd flags) (fun _ w => e = false → w.fuel < n + 1) fun _ => True := by
  have spent : ∀ w : World, w.k.size < n → w.fuel < n + 1 := by
    intro w hw
    unfold World.fuel
    split <;> omega
  have atEof : ∀ w : World, w.k.size ≤ n → (dbusFrameSetEof w.fr).eof = true →
      ({ w with fr := dbusFrameSetEof w.fr } : World).fuel < n + 1 := by
    intro w hw he
    show w.k.size + (if (dbusFrameSetEof w.fr).eof = true then 0 else 1) < n + 1
    rw [if_pos he]
    omega
  have prep : Keeps framePrepare := Keeps.modifyGet fun w => ⟨Nat.le_refl _, prepare_eof w.fr _⟩
  refine Spec.bind (prep n e) fun want => Spec.ite (fun _ => ?_) fun _ => ?_
  · exact Spec.bind (Q := fun _ w => e = false → w.fuel < n + 1)
      (Spec.modify fun w hw _ => atEof w hw.1 rfl) fun _ => Spec.pure fun _ h => h
  · refine Spec.bind (dbusSysRecv_takes fd want flags n e) fun a => ?_
    refine Spec.ite (fun _ => Spec.pure fun w hw _ => spent w hw.1) fun _ =>
      Spec.ite (fun _ => ?_) fun _ => ?_
    · exact Spec.bind (Q := fun _ w => e = false → w.fuel < n + 1)
        (Spec.modify fun w hw _ => atEof w hw.1.le rfl) fun _ => Spec.pure fun _ h => h
    · intro w hw
      have keep : Keeps (do
          let pos ← Prog.gets (dbusFrameReceived ·.fr)
          frameCommit a.2
          let rx ← Prog.gets (·.rx)
          let moved ← dbsQueueFds rx
          let trunc ← Prog.gets (·.rxtrunc)
          Prog.modify fun w => { w with fr := if trunc then dbusFrameFdsIncomplete w.fr else w.fr }
          emit [.received pos a.2.length moved trunc]
          pure a.1 : M Int) := by
        refine Keeps.bind Keeps.gets fun _ =>
          Keeps.bind (Keeps.modify fun _ => ⟨Nat.le_refl _, rfl⟩) fun _ =>
          Keeps.bind Keeps.gets fun _ => Keeps.bind (dbsQueueFds_keeps _) fun _ =>
            Keeps.bind Keeps.gets fun _ =>
          Keeps.bind (Keeps.modify fun w => ⟨Nat.le_refl _, ?_⟩) fun _ =>
            Keeps.bind (emit_keeps _) fun _ =>
          Keeps.pure _
        split
        · unfold dbusFrameFdsIncomplete
          split <;> rfl
        · rfl
      refine (keep (n - 1) e).mono (P := fun w => w.k.size < n ∧ w.fr.eof = e) ?_ ?_
        (fun _ h => h) w hw
      · intro w hw
        exact ⟨by omega, hw.2⟩
      · intro _ w' hw' _
        exact spent w' (by have := hw'.1; omega)

/-- The inner loop of a call stops on the end of input, or before it. -/
theorem dbsScan_stops (serial wm n : Nat) (e : Bool) : Spec (Fuel n e) (dbsScan serial wm)
    (fun s w => Fuel n e w ∧ ∀ r, s = .stopped r → (∀ t, r ≠ .msg t) ∧ (r = .needMore → e = false))
    fun _ => True := by
  refine Spec.loop (I := fun _ => Fuel n e) (dbsScan_lowers serial wm) (fun _ => ?_) ()
  refine Spec.bind (Q := fun r w => Fuel n e w ∧ (r = .needMore → e = false)) ?_ fun r => ?_
  · refine Spec.modifyGet fun w hw => ?_
    obtain ⟨r, g, c, he, -, heof, -, hn⟩ := next_bounds w.fr
    simp only [he]
    exact ⟨⟨hw.1, heof.trans hw.2⟩, fun h => hw.2 ▸ hn h⟩
  · cases r with
    | msg t =>
      refine Spec.bind (decode_spec fun _ _ h => h) fun v => Spec.gets_bind fun pos => ?_
      cases v with
      | success =>
        refine Spec.bind (Q := fun _ => Fuel n e) (Spec.modify fun w hw => hw.1.1) fun _ =>
          Spec.pure fun w hw => ⟨hw, fun r hr => by cases hr⟩
      | failure rc =>
        refine Spec.bind (Q := fun _ => Fuel n e) (Spec.modify fun w hw => hw.1.1) fun _ =>
          Spec.bind (frameAdvance_keeps t n e) fun _ => Spec.pure fun w hw =>
            ⟨hw, fun r hr => by cases hr⟩
      | other =>
        refine Spec.bind (Q := fun _ => Fuel n e) ?_ fun _ => Spec.pure fun _ h => h
        exact (frameAdvance_keeps t n e).mono (fun w hw => hw.1.1) (fun _ _ h => h) fun _ h => h
    | _ =>
      refine Spec.pure fun w hw => ⟨hw.1, fun r hr => ?_⟩
      cases hr
      exact ⟨by simp, hw.2⟩

theorem dbsDrain_stops (drained n : Nat) (e : Bool) : Spec (Fuel n e) (dbsDrain drained)
    (fun s w => Fuel n e w ∧ (s.2 = .needMore → e = false)) fun _ => True := by
  refine Spec.loop (I := fun _ => Fuel n e) dbsDrain_lowers (fun d => ?_) drained
  refine Spec.bind (Q := fun r w => Fuel n e w ∧ (r = .needMore → e = false)) ?_ fun r => ?_
  · refine Spec.modifyGet fun w hw => ?_
    obtain ⟨r, g, c, he, -, heof, -, hn⟩ := next_bounds w.fr
    simp only [he]
    exact ⟨⟨hw.1, heof.trans hw.2⟩, fun h => hw.2 ▸ hn h⟩
  · cases r with
    | msg t =>
      refine Spec.bind (Q := fun _ => Fuel n e) ?_ fun _ =>
        Spec.ite (fun _ => Spec.pure fun w hw => ⟨hw, ?_⟩)
        fun _ => Spec.pure fun w hw => hw
      · exact (frameAdvance_keeps t n e).mono (fun w hw => hw.1) (fun _ _ h => h) fun _ h => h
      · intro h
        cases h
    | _ => exact Spec.pure fun w hw => hw

theorem fuel_eq (w : World) : w.fuel = w.k.size + if w.fr.eof = true then 0 else 1 := rfl

theorem dbsReceive_takes (fd : Int) (flags : Nat) (deadline : Int) (reads n : Nat) :
    Spec (Fuel n false) (dbsReceive fd flags deadline reads)
      (fun r w => ∀ b', r = .inl b' → w.fuel < n + 1) fun _ => True := by
  refine Spec.bind (dbsRecv_takes fd flags n false) fun got => ?_
  have stop : ∀ x : Int, Spec (fun _ : World => True) (pure (.inr x) : M (Nat ⊕ Int))
      (fun r w => ∀ b', r = .inl b' → w.fuel < n + 1) fun _ => True :=
    fun x => Spec.pure fun _ _ b' hb => by cases hb
  have go : Spec (fun w : World => false = false → w.fuel < n + 1)
    (pure (.inl reads) : M (Nat ⊕ Int))
      (fun r w => ∀ b', r = .inl b' → w.fuel < n + 1) fun _ => True :=
    Spec.pure fun w hw _ _ => hw rfl
  refine Spec.ite (fun _ => go) fun _ =>
    Spec.ite (fun _ => Spec.ite (fun _ => go) fun _ => ?_) fun _ =>
    Spec.ite (fun _ => ?_) fun _ => go
  · exact (stop _).mono (fun _ _ => trivial) (fun _ _ h => h) fun _ h => h
  · refine Spec.map ?_
    intro w _
    cases h : dbsIoFail got w with
    | done a s => exact fun b' hb => by cases hb
    | waiting s => trivial

theorem dbsWaitReadable_takes (fd deadline : Int) (n : Nat) (e : Bool) :
    Spec (Fuel n e) (dbsWaitReadable fd deadline)
    (fun r w => Fuel n e w ∧ (r = .again → w.k.size < n))
      fun _ => True := by
  have quit : Spec (Fuel n e) (pure .timedOut : M Wait)
    (fun r w => Fuel n e w ∧ (r = .again → w.k.size < n))
      fun _ => True := Spec.pure fun _ h => ⟨h, fun hr => by cases hr⟩
  refine Spec.bind (nowMs_keeps n e) fun now => Spec.ite (fun _ => quit) fun _ =>
    Spec.ite (fun _ => quit) fun _ => ?_
  refine Spec.bind (sysPoll_takes fd false _ n e) fun ready => ?_
  have out : ∀ r : Wait, Spec (fun w : World => w.k.size < n ∧ w.fr.eof = e) (pure r : M Wait)
      (fun r w => Fuel n e w ∧ (r = .again → w.k.size < n)) fun _ => True :=
    fun r => Spec.pure fun w hw => ⟨⟨hw.1.le, hw.2⟩, fun _ => hw.1⟩
  exact Spec.ite (fun _ => out _) fun _ => Spec.ite (fun _ => out _) fun _ =>
    Spec.ite (fun _ => out _) fun _ => out _

theorem dbsAwait_lowers (fd : Int) (serial wm : Nat) (deadline : Int) :
    Lowers World.fuel (dbsAwaitRound fd serial wm deadline) := by
  refine lowers_of fun reads w₀ => ?_
  have stop : ∀ x : Int, Spec (fun _ : World => True) (pure (.inr x) : M (Nat ⊕ Int))
      (fun r w => ∀ b', r = .inl b' → w.fuel < w₀.fuel) fun _ => True :=
    fun x => Spec.pure fun _ _ b' hb => by cases hb
  refine Spec.bind
    ((dbsScan_stops serial wm w₀.k.size w₀.fr.eof).mono
    (fun w hw => by rw [hw]; exact ⟨Nat.le_refl _, rfl⟩) (fun _ _ h => h) fun _ h => h) fun s => ?_
  cases s with
  | answered rc => exact (stop rc).mono (fun _ _ => trivial) (fun _ _ h => h) fun _ h => h
  | stopped r =>
    -- a round that goes on saw `needMore`: the end of input is not met
    refine Spec.bind (Q := fun rc w => Fuel w₀.k.size w₀.fr.eof w ∧ (¬ rc < 0 → w₀.fr.eof = false))
      ?_ fun fault => ?_
    · intro w hw
      obtain ⟨hfuel, hr⟩ := hw
      obtain ⟨hmsg, hmore⟩ := hr r rfl
      have keep := dbsFrameFault_keeps r w₀.k.size w₀.fr.eof w hfuel
      cases r with
      | msg t => exact absurd rfl (hmsg t)
      | needMore => exact ⟨keep, fun _ => hmore rfl⟩
      | eof => exact ⟨keep, fun h => absurd (show (-104 : Int) < 0 by decide) h⟩
      | truncated => exact ⟨keep, fun h => absurd (show (-104 : Int) < 0 by decide) h⟩
      | badendian => exact ⟨keep, fun h => absurd (show (-71 : Int) < 0 by decide) h⟩
      | badproto => exact ⟨keep, fun h => absurd (show (-71 : Int) < 0 by decide) h⟩
      | toolong => exact ⟨keep, fun h => absurd (show (-105 : Int) < 0 by decide) h⟩
    · refine Spec.ite (fun _ => (stop fault).mono (fun _ _ => trivial) (fun _ _ h => h) fun _ h =>
        h) fun hf => ?_
      intro w hw
      have he : w₀.fr.eof = false := hw.2 hf
      have hfuel₀ : w₀.fuel = w₀.k.size + 1 := by simp [fuel_eq, he]
      rw [he] at hw
      have hfuel : Fuel w₀.k.size false w := hw.1
      clear hw
      revert w
      refine Spec.ite (fun _ => ?_) fun _ => Spec.ite (fun _ => ?_) fun _ => ?_
      · refine Spec.bind (dbsWaitReadable_takes fd deadline _ _) fun r => ?_
        cases r with
        | timedOut => exact (stop _).mono (fun _ _ => trivial) (fun _ _ h => h) fun _ h => h
        | again =>
          refine Spec.pure fun w hw b' _ => ?_
          have hlt := hw.2 rfl
          rw [hfuel₀, fuel_eq, if_neg (by rw [hw.1.2]; decide)]
          omega
        | failed e =>
          refine Spec.map ?_
          intro w _
          cases h : dbsIoFail e w with
          | done a s => exact fun b' hb => by cases hb
          | waiting s => trivial
        | ready =>
          rw [hfuel₀]
          exact (dbsReceive_takes fd _ deadline reads _).mono (fun w hw => hw.1)
            (fun _ _ h => h) fun _ h => h
      · exact (stop _).mono (fun _ _ => trivial) (fun _ _ h => h) fun _ h => h
      · rw [hfuel₀]
        exact dbsReceive_takes fd 0 deadline (reads + 1) _

theorem dbsPump_lowers (bus : Int) : Lowers World.fuel (dbsPumpRound bus) := by
  refine lowers_of fun c w₀ => ?_
  have stop : ∀ (x : M Int), Spec (fun _ : World => True) (.inr <$> x : M ((Nat × Nat) ⊕ Int))
      (fun r w => ∀ b', r = .inl b' → w.fuel < w₀.fuel) fun _ => True := by
    intro x
    refine Spec.map ?_
    intro w _
    cases h : x w with
    | done a s => exact fun b' hb => by cases hb
    | waiting s => trivial
  refine Spec.bind
    ((dbsDrain_stops c.1 w₀.k.size w₀.fr.eof).mono
    (fun w hw => by rw [hw]; exact ⟨Nat.le_refl _, rfl⟩) (fun _ _ h => h) fun _ h => h) fun s => ?_
  refine Spec.ite (fun _ => Spec.pure fun _ _ b' hb => by cases hb) fun _ => Spec.ite (fun hc => ?_)
    fun _ => (stop _).mono (fun _ _ => trivial) (fun _ _ h => h) fun _ h => h
  intro w hw
  have he : w₀.fr.eof = false := hw.2 hc.1
  have hfuel₀ : w₀.fuel = w₀.k.size + 1 := by simp [fuel_eq, he]
  rw [he] at hw
  have hfuel : Fuel w₀.k.size false w := hw.1
  clear hw
  revert w
  refine Spec.bind (dbsRecv_takes bus _ _ _) fun got => ?_
  refine Spec.ite (fun _ => Spec.pure fun w hw b' _ => hfuel₀ ▸ hw rfl) fun _ =>
    Spec.ite (fun _ => ?_) fun _ => ?_
  · exact (stop _).mono (fun _ _ => trivial) (fun _ _ h => h) fun _ h => h
  · exact Spec.bind (Spec.any (x := dbsIoFail got)) fun io => stop _

theorem dbsSaslReceive_takes (fd : Int) (space flags : Nat) (deadline : Int)
    (reads n : Nat) (e : Bool) : Spec (Fuel n e) (dbsSaslReceive fd space flags deadline reads)
      (fun r w => ∀ b', r = .inl b' → w.k.size < n) fun _ => True := by
  have stop : ∀ x : Int, Spec (fun _ : World => True) (pure (.inr x) : M (Nat ⊕ Int))
      (fun r w => ∀ b', r = .inl b' → w.k.size < n) fun _ => True :=
    fun x => Spec.pure fun _ _ b' hb => by cases hb
  have go : Spec (fun w : World => w.k.size < n) (pure (.inl reads) : M (Nat ⊕ Int))
      (fun r w => ∀ b', r = .inl b' → w.k.size < n) fun _ => True := Spec.pure fun w hw _ _ => hw
  refine Spec.bind (dbusSysRecv_takes fd space flags n e) fun a => ?_
  refine Spec.bind (Q := fun _ w => w.k.size < n) (Spec.gets_bind fun rx => Spec.modify fun w hw =>
    hw.1.1) fun _ => ?_
  have end_ : ∀ x : Int, Spec (fun w : World => w.k.size < n) (pure (.inr x) : M (Nat ⊕ Int))
      (fun r w => ∀ b', r = .inl b' → w.k.size < n) fun _ => True :=
    fun x => (stop x).mono (fun _ _ => trivial) (fun _ _ h => h) fun _ h => h
  refine Spec.ite (fun _ => go) fun _ =>
    Spec.ite (fun _ => Spec.ite (fun _ => go) fun _ => end_ _) fun _ =>
    Spec.ite (fun _ => end_ _) fun _ => Spec.ite (fun _ => end_ _) fun _ => ?_
  refine Spec.bind (Q := fun _ w => w.k.size < n) (Spec.modify fun _ h => h) fun _ =>
    Spec.bind (Q := fun _ w => w.k.size < n) (Spec.modifyGet fun _ h => h) fun s => ?_
  cases s with
  | ok => exact end_ _
  | needMore => exact go
  | _ => exact end_ _

theorem dbsSasl_lowers (fd deadline : Int) : Lowers (·.k.size) (dbsSaslRound fd deadline) := by
  refine lowers_of fun reads w₀ => ?_
  have end_ : ∀ (P : World → Prop) (x : Int), Spec P (pure (.inr x) : M (Nat ⊕ Int))
      (fun r w => ∀ b', r = .inl b' → w.k.size < w₀.k.size) fun _ => True :=
    fun _ x => Spec.pure fun _ _ b' hb => by cases hb
  refine (Spec.gets_bind (P := Fuel w₀.k.size w₀.fr.eof) fun space => ?_).mono
    (fun w hw => by rw [hw]; exact ⟨Nat.le_refl _, rfl⟩) (fun _ _ h => h) fun _ h => h
  refine Spec.ite (fun _ => end_ _ _) fun _ => Spec.ite (fun _ => ?_) fun _ =>
    Spec.ite (fun _ => end_ _ _) fun _ => ?_
  · refine Spec.bind ((dbsWaitReadable_takes fd deadline w₀.k.size w₀.fr.eof).mono
      (fun w hw => hw.1) (fun _ _ h => h) fun _ h => h) fun r => ?_
    cases r with
    | timedOut => exact end_ _ _
    | again => exact Spec.pure fun w hw b' _ => hw.2 rfl
    | failed e => exact end_ _ _
    | ready =>
      exact (dbsSaslReceive_takes fd space _ deadline reads _ _).mono (fun w hw => hw.1)
        (fun _ _ h => h) fun _ h => h
  · exact (dbsSaslReceive_takes fd space _ deadline (reads + 1) _ _).mono (fun w hw => hw.1)
      (fun _ _ h => h) fun _ h => h

theorem dbsWrite_lowers (fd : Int) (buf : Bytes) (deadline : Int) :
    Lowers (·.k.send.length) (dbsWriteRound fd buf deadline) := by
  refine lowers_of fun sent w₀ => ?_
  have end_ : ∀ (P : World → Prop) (x : M Int), Spec P (.inr <$> x : M (Nat ⊕ Int))
      (fun r w => ∀ b', r = .inl b' → w.k.send.length < w₀.k.send.length) fun _ => True := by
    intro P x
    refine Spec.map ?_
    intro w _
    cases h : x w with
    | done a s => exact fun b' hb => by cases hb
    | waiting s => trivial
  refine Spec.ite (fun _ => Spec.pure fun _ _ b' hb => by cases hb) fun _ => ?_
  refine Spec.bind (Q := fun _ w => w.k.send.length < w₀.k.send.length) ?_ fun n => ?_
  · refine Spec.query (fun w a w' hw h => ?_) fun _ _ _ => trivial
    subst hw
    cases hs : w.k.send with
    | nil =>
      rw [hs] at h
      cases h
    | cons c rest =>
      rw [hs] at h
      cases h
      simp only [World.emit, List.length_cons]
      omega
  · have full : Spec (fun w : World => w.k.send.length < w₀.k.send.length)
      (dbsWriteFull fd deadline)
        (fun _ w => w.k.send.length < w₀.k.send.length) fun _ => True := by
      refine Spec.ite (fun _ => Spec.pure fun _ h => h) fun _ => Spec.bind (Q := fun _ w =>
        w.k.send.length < w₀.k.send.length) (Spec.gets_bind fun fail =>
          Spec.ite (fun _ => Spec.pure fun _ h => h.1)
          fun _ => Spec.bind (Q := fun _ w => w.k.send.length < w₀.k.send.length)
            (Spec.modify fun _ h => h.1) fun _ => ?_) fun now => ?_
      · refine Spec.query (fun w a w' hw h => ?_) fun _ _ _ => trivial
        cases hc : w.k.clock with
        | nil =>
          rw [hc] at h
          cases h
        | cons c rest =>
          rw [hc] at h
          cases h
          exact hw
      · refine Spec.ite (fun _ => Spec.pure fun _ h => h) fun _ =>
          Spec.ite (fun _ => Spec.pure fun _ h => h) fun _ =>
          Spec.bind (Q := fun _ w => w.k.send.length < w₀.k.send.length) ?_ fun ready =>
            Spec.ite (fun _ => Spec.pure fun _ h => h) fun _ =>
              Spec.ite (fun _ => Spec.pure fun _ h => h)
              fun _ => Spec.pure fun _ h => h
        refine Spec.query (fun w a w' hw h => ?_) fun _ _ _ => trivial
        cases hc : w.k.poll with
        | nil =>
          rw [hc] at h
          cases h
        | cons c rest =>
          rw [hc] at h
          cases h
          exact hw
    refine Spec.ite (fun _ => Spec.pure fun w hw _ _ => hw) fun _ => Spec.ite (fun _ => ?_) fun _ =>
      Spec.ite (fun _ => end_ _ _) fun _ => Spec.ite (fun _ => end_ _ _) fun _ =>
        Spec.pure fun w hw _ _ => hw
    exact Spec.bind full fun stop => Spec.ite (fun _ => Spec.pure fun w hw _ _ => hw) fun _ =>
      end_ _ _

end Samvada
