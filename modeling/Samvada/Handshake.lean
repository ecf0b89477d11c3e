import Samvada.Runs

/- The SASL exchange, seen from the framer and the descriptors: the framer holds
   bytes and no descriptor, and whatever a receive brings is closed at once. -/
namespace Samvada
open Octets Resumable Resumable.Prog

/-- A framer that has received bytes and done nothing with them as messages. -/
structure Idle (f : Frame) : Prop where
  ok : f.Ok
  skip : f.skip = 0
  eof : f.eof = false
  fdq : f.fdq = []
  fdtot : f.fdtot = 0
  fdbad : f.fdbad = false

theorem Idle.good {f : Frame} (h : Idle f) : f.Good := ⟨h.ok, by simp [h.fdq]⟩

theorem init_idle (f : Frame) : Idle (dbusFrameInit f).1 :=
  ⟨⟨Nat.le_refl _, Nat.zero_le _⟩, rfl, rfl, rfl, rfl, rfl⟩

theorem Idle.commit {f : Frame} {d : Bytes} (h : Idle f) (hd : d.length ≤ dbusFrameSpace f) :
    Idle (dbusFrameCommit f d) := by
  have ho := h.ok.off
  have hc := h.ok.cap
  simp only [dbusFrameSpace, dbusFrameCap] at hd
  refine ⟨⟨?_, ?_⟩, h.skip, h.eof, h.fdq, h.fdtot, h.fdbad⟩
  · show f.off ≤ (f.buf ++ d).length
    rw [List.length_append]
    omega
  · show (f.buf ++ d).length ≤ 8192
    rw [List.length_append]
    omega

theorem Idle.consume {f : Frame} (h : Idle f) (n : Nat) : Idle (dbusFrameConsume f n) :=
  ⟨⟨Nat.min_le_right _ _, h.ok.cap⟩, h.skip, h.eof, h.fdq, h.fdtot, h.fdbad⟩

theorem drainN_idle : ∀ (n : Nat) (f : Frame) (a : Auth), Idle f → Idle (dbusAuthDrainN n f a).2.1
  | 0, _, _, h => h
  | n + 1, f, a, h => by
    unfold dbusAuthDrainN
    split
    · exact h
    · next i _ =>
      have hc := h.consume (i + 2)
      dsimp only
      split
      · exact hc
      · exact hc
      · exact drainN_idle n _ _ hc
      · split
        · exact hc
        · exact hc
      · exact drainN_idle n _ _ hc
      · exact drainN_idle n _ _ hc

/-- What the exchange shows: sends and waits, and receives whose descriptors are
closed at once. -/
inductive Unowned : List Event → Prop where
  | nil : Unowned []
  | rest {es es' : List Event} (h : Unowned es) (ho : ∀ e ∈ es', e.offers = true) :
      Unowned (es ++ es')
  | recv {es : List Event} (fd : Int) {n : Int} (want flags : Nat) {d : Bytes}
      (anc : Ancillary) (trunc : Bool)
    (h : Unowned es) (hd : n ≤ 0 → d = []) : Unowned (es ++ (.recv fd want flags n d anc trunc ::
      if 0 ≤ n then ((dbusSysParseRights (anc.bytes.take 1032)).2 ++
        (dbusSysParseRights (anc.bytes.take 1032)).1).map Event.close else []))

/-- `w'` is `w` in the middle of the exchange. -/
structure Exchanging (w w' : World) : Prop where
  idle : Idle w'.fr
  trace : ∃ es, w'.trace = w.trace ++ es ∧ Unowned es

theorem Exchanging.start {w : World} (h : Idle w.fr) : Exchanging w w :=
  ⟨h, [], (List.append_nil _).symm, .nil⟩

theorem Exchanging.rest {w w' w'' : World} {es : List Event} (h : Exchanging w w')
    (hfr : w''.fr = w'.fr) (ht : w''.trace = w'.trace ++ es) (ho : ∀ e ∈ es, e.offers = true) :
    Exchanging w w'' := by
  obtain ⟨es₀, h₀, hu⟩ := h.trace
  refine ⟨hfr ▸ h.idle, es₀ ++ es, ?_, hu.rest ho⟩
  rw [ht, h₀, List.append_assoc]

theorem Rests.exchanging {α : Type} {x : M α} (h : Rests x) (w : World) :
    Spec (Exchanging w) x (fun _ => Exchanging w) (Exchanging w) := by
  intro w' hw
  obtain ⟨es, hq⟩ := h w'
  cases hx : x w' with
  | done a w'' =>
    rw [hx] at hq
    exact hw.rest hq.fr hq.trace hq.offers
  | waiting w'' =>
    rw [hx] at hq
    exact hw.rest hq.fr hq.trace hq.offers

theorem write_exchanging (fd : Int) (buf : Bytes) (deadline : Int) (w : World) :
    Spec (Exchanging w) (dbsWrite fd buf deadline) (fun _ => Exchanging w) (Exchanging w) := by
  intro w' hw
  have h := dbsWrite_spec fd buf deadline w' w' rfl
  cases hx : dbsWrite fd buf deadline w' with
  | done a w'' =>
    rw [hx] at h
    cases h with
    | all h => exact hw.rest h.fr h.trace h.events
    | stopped h _ => exact hw.rest h.fr h.trace h.events
  | waiting w'' =>
    rw [hx] at h
    obtain ⟨es, sent, h, -⟩ := h
    exact hw.rest h.fr h.trace h.events

theorem saslReceive_exchanging (fd : Int) (space flags : Nat) (deadline : Int)
    (reads : Nat) (w : World) (hs : 0 < space) :
    Spec (fun w' => Exchanging w w' ∧ dbusFrameSpace w'.fr = space)
      (dbsSaslReceive fd space flags deadline reads) (fun _ => Exchanging w) (Exchanging w) := by
  refine Spec.bind (Q := fun a w' => Exchanging w (w'.emit (w'.rx.map Event.close)) ∧
    dbusFrameSpace w'.fr = space ∧ (0 < a.1 → a.2.length ≤ space)) ?_ fun a => ?_
  · rintro w' ⟨hw, hspace⟩
    rcases sysRecv_run hs fd flags w' with h | ⟨n, d, anc, trunc, w₁, h, hg⟩
    · rw [h]
      exact hw.rest rfl (List.append_nil _).symm (by simp)
    · rw [h]
      refine ⟨⟨?_, ?_⟩, ?_, fun hn => (hg.some hn).2⟩
      · show Idle w₁.fr
        rw [hg.fr]
        exact hw.idle
      · obtain ⟨es, ht, hu⟩ := hw.trace
        refine ⟨_, ?_, hu.recv fd space flags anc trunc hg.none⟩
        rw [emit_trace, hg.trace, ht]
        by_cases hn : 0 ≤ n
        · rw [if_pos hn, if_pos hn, (hg.rx hn).1]
          simp only [List.map_append, List.append_assoc, List.cons_append]
        · rw [if_neg hn, if_neg hn, hg.rxNone (by omega)]
          simp only [List.map_nil, List.append_nil, List.append_assoc]
      · rw [hg.fr]
        exact hspace
  · -- the descriptors are closed; what is left is the bytes
    refine Spec.bind (Q := fun _ w' => Exchanging w w' ∧ dbusFrameSpace w'.fr = space ∧
      (0 < a.1 → a.2.length ≤ space)) (Spec.gets_bind fun rx => Spec.modify ?_) fun _ => ?_
    · rintro w' ⟨⟨hw, hspace, hd⟩, rfl⟩
      exact ⟨hw, hspace, hd⟩
    · have out (x : Nat ⊕ Int) : Spec (fun w' => Exchanging w w' ∧ dbusFrameSpace w'.fr = space ∧
          (0 < a.1 → a.2.length ≤ space)) (pure x : M (Nat ⊕ Int)) (fun _ => Exchanging w)
          (Exchanging w) :=
        Spec.pure fun _ h => h.1
      refine Spec.ite (fun _ => out _) fun _ =>
        Spec.ite (fun _ => Spec.ite (fun _ => out _) fun _ => out _) fun _ =>
        Spec.ite (fun _ => out _) fun hneg => Spec.ite (fun _ => out _) fun h0 => ?_
      refine Spec.bind (Q := fun _ => Exchanging w) (Spec.modify ?_) fun _ =>
        Spec.bind (Q := fun _ => Exchanging w) (Spec.modifyGet ?_) fun s => ?_
      · rintro w' ⟨hw, hspace, hd⟩
        exact ⟨hw.idle.commit (hspace ▸ hd (by omega)), hw.trace⟩
      · intro w' hw
        exact ⟨drainN_idle _ _ _ hw.idle, hw.trace⟩
      · cases s <;> exact Spec.pure fun _ h => h

theorem saslRound_exchanging (fd deadline : Int) (reads : Nat) (w : World) :
    Spec (Exchanging w) (dbsSaslRound fd deadline reads) (fun _ => Exchanging w)
      (Exchanging w) := by
  refine Spec.gets_bind fun space => ?_
  have out (x : Nat ⊕ Int) : Spec (fun w' => Exchanging w w' ∧ dbusFrameSpace w'.fr = space)
    (pure x : M (Nat ⊕ Int))
      (fun _ => Exchanging w) (Exchanging w) := Spec.pure fun _ h => h.1
  refine Spec.ite (fun _ => out _) fun hs => Spec.ite (fun _ => ?_) fun _ =>
    Spec.ite (fun _ => out _) fun _ =>
    saslReceive_exchanging fd space 0 deadline (reads + 1) w (by omega)
  have wait : Spec (fun w' => Exchanging w w' ∧ dbusFrameSpace w'.fr = space)
    (dbsWaitReadable fd deadline)
      (fun _ w' => Exchanging w w' ∧ dbusFrameSpace w'.fr = space) (Exchanging w) := by
    rintro w' ⟨hw, hspace⟩
    obtain ⟨es, hq⟩ := dbsWaitReadable_rests fd deadline w'
    cases hx : dbsWaitReadable fd deadline w' with
    | done a w'' =>
      rw [hx, Outcome.state_done] at hq
      exact ⟨hw.rest hq.fr hq.trace hq.offers, hq.fr ▸ hspace⟩
    | waiting w'' =>
      rw [hx, Outcome.state_waiting] at hq
      exact hw.rest hq.fr hq.trace hq.offers
  refine Spec.bind wait fun r => ?_
  cases r with
  | ready => exact saslReceive_exchanging fd space _ deadline reads w (by omega)
  | _ => exact out _

/-- **The exchange** leaves the framer without a descriptor, and has closed every
one it received. -/
theorem sasl_exchanging (fd : Int) (w : World) :
    Spec (Exchanging w) (dbusSessionSasl fd) (fun _ => Exchanging w) (Exchanging w) := by
  refine Spec.bind ((allocOnce_rests .blob).exchanging w) fun ok => Spec.ite (fun _ => ?_) fun _ =>
    Spec.pure fun _ h => h
  refine Spec.bind (nowMs_rests.exchanging w) fun t0 =>
    Spec.bind (Q := fun _ => Exchanging w) (Spec.gets fun _ h => h)
    fun timeout => Spec.bind (write_exchanging fd _ _ w) fun n =>
      Spec.ite (fun _ => Spec.pure fun _ h => h) fun _ => ?_
  exact (Spec.loop (I := fun _ => Exchanging w) (Q := fun _ => Exchanging w) (W := Exchanging w)
    (dbsSasl_lowers fd _) (fun reads => (saslRound_exchanging fd _ reads w).mono (fun _ h => h)
      (fun r _ h => by cases r <;> exact h) fun _ h => h) 0).mono (fun _ h => h)
      (fun _ _ h => h) fun _ h => h

end Samvada
