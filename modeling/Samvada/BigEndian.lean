import Samvada.Reads
import Samvada.Mailbox

/- Big-endian messages. The framer reads their lengths in their own order, the
   decoder reads every word little-endian; within the cap a length read the wrong
   way round is zero or longer than the message, so such a message shows no field
   and answers no call. -/
namespace Samvada
open Octets Framing Resumable Resumable.Prog

/-! ## The arithmetic -/

/-- A word below 2^16, read the other way round, is zero or at least 2^16. -/
theorem load32_swapped {p : Bytes} {i : Nat} (h : load32be p i < 65536) : load32 p i = 0 ∨
    65536 ≤ load32 p i := by
  have b0 := load8_lt p i
  have b1 := load8_lt p (i + 1)
  have b2 := load8_lt p (i + 2)
  have b3 := load8_lt p (i + 3)
  have high : load8 p i = 0 ∧ load8 p (i + 1) = 0 := by
    unfold load32be at h
    omega
  have low : load8 p (i + 2) = 0 ∧ load8 p (i + 3) = 0 ∨ 0 < load8 p (i + 2) ∨
    0 < load8 p (i + 3) := by omega
  unfold load32
  omega

/-- The message's length bounds the length of its fields. -/
theorem total_bigEndian {p : Bytes} {t avail : Nat} (hb : load8 p 0 = 66)
    (ht : dbusFrameTotal p avail = .msg t) : 16 + load32be p 12 ≤ t := by
  unfold dbusFrameTotal at ht
  simp only [hb, dbusFrameEndianLe, dbusFrameEndianBe, dbusFrameHdrSize] at ht
  have padded := le_align (16 + load32be p 12) (show 0 < 8 by decide)
  split_ifs at ht
  all_goals first | omega | (injection ht with ht; omega)

/-- The field array, read little-endian, is empty or does not fit the message. -/
theorem fields_bigEndian {p : Bytes} {t avail : Nat} (hb : load8 p 0 = 66)
    (ht : dbusFrameTotal p avail = .msg t) (hc : t ≤ 8192) : dbusUnmarshalFieldsLen p = 0 ∨
    t < 16 + dbusUnmarshalFieldsLen p := by
  have fields := total_bigEndian hb ht
  have swapped : load32 p 12 = 0 ∨ 65536 ≤ load32 p 12 := load32_swapped (by omega)
  unfold dbusUnmarshalFieldsLen
  omega

/-- A field array that is empty, or does not fit, has no REPLY_SERIAL. -/
theorem findField_bigEndian {p : Bytes} {t : Nat}
    (h : dbusUnmarshalFieldsLen p = 0 ∨ t < 16 + dbusUnmarshalFieldsLen p)
    (code : Nat) : ∃ e, dbusUnmarshalFindField t p code = .error e := by
  unfold dbusUnmarshalFindField
  by_cases short : t < 16
  · exact ⟨.malformed, if_pos short⟩
  rw [if_neg short]
  by_cases long : t < 16 + dbusUnmarshalFieldsLen p
  · exact ⟨.malformed, if_pos long⟩
  have empty : dbusUnmarshalFieldsLen p = 0 := h.resolve_right long
  refine ⟨.notfound, ?_⟩
  simp only [empty, Nat.add_zero, if_neg short]
  rfl

theorem mine_bigEndian {p : Bytes} {t : Nat}
    (h : dbusUnmarshalFieldsLen p = 0 ∨ t < 16 + dbusUnmarshalFieldsLen p)
    (uniq : Bytes) (serial wm pos : Nat) : dbusSessionMine uniq serial wm pos t p = false := by
  obtain ⟨e, he⟩ := findField_bigEndian h dbusMarshalFReplyser
  simp [dbusSessionMine, he]

theorem verdict_bigEndian {p : Bytes} {t : Nat}
    (h : dbusUnmarshalFieldsLen p = 0 ∨ t < 16 + dbusUnmarshalFieldsLen p)
    (uniq : Bytes) (serial wm pos : Nat) : dbusSessionVerdict uniq serial wm pos t p = .other := by
  unfold dbusSessionVerdict
  rw [mine_bigEndian h]
  rfl

/-! ## Reading it -/

namespace Recorded
open Probe

/-- The REPLY_SERIAL of a message whose field array is valid, as a call reads it. -/
def dbsReplySerial (limit : Nat) (p : Bytes) : Probe (Option Nat) := do
  let _ ← read8 p 1
  if ← dbusUnmarshalValidate limit p then
    match ← dbusUnmarshalFindField limit p dbusMarshalFReplyser with
    | .error _ => pure none
    | .ok (off, _) => do
      let s ← read32 p off
      pure (some s)
  else pure none

/-- The filters of a call go on from what was read here. -/
theorem mine_replySerial (uniq : Bytes) (serial wm pos r : Nat) (p : Bytes) :
    dbusSessionMine uniq serial wm pos r p =
    match (dbsReplySerial r p).val with
    | none => false
    | some s => s == serial && !decide (pos < wm) && dbusSessionDestOk uniq r p := by
  simp only [dbsReplySerial, dbusSessionMine, bind_val, ite_val, validate_val]
  cases Samvada.dbusUnmarshalValidate r p with
  | false => rfl
  | true =>
    simp only [if_true, findField_val, Bool.true_and]
    cases Samvada.dbusUnmarshalFindField r p dbusMarshalFReplyser with
    | error e => rfl
    | ok x => rfl

end Recorded

/-! ## In a call -/

/-- What happens at the head of the stream: a message is met, consumed, or answers. -/
def Event.head : Event → Bool
  | .next _ _ => true
  | .advanced _ _ => true
  | .answered _ _ _ => true
  | _ => false

/-- `x` does nothing at the head. -/
def Aside {α : Type} (x : M α) : Prop :=
  ∀ w, ∃ es, (x w).state.trace = w.trace ++ es ∧ ∀ e ∈ es, e.head = false

namespace Aside
variable {α β : Type}

theorem still {w w' : World} (h : w'.trace = w.trace) : ∃ es, w'.trace = w.trace ++ es ∧ ∀ e ∈ es,
    Event.head e = false :=
  ⟨[], by rw [h, List.append_nil], by simp⟩

theorem pure (a : α) : Aside (Pure.pure a : M α) := fun _ => still rfl
theorem gets {f : World → α} : Aside (Prog.gets f) := fun _ => still rfl
theorem modify {f : World → World} (h : ∀ w, (f w).trace = w.trace) : Aside (Prog.modify f) :=
  fun w => still (h w)
theorem modifyGet {f : World → α × World} (h : ∀ w, ∃ es, (f w).2.trace = w.trace ++ es ∧ ∀ e ∈ es,
    e.head = false) :
    Aside (Prog.modifyGet f) := h

theorem query {ask : World → Option (α × World)}
    (h : ∀ w a w', ask w = some (a, w') → ∃ es, w'.trace = w.trace ++ es ∧ ∀ e ∈ es,
    Event.head e = false) :
    Aside (Prog.query ask) := by
  intro w
  unfold Prog.query
  cases ha : ask w with
  | none => exact still rfl
  | some r => exact h w r.1 r.2 ha

theorem bind {x : M α} {f : α → M β} (hx : Aside x) (hf : ∀ a, Aside (f a)) : Aside (x >>= f) := by
  intro w
  obtain ⟨es, ht, he⟩ := hx w
  rw [bind_run]
  cases hw : x w with
  | waiting w' =>
    rw [hw] at ht
    exact ⟨es, ht, he⟩
  | done a w' =>
    rw [hw] at ht
    obtain ⟨es', ht', he'⟩ := hf a w'
    refine ⟨es ++ es', ?_, fun e h => (List.mem_append.mp h).elim (he e) (he' e)⟩
    show ((f a) w').state.trace = _
    rw [ht', ← List.append_assoc, ← ht]
    rfl

theorem map {x : M α} {f : α → β} (h : Aside x) : Aside (f <$> x) := bind h fun _ => pure _

theorem ite {c : Prop} [Decidable c] {x y : M α} (hx : Aside x) (hy : Aside y) :
    Aside (if c then x else y) := by
  split
  · exact hx
  · exact hy

end Aside

theorem Rests.aside {α : Type} {x : M α} (h : Rests x) : Aside x := by
  intro w
  obtain ⟨es, hq⟩ := h w
  refine ⟨es, hq.trace, fun e he => ?_⟩
  have quiet := hq.quiet e he
  cases e <;> first | rfl | cases quiet

theorem emit_aside {es : List Event} (h : ∀ e ∈ es, e.head = false) : Aside (emit es) :=
  fun _ => ⟨es, rfl, h⟩

theorem closes_aside {fds : List Int} : ∀ e ∈ fds.map Event.close, e.head = false := by
  intro e he
  obtain ⟨fd, -, rfl⟩ := List.mem_map.mp he
  rfl

theorem write_aside (fd : Int) (buf : Bytes) (deadline : Int) :
    Aside (dbsWrite fd buf deadline) := by
  intro w
  have sent {es : List Event} (h : ∀ e ∈ es, e.offers = true) : ∀ e ∈ es, e.head = false :=
    fun e he => by
    have offers := h e he
    cases e <;> first | rfl | cases offers
  have run := dbsWrite_spec fd buf deadline w w rfl
  generalize dbsWrite fd buf deadline w = o at run
  cases o with
  | waiting w' =>
    obtain ⟨es, n, hs, -⟩ := run
    exact ⟨es, hs.trace, sent hs.events⟩
  | done rc w' =>
    cases run with
    | all hs => exact ⟨_, hs.trace, sent hs.events⟩
    | stopped hs _ => exact ⟨_, hs.trace, sent hs.events⟩

theorem lost_aside : Aside dbsLost := Aside.bind (Aside.modify fun _ => rfl) fun _ => Aside.pure _

theorem frameFault_aside (r : FrameStatus) : Aside (dbsFrameFault r) := by
  cases r with
  | eof => exact lost_aside
  | truncated => exact lost_aside
  | _ => exact Aside.pure _

theorem queueFds_aside : ∀ fds, Aside (dbsQueueFds fds)
  | [] => Aside.pure _
  | fd :: rest => by
    have move : Aside (dbusSocketAboveStdio fd) := by
      refine Aside.ite (Aside.pure _)
        (Aside.bind
        (Aside.modifyGet fun w => ⟨[.dupfd fd (w.k.fcntl.headD (-9))], rfl, by simp [Event.head]⟩)
        fun _ => ?_)
      exact Aside.bind (emit_aside (by simp [Event.head])) fun _ => Aside.pure _
    refine Aside.bind move fun rfd => Aside.bind (fun w => ⟨_, rfl, fun e he => ?_⟩) fun _ =>
      Aside.bind (queueFds_aside rest) fun _ => Aside.pure _
    rcases List.mem_append.mp he with he | he
    · rw [List.mem_singleton.mp (List.mem_ite_nil_right.mp he).2]
      rfl
    · exact closes_aside e he

theorem recv_aside (fd : Int) (flags : Nat) : Aside (dbsRecv fd flags) := by
  have recvmsg (want : Nat) : Aside (sysRecvmsg fd want flags) := Aside.query fun w a w' h => by
    cases hc : w.k.recv with
    | nil => simp [hc] at h
    | cons c rest =>
      rw [hc] at h
      simp only at h
      split_ifs at h
      · cases h
        exact ⟨[_], rfl, by simp [Event.head]⟩
      · cases h
        exact ⟨[_], rfl, by simp [Event.head]⟩
  refine Aside.bind (Aside.modifyGet fun w => Aside.still rfl) fun want => Aside.ite
    (Aside.bind (Aside.modify fun _ => rfl) fun _ => Aside.pure _) (Aside.bind ?_ fun r => ?_)
  · refine Aside.bind (Aside.modify fun _ => rfl) fun _ => Aside.bind (recvmsg want) fun r => ?_
    exact Aside.ite (Aside.pure _)
      (Aside.bind (fun w => ⟨_, rfl, closes_aside⟩) fun _ => Aside.pure _)
  · refine Aside.ite (Aside.pure _)
      (Aside.ite (Aside.bind (Aside.modify fun _ => rfl) fun _ => Aside.pure _) ?_)
    refine Aside.bind Aside.gets fun _ => Aside.bind (Aside.modify fun _ => rfl) fun _ =>
      Aside.bind Aside.gets fun rx =>
      Aside.bind (queueFds_aside rx) fun _ => Aside.bind Aside.gets fun _ => ?_
    exact Aside.bind (Aside.modify fun _ => rfl) fun _ =>
      Aside.bind (emit_aside (by simp [Event.head])) fun _ => Aside.pure _

/-- What a yielded message's first byte says of it. -/
theorem AtRest.verdict_bigEndian {f : Frame} {t : Nat} (h : AtRest f (.msg t))
    (hb : load8 (dbusFrameBase f) 0 = 66)
    (uniq : Bytes) (serial wm pos : Nat) : dbusSessionVerdict uniq serial wm pos t
    (dbusFrameBase f) = .other := by
  obtain ⟨-, ht, hc, -⟩ := h.whole_inv
  exact Samvada.verdict_bigEndian (fields_bigEndian hb (dbusFrameTotal_ok (Nat.le_refl 16) ht).1 hc)
    uniq serial wm pos

/-- Consuming a yielded message closes what came with it. -/
theorem AtRest.advanceEvents {f : Frame} {t : Nat} (h : AtRest f (.msg t)) :
    Samvada.advanceEvents f t = .advanced (dbusFramePos f) t :: (f.fdq.filter (0 ≤ ·)).map
    Event.close := by
  have h0 : t ≠ 0 := by
    have := h.msg_pos
    omega
  simp only [Samvada.advanceEvents, dbusFrameAdvance, h0, if_false, dbusFrameCloseFds]

/-- What the matching loop of the call with serial `s` shows: messages passed over,
each with its descriptors, until one answers, and none that answers is big-endian. -/
inductive Matched (s : Nat) : List Event → Prop where
  | nil : Matched s []
  | aside {es es' : List Event} (h : Matched s es) (ha : ∀ e ∈ es', e.head = false) :
      Matched s (es ++ es')
  | stopped {es : List Event} (h : Matched s es) {r : FrameStatus} (f : Frame)
      (hr : ∀ t, r ≠ .msg t) :
    Matched s (es ++ [.next r f])
  | passed {es : List Event} (h : Matched s es) {t : Nat} (f : Frame) :
    Matched s (es ++ .next (.msg t) f :: .advanced (dbusFramePos f) t ::
    (f.fdq.filter (0 ≤ ·)).map Event.close)
  | answered {es : List Event} (h : Matched s es) {t : Nat} (f : Frame) (rc : Int)
      {es' : List Event}
    (little : load8 (dbusFrameBase f) 0 ≠ 66)
    (ha : es' = [] ∨ es' = .advanced (dbusFramePos f) t :: (f.fdq.filter (0 ≤ ·)).map Event.close) :
    Matched s (es ++ .next (.msg t) f :: .answered s (dbusFramePos f) rc :: es')

/-- The world shows `es` of a matching loop since `base`. -/
def Matching (s : Nat) (base : List Event) (w : World) : Prop :=
  ∃ es, w.trace = base ++ es ∧ Matched s es

theorem Matching.snoc {s : Nat} {base es es' : List Event} {w : World}
    (ht : w.trace = base ++ es ++ es') (h : Matched s (es ++ es')) : Matching s base w :=
    ⟨es ++ es', by rw [ht, List.append_assoc], h⟩

/-- A message still to be read that is ours is not big-endian. -/
theorem heard_littleEndian {uniq : Bytes} {serial wm : Nat} {w : World} {m : Nat × Bytes}
    (hm : m ∈ w.toRead) (ours : heard uniq serial wm m ≠ .other) : load8 m.2 0 ≠ 66 := by
  obtain ⟨declared, fits⟩ := Cursor.ahead_declared _ hm
  intro big
  have long := messageTotal_ge declared
  have total := (dbusFrameTotal_ok long declared).1
  exact ours (verdict_bigEndian (fields_bigEndian big total fits) uniq serial wm m.1)

/-- How a call that returned `rc` and left `v` stands to the messages `ms` it could
read: those before `m` consumed as not ours, and `m`, not a big-endian one, left at
the head as the reply or consumed as an ERROR; or every one it consumed not ours. -/
def AnsweredLittle (uniq : Bytes) (serial wm : Nat) (ms : List (Nat × Bytes)) (rc : Int)
    (v : World) : Prop :=
  ∃ past, (∀ m ∈ past, heard uniq serial wm m = .other) ∧
    ((∃ m rest, ms = past ++ m :: rest ∧ load8 m.2 0 ≠ 66 ∧
        (rc = 0 ∧ v.toRead = m :: rest ∧
            (∃ t, AtRest v.fr (.msg t) ∧ load8 (dbusFrameBase v.fr) 0 ≠ 66) ∨
          heard uniq serial wm m = .failure rc ∧ v.toRead = rest)) ∨
      rc < 0 ∧ ms = past ++ v.toRead)

theorem Filtered.little {uniq : Bytes} {serial wm : Nat} {w v : World} {rc : Int}
    (h : Filtered uniq serial wm w.toRead rc v) :
    AnsweredLittle uniq serial wm w.toRead rc v := by
  cases h with
  | gaveUp neg skimmed _ =>
    obtain ⟨past, split, others⟩ := skimmed.past
    exact ⟨past, others, .inr ⟨neg, split⟩⟩
  | answered found left =>
    obtain ⟨past, m, rest, split, others, how⟩ := firstOfOurs_some found
    have mem : m ∈ w.toRead := by
      rw [split]
      exact List.mem_append_right _ (List.mem_cons_self ..)
    rcases how with ⟨success, rfl, out⟩ | ⟨failure, out⟩
    · have little := heard_littleEndian mem (by rw [success]; simp)
      obtain ⟨t, rest', whole, head⟩ := left rfl
      refine ⟨past, others, .inl ⟨m, rest, split, little, .inl ⟨rfl, out, t, whole, ?_⟩⟩⟩
      -- the reply at the head is `m`
      have same : (dbusFrameBase v.fr).take t = m.2 :=
        congrArg Prod.snd (List.cons.inj (head.symm.trans out)).1
      have long := messageTotal_ge whole.whole_inv.2.1
      rwa [← same, load8_take (by omega)] at little
    · have little := heard_littleEndian mem (by rw [failure]; simp)
      exact ⟨past, others, .inl ⟨m, rest, split, little, .inr ⟨failure, out⟩⟩⟩

end Samvada
