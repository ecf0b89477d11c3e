import Samvada.Frame
import Samvada.Lib.Framing

/- The framer as a reader of the stream. `AtRest` says what `dbus_frame_next`
   finds at a head it can do nothing more with, `Passed` what it does to get
   there; with the lemmas of `Framing` they give that the framer yields the
   messages of the stream, whatever the sizes of the reads. -/
namespace Samvada
open Octets Framing

/-! ## The stream format -/

/-- Why a header is invalid. -/
inductive BadHeader where
  | badendian
  | badproto
  | toolong
  deriving DecidableEq, Repr

def BadHeader.status : BadHeader → FrameStatus
  | .badendian => .badendian
  | .badproto => .badproto
  | .toolong => .toolong

/-- A header's words, in the endianness of its first byte. -/
def headerWord (p : Bytes) : Option (Nat → Nat) :=
  if load8 p 0 = 108 then some (load32 p)
  else if load8 p 0 = 66 then some (load32be p)
  else none

/-- The length of the message a header begins. -/
def messageTotal (p : Bytes) : Except BadHeader Nat :=
  match headerWord p with
  | none => .error .badendian
  | some word =>
    if load8 p 3 ≠ 1 then .error .badproto
    else if 134217728 ≤ align (16 + word 12) 8 + word 4 then .error .toolong
    else .ok (align (16 + word 12) 8 + word 4)

theorem messageTotal_take (p : Bytes) : messageTotal (p.take 16) = messageTotal p := by
  have h0 : load8 (p.take 16) 0 = load8 p 0 := load8_take (by decide)
  have h3 : load8 (p.take 16) 3 = load8 p 3 := load8_take (by decide)
  have l12 : load32 (p.take 16) 12 = load32 p 12 := load32_take (by decide)
  have l4 : load32 (p.take 16) 4 = load32 p 4 := load32_take (by decide)
  have b12 : load32be (p.take 16) 12 = load32be p 12 := load32be_take (by decide)
  have b4 : load32be (p.take 16) 4 = load32be p 4 := load32be_take (by decide)
  by_cases hl : load8 p 0 = 108
  · simp only [messageTotal, headerWord, h0, h3, hl, if_true, l12, l4]
  · by_cases hb : load8 p 0 = 66
    · simp [messageTotal, headerWord, h0, h3, hb, b12, b4]
    · simp only [messageTotal, headerWord, h0, hl, hb, if_false]

theorem messageTotal_ok {p : Bytes} {t : Nat} (h : messageTotal p = .ok t) :
    ∃ word, headerWord p = some word ∧ load8 p 3 = 1 ∧ t = align (16 + word 12) 8 + word 4 ∧
    t < 134217728 := by
  unfold messageTotal at h
  cases hw : headerWord p with
  | none => rw [hw] at h; cases h
  | some word =>
    rw [hw] at h
    simp only at h
    split at h
    · cases h
    · next h3 =>
      split at h
      · cases h
      · next hl =>
        cases h
        exact ⟨word, rfl, by omega, rfl, by omega⟩

theorem messageTotal_ge {p : Bytes} {t : Nat} (h : messageTotal p = .ok t) : 16 ≤ t := by
  obtain ⟨word, -, -, rfl, -⟩ := messageTotal_ok h
  have := le_align (16 + word 12) (show 0 < 8 by decide)
  omega

/-- D-Bus messages, of which at most 8192 bytes are yielded. -/
def dbusFormat : Format UInt8 BadHeader where
  hdr := 16
  total := messageTotal
  cap := 8192
  hdr_pos := by decide
  hdr_le_cap := by decide
  total_take := messageTotal_take
  hdr_le_total _ _ h := messageTotal_ge h

/-- `dbus_frame_total` reads the header as the format does, its bound apart. -/
theorem dbusFrameTotal_eq {p : Bytes} {avail : Nat} (h : 16 ≤ avail) :
    match messageTotal p with
    | .ok t => dbusFrameTotal p avail = .msg t ∧ t < 134217728
    | .error .toolong => ∃ t, dbusFrameTotal p avail = .msg t ∧ 134217728 ≤ t
    | .error e => dbusFrameTotal p avail = e.status := by
  have hn : ¬ avail < dbusFrameHdrSize := by
    show ¬ avail < 16
    omega
  unfold dbusFrameTotal messageTotal headerWord
  rw [if_neg hn]
  by_cases hl : load8 p 0 = 108
  · by_cases h3 : load8 p 3 = 1
    · by_cases ht : 134217728 ≤ align (16 + load32 p 12) 8 + load32 p 4
      · simp [hl, h3, ht, dbusFrameEndianLe, dbusFrameHdrSize]
      · simp [hl, h3, ht, dbusFrameEndianLe, dbusFrameHdrSize]; omega
    · simp [hl, h3, dbusFrameEndianLe, BadHeader.status]
  · by_cases hb : load8 p 0 = 66
    · by_cases h3 : load8 p 3 = 1
      · by_cases ht : 134217728 ≤ align (16 + load32be p 12) 8 + load32be p 4
        · simp [hb, h3, ht, dbusFrameEndianLe, dbusFrameEndianBe, dbusFrameHdrSize]
        · simp [hb, h3, ht, dbusFrameEndianLe, dbusFrameEndianBe, dbusFrameHdrSize]; omega
      · simp [hb, h3, dbusFrameEndianLe, dbusFrameEndianBe, BadHeader.status]
    · simp [hl, hb, dbusFrameEndianLe, dbusFrameEndianBe, BadHeader.status]

theorem dbusFrameTotal_ok {p : Bytes} {avail t : Nat} (h : 16 ≤ avail)
    (ht : messageTotal p = .ok t) : dbusFrameTotal p avail = .msg t ∧ t < 134217728 := by
  have := dbusFrameTotal_eq (p := p) h
  rwa [ht] at this

/-! ## The head -/

/-- The framer as a reader of the stream. -/
def dbusFrameCursor (f : Frame) : Cursor UInt8 := ⟨dbusFramePos f, f.skip, dbusFrameBase f⟩

theorem dbusFrameBase_length (f : Frame) : (dbusFrameBase f).length = dbusFrameHave f := by
  simp [dbusFrameBase, dbusFrameHave]

/-- What `dbus_frame_next` answers at a head it can do nothing more with. -/
inductive AtRest (f : Frame) : FrameStatus → Prop where
  | draining (hs : 0 < f.skip) (hh : dbusFrameHave f = 0) : AtRest f (dbusFrameShort f .truncated)
  | empty (hs : f.skip = 0) (hh : dbusFrameHave f = 0) : AtRest f (dbusFrameShort f .eof)
  | header (hs : f.skip = 0) (h0 : 0 < dbusFrameHave f) (hh : dbusFrameHave f < 16) :
    AtRest f (dbusFrameShort f .truncated)
  | body (t : Nat) (hs : f.skip = 0) (hh : 16 ≤ dbusFrameHave f)
    (ht : messageTotal (dbusFrameBase f) = .ok t) (hc : t ≤ 8192) (hl : dbusFrameHave f < t) :
    AtRest f (dbusFrameShort f .truncated)
  | whole (t : Nat) (hs : f.skip = 0) (ht : messageTotal (dbusFrameBase f) = .ok t) (hc : t ≤ 8192)
    (hl : t ≤ dbusFrameHave f) : AtRest f (.msg t)
  | bad (e : BadHeader) (hs : f.skip = 0) (hh : 16 ≤ dbusFrameHave f)
    (ht : messageTotal (dbusFrameBase f) = .error e) : AtRest f e.status

/-- Where the message at the head ends, as far as is known: at its declared
length, or no earlier than its header. -/
def dbusFrameReach (f : Frame) : Nat :=
  dbusFramePos f +
    if 0 < f.skip then f.skip
    else if dbusFrameHave f < 16 then 16
    else match messageTotal (dbusFrameBase f) with
      | .ok t => t
      | .error _ => 16

/-- `g` is `f` after some over-cap messages, or parts of one, were passed over,
and `closed` the descriptors closed on the way. -/
structure Passed (f g : Frame) (closed : List Int) : Prop where
  buf : g.buf = f.buf
  abs0 : g.abs0 = f.abs0
  moved : g.moved = f.moved
  eof : g.eof = f.eof
  off_le : f.off ≤ g.off
  off_ok : g.off ≤ g.buf.length
  ahead : ∀ T, (dbusFrameCursor g).ahead dbusFormat T = (dbusFrameCursor f).ahead dbusFormat T
  reach : dbusFrameReach f ≤ dbusFrameReach g
  fds : (g.fdq = f.fdq ∧ g.fdtot = f.fdtot ∧ g.fdbad = f.fdbad ∧ closed = [] ∧
      (g = f ∨ (0 < f.skip ∧ 0 < g.skip))) ∨
    (g.fdq = [] ∧ g.fdtot = 0 ∧ g.fdbad = false ∧ closed = f.fdq.filter (0 ≤ ·) ∧
      (g.skip = 0 → dbusFrameReach f ≤ dbusFramePos g))

theorem Passed.refl {f : Frame} (h : f.off ≤ f.buf.length) : Passed f f [] :=
  ⟨rfl, rfl, rfl, rfl, Nat.le_refl _, h, fun _ => rfl, Nat.le_refl _,
    .inl ⟨rfl, rfl, rfl, rfl, .inl rfl⟩⟩

theorem Passed.trans {f g h : Frame} {c d : List Int} (h₁ : Passed f g c) (h₂ : Passed g h d) :
    Passed f h (c ++ d) where
  buf := h₂.buf.trans h₁.buf
  abs0 := h₂.abs0.trans h₁.abs0
  moved := h₂.moved.trans h₁.moved
  eof := h₂.eof.trans h₁.eof
  off_le := h₁.off_le.trans h₂.off_le
  off_ok := h₂.off_ok
  ahead T := (h₂.ahead T).trans (h₁.ahead T)
  reach := h₁.reach.trans h₂.reach
  fds := by
    rcases h₁.fds with ⟨q₁, t₁, b₁, rfl, k₁⟩ | ⟨q₁, t₁, b₁, rfl, k₁⟩
    · rcases h₂.fds with ⟨q₂, t₂, b₂, rfl, k₂⟩ | ⟨q₂, t₂, b₂, rfl, k₂⟩
      · refine .inl ⟨q₂.trans q₁, t₂.trans t₁, b₂.trans b₁, rfl, ?_⟩
        rcases k₂ with rfl | k₂
        · exact k₁
        · rcases k₁ with rfl | k₁
          · exact .inr k₂
          · exact .inr ⟨k₁.1, k₂.2⟩
      · exact .inr ⟨q₂, t₂, b₂, by rw [q₁]; rfl, fun hs => h₁.reach.trans (k₂ hs)⟩
    · rcases h₂.fds with ⟨q₂, t₂, b₂, rfl, k₂⟩ | ⟨q₂, t₂, b₂, rfl, k₂⟩
      · refine .inr ⟨q₂.trans q₁, t₂.trans t₁, b₂.trans b₁, List.append_nil _, ?_⟩
        intro hs
        rcases k₂ with rfl | k₂
        · exact k₁ hs
        · omega
      · exact .inr ⟨q₂, t₂, b₂, by rw [q₁]; simp, fun hs => h₁.reach.trans (k₂ hs)⟩

/-! ## `dbus_frame_next` -/

theorem dbusFramePos_le_reach (f : Frame) : dbusFramePos f ≤ dbusFrameReach f :=
  Nat.le_add_right _ _

theorem reach_skip {f : Frame} (h : 0 < f.skip) : dbusFrameReach f = dbusFramePos f + f.skip := by
  unfold dbusFrameReach
  rw [if_pos h]

theorem reach_total {f : Frame} {t : Nat} (hs : f.skip = 0) (hh : 16 ≤ dbusFrameHave f)
    (ht : messageTotal (dbusFrameBase f) = .ok t) : dbusFrameReach f = dbusFramePos f + t := by
  unfold dbusFrameReach
  rw [if_neg (by omega), if_neg (by omega), ht]

theorem drain_ahead {f : Frame} (T : Bytes) :
    (dbusFrameCursor (dbusFrameDrain f)).ahead dbusFormat T = (dbusFrameCursor f).ahead
    dbusFormat T := by
  have hl : min f.skip (dbusFrameHave f) ≤ (dbusFrameCursor f).held.length := by
    show _ ≤ (dbusFrameBase f).length
    rw [dbusFrameBase_length]
    exact Nat.min_le_right _ _
  have e :
    dbusFrameCursor (dbusFrameDrain f) = ⟨(dbusFrameCursor f).pos + min f.skip (dbusFrameHave f),
      (dbusFrameCursor f).skip - min f.skip (dbusFrameHave f),
      (dbusFrameCursor f).held.drop (min f.skip (dbusFrameHave f))⟩ := by
    simp [dbusFrameCursor, dbusFrameDrain, dbusFramePos, dbusFrameBase, Nat.add_assoc]
  rw [e]
  exact Cursor.ahead_pass _ (Nat.min_le_left _ _) hl T

theorem drain_off_ok {f : Frame} (h : f.off ≤ f.buf.length) :
    (dbusFrameDrain f).off ≤ (dbusFrameDrain f).buf.length := by
  have := Nat.min_le_right f.skip (dbusFrameHave f)
  simp only [dbusFrameDrain, dbusFrameHave] at this ⊢
  omega

/-- Part of an over-cap message was discarded. -/
theorem pass_part {f : Frame} (h : f.off ≤ f.buf.length) (hs : 0 < (dbusFrameDrain f).skip) :
    Passed f (dbusFrameDrain f) [] where
  buf := rfl
  abs0 := rfl
  moved := rfl
  eof := rfl
  off_le := Nat.le_add_right _ _
  off_ok := drain_off_ok h
  ahead := drain_ahead
  reach := by
    have hf : 0 < f.skip := by
      simp only [dbusFrameDrain] at hs
      omega
    rw [reach_skip hf, reach_skip hs]
    simp only [dbusFramePos, dbusFrameDrain]
    omega
  fds := .inl ⟨rfl, rfl, rfl, rfl, .inr ⟨by simp only [dbusFrameDrain] at hs; omega, hs⟩⟩

/-- The last of an over-cap message was discarded, and its descriptors closed. -/
theorem pass_drained {f : Frame} (h : f.off ≤ f.buf.length) (hs : 0 < f.skip)
    (h0 : (dbusFrameDrain f).skip = 0) :
    Passed f (dbusFrameCloseFds (dbusFrameDrain f)).1 (dbusFrameCloseFds (dbusFrameDrain f)).2 := by
  have hpos : dbusFrameReach f = dbusFramePos (dbusFrameCloseFds (dbusFrameDrain f)).1 := by
    rw [reach_skip hs]
    simp only [dbusFrameDrain] at h0
    simp only [dbusFramePos, dbusFrameDrain, dbusFrameCloseFds]
    omega
  refine ⟨rfl, rfl, rfl, rfl, Nat.le_add_right _ _, drain_off_ok h, drain_ahead, ?_,
    .inr ⟨rfl, rfl, rfl, rfl, fun _ => hpos.le⟩⟩
  rw [hpos]
  exact dbusFramePos_le_reach _

/-- An over-cap message begins. -/
theorem pass_start {f : Frame} {t : Nat} (h : f.off ≤ f.buf.length) (hs : f.skip = 0)
    (hh : 16 ≤ dbusFrameHave f) (ht : messageTotal (dbusFrameBase f) = .ok t) (hc : 8192 < t) :
    Passed f { (dbusFrameCloseFds f).1 with skip := t } (dbusFrameCloseFds f).2 := by
  have hg : 0 < ({ (dbusFrameCloseFds f).1 with skip := t } : Frame).skip := by
    show 0 < t
    omega
  refine ⟨rfl, rfl, rfl, rfl, Nat.le_refl _, h, ?_, ?_, .inr ⟨rfl, rfl, rfl, rfl, fun h0 => ?_⟩⟩
  · intro T
    have hb : dbusFormat.hdr ≤ (dbusFrameBase f).length := by
      rw [dbusFrameBase_length]
      exact hh
    have e := Cursor.ahead_start (F := dbusFormat) (dbusFramePos f) hb ht hc T
    rw [← hs] at e
    exact e
  · rw [reach_skip hg, reach_total hs hh ht]
    exact Nat.le_refl _
  · omega

theorem short_ne_msg (f : Frame) (n : Nat) : dbusFrameShort f .eof ≠ .msg n ∧
    dbusFrameShort f .truncated ≠ .msg n := by
  unfold dbusFrameShort
  cases f.eof <;> simp

theorem drain_eq {f : Frame} (h : min f.skip (dbusFrameHave f) = 0) : dbusFrameDrain f = f := by
  unfold dbusFrameDrain
  rw [h]
  rfl

/-- A head at rest stays: `dbus_frame_next` answers the same and changes nothing. -/
theorem AtRest.next_eq {f : Frame} {r : FrameStatus} (h : AtRest f r) (n : Nat) :
    dbusFrameNextN (n + 1) f = (r, f, []) := by
  have drained : f.skip = 0 → dbusFrameDrain f = f := fun hs => drain_eq (by omega)
  cases h with
  | draining hs hh =>
    have e : dbusFrameDrain f = f := drain_eq (by omega)
    simp only [dbusFrameNextN, e, if_pos hs]
  | empty hs hh => simp [dbusFrameNextN, drained hs, hs, hh]
  | header hs h0 hh =>
    have h0' : dbusFrameHave f ≠ 0 := by omega
    simp [dbusFrameNextN, drained hs, hs, hh, h0', dbusFrameHdrSize]
  | body t hs hh ht hc hl =>
    obtain ⟨e, hm⟩ := dbusFrameTotal_ok hh ht
    have h0 : dbusFrameHave f ≠ 0 := by omega
    have h1 : ¬ dbusFrameHave f < 16 := by omega
    have h2 : ¬ 134217728 ≤ t := by omega
    have h3 : ¬ 8192 < t := by omega
    simp [dbusFrameNextN, drained hs, hs, h0, h1, h2, h3, hl, e, dbusFrameHdrSize, dbusFrameMsgMax,
      dbusFrameCap]
  | whole t hs ht hc hl =>
    have hh : 16 ≤ dbusFrameHave f := (messageTotal_ge ht).trans hl
    obtain ⟨e, hm⟩ := dbusFrameTotal_ok hh ht
    have h0 : dbusFrameHave f ≠ 0 := by omega
    have h1 : ¬ dbusFrameHave f < 16 := by omega
    have h2 : ¬ 134217728 ≤ t := by omega
    have h3 : ¬ 8192 < t := by omega
    have h4 : ¬ dbusFrameHave f < t := by omega
    simp [dbusFrameNextN, drained hs, hs, h0, h1, h2, h3, h4, e, dbusFrameHdrSize, dbusFrameMsgMax,
      dbusFrameCap]
  | bad e hs hh ht =>
    have h0 : dbusFrameHave f ≠ 0 := by omega
    have h1 : ¬ dbusFrameHave f < 16 := by omega
    have total := dbusFrameTotal_eq (p := dbusFrameBase f) hh
    rw [ht] at total
    cases e with
    | badendian =>
      simp [dbusFrameNextN, drained hs, hs, h0, h1, total, dbusFrameHdrSize, BadHeader.status]
    | badproto =>
      simp [dbusFrameNextN, drained hs, hs, h0, h1, total, dbusFrameHdrSize, BadHeader.status]
    | toolong =>
      obtain ⟨t, et, hm⟩ := total
      simp [dbusFrameNextN, drained hs, hs, h0, h1, et, hm, dbusFrameHdrSize, dbusFrameMsgMax,
        BadHeader.status]

theorem rest_or_start {g : Frame} (hs : g.skip = 0) : (∃ r, AtRest g r) ∨
    ∃ t, 16 ≤ dbusFrameHave g ∧ messageTotal (dbusFrameBase g) = .ok t ∧ 8192 < t := by
  by_cases h0 : dbusFrameHave g = 0
  · exact .inl ⟨_, .empty hs h0⟩
  by_cases hh : dbusFrameHave g < 16
  · exact .inl ⟨_, .header hs (by omega) hh⟩
  cases ht : messageTotal (dbusFrameBase g) with
  | error e => exact .inl ⟨_, .bad e hs (by omega) ht⟩
  | ok t =>
    by_cases hc : t ≤ 8192
    · by_cases hl : dbusFrameHave g < t
      · exact .inl ⟨_, .body t hs (by omega) ht hc hl⟩
      · exact .inl ⟨_, .whole t hs ht hc (by omega)⟩
    · exact .inr ⟨t, by omega, rfl, by omega⟩

/-- At an over-cap header the framer starts to pass the message. -/
theorem next_start {g : Frame} {t : Nat} (hs : g.skip = 0) (hh : 16 ≤ dbusFrameHave g)
    (ht : messageTotal (dbusFrameBase g) = .ok t) (hc : 8192 < t) (n : Nat) :
    dbusFrameNextN (n + 1) g =
      let x := dbusFrameNextN n { (dbusFrameCloseFds g).1 with skip := t }
      (x.1, x.2.1, (dbusFrameCloseFds g).2 ++ x.2.2) := by
  obtain ⟨e, hm⟩ := dbusFrameTotal_ok hh ht
  have drained : dbusFrameDrain g = g := drain_eq (by omega)
  have h0 : dbusFrameHave g ≠ 0 := by omega
  have h1 : ¬ dbusFrameHave g < 16 := by omega
  have h2 : ¬ 134217728 ≤ t := by omega
  simp [dbusFrameNextN, drained, hs, h0, h1, h2, hc, e, dbusFrameHdrSize,
    dbusFrameMsgMax, dbusFrameCap]

/-- **What `dbus_frame_next` does**: it passes over-cap messages until it comes
to a head at rest, and answers what it finds there. -/
theorem dbusFrameNextN_passed : ∀ (n : Nat) (f : Frame), f.off ≤ f.buf.length →
    dbusFrameHave f - min f.skip (dbusFrameHave f) < n →
    ∃ r g closed, dbusFrameNextN n f = (r, g, closed) ∧ AtRest g r ∧ Passed f g closed
  | 0, _, _, hn => absurd hn (Nat.not_lt_zero _)
  | n + 1, f, h, hn => by
    by_cases hs : 0 < (dbusFrameDrain f).skip
    · have rest : AtRest (dbusFrameDrain f) (dbusFrameShort (dbusFrameDrain f) .truncated) := by
        refine .draining hs ?_
        simp only [dbusFrameDrain, dbusFrameHave] at hs ⊢
        omega
      refine ⟨_, _, _, ?_, rest, pass_part h hs⟩
      simp only [dbusFrameNextN, if_pos hs]
    · -- the head is now at a message's first byte: `g` is the framer there
      obtain ⟨g, closed, hg, hp, hsk, hv⟩ : ∃ g closed, (if 0 < f.skip then
          dbusFrameCloseFds (dbusFrameDrain f) else (dbusFrameDrain f, [])) = (g, closed) ∧
          Passed f g closed ∧ g.skip = 0 ∧ dbusFrameHave g ≤ n := by
        have h0 : (dbusFrameDrain f).skip = 0 := by omega
        have hv : dbusFrameHave (dbusFrameDrain f) ≤ n := by
          simp only [dbusFrameDrain, dbusFrameHave] at hn ⊢
          omega
        by_cases hf : 0 < f.skip
        · exact ⟨_, _, if_pos hf, pass_drained h hf h0, h0, hv⟩
        · have e : dbusFrameDrain f = f := drain_eq (by omega)
          rw [if_neg hf, e]
          rw [e] at h0 hv
          exact ⟨f, [], rfl, Passed.refl h, h0, hv⟩
      have step :
        dbusFrameNextN (n + 1)
        f = (let x := dbusFrameNextN (n + 1) g; (x.1, x.2.1, closed ++ x.2.2)) := by
        have e : dbusFrameDrain g = g := drain_eq (by omega)
        simp only [dbusFrameNextN, if_neg hs, hg, e, hsk, Nat.lt_irrefl, if_false, List.nil_append]
        repeat' split
        all_goals simp [List.append_assoc]
      rcases rest_or_start hsk with ⟨r, rest⟩ | ⟨t, hh, ht, hc⟩
      · refine ⟨r, g, closed, ?_, rest, hp⟩
        rw [step, rest.next_eq]
        simp
      · have pass := pass_start hp.off_ok hsk hh ht hc
        have lower : dbusFrameHave { (dbusFrameCloseFds g).1 with skip := t } -
            min t (dbusFrameHave { (dbusFrameCloseFds g).1 with skip := t }) < n := by
          show dbusFrameHave g - min t (dbusFrameHave g) < n
          omega
        obtain ⟨r, g', closed', hr, rest, pass'⟩ := dbusFrameNextN_passed n _ pass.off_ok lower
        refine ⟨r, g', closed ++ ((dbusFrameCloseFds g).2 ++ closed'), ?_, rest,
          hp.trans (pass.trans pass')⟩
        rw [step, next_start hsk hh ht hc, hr]

theorem dbusFrameNext_passed {f : Frame} (h : f.off ≤ f.buf.length) :
    ∃ r g closed, dbusFrameNext f = (r, g, closed) ∧ AtRest g r ∧ Passed f g closed :=
  dbusFrameNextN_passed _ f h (by omega)

theorem AtRest.next {f : Frame} {r : FrameStatus} (h : AtRest f r) : dbusFrameNext f = (r, f, []) :=
  h.next_eq _

/-! ## One read -/

/-- The buffer's own bounds. -/
structure Frame.Ok (f : Frame) : Prop where
  off : f.off ≤ f.buf.length
  cap : f.buf.length ≤ 8192

theorem Passed.ok {f g : Frame} {c : List Int} (h : Passed f g c) (hf : f.Ok) : g.Ok :=
  ⟨h.off_ok, by rw [h.buf]; exact hf.cap⟩

theorem reach_congr {f g : Frame} (h : dbusFrameCursor g = dbusFrameCursor f) :
    dbusFrameReach g = dbusFrameReach f := by
  injection h with hp hs hb
  have hh : dbusFrameHave g = dbusFrameHave f := by
    rw [← dbusFrameBase_length, ← dbusFrameBase_length, hb]
  unfold dbusFrameReach
  rw [hp, hs, hb, hh]

theorem compact_cursor (f : Frame) : dbusFrameCursor (dbusFrameCompact f) = dbusFrameCursor f := by
  unfold dbusFrameCompact
  split
  · rfl
  · simp [dbusFrameCursor, dbusFramePos, dbusFrameBase]

/-- `g` is `f` made ready for a read of at most `n` bytes. -/
structure Prepared (f g : Frame) (n : Nat) : Prop where
  room : g.buf.length + n ≤ 8192
  off_ok : g.off ≤ g.buf.length
  cursor : dbusFrameCursor g = dbusFrameCursor f
  received : dbusFrameReceived g = dbusFrameReceived f
  eof : g.eof = f.eof
  fdq : g.fdq = f.fdq
  fdtot : g.fdtot = f.fdtot
  fdbad : g.fdbad = f.fdbad
  le_want : n ≤ dbusFrameWant f
  shift : g = f ∨ 0 < dbusFrameWant f ∧ g = dbusFrameCompact f

theorem Prepared.skip {f g : Frame} {n : Nat} (h : Prepared f g n) : g.skip = f.skip :=
  congrArg Cursor.skip h.cursor

theorem dbusFramePrepare_spec {f : Frame} (h : f.Ok) : ∃ n g,
    dbusFramePrepare f (dbusFrameWant f) = (n, g) ∧ Prepared f g n ∧
      (0 < dbusFrameWant f → dbusFrameHave f < 8192 → 0 < n) := by
  obtain ⟨ho, hc⟩ := h
  by_cases hw : dbusFrameWant f = 0
  · refine ⟨0, f, ?_, ⟨by omega, ho, rfl, rfl, rfl, rfl, rfl, rfl, by omega, .inl rfl⟩, by omega⟩
    simp [dbusFramePrepare, hw]
  by_cases hs : dbusFrameSpace f < dbusFrameWant f
  · refine ⟨min (dbusFrameWant f) (dbusFrameSpace (dbusFrameCompact f)),
      dbusFrameCompact f, ?_, ?_, ?_⟩
    · simp [dbusFramePrepare, hw, hs]
    · by_cases h0 : f.off = 0
      · have e : dbusFrameCompact f = f := by simp [dbusFrameCompact, h0]
        rw [e]
        exact ⟨by simp only [dbusFrameSpace, dbusFrameCap]; omega, ho, rfl, rfl, rfl, rfl, rfl, rfl,
          Nat.min_le_left _ _, .inl rfl⟩
      · refine ⟨?_, ?_, compact_cursor f, ?_, ?_, ?_, ?_, ?_, Nat.min_le_left _ _,
          .inr ⟨by omega, rfl⟩⟩
        · simp only [dbusFrameCompact, h0, if_false, dbusFrameSpace, dbusFrameCap,
            dbusFrameBase_length]
          simp only [dbusFrameHave]
          omega
        · simp [dbusFrameCompact, h0]
        · simp only [dbusFrameCompact, h0, if_false, dbusFrameReceived,
            dbusFrameBase_length, dbusFrameHave]
          omega
        all_goals simp [dbusFrameCompact, h0]
    · intro hpos hlt
      have : (dbusFrameCompact f).buf.length = dbusFrameHave f := by
        by_cases h0 : f.off = 0
        · simp [dbusFrameCompact, h0, dbusFrameHave]
        · simp [dbusFrameCompact, h0, dbusFrameBase_length]
      simp only [dbusFrameSpace, this, dbusFrameCap]
      omega
  · refine ⟨dbusFrameWant f, f, ?_, ⟨?_, ho, rfl, rfl, rfl, rfl, rfl, rfl, Nat.le_refl _, .inl rfl⟩,
      by omega⟩
    · have : min (dbusFrameWant f) (dbusFrameSpace f) = dbusFrameWant f := by omega
      simp [dbusFramePrepare, hw, hs, this]
    · simp only [dbusFrameSpace, dbusFrameCap] at hs
      omega

/-- While more is needed there is something to want and room for it, and the
read stays inside the head message. -/
theorem AtRest.want {f : Frame} (h : AtRest f .needMore) :
    0 < dbusFrameWant f ∧ dbusFrameHave f < 8192 ∧
      dbusFramePos f + dbusFrameHave f + dbusFrameWant f ≤ dbusFrameReach f := by
  generalize hr : FrameStatus.needMore = r at h
  cases h with
  | draining hs hh =>
    rw [reach_skip hs]
    simp only [dbusFrameWant, if_pos hs]
    omega
  | empty hs hh =>
    simp [dbusFrameWant, dbusFrameReach, hs, hh, dbusFrameHdrSize]
  | header hs h0 hh =>
    simp only [dbusFrameWant, dbusFrameReach, hs, hh, dbusFrameHdrSize, Nat.lt_irrefl,
      if_false, if_true]
    omega
  | body t hs hh ht hc hl =>
    rw [reach_total hs hh ht]
    have h1 : ¬ dbusFrameHave f < 16 := by omega
    have h2 : ¬ 8192 < t := by omega
    simp only [dbusFrameWant, hs, h1, h2, (dbusFrameTotal_ok hh ht).1,
      dbusFrameHdrSize, dbusFrameCap, Nat.lt_irrefl, if_false]
    omega
  | whole t => cases hr
  | bad e => cases e <;> cases hr

theorem commit_cursor {f : Frame} (h : f.off ≤ f.buf.length) (d : Bytes) :
    dbusFrameCursor (dbusFrameCommit f d) =
      { dbusFrameCursor f with held := (dbusFrameCursor f).held ++ d } := by
  simp [dbusFrameCursor, dbusFrameCommit, dbusFramePos, dbusFrameBase,
    List.drop_append_of_le_length h]

theorem reach_commit {f : Frame} (h : f.off ≤ f.buf.length) (d : Bytes) :
    dbusFrameReach f ≤ dbusFrameReach (dbusFrameCommit f d) := by
  have hb : dbusFrameBase (dbusFrameCommit f d) = dbusFrameBase f ++ d :=
    congrArg Cursor.held (commit_cursor h d)
  have hh : dbusFrameHave (dbusFrameCommit f d) = dbusFrameHave f + d.length := by
    rw [← dbusFrameBase_length, hb, List.length_append, dbusFrameBase_length]
  show dbusFramePos f + _ ≤ dbusFramePos f + _
  rw [hb, hh]
  by_cases hs : 0 < f.skip
  · have hs' : 0 < (dbusFrameCommit f d).skip := hs
    rw [if_pos hs, if_pos hs']
    exact Nat.le_refl _
  have hs' : ¬ 0 < (dbusFrameCommit f d).skip := hs
  rw [if_neg hs, if_neg hs']
  by_cases h16 : dbusFrameHave f < 16
  · rw [if_pos h16]
    split
    · exact Nat.le_refl _
    · split
      · next ht =>
        have := messageTotal_ge ht
        omega
      · exact Nat.le_refl _
  · have e : messageTotal (dbusFrameBase f ++ d) = messageTotal (dbusFrameBase f) :=
      total_append (F := dbusFormat) (by rw [dbusFrameBase_length]; show 16 ≤ _; omega) d
    rw [if_neg h16, if_neg (by omega), e]

/-! ## Messages yielded -/

theorem AtRest.whole_inv {f : Frame} {t : Nat} (h : AtRest f (.msg t)) : f.skip = 0 ∧
    messageTotal (dbusFrameBase f) = .ok t ∧ t ≤ 8192 ∧ t ≤ dbusFrameHave f := by
  generalize hr : FrameStatus.msg t = r at h
  cases h with
  | whole t' hs ht hc hl =>
    cases hr
    exact ⟨hs, ht, hc, hl⟩
  | bad e => cases e <;> cases hr
  | draining hs hh => exact absurd hr.symm (short_ne_msg f t).2
  | empty hs hh => exact absurd hr.symm (short_ne_msg f t).1
  | header hs h0 hh => exact absurd hr.symm (short_ne_msg f t).2
  | body t' hs hh ht hc hl => exact absurd hr.symm (short_ne_msg f t).2

theorem AtRest.msg_pos {f : Frame} {t : Nat} (h : AtRest f (.msg t)) : 0 < t := by
  have := messageTotal_ge h.whole_inv.2.1
  omega

/-- Consuming a whole head message. -/
theorem AtRest.advance {f : Frame} {t : Nat} (ho : f.off ≤ f.buf.length) (h : AtRest f (.msg t)) :
    dbusFrameAdvance f t = ({ f with off := f.off + t, fdq := [], fdtot := 0, fdbad := false },
      f.fdq.filter (0 ≤ ·)) := by
  obtain ⟨hs, ht, hc, hl⟩ := h.whole_inv
  have h0 : t ≠ 0 := by
    have := h.msg_pos
    omega
  have hm : min (f.off + t) f.buf.length = f.off + t := by
    simp only [dbusFrameHave] at hl
    omega
  simp [dbusFrameAdvance, h0, hm, dbusFrameCloseFds]

/-- What is ahead after the head message is consumed. -/
theorem AtRest.advance_ahead {f : Frame} {t : Nat} (ho : f.off ≤ f.buf.length)
    (h : AtRest f (.msg t)) (T : Bytes) : (dbusFrameCursor f).ahead dbusFormat T =
      ((dbusFrameCursor (dbusFrameAdvance f t).1).ahead dbusFormat T).cons (dbusFramePos f)
        ((dbusFrameBase f).take t) := by
  obtain ⟨hs, ht, hc, hl⟩ := h.whole_inv
  have e := Cursor.ahead_consume (F := dbusFormat) (dbusFramePos f) ht hc
    (by rw [dbusFrameBase_length]; exact hl) T
  have c :
    dbusFrameCursor (dbusFrameAdvance f t).1 = ⟨dbusFramePos f + t, 0, (dbusFrameBase f).drop t⟩ :=
    by
    rw [h.advance ho]
    simp [dbusFrameCursor, dbusFramePos, dbusFrameBase, hs, Nat.add_assoc]
  rw [c]
  have c' : dbusFrameCursor f = ⟨dbusFramePos f, 0, dbusFrameBase f⟩ := by
    simp [dbusFrameCursor, hs]
  rw [c']
  exact e

theorem AtRest.advance_ok {f : Frame} {t : Nat} (hf : f.Ok) (h : AtRest f (.msg t)) :
    (dbusFrameAdvance f t).1.Ok := by
  have hl := h.whole_inv.2.2.2
  have ho := hf.off
  rw [h.advance ho]
  refine ⟨?_, hf.cap⟩
  simp only [dbusFrameHave] at hl
  show f.off + t ≤ f.buf.length
  omega

theorem AtRest.advance_have {f : Frame} {t : Nat} (ho : f.off ≤ f.buf.length)
    (h : AtRest f (.msg t)) : dbusFrameHave (dbusFrameAdvance f t).1 < dbusFrameHave f := by
  have hl := h.whole_inv.2.2.2
  have := h.msg_pos
  rw [h.advance ho]
  simp only [dbusFrameHave] at hl ⊢
  omega

theorem Passed.have_le {f g : Frame} {c : List Int} (h : Passed f g c) :
    dbusFrameHave g ≤ dbusFrameHave f := by
  have := h.off_le
  simp only [dbusFrameHave, h.buf]
  omega

/-- Run `dbus_frame_next` and `dbus_frame_advance` until there is no message:
the messages seen at the base, with their positions, and the last answer. -/
def frameYieldN : Nat → Frame → List (Nat × Bytes) × FrameStatus × Frame
  | 0, f => ([], .needMore, f)
  | n + 1, f =>
    match dbusFrameNext f with
    | (.msg t, g, _) =>
      let (ms, r, h) := frameYieldN n (dbusFrameAdvance g t).1
      ((dbusFramePos g, (dbusFrameBase g).take t) :: ms, r, h)
    | (r, g, _) => ([], r, g)

def frameYield (f : Frame) : List (Nat × Bytes) × FrameStatus × Frame :=
  frameYieldN (dbusFrameHave f + 1) f

/-- What a run of `dbus_frame_next` and `dbus_frame_advance` has yielded. -/
structure Yielded (f : Frame) (ms : List (Nat × Bytes)) (r : FrameStatus) (g : Frame) : Prop where
  rest : AtRest g r
  stopped : ∀ t, r ≠ .msg t
  ok : g.Ok
  eof : g.eof = f.eof
  msgs : ∀ T, ((dbusFrameCursor f).ahead dbusFormat T).msgs =
    ms ++ ((dbusFrameCursor g).ahead dbusFormat T).msgs
  stop : ∀ T, ((dbusFrameCursor f).ahead dbusFormat T).stop =
    ((dbusFrameCursor g).ahead dbusFormat T).stop

theorem frameYieldN_spec : ∀ (n : Nat) (f : Frame), f.Ok → dbusFrameHave f < n →
    ∃ ms r g, frameYieldN n f = (ms, r, g) ∧ Yielded f ms r g
  | 0, _, _, hn => absurd hn (Nat.not_lt_zero _)
  | n + 1, f, hf, hn => by
    obtain ⟨r, g, c, hnext, rest, pass⟩ := dbusFrameNext_passed hf.off
    have hg := pass.ok hf
    by_cases hr : ∃ t, r = .msg t
    · obtain ⟨t, rfl⟩ := hr
      have hlow : dbusFrameHave (dbusFrameAdvance g t).1 < n := by
        have h1 := rest.advance_have hg.off
        have h2 := pass.have_le
        omega
      obtain ⟨ms, r, h, hy, y⟩ := frameYieldN_spec n _ (rest.advance_ok hg) hlow
      refine ⟨(dbusFramePos g, (dbusFrameBase g).take t) :: ms, r, h, ?_, y.rest, y.stopped,
        y.ok, ?_, ?_, ?_⟩
      · simp only [frameYieldN, hnext, hy]
      · rw [y.eof, rest.advance hg.off]
        exact pass.eof
      · intro T
        rw [← pass.ahead T, rest.advance_ahead hg.off T, Parsed.cons, y.msgs T]
        rfl
      · intro T
        rw [← pass.ahead T, rest.advance_ahead hg.off T, Parsed.cons, y.stop T]
    · refine ⟨[], r, g, ?_, rest, fun t ht => hr ⟨t, ht⟩, hg, pass.eof, fun T => ?_, fun T => ?_⟩
      · simp only [frameYieldN, hnext]
        cases r with
        | msg t => exact absurd ⟨t, rfl⟩ hr
        | _ => rfl
      · rw [pass.ahead T]
        rfl
      · rw [pass.ahead T]

theorem frameYield_spec {f : Frame} (h : f.Ok) {ms : List (Nat × Bytes)}
    {r : FrameStatus} {g : Frame} (hy : frameYield f = (ms, r, g)) : Yielded f ms r g := by
  obtain ⟨ms', r', g', hy', y⟩ := frameYieldN_spec _ f h (Nat.lt_succ_self _)
  rw [frameYield, hy'] at hy
  cases hy
  exact y

/-! ## A whole delivery -/

/-- A stream delivered so far, in reads of one byte at least and of no more than
`dbus_frame_prepare(dbus_frame_want())` allows, with the messages taken out in
between: the bytes delivered, the messages yielded, the framer's last answer and
the framer. -/
inductive Delivered : Bytes → List (Nat × Bytes) → FrameStatus → Frame → Prop where
  | start {ms r g} (hy : frameYield {} = (ms, r, g)) : Delivered [] ms r g
  | read {S ms r f d n g ms' r' h} (before : Delivered S ms r f)
    (hp : dbusFramePrepare f (dbusFrameWant f) = (n, g)) (h1 : 1 ≤ d.length) (hn : d.length ≤ n)
    (hy : frameYield (dbusFrameCommit g d) = (ms', r', h)) : Delivered (S ++ d) (ms ++ ms') r' h

/-- The framer has kept up: what it has yet to yield is what the stream has after
the messages it yielded. -/
theorem Delivered.yielded {S : Bytes} {ms : List (Nat × Bytes)} {r : FrameStatus} {f : Frame}
    (h : Delivered S ms r f) : AtRest f r ∧ (∀ t, r ≠ .msg t) ∧ f.Ok ∧ f.eof = false ∧
      (∀ T, (parse dbusFormat 0 (S ++ T)).msgs = ms ++
      ((dbusFrameCursor f).ahead dbusFormat T).msgs) ∧ ∀ T,
      (parse dbusFormat 0 (S ++ T)).stop = ((dbusFrameCursor f).ahead dbusFormat T).stop := by
  induction h with
  | start hy =>
    have y := frameYield_spec ⟨Nat.le_refl _, by decide⟩ hy
    have e : ∀ T, (dbusFrameCursor {}).ahead dbusFormat T = parse dbusFormat 0 T :=
      fun T => parseFrom_zero 0 T
    exact ⟨y.rest, y.stopped, y.ok, y.eof, fun T => by rw [← y.msgs T, e]; rfl,
      fun T => by rw [← y.stop T, e]; rfl⟩
  | @read S ms r f d n g ms' r' h _ hp h1 hn hy ih =>
    obtain ⟨-, -, ok, heof, hm, hst⟩ := ih
    obtain ⟨n', g', hp', p, -⟩ := dbusFramePrepare_spec ok
    rw [hp] at hp'
    cases hp'
    have hok : (dbusFrameCommit g d).Ok := by
      have := p.room
      have := p.off_ok
      constructor <;> simp only [dbusFrameCommit, List.length_append] <;> omega
    have y := frameYield_spec hok hy
    have e : ∀ T, (dbusFrameCursor (dbusFrameCommit g d)).ahead dbusFormat T =
        (dbusFrameCursor f).ahead dbusFormat (d ++ T) := by
      intro T
      rw [commit_cursor p.off_ok, Cursor.ahead_receive, p.cursor]
    refine ⟨y.rest, y.stopped, y.ok, y.eof.trans (p.eof.trans heof), fun T => ?_, fun T => ?_⟩
    · rw [List.append_assoc, hm, ← e, y.msgs T, List.append_assoc]
    · rw [List.append_assoc, hst, ← e, y.stop T]

/-- What the framer answers once the peer has closed where the stream stops. -/
def atEof : Stop BadHeader → FrameStatus
  | .boundary => .eof
  | .inside => .truncated
  | .bad e => e.status

/-- Nothing is ahead of an invalid header. -/
theorem bad_ahead {f : Frame} {e : BadHeader} (hs : f.skip = 0) (hh : 16 ≤ dbusFrameHave f)
    (ht : messageTotal (dbusFrameBase f) = .error e) (T : Bytes) :
    (dbusFrameCursor f).ahead dbusFormat T = ⟨[], .bad e⟩ := by
  have c : dbusFrameCursor f = ⟨dbusFramePos f, 0, dbusFrameBase f⟩ := by simp [dbusFrameCursor, hs]
  rw [c]
  exact Cursor.ahead_bad (F := dbusFormat) (by rw [dbusFrameBase_length]; exact hh) ht T

/-- A head with no whole message is an invalid header, or waits for more. -/
theorem AtRest.stop {f : Frame} {r : FrameStatus} (h : AtRest f r) (hr : ∀ t, r ≠ .msg t)
    (he : f.eof = false) : (∃ e, r = BadHeader.status e ∧ f.skip = 0 ∧ 16 ≤ dbusFrameHave f ∧
      messageTotal (dbusFrameBase f) = .error e) ∨
      (r = .needMore ∧ (dbusFrameCursor f).Waits dbusFormat) := by
  have short : ∀ s, dbusFrameShort f s = .needMore := fun s => by simp [dbusFrameShort, he]
  have len : (dbusFrameCursor f).held.length = dbusFrameHave f := dbusFrameBase_length f
  cases h with
  | draining hs hh => exact .inr ⟨short _, .inl ⟨hs, List.eq_nil_of_length_eq_zero (len.trans hh)⟩⟩
  | empty hs hh =>
    refine .inr ⟨short _, .inr (.inl ⟨hs, ?_⟩)⟩
    rw [len, hh]
    exact dbusFormat.hdr_pos
  | header hs h0 hh =>
    refine .inr ⟨short _, .inr (.inl ⟨hs, ?_⟩)⟩
    rw [len]
    exact hh
  | body t hs hh ht hc hl =>
    refine .inr ⟨short _, .inr (.inr ⟨hs, ?_, t, ht, ?_⟩)⟩
    · rw [len]
      exact hh
    · rw [len]
      exact hl
  | whole t => exact absurd rfl (hr t)
  | bad e hs hh ht => exact .inl ⟨e, rfl, hs, hh, ht⟩

/-- Setting the end of input turns a wait into `eof` or `truncated`. -/
theorem AtRest.setEof {f : Frame} {r : FrameStatus} (h : AtRest f r) (hr : ∀ t, r ≠ .msg t)
    (he : f.eof = false) : AtRest (dbusFrameSetEof f)
    (atEof ((dbusFrameCursor f).ahead dbusFormat []).stop) := by
  have len : (dbusFrameCursor f).held.length = dbusFrameHave f := dbusFrameBase_length f
  rcases h.stop hr he with ⟨e, rfl, hs, hh, ht⟩ | ⟨rfl, hw⟩
  · rw [bad_ahead hs hh ht]
    exact AtRest.bad (f := dbusFrameSetEof f) e hs hh ht
  · rw [hw.ahead_nil]
    generalize hq : FrameStatus.needMore = q at h
    cases h with
    | draining hs hh =>
      have hne : (dbusFrameCursor f).skip ≠ 0 := by
        show f.skip ≠ 0
        omega
      rw [if_neg (fun hc => hne hc.1)]
      exact AtRest.draining (f := dbusFrameSetEof f) hs hh
    | empty hs hh =>
      rw [if_pos ⟨hs, List.eq_nil_of_length_eq_zero (len.trans hh)⟩]
      exact AtRest.empty (f := dbusFrameSetEof f) hs hh
    | header hs h0 hh =>
      have hne : (dbusFrameCursor f).held ≠ [] := List.ne_nil_of_length_pos (by omega)
      rw [if_neg (fun hc => hne hc.2)]
      exact AtRest.header (f := dbusFrameSetEof f) hs h0 hh
    | body t hs hh ht hc hl =>
      have hne : (dbusFrameCursor f).held ≠ [] := List.ne_nil_of_length_pos (by omega)
      rw [if_neg (fun hc => hne hc.2)]
      exact AtRest.body (f := dbusFrameSetEof f) t hs hh ht hc hl
    | whole t => cases hq
    | bad e => cases e <;> cases hq

/-- **Framing is exact, whatever the sizes of the reads.** When the bytes `P` of
a stream `P ++ T` have been delivered, the messages yielded are those of `P`:
none early, none that should be skipped, none missing. They are all the stream
has if nothing is left of it or the header at the head is invalid. Short of
that there is room for a further read. The framer's answer stands, with nothing
consumed; once the end of input is set it is what the stream's stop says. -/
theorem framing_exact (P T : Bytes) (ms : List (Nat × Bytes)) (r : FrameStatus) (f : Frame)
    (h : Delivered P ms r f) :
    ms = (parse dbusFormat 0 P).msgs ∧
    (T = [] ∨ r ≠ .needMore → ms = (parse dbusFormat 0 (P ++ T)).msgs) ∧
    (r = .needMore ∨ ∃ e, r = e.status ∧ (parse dbusFormat 0 (P ++ T)).stop = .bad e) ∧
    (r = .needMore → 0 < (dbusFramePrepare f (dbusFrameWant f)).1) ∧
    dbusFrameNext f = (r, f, []) ∧
    dbusFrameNext (dbusFrameSetEof f) = (atEof (parse dbusFormat 0 P).stop,
    dbusFrameSetEof f, []) := by
  obtain ⟨rest, stopped, ok, heof, hm, hst⟩ := h.yielded
  have hm0 := hm []
  have hst0 := hst []
  rw [List.append_nil] at hm0 hst0
  have hend := rest.setEof stopped heof
  rw [← hst0] at hend
  refine ⟨?_, ?_, ?_, ?_, rest.next, hend.next⟩
  · rcases rest.stop stopped heof with ⟨e, -, hs, hh, ht⟩ | ⟨-, hw⟩
    · rw [hm0, bad_ahead hs hh ht, List.append_nil]
    · rw [hm0, hw.ahead_nil, List.append_nil]
  · intro hc
    rcases rest.stop stopped heof with ⟨e, -, hs, hh, ht⟩ | ⟨hn, hw⟩
    · rw [hm, bad_ahead hs hh ht, List.append_nil]
    · rcases hc with rfl | hc
      · rw [hm, hw.ahead_nil, List.append_nil]
      · exact absurd hn hc
  · rcases rest.stop stopped heof with ⟨e, he, hs, hh, ht⟩ | ⟨hn, -⟩
    · exact .inr ⟨e, he, by rw [hst, bad_ahead hs hh ht]⟩
    · exact .inl hn
  · rintro rfl
    obtain ⟨n, g, hp, -, hpos⟩ := dbusFramePrepare_spec ok
    obtain ⟨hw, hlt, -⟩ := rest.want
    rw [hp]
    exact hpos hw hlt

/-- A 24-byte message in three reads. -/
theorem framing_exact_three_reads :
    let m : Bytes := [108, 4, 0, 1, 8, 0, 0, 0, 1, 0, 0, 0, 0, 0, 0, 0, 1, 2, 3, 4, 5, 6, 7, 8]
    [(0, m)] = (parse dbusFormat 0 m).msgs ∧ atEof (parse dbusFormat 0 m).stop = .eof := by
  intro m
  have start : Delivered [] [] .needMore {} := .start (by decide)
  have one : Delivered (m.take 10) [] .needMore { buf := m.take 10 } :=
    start.read (n := 16) (g := {}) (by decide) (by decide) (by decide) (by decide)
  have two : Delivered (m.take 16) [] .needMore { buf := m.take 16 } :=
    one.read (d := (m.drop 10).take 6) (n := 6) (g := { buf := m.take 10 })
      (by decide) (by decide) (by decide) (by decide)
  have three : Delivered m [(0, m)] .needMore { buf := m, off := 24 } :=
    two.read (d := m.drop 16) (n := 8) (g := { buf := m.take 16 })
      (by decide) (by decide) (by decide) (by decide)
  have all := framing_exact m [] _ _ _ three
  exact ⟨all.1, (congrArg Prod.fst all.2.2.2.2.2).symm.trans (by decide)⟩

end Samvada
