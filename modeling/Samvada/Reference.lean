import Samvada.Encode

/- The encoder against an unbounded one. `reference` is what the same operations
   append when nothing is refused and the buffer has no end; the encoder holds
   it, or is poisoned. The one way out is a sum: a position and a length that
   add up to 2^63 or more make a negative word, which every bound admits. -/
namespace Samvada
open Octets

/-! ## The unbounded encoder -/

/-- An operation after `dbus_marshal_begin`. -/
inductive MarshalOp where
  | fieldStr (code sigch : Int) (str : Bytes) (len : Int)
  | fieldU32 (code val : Int)
  | fieldSig (code : Int) (sig : Bytes) (len : Int)
  | endFields
  | bodyU32 (v : Int)
  | bodyBool (v : Int)
  | bodyStr (str : Bytes) (len : Int)
  | finish
  deriving DecidableEq, Repr

/-- A message so far: its bytes, and where its field array ended. -/
structure Encoding where
  bytes : Bytes
  fend : Nat := 0
  deriving DecidableEq, Repr

/-- Four bytes of a message replaced by a word. -/
def patch (bs : Bytes) (i : Nat) (v : Int) : Bytes := bs.take i ++ (le32 v ++ bs.drop (i + 4))

namespace MarshalOp

def run (m : Marshal) : MarshalOp → Marshal
  | fieldStr code sigch str len => dbusMarshalFieldStr m code sigch str len
  | fieldU32 code val => dbusMarshalFieldU32 m code val
  | fieldSig code sig len => dbusMarshalFieldSig m code sig len
  | endFields => dbusMarshalEndFields m
  | bodyU32 v => dbusMarshalBodyU32 m v
  | bodyBool v => dbusMarshalBodyBool m v
  | bodyStr str len => dbusMarshalBodyStr m str len
  | finish => (dbusMarshalFinish m).2

/-- Is a string's length negative, or a signature's negative or above 255? -/
def refused : MarshalOp → Bool
  | fieldStr _ _ _ len => len < 0
  | fieldSig _ _ len => len < 0 ∨ 255 < len
  | bodyStr _ len => len < 0
  | _ => false

/-- The string length an operation is given. -/
def length : MarshalOp → Int
  | fieldStr _ _ _ len => len
  | fieldSig _ _ len => len
  | bodyStr _ len => len
  | _ => 0

/-- What an operation appends at position `n`. -/
def piece : MarshalOp → Nat → Bytes
  | fieldStr code sigch str len, n =>
    fieldBytes n code sigch (le32 len ++ (loadN str 0 len.toNat ++ [0]))
  | fieldU32 code val, n => fieldBytes n code 117 (le32 val)
  | fieldSig code sig len, n => fieldBytes n code 103 (low8 len :: (loadN sig 0 len.toNat ++ [0]))
  | endFields, n => padBytes n 8
  | bodyU32 v, n => padBytes n 4 ++ le32 v
  | bodyBool v, n => padBytes n 4 ++ le32 (if v ≠ 0 then 1 else 0)
  | bodyStr str len, n => padBytes n 4 ++ (le32 len ++ (loadN str 0 len.toNat ++ [0]))
  | finish, _ => []

/-- What an operation writes over, before it appends: the length of the field
array, or that of the body. -/
def backfill (e : Encoding) : MarshalOp → Encoding
  | endFields => ⟨patch e.bytes 12 ((e.bytes.length : Int) - 16), e.bytes.length⟩
  | finish => ⟨patch e.bytes 4 (max 0 ((e.bytes.length : Int) - align e.fend 8)), e.fend⟩
  | _ => e

def encode (e : Encoding) (op : MarshalOp) : Encoding :=
  { op.backfill e with bytes := (op.backfill e).bytes ++ op.piece e.bytes.length }

/-- Where the text of an operation at position `n` starts. -/
def text : MarshalOp → Nat → Option Nat
  | fieldStr _ _ _ _, n => some (align n 8 + 8)
  | bodyStr _ _, n => some (align n 4 + 4)
  | _, _ => none

/-- At position `n`, does the text start inside the buffer and its end leave the 64-bit word? -/
def wraps (op : MarshalOp) (n : Nat) : Bool :=
  (op.text n).any fun at_ : Nat => at_ ≤ 4096 && 9223372036854775808 ≤ (at_ : Int) + op.length

end MarshalOp

def marshal (mtype flags serial : Int) (ops : List MarshalOp) : Marshal :=
  ops.foldl MarshalOp.run (dbusMarshalBegin mtype flags serial)

/-- The header, its two lengths still zero. -/
def beginBytes (mtype flags serial : Int) : Bytes :=
  headBytes mtype flags ++ (le32 0 ++ (le32 serial ++ le32 0))

/-- The unbounded encoding of the operations. -/
def reference (mtype flags serial : Int) (ops : List MarshalOp) : Encoding :=
  ops.foldl MarshalOp.encode { bytes := beginBytes mtype flags serial }

/-- No text that the encoder would come to wraps: the lengths before it are
legal, and it starts inside the buffer. -/
def neverWraps : Encoding → List MarshalOp → Bool
  | _, [] => true
  | e, op :: ops => !op.wraps e.bytes.length && (op.refused || neverWraps (op.encode e) ops)

/-! ## One operation -/

theorem patch_length {bs : Bytes} {i : Nat} (v : Int) (h : i + 4 ≤ bs.length) :
    (patch bs i v).length = bs.length := by
  simp only [patch, List.length_append, List.length_take, List.length_drop, le32_length]
  omega

theorem backfill_patch {m : Marshal} {i : Nat} (v : Int) (h : i + 4 ≤ m.buf.length) :
    dbmBackfill m i v = { m with buf := patch m.buf i v } := by
  have split : m.buf = m.buf.take i ++ ((m.buf.drop i).take 4 ++ m.buf.drop (i + 4)) := by
    rw [← List.drop_drop, List.take_append_drop, List.take_append_drop]
  refine backfill_eq v split ?_ ?_
  · rw [List.length_take]
    omega
  · rw [List.length_take, List.length_drop]
    omega

/-- The encoder `m` against the unbounded one `e`, `refused` if a length was. -/
structure Agrees (refused : Bool) (m : Marshal) (e : Encoding) : Prop where
  bad : m.bad = (refused || decide (4096 < e.bytes.length))
  same : m.bad = false → m.buf = e.bytes ∧ m.fend = e.fend
  room : m.buf.length ≤ 4096
  head : 16 ≤ m.buf.length
  long : 16 ≤ e.bytes.length

namespace Agrees
variable {refused refused' : Bool} {m m' : Marshal} {e : Encoding}

theorem begin (mtype flags serial : Int) :
    Agrees false (dbusMarshalBegin mtype flags serial)
    { bytes := beginBytes mtype flags serial } := by
  have hl : (beginBytes mtype flags serial).length = 16 := rfl
  rw [begin_eq]
  refine ⟨rfl, fun _ => ⟨rfl, rfl⟩, ?_, ?_, ?_⟩
  · exact hl.trans_le (by decide)
  · exact hl.ge
  · exact hl.ge

/-- A writer appends the same bytes to both. -/
theorem append (h : Agrees refused m e) (piece : Nat → Bytes)
    (hw : Writes refused' m m' (piece m.buf.length)) : Agrees (refused || refused') m'
    { e with bytes := e.bytes ++ piece e.bytes.length } where
  bad := by
    rw [hw.bad, List.length_append]
    cases hb : m.bad with
    | true =>
      have e' := h.bad
      rw [hb] at e'
      simp only [Bool.true_eq, Bool.or_eq_true, decide_eq_true_eq] at e'
      rw [Bool.true_or, Bool.true_or, eq_comm]
      simp only [Bool.or_eq_true, decide_eq_true_eq]
      rcases e' with e' | e'
      · exact .inl (.inl e')
      · exact .inr (by omega)
    | false =>
      have e' := h.bad
      rw [hb] at e'
      simp only [Bool.false_eq, Bool.or_eq_false_iff] at e'
      rw [(h.same hb).1, e'.1]
  same hb := by
    obtain ⟨hb', -, -, -⟩ := hw.good hb
    obtain ⟨hbuf, hfend⟩ := h.same hb'
    rw [hw.same hb, hbuf]
    exact ⟨rfl, hfend⟩
  room := hw.room
  head := h.head.trans hw.grows
  long := by
    rw [List.length_append]
    exact h.long.trans (Nat.le_add_right _ _)

/-- A word of the header is filled in, in both. -/
theorem fill (h : Agrees refused m e) (i fend fend' : Nat) (v v' : Int) (hi : i + 4 ≤ 16)
    (hv : m.bad = false → v = v' ∧ fend = fend') :
    Agrees refused (dbmBackfill { m with fend := fend } i v) ⟨patch e.bytes i v', fend'⟩ := by
  have hl := backfill_length { m with fend := fend } i v
  refine ⟨?_, fun hb => ?_, hl.trans_le h.room, h.head.trans_eq hl.symm, ?_⟩
  · rw [patch_length v' (hi.trans h.long)]
    exact h.bad
  · obtain ⟨rfl, rfl⟩ := hv hb
    rw [backfill_patch (m := { m with fend := fend }) v (hi.trans h.head)]
    exact ⟨congrArg (patch · i v) (h.same hb).1, rfl⟩
  · rw [patch_length v' (hi.trans h.long)]
    exact h.long

end Agrees

namespace MarshalOp

/-- The operations that only append are writers of their piece. -/
theorem run_writes {op : MarshalOp} {m : Marshal} (hm : m.buf.length ≤ 4096)
    (hw : m.bad = false → op.wraps m.buf.length = false) (ha : op ≠ endFields ∧ op ≠ finish) :
    Writes op.refused m (op.run m) (op.piece m.buf.length) := by
  have inWord {at_ : Nat} (ht : op.text m.buf.length = some at_) (hb : m.bad = false)
    (hl : at_ ≤ 4096) :
      (at_ : Int) + op.length < 9223372036854775808 := by
    have inside :
      (decide (at_ ≤ 4096) && decide (9223372036854775808 ≤ (at_ : Int) + op.length)) = false := by
      have := hw hb
      rwa [wraps, ht] at this
    simp only [Bool.and_eq_false_iff, decide_eq_false_iff_not] at inside
    omega
  cases op with
  | fieldStr code sigch str len =>
    exact fieldStr_writes hm code sigch str fun hb hl => inWord rfl hb hl
  | fieldU32 code val => exact fieldU32_writes hm code val
  | fieldSig code sig len => exact fieldSig_writes hm code sig len
  | endFields => exact absurd rfl ha.1
  | bodyU32 v => exact bodyU32_writes hm v
  | bodyBool v => exact bodyU32_writes hm (if v ≠ 0 then 1 else 0)
  | bodyStr str len => exact bodyStr_writes hm str fun hb hl => inWord rfl hb hl
  | finish => exact absurd rfl ha.2

/-- **One operation keeps the agreement**, unless its text wraps. -/
theorem run_agrees (op : MarshalOp) {refused : Bool} {m : Marshal} {e : Encoding}
    (h : Agrees refused m e) (hw : m.bad = false → op.wraps e.bytes.length = false) :
    Agrees (refused || op.refused) (op.run m) (op.encode e) := by
  have same : m.bad = false → m.buf.length = e.bytes.length := fun hb => by rw [(h.same hb).1]
  by_cases he : op = endFields
  · subst he
    have filled := h.fill 12 m.buf.length e.bytes.length ((m.buf.length : Int) - 16)
      ((e.bytes.length : Int) - 16) (by decide) fun hb =>
      ⟨congrArg (fun n : Nat => (n : Int) - 16) (same hb), same hb⟩
    have pad := dbmPadTo_writes filled.room (show 0 < 8 by decide) (Nat.le_refl 8)
    have both := filled.append (fun n => padBytes n 8) pad
    rw [patch_length _ (by have := h.long; omega)] at both
    exact both
  by_cases hf : op = finish
  · subst hf
    have filled := h.fill 4 m.fend e.fend
      (if (m.buf.length : Int) - align m.fend 8 < 0 then 0 else (m.buf.length : Int) - align m.fend
      8) (max 0 ((e.bytes.length : Int) - align e.fend 8)) (by decide) fun hb => by
        rw [same hb, (h.same hb).2]
        refine ⟨?_, rfl⟩
        split <;> omega
    have enc :
      finish.encode
      e = ⟨patch e.bytes 4 (max 0 ((e.bytes.length : Int) - align e.fend 8)), e.fend⟩ := by
      simp only [encode, backfill, piece, List.append_nil]
    rw [enc, show (refused || finish.refused) = refused from Bool.or_false refused]
    exact filled
  · have appended := h.append op.piece (run_writes h.room (fun hb => same hb ▸ hw hb) ⟨he, hf⟩)
    cases op with
    | endFields => exact absurd rfl he
    | finish => exact absurd rfl hf
    | _ => exact appended

/-- An operation moves the cursor forward, or leaves it where it is when the message is poisoned. -/
theorem run_cursor (op : MarshalOp) {m : Marshal} (hm : m.buf.length ≤ 4096)
    (hw : m.bad = false → op.wraps m.buf.length = false) : m.buf.length ≤ (op.run m).buf.length ∧
      (m.bad = true → (op.run m).bad = true ∧ (op.run m).buf.length = m.buf.length) := by
  by_cases he : op = endFields
  · subst he
    have hl := backfill_length { m with fend := m.buf.length } 12 ((m.buf.length : Int) - 16)
    have pad := dbmPadTo_writes (hl.trans_le hm) (show 0 < 8 by decide) (Nat.le_refl 8)
    exact ⟨hl.ge.trans pad.grows, fun hb =>
      ⟨(pad.stuck hb).1, (congrArg List.length (pad.stuck hb).2).trans hl⟩⟩
  by_cases hf : op = finish
  · subst hf
    have hl := backfill_length m 4
      (if (m.buf.length : Int) - align m.fend 8 < 0 then 0 else (m.buf.length : Int) - align m.fend
      8)
    exact ⟨hl.ge, fun hb => ⟨hb, hl⟩⟩
  · have writes := run_writes hm hw ⟨he, hf⟩
    exact ⟨writes.grows, fun hb => ⟨(writes.stuck hb).1, congrArg List.length (writes.stuck hb).2⟩⟩

/-- The unbounded encoding never shrinks. -/
theorem encode_grows (op : MarshalOp) {e : Encoding} (h : 16 ≤ e.bytes.length) :
    e.bytes.length ≤ (op.encode e).bytes.length := by
  have filled : (op.backfill e).bytes.length = e.bytes.length := by
    cases op with
    | endFields => exact patch_length _ (by omega)
    | finish => exact patch_length _ (by omega)
    | _ => rfl
  simp only [encode, List.length_append, filled]
  omega

end MarshalOp

/-! ## A text that wraps -/

theorem dbmWrite_grows (m : Marshal) (n : Int) (bs : Bytes) :
    m.buf.length ≤ (dbmWrite m n bs).buf.length := by
  have room : ∀ r, dbmRoom m n = r → r.1.buf = m.buf := by
    intro r hr
    subst hr
    unfold dbmRoom
    split_ifs <;> rfl
  have e := room _ rfl
  unfold dbmWrite
  simp only
  split
  · rw [List.length_append, e]
    exact Nat.le_add_right _ _
  · rw [e]

/-- The room check sees a negative sum, and the text goes past the end of the buffer. -/
theorem Writes.text_outside {m m' : Marshal} {bs : Bytes} (h : Writes false m m' bs)
    (hb : m.bad = false) (hl : m.buf.length + bs.length ≤ 4096) (p : Bytes) {n : Int}
    (hn : 9223372036854775808 ≤ ((m.buf.length + bs.length : Nat) : Int) + n)
    (hn' : n < 9223372036854775808) : 4096 < (dbmU8 (dbmBytes m' p n) 0).buf.length := by
  have hb' : m'.bad = false := by
    have short : ¬ 4096 < m.buf.length + bs.length := by omega
    rw [h.bad, hb]
    simp [short]
  obtain ⟨-, -, -, e⟩ := h.good hb'
  have hlen : m'.buf.length = m.buf.length + bs.length := by rw [e, List.length_append]
  have hpos : ¬ n < 0 := by omega
  have hat : ¬ int64 m'.buf.length < 0 := by
    rw [int64_eq (by omega) (by omega)]
    omega
  have hsum : ¬ (4096 : Int) < int64 (m'.buf.length + n) := by
    have := int64_neg (v := m'.buf.length + n) (by omega) (by omega)
    omega
  have written : dbmBytes m' p n = { m' with buf := m'.buf ++ loadN p 0 n.toNat } := by
    simp [dbmBytes, dbmWrite, dbmRoom, dbusMarshalCap, hb', hpos, hat, hsum]
  refine lt_of_lt_of_le ?_ (dbmWrite_grows _ _ _)
  rw [written, List.length_append, loadN_length]
  omega

/-- **An operation whose text wraps writes outside the buffer.** -/
theorem MarshalOp.wraps_outside {op : MarshalOp} {m : Marshal} (hm : m.buf.length ≤ 4096)
    (hb : m.bad = false)
    (hw : op.wraps m.buf.length = true) (hl : op.length < 9223372036854775808) :
    4096 < (op.run m).buf.length := by
  have at8 := length_padBytes (n := m.buf.length) (show 0 < 8 by decide)
  have at4 := length_padBytes (n := m.buf.length) (show 0 < 4 by decide)
  cases op with
  | fieldStr code sigch str len =>
    have head := (field_head_writes hm code sigch).pad_four rfl
    simp only [wraps, text, Option.any_some, Bool.and_eq_true, decide_eq_true_eq] at hw
    simp only [length] at hw hl
    refine (head.next (dbmU32_writes head.room len)).text_outside hb ?_ str ?_ hl
    · simp only [List.length_append, List.length_cons, List.length_nil, le32_length]
      omega
    · simp only [List.length_append, List.length_cons, List.length_nil, le32_length]
      omega
  | bodyStr str len =>
    have pad := dbmPadTo_writes hm (show 0 < 4 by decide) (show 4 ≤ 8 by decide)
    simp only [wraps, text, Option.any_some, Bool.and_eq_true, decide_eq_true_eq] at hw
    simp only [length] at hw hl
    refine (pad.next (dbmU32_writes pad.room len)).text_outside hb ?_ str ?_ hl
    · simp only [List.length_append, le32_length]
      omega
    · simp only [List.length_append, le32_length]
      omega
  | _ => cases hw

/-- What wraps starts inside the buffer, at or after the position it was written at. -/
theorem MarshalOp.wraps_inside {op : MarshalOp} {n : Nat} (h : op.wraps n = true) : n ≤ 4096 := by
  have h8 := le_align n (show 0 < 8 by decide)
  have h4 := le_align n (show 0 < 4 by decide)
  cases op with
  | fieldStr code sigch str len =>
    simp only [wraps, text, Option.any_some, Bool.and_eq_true, decide_eq_true_eq] at h
    omega
  | bodyStr str len =>
    simp only [wraps, text, Option.any_some, Bool.and_eq_true, decide_eq_true_eq] at h
    omega
  | _ => cases h

/-! ## Sequences -/

/-- An operation that an unpoisoned encoder comes to does not wrap, and neither do those after it.
-/
theorem neverWraps_cons {e : Encoding} {op : MarshalOp} {ops : List MarshalOp}
    (h : neverWraps e (op :: ops) = true) :
    op.wraps e.bytes.length = false ∧
    (op.refused = false → neverWraps (op.encode e) ops = true) := by
  simp only [neverWraps, Bool.and_eq_true, Bool.not_eq_true', Bool.or_eq_true] at h
  refine ⟨h.1, fun hr => h.2.resolve_left ?_⟩
  rw [hr]
  decide

/-- Nor does any that comes after operations that refuse nothing. -/
theorem neverWraps_after : ∀ (ops more : List MarshalOp) (e : Encoding),
    neverWraps e (ops ++ more) = true → ops.any MarshalOp.refused = false →
    neverWraps (ops.foldl MarshalOp.encode e) more = true
  | [], _, _, h, _ => h
  | op :: ops, more, e, h, hr => by
    simp only [List.any_cons, Bool.or_eq_false_iff] at hr
    exact neverWraps_after ops more _ ((neverWraps_cons h).2 hr.1) hr.2

theorem neverWraps_left : ∀ (ops more : List MarshalOp) (e : Encoding),
    neverWraps e (ops ++ more) = true → neverWraps e ops = true
  | [], _, _, _ => rfl
  | op :: ops, more, e, h => by
    obtain ⟨hw, hrest⟩ := neverWraps_cons h
    simp only [neverWraps, hw, Bool.not_false, Bool.true_and, Bool.or_eq_true]
    cases hr : op.refused with
    | true => exact .inl rfl
    | false => exact .inr (neverWraps_left ops more _ (hrest hr))

/-- Unpoisoned after an operation: it was so before, and the operation refused nothing. -/
theorem Agrees.unpoisoned {refused : Bool} {m : Marshal} {e : Encoding} {op : MarshalOp}
    (h' : Agrees (refused || op.refused) (op.run m) (op.encode e)) (h : Agrees refused m e)
    (hb : (op.run m).bad = false) : m.bad = false ∧ op.refused = false := by
  have fine := h'.bad
  have grows := op.encode_grows h.long
  rw [hb] at fine
  simp only [Bool.false_eq, Bool.or_eq_false_iff, decide_eq_false_iff_not, Nat.not_lt] at fine
  have short : ¬ 4096 < e.bytes.length := by omega
  refine ⟨?_, fine.1.2⟩
  rw [h.bad, fine.1.1]
  simp [short]

/-- **A sequence keeps the agreement**, by induction on it; no operation an
unpoisoned encoder comes to wraps. -/
theorem run_agrees_all : ∀ (ops : List MarshalOp) {refused : Bool} {m : Marshal} {e : Encoding},
    Agrees refused m e → (m.bad = false → neverWraps e ops = true) →
    Agrees (refused || ops.any MarshalOp.refused) (ops.foldl MarshalOp.run m)
    (ops.foldl MarshalOp.encode e)
  | [], refused, m, e, h, _ => by
    rw [List.any_nil, Bool.or_false]
    exact h
  | op :: ops, refused, m, e, h, hw => by
    have first := op.run_agrees h fun hb => (neverWraps_cons (hw hb)).1
    rw [List.any_cons, ← Bool.or_assoc]
    refine run_agrees_all ops first fun hb => ?_
    exact (neverWraps_cons (hw (first.unpoisoned h hb).1)).2 (first.unpoisoned h hb).2

/-- A sequence moves the cursor forward, or leaves it where it is when the message is poisoned. -/
theorem run_cursor_all : ∀ (ops : List MarshalOp) {refused : Bool} {m : Marshal} {e : Encoding},
    Agrees refused m e →
    (m.bad = false → neverWraps e ops = true) →
    m.buf.length ≤ (ops.foldl MarshalOp.run m).buf.length ∧
      (m.bad = true → (ops.foldl MarshalOp.run m).bad = true ∧
        (ops.foldl MarshalOp.run m).buf.length = m.buf.length)
  | [], _, _, _, _, _ => ⟨Nat.le_refl _, fun hb => ⟨hb, rfl⟩⟩
  | op :: ops, refused, m, e, h, hw => by
    have safe : m.bad = false → op.wraps e.bytes.length = false :=
      fun hb => (neverWraps_cons (hw hb)).1
    have first := op.run_agrees h safe
    obtain ⟨hgrows, hstuck⟩ := op.run_cursor h.room fun hb => (h.same hb).1 ▸ safe hb
    obtain ⟨hgrows', hstuck'⟩ := run_cursor_all ops first fun hb =>
      (neverWraps_cons (hw (first.unpoisoned h hb).1)).2 (first.unpoisoned h hb).2
    refine ⟨hgrows.trans hgrows', fun hb => ?_⟩
    obtain ⟨hb', hl⟩ := hstuck hb
    obtain ⟨hb'', hl'⟩ := hstuck' hb'
    exact ⟨hb'', hl'.trans hl⟩

/-- Where a sequence wraps, it writes outside the buffer. -/
theorem wraps_outside_all : ∀ (ops : List MarshalOp) {m : Marshal} {e : Encoding},
    Agrees false m e → (∀ op ∈ ops, op.length < 9223372036854775808) → neverWraps e ops = false →
    ∃ pre, pre <+: ops ∧ 4096 < (pre.foldl MarshalOp.run m).buf.length
  | [], _, _, _, _, hw => by cases hw
  | op :: ops, m, e, h, hl, hw => by
    cases hwraps : op.wraps e.bytes.length with
    | true =>
      have hin := op.wraps_inside hwraps
      have short : ¬ 4096 < e.bytes.length := by omega
      have hb : m.bad = false := by
        rw [h.bad]
        simp [short]
      refine ⟨[op], List.prefix_append [op] ops, MarshalOp.wraps_outside h.room hb ?_
        (hl op (List.mem_cons_self ..))⟩
      rw [(h.same hb).1]
      exact hwraps
    | false =>
      have first := op.run_agrees h fun _ => hwraps
      simp only [neverWraps, hwraps, Bool.not_false, Bool.true_and, Bool.or_eq_false_iff] at hw
      rw [hw.1] at first
      obtain ⟨pre, hpre, hout⟩ :=
        wraps_outside_all ops first (fun o ho => hl o (List.mem_cons_of_mem _ ho)) hw.2
      exact ⟨op :: pre, List.cons_prefix_cons.mpr ⟨rfl, hpre⟩, hout⟩

/-! ## The encoder is the unbounded one, or poisoned -/

/-- What a sequence of operations after `dbus_marshal_begin` does. -/
structure IdealOrPoisoned (mtype flags serial : Int) (ops : List MarshalOp) : Prop where
  /-- every byte is written inside the buffer, the two lengths inside its first sixteen bytes -/
  inside : ∀ pre, pre <+: ops →
    16 ≤ dbusMarshalLen (marshal mtype flags serial pre) ∧
    dbusMarshalLen (marshal mtype flags serial pre) ≤ 4096
  /-- the cursor never decreases -/
  forward : ∀ pre pre', pre <+: pre' → pre' <+: ops →
    dbusMarshalLen (marshal mtype flags serial pre) ≤ dbusMarshalLen
    (marshal mtype flags serial pre')
  /-- a poisoned message stays poisoned, and the cursor where it is -/
  sticky : ∀ pre pre', pre <+: pre' → pre' <+: ops → (marshal mtype flags serial pre).bad = true →
    (marshal mtype flags serial pre').bad = true ∧
      dbusMarshalLen (marshal mtype flags serial pre') = dbusMarshalLen
      (marshal mtype flags serial pre)
  /-- it is poisoned exactly when a length is refused or the unbounded encoding is too long -/
  exact : (marshal mtype flags serial ops).bad = false ↔
    (∀ op ∈ ops, op.refused = false) ∧ (reference mtype flags serial ops).bytes.length ≤ 4096
  /-- unpoisoned, it is the unbounded encoding -/
  ideal : (marshal mtype flags serial ops).bad = false →
    (marshal mtype flags serial ops).buf = (reference mtype flags serial ops).bytes

section
variable {mtype flags serial : Int} {ops : List MarshalOp}

/-- The encoder after some operations, against the unbounded one. -/
theorem prefix_agrees (h : neverWraps { bytes := beginBytes mtype flags serial } ops = true)
    {pre : List MarshalOp} (hp : pre <+: ops) :
    Agrees (pre.any MarshalOp.refused) (marshal mtype flags serial pre)
      (reference mtype flags serial pre) := by
  obtain ⟨more, rfl⟩ := hp
  exact run_agrees_all pre (Agrees.begin mtype flags serial) fun _ => neverWraps_left pre more _ h

theorem prefix_cursor (h : neverWraps { bytes := beginBytes mtype flags serial } ops = true)
    {pre pre' : List MarshalOp} (hp : pre <+: pre') (hp' : pre' <+: ops) :
    (marshal mtype flags serial pre).buf.length ≤ (marshal mtype flags serial pre').buf.length ∧
      ((marshal mtype flags serial pre).bad = true → (marshal mtype flags serial pre').bad = true ∧
        (marshal mtype flags serial pre').buf.length = (marshal mtype flags serial pre).buf.length)
        := by
  have agrees := prefix_agrees h (hp.trans hp')
  obtain ⟨more, rfl⟩ := hp
  obtain ⟨more', rfl⟩ := hp'
  have whole : marshal mtype flags serial (pre ++ more) = more.foldl MarshalOp.run
    (marshal mtype flags serial pre) :=
    List.foldl_append
  rw [whole]
  refine run_cursor_all more agrees fun hb => ?_
  have fine := agrees.bad
  rw [hb] at fine
  simp only [Bool.false_eq, Bool.or_eq_false_iff] at fine
  exact neverWraps_after pre more _ (neverWraps_left (pre ++ more) more' _ h) fine.1

theorem idealOrPoisoned_of_neverWraps
    (h : neverWraps { bytes := beginBytes mtype flags serial } ops = true) :
    IdealOrPoisoned mtype flags serial ops := by
  have agrees := prefix_agrees h (List.prefix_refl ops)
  refine ⟨fun pre hp => ⟨(prefix_agrees h hp).head, (prefix_agrees h hp).room⟩,
    fun pre pre' hp hp' => (prefix_cursor h hp hp').1, fun pre pre' hp hp' =>
    (prefix_cursor h hp hp').2, ?_,
    fun hb => (agrees.same hb).1⟩
  rw [agrees.bad, Bool.or_eq_false_iff, List.any_eq_false, decide_eq_false_iff_not, Nat.not_lt]
  simp only [Bool.not_eq_true]

/-- A sequence that wraps writes outside the buffer. -/
theorem not_idealOrPoisoned (hl : ∀ op ∈ ops, op.length < 9223372036854775808)
    (h : neverWraps { bytes := beginBytes mtype flags serial } ops = false) :
    ¬ IdealOrPoisoned mtype flags serial ops := by
  intro ideal
  obtain ⟨pre, hp, hout⟩ := wraps_outside_all ops (Agrees.begin mtype flags serial) hl h
  have hin := (ideal.inside pre hp).2
  exact absurd hout (Nat.not_lt.mpr hin)

end

/-- **The encoder is the unbounded encoder or it is poisoned**, for operations
whose lengths are 64-bit words, exactly when no text that it comes to wraps. -/
theorem encoder_ideal_iff (mtype flags serial : Int) (ops : List MarshalOp)
    (hl : ∀ op ∈ ops, -9223372036854775808 ≤ op.length ∧ op.length < 9223372036854775808) :
    IdealOrPoisoned mtype flags serial ops ↔ neverWraps { bytes := beginBytes mtype flags serial }
    ops = true := by
  constructor
  · intro ideal
    cases h : neverWraps { bytes := beginBytes mtype flags serial } ops with
    | true => rfl
    | false => exact absurd ideal (not_idealOrPoisoned (fun op ho => (hl op ho).2) h)
  · exact idealOrPoisoned_of_neverWraps

/-- A field, a body and a length above the buffer, none of which wraps. -/
theorem encoder_ideal_iff_three :
    IdealOrPoisoned 1 0 7 [.fieldStr 1 111 (lit "/") 1, .endFields, .bodyStr [] 100000] :=
  (encoder_ideal_iff 1 0 7 [.fieldStr 1 111 (lit "/") 1, .endFields, .bodyStr [] 100000]
    (by decide)).mpr (by decide +kernel)

/-- The largest length a word holds, given for a path of one byte. -/
theorem largest_length_escapes :
    ¬ IdealOrPoisoned 1 0 7 [.fieldStr 1 111 (lit "/") 9223372036854775807] :=
  not_idealOrPoisoned (by decide) (by decide +kernel)

end Samvada
