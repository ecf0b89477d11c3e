import Samvada.Marshal
import Samvada.Unmarshal

/- What the encoder writes. A writer that leaves the message unpoisoned has
   appended bytes that depend on the arguments and the length so far only
   (`Writes`); the pieces add up to `messageBytes`. Header fields and body
   values are types whose values the format allows, so a field list is a list
   of well-typed fields by construction. -/
namespace Samvada
open Octets

/-- The padding at `n` to a multiple of `a`. -/
def padBytes (n a : Nat) : Bytes := List.replicate (align n a - n) 0

theorem padBytes_length (n a : Nat) : (padBytes n a).length = align n a - n := List.length_replicate

theorem length_padBytes {n a : Nat} (h : 0 < a) : n + (padBytes n a).length = align n a := by
  have := le_align n h
  rw [padBytes_length]
  omega

theorem padBytes_four {n : Nat} (h : n % 4 = 0) : padBytes n 4 = [] := by
  have e : align n 4 - n = 0 := by
    rw [align4_eq]
    omega
  rw [padBytes, e]
  rfl

/-- Padding never takes a whole `a`. -/
theorem align_sub_lt {n a : Nat} (h : 0 < a) : align n a - n < a := by
  have hm := Nat.div_add_mod (n + a - 1) a
  have hl := Nat.mod_lt (n + a - 1) h
  have e : align n a = a * ((n + a - 1) / a) := Nat.mul_comm _ _
  omega

/-! ## Writers -/

/-- `m'` is `m` after a writer of `bs`: poisoned if it was, if the writer refuses
its arguments or if the bytes do not fit; otherwise `bs` is appended. -/
structure Writes (refused : Bool) (m m' : Marshal) (bs : Bytes) : Prop where
  bad : m'.bad = (m.bad || refused || decide (4096 < m.buf.length + bs.length))
  same : m'.bad = false → m' = { m with buf := m.buf ++ bs }
  stuck : m.bad = true → m'.bad = true ∧ m'.buf = m.buf
  grows : m.buf.length ≤ m'.buf.length
  room : m'.buf.length ≤ 4096

namespace Writes
variable {refused refused' : Bool} {m m' m'' : Marshal} {bs cs cs' : Bytes}

theorem refl (h : m.buf.length ≤ 4096) : Writes false m m [] where
  bad := by
    have short : ¬ 4096 < m.buf.length := by omega
    simp [short]
  same _ := by rw [List.append_nil]
  stuck hb := ⟨hb, rfl⟩
  grows := Nat.le_refl _
  room := h

/-- A message that is not poisoned was not, and refused nothing. -/
theorem good (h : Writes refused m m' bs) (hb : m'.bad = false) :
    m.bad = false ∧ refused = false ∧ m.buf.length + bs.length ≤ 4096 ∧ m'.buf = m.buf ++ bs := by
  have e := h.bad
  rw [hb] at e
  simp only [Bool.false_eq, Bool.or_eq_false_iff, decide_eq_false_iff_not, Nat.not_lt] at e
  exact ⟨e.1.1, e.1.2, e.2, by rw [h.same hb]⟩

/-- One writer after another; what the second writes matters only if the first succeeded. -/
theorem trans (h : Writes refused m m' bs) (h' : Writes refused' m' m'' cs')
    (hc : m'.bad = false → cs' = cs) : Writes (refused || refused') m m'' (bs ++ cs) where
  bad := by
    rw [h'.bad]
    cases hb : m'.bad with
    | true =>
      have e := h.bad
      rw [hb] at e
      simp only [Bool.true_eq, Bool.or_eq_true, decide_eq_true_eq] at e
      rw [eq_comm, Bool.true_or, Bool.true_or]
      simp only [Bool.or_eq_true, decide_eq_true_eq, List.length_append]
      rcases e with (e | e) | e
      · exact .inl (.inl e)
      · exact .inl (.inr (.inl e))
      · exact .inr (by omega)
    | false =>
      obtain ⟨hm, hr, -, e⟩ := h.good hb
      rw [hc hb, hm, hr, e, List.length_append, List.length_append, Nat.add_assoc]
      rfl
  same hb := by
    obtain ⟨hb', -, -, -⟩ := h'.good hb
    rw [h'.same hb, h.same hb', hc hb', List.append_assoc]
  stuck hb := by
    obtain ⟨hb', e⟩ := h.stuck hb
    obtain ⟨hb'', e'⟩ := h'.stuck hb'
    exact ⟨hb'', e'.trans e⟩
  grows := h.grows.trans h'.grows
  room := h'.room

theorem congr (h : Writes refused m m' bs) (e : bs = cs) : Writes refused m m' cs := e ▸ h

/-- A writer of fixed bytes after one that appended them. -/
theorem next (h : Writes refused m m' bs) (h' : Writes false m' m'' cs) :
    Writes refused m m'' (bs ++ cs) := by
  have := h.trans h' fun _ => rfl
  rwa [Bool.or_false] at this

end Writes

theorem dbmWrite_writes {m : Marshal} (hm : m.buf.length ≤ 4096) {n : Int} (bs : Bytes)
    (hn : m.bad = false → m.buf.length + n < 9223372036854775808)
    (h : 0 ≤ n → (bs.length : Int) = n) : Writes (decide (n < 0)) m (dbmWrite m n bs) bs := by
  by_cases h1 : m.bad = true
  · have e : dbmWrite m n bs = m := by simp [dbmWrite, dbmRoom, h1]
    rw [e]
    exact ⟨by simp [h1], fun hb => by simp [h1] at hb, fun hb => ⟨hb, rfl⟩, Nat.le_refl _, hm⟩
  have h1' : m.bad = false := Bool.eq_false_iff.mpr h1
  by_cases h2 : n < 0
  · have e : dbmWrite m n bs = { m with bad := true } := by simp [dbmWrite, dbmRoom, h1', h2]
    rw [e]
    exact ⟨by simp [h2], fun hb => by simp at hb, fun hb => absurd hb h1, Nat.le_refl _, hm⟩
  have hn := hn h1'
  have hat : ¬ int64 m.buf.length < 0 := by
    rw [int64_eq (by omega) (by omega)]
    omega
  have hsum : int64 (m.buf.length + n) = m.buf.length + n := int64_eq (by omega) (by omega)
  have hlen := h (by omega)
  by_cases h3 : (4096 : Int) < m.buf.length + n
  · have e : dbmWrite m n bs = { m with bad := true } := by
      simp [dbmWrite, dbmRoom, dbusMarshalCap, h1', h2, hat, hsum, h3]
    rw [e]
    refine ⟨?_, fun hb => by simp at hb, fun hb => absurd hb h1, Nat.le_refl _, hm⟩
    have h4 : 4096 < m.buf.length + bs.length := by omega
    simp [h4]
  · have e : dbmWrite m n bs = { m with buf := m.buf ++ bs } := by
      simp [dbmWrite, dbmRoom, dbusMarshalCap, h1', h2, hat, hsum, h3]
    have h4 : ¬ 4096 < m.buf.length + bs.length := by omega
    rw [e]
    refine ⟨by simp [h1', h2, h4], fun _ => rfl, fun hb => absurd hb h1, ?_, ?_⟩
    · rw [List.length_append]
      omega
    · rw [List.length_append]
      omega

theorem dbmPadTo_writes {m : Marshal} (hm : m.buf.length ≤ 4096) {a : Nat}
    (h0 : 0 < a) (ha : a ≤ 8) : Writes false m (dbmPadTo m a) (padBytes m.buf.length a) := by
  have hl := le_align m.buf.length h0
  have hp := align_sub_lt (n := m.buf.length) h0
  have neg : decide (((align m.buf.length a - m.buf.length : Nat) : Int) < 0) = false := by
    rw [decide_eq_false_iff_not]
    omega
  have h := dbmWrite_writes hm (n := (align m.buf.length a - m.buf.length : Nat))
    (padBytes m.buf.length a) (fun _ => by omega) fun _ => by rw [padBytes_length]
  rw [neg] at h
  exact h

theorem dbmU8_writes {m : Marshal} (hm : m.buf.length ≤ 4096) (v : Int) :
    Writes false m (dbmU8 m v) [low8 v] := by
  have h := dbmWrite_writes hm (n := 1) [low8 v] (fun _ => by omega) fun _ => rfl
  exact h

theorem dbmU32_writes {m : Marshal} (hm : m.buf.length ≤ 4096) (v : Int) :
    Writes false m (dbmU32 m v) (le32 v) := by
  have h := dbmWrite_writes hm (n := 4) (le32 v) (fun _ => by omega) fun _ => rfl
  exact h

theorem dbmBytes_writes {m : Marshal} (hm : m.buf.length ≤ 4096) (p : Bytes) {n : Int}
    (hn : m.bad = false → m.buf.length + n < 9223372036854775808) :
    Writes (decide (n < 0)) m (dbmBytes m p n) (loadN p 0 n.toNat) :=
  dbmWrite_writes hm (loadN p 0 n.toNat) hn fun h0 => by
    rw [loadN_length]
    omega

/-- A header field's bytes: the padding, the code, the signature, the value. -/
def fieldBytes (n : Nat) (code sig : Int) (value : Bytes) : Bytes :=
  padBytes n 8 ++ ([low8 code, 1, low8 sig, 0] ++ value)

/-- A field's first four bytes. -/
theorem field_head_writes {m : Marshal} (hm : m.buf.length ≤ 4096) (code sig : Int) :
    Writes false m (dbmU8 (dbmU8 (dbmU8 (dbmU8 (dbmPadTo m 8) code) 1) sig) 0)
      (padBytes m.buf.length 8 ++ [low8 code, 1, low8 sig, 0]) := by
  have pad := dbmPadTo_writes hm (show 0 < 8 by decide) (Nat.le_refl 8)
  have h1 := pad.next (dbmU8_writes pad.room code)
  have h2 := h1.next (dbmU8_writes h1.room 1)
  have h3 := h2.next (dbmU8_writes h2.room sig)
  refine (h3.next (dbmU8_writes h3.room 0)).congr ?_
  simp only [List.append_assoc, List.cons_append, List.nil_append]
  rfl

/-- After a field's head the position is a multiple of four: no padding. -/
theorem Writes.pad_four {refused : Bool} {m m' : Marshal} {v : Bytes}
    (h : Writes refused m m' (padBytes m.buf.length 8 ++ v)) (hv : v.length = 4) :
    Writes refused m (dbmPadTo m' 4) (padBytes m.buf.length 8 ++ v) := by
  have pad := dbmPadTo_writes h.room (show 0 < 4 by decide) (show 4 ≤ 8 by decide)
  have none : m'.bad = false → padBytes m'.buf.length 4 = [] := by
    intro hb
    obtain ⟨-, -, -, e⟩ := h.good hb
    apply padBytes_four
    have hp := length_padBytes (n := m.buf.length) (show 0 < 8 by decide)
    rw [align8_eq] at hp
    rw [e, List.length_append, List.length_append]
    omega
  have both := h.trans pad none
  rw [Bool.or_false, List.append_nil] at both
  exact both

/-- A text and its NUL, after `bs`. -/
theorem Writes.text {m m' : Marshal} {bs : Bytes} (h : Writes false m m' bs) (p : Bytes) {n : Int}
    (hn : m.bad = false → m.buf.length + bs.length ≤ 4096 →
      ((m.buf.length + bs.length : Nat) : Int) + n < 9223372036854775808) :
    Writes (decide (n < 0)) m (dbmU8 (dbmBytes m' p n) 0) (bs ++ (loadN p 0 n.toNat ++ [0])) := by
  have room : m'.bad = false → m'.buf.length + n < 9223372036854775808 := by
    intro hb
    obtain ⟨hb', -, hl, e⟩ := h.good hb
    have := hn hb' hl
    rw [e, List.length_append]
    exact this
  have h1 := h.trans (dbmBytes_writes h.room p room) fun _ => rfl
  refine (h1.next (dbmU8_writes h1.room 0)).congr ?_
  simp only [List.append_assoc]
  rfl

/-- A string field; its text starts eight bytes after the field does. -/
theorem fieldStr_writes {m : Marshal} (hm : m.buf.length ≤ 4096) (code sigch : Int)
    (str : Bytes) {n : Int} (hn : m.bad = false → align m.buf.length 8 + 8 ≤ 4096 →
      ((align m.buf.length 8 + 8 : Nat) : Int) + n < 9223372036854775808) :
    Writes (decide (n < 0)) m (dbusMarshalFieldStr m code sigch str n)
      (fieldBytes m.buf.length code sigch (le32 n ++ (loadN str 0 n.toNat ++ [0]))) := by
  have head := (field_head_writes hm code sigch).pad_four rfl
  have hp := length_padBytes (n := m.buf.length) (show 0 < 8 by decide)
  refine ((head.next (dbmU32_writes head.room n)).text str fun hb => ?_).congr ?_
  · have := hn hb
    simp only [List.length_append, List.length_cons, List.length_nil, le32_length]
    intro hl
    have := this (by omega)
    omega
  · simp only [fieldBytes, List.append_assoc]

theorem fieldU32_writes {m : Marshal} (hm : m.buf.length ≤ 4096) (code val : Int) :
    Writes false m (dbusMarshalFieldU32 m code val)
    (fieldBytes m.buf.length code 117 (le32 val)) := by
  have head := (field_head_writes hm code 117).pad_four rfl
  refine (head.next (dbmU32_writes head.room val)).congr ?_
  simp only [fieldBytes, List.append_assoc]

/-- A signature's writer refuses a length above 255 before it writes anything. -/
theorem fieldSig_writes {m : Marshal} (hm : m.buf.length ≤ 4096) (code : Int)
    (sig : Bytes) (len : Int) : Writes (decide (len < 0 ∨ 255 < len)) m
    (dbusMarshalFieldSig m code sig len)
      (fieldBytes m.buf.length code 103 (low8 len :: (loadN sig 0 len.toNat ++ [0]))) := by
  by_cases hl : 255 < len
  · have e : dbusMarshalFieldSig m code sig len = { m with bad := true } := by
      simp [dbusMarshalFieldSig, hl]
    rw [e]
    exact ⟨by simp [hl], fun hb => by simp at hb, fun _ => ⟨rfl, rfl⟩, Nat.le_refl _, hm⟩
  · have head := field_head_writes hm code 103
    have hp := length_padBytes (n := m.buf.length) (show 0 < 8 by decide)
    have h := (head.next (dbmU8_writes head.room len)).text sig (n := len) fun _ _ => by
      have := align_sub_lt (n := m.buf.length) (show 0 < 8 by decide)
      simp only [List.length_append, List.length_cons, List.length_nil]
      omega
    have er : decide (len < 0 ∨ 255 < len) = decide (len < 0) := by simp [hl]
    unfold dbusMarshalFieldSig
    rw [if_neg hl, er]
    refine h.congr ?_
    simp only [fieldBytes, List.append_assoc, List.cons_append, List.nil_append]

theorem bodyU32_writes {m : Marshal} (hm : m.buf.length ≤ 4096) (v : Int) :
    Writes false m (dbusMarshalBodyU32 m v) (padBytes m.buf.length 4 ++ le32 v) := by
  have pad := dbmPadTo_writes hm (show 0 < 4 by decide) (show 4 ≤ 8 by decide)
  exact pad.next (dbmU32_writes pad.room v)

theorem bodyStr_writes {m : Marshal} (hm : m.buf.length ≤ 4096) (str : Bytes) {n : Int}
    (hn : m.bad = false → align m.buf.length 4 + 4 ≤ 4096 →
      ((align m.buf.length 4 + 4 : Nat) : Int) + n < 9223372036854775808) :
    Writes (decide (n < 0)) m (dbusMarshalBodyStr m str n)
      (padBytes m.buf.length 4 ++ (le32 n ++ (loadN str 0 n.toNat ++ [0]))) := by
  have pad := dbmPadTo_writes hm (show 0 < 4 by decide) (show 4 ≤ 8 by decide)
  have hp := length_padBytes (n := m.buf.length) (show 0 < 4 by decide)
  refine ((pad.next (dbmU32_writes pad.room n)).text str fun hb => ?_).congr ?_
  · have := hn hb
    simp only [List.length_append, le32_length]
    intro hl
    have := this (by omega)
    omega
  · simp only [List.append_assoc]

/-! ## Whole messages -/

/-- A header field of a defined code, its value of the type the format gives it. -/
inductive HeaderField where
  | path (s : Bytes) (ok : dbusUnmarshalPathOk s s.length = true) (hm : s.length < memMax)
  | text (code : Nat) (s : Bytes) (hc : code ∈ [2, 3, 4, 6, 7]) (h : ∀ b ∈ s, b ≠ 0)
      (hm : s.length < memMax)
  | signature (s : Bytes) (h : ∀ b ∈ s, b ≠ 0) (hl : s.length ≤ 255)
  | word (code : Nat) (v : UInt32) (hc : code ∈ [5, 9])

namespace HeaderField

def code : HeaderField → Nat
  | path _ _ _ => 1
  | text c _ _ _ _ => c
  | signature _ _ _ => 8
  | word c _ _ => c

def sig : HeaderField → Nat
  | path _ _ _ => 111
  | text _ _ _ _ _ => 115
  | signature _ _ _ => 103
  | word _ _ _ => 117

/-- The value on the wire. -/
def value : HeaderField → Bytes
  | path s _ _ => le32 s.length ++ (s ++ [0])
  | text _ s _ _ _ => le32 s.length ++ (s ++ [0])
  | signature s _ _ => low8 s.length :: (s ++ [0])
  | word _ v _ => le32 v.toNat

def write (m : Marshal) : HeaderField → Marshal
  | path s _ _ => dbusMarshalFieldStr m dbusMarshalFPath 111 s s.length
  | text c s _ _ _ => dbusMarshalFieldStr m c 115 s s.length
  | signature s _ _ => dbusMarshalFieldSig m dbusMarshalFSignature s s.length
  | word c v _ => dbusMarshalFieldU32 m c v.toNat

def bytes (f : HeaderField) (n : Nat) : Bytes := fieldBytes n f.code f.sig f.value

end HeaderField

theorem length_not_neg (s : Bytes) : decide ((s.length : Int) < 0) = false := by
  rw [decide_eq_false_iff_not]
  omega

/-- A string in memory does not wrap a position inside the buffer. -/
theorem length_in_word {n a : Nat} (hn : n ≤ 4096) (h0 : 0 < a) (ha : a ≤ 8) {s : Bytes}
    (hs : s.length < memMax) : ((align n a + a : Nat) : Int) + s.length < 9223372036854775808 := by
  have := align_sub_lt (n := n) h0
  unfold memMax at hs
  omega

theorem HeaderField.write_writes (f : HeaderField) {m : Marshal} (hl : m.buf.length ≤ 4096) :
    Writes false m (f.write m) (f.bytes m.buf.length) := by
  cases f with
  | path s ok hm =>
    have h := fieldStr_writes hl 1 111 s fun _ _ => length_in_word hl (by decide) (by decide) hm
    rw [length_not_neg, Int.toNat_natCast, loadN_self] at h
    exact h
  | text c s hc h hm =>
    have h := fieldStr_writes hl c 115 s fun _ _ => length_in_word hl (by decide) (by decide) hm
    rw [length_not_neg, Int.toNat_natCast, loadN_self] at h
    exact h
  | signature s h hs =>
    have short : decide ((s.length : Int) < 0 ∨ 255 < (s.length : Int)) = false := by
      rw [decide_eq_false_iff_not]
      omega
    have h := fieldSig_writes hl 8 s s.length
    rw [short, Int.toNat_natCast, loadN_self] at h
    exact h
  | word c v hc => exact fieldU32_writes hl c v.toNat

/-- A body value: a word, a boolean (any number, written as 0 or 1), a string. -/
inductive BodyValue where
  | word (v : UInt32)
  | bool (v : Int)
  | text (s : Bytes) (hm : s.length < memMax)

namespace BodyValue

def value : BodyValue → Bytes
  | word v => le32 v.toNat
  | bool v => le32 (if v ≠ 0 then 1 else 0)
  | text s _ => le32 s.length ++ (s ++ [0])

def write (m : Marshal) : BodyValue → Marshal
  | word v => dbusMarshalBodyU32 m v.toNat
  | bool v => dbusMarshalBodyBool m v
  | text s _ => dbusMarshalBodyStr m s s.length

def bytes (v : BodyValue) (n : Nat) : Bytes := padBytes n 4 ++ v.value

end BodyValue

theorem BodyValue.write_writes (v : BodyValue) {m : Marshal} (hl : m.buf.length ≤ 4096) :
    Writes false m (v.write m) (v.bytes m.buf.length) := by
  cases v with
  | word v => exact bodyU32_writes hl v.toNat
  | bool v => exact bodyU32_writes hl (if v ≠ 0 then 1 else 0)
  | text s hm =>
    have h := bodyStr_writes hl s fun _ _ => length_in_word hl (by decide) (by decide) hm
    rw [length_not_neg, Int.toNat_natCast, loadN_self] at h
    exact h

/-- The pieces of a list written one after the other from position `n`. -/
def layout {α : Type} (piece : α → Nat → Bytes) : Nat → List α → Bytes
  | _, [] => []
  | n, x :: xs => piece x n ++ layout piece (n + (piece x n).length) xs

theorem foldl_writes {α : Type} {write : Marshal → α → Marshal} {piece : α → Nat → Bytes}
    (h : ∀ x {m : Marshal}, m.buf.length ≤ 4096 → Writes false m (write m x) (piece x m.buf.length))
    (xs : List α) :
    ∀ {m : Marshal}, m.buf.length ≤ 4096 → Writes false m (xs.foldl write m)
    (layout piece m.buf.length xs) := by
  induction xs with
  | nil => exact Writes.refl
  | cons x xs ih =>
    intro m hm
    have first := h x hm
    refine first.trans (ih first.room) fun hb => ?_
    obtain ⟨-, -, -, e⟩ := first.good hb
    rw [e, List.length_append]

def fieldsBytes (fields : List HeaderField) : Bytes := layout (fun f => f.bytes) 16 fields

def bodyBytes (fields : List HeaderField) (body : List BodyValue) : Bytes :=
  layout (fun v => v.bytes) (align (16 + (fieldsBytes fields).length) 8) body

/-- A message, before `dbus_marshal_finish`. -/
def dbusMarshalBuild (mtype flags serial : Int) (fields : List HeaderField)
    (body : List BodyValue) : Marshal :=
  body.foldl BodyValue.write
    (dbusMarshalEndFields (fields.foldl HeaderField.write (dbusMarshalBegin mtype flags serial)))

/-- The bytes of a message. -/
def messageBytes (mtype flags serial : Int) (fields : List HeaderField) (body : List BodyValue) :
    Bytes :=
  [108, low8 mtype, low8 flags, 1] ++ (le32 (bodyBytes fields body).length ++ (le32 serial ++
    (le32 (fieldsBytes fields).length ++ (fieldsBytes fields ++
      (padBytes (16 + (fieldsBytes fields).length) 8 ++ bodyBytes fields body)))))

theorem begin_eq (mtype flags serial : Int) : dbusMarshalBegin mtype flags serial =
    { buf := [108, low8 mtype, low8 flags, 1] ++ (le32 0 ++ (le32 serial ++ le32 0)) } := by
  have h0 := Writes.refl (m := {}) (by decide)
  have h1 := h0.next (dbmU8_writes h0.room 108)
  have h2 := h1.next (dbmU8_writes h1.room mtype)
  have h3 := h2.next (dbmU8_writes h2.room flags)
  have h4 := h3.next (dbmU8_writes h3.room 1)
  have h5 := h4.next (dbmU32_writes h4.room 0)
  have h6 := h5.next (dbmU32_writes h5.room serial)
  have h7 := h6.next (dbmU32_writes h6.room 0)
  exact h7.same h7.bad

theorem begin_length (mtype flags serial : Int) :
    (dbusMarshalBegin mtype flags serial).buf.length = 16 := by
  rw [begin_eq]
  rfl

theorem backfill_length (m : Marshal) (i : Nat) (v : Int) :
    (dbmBackfill m i v).buf.length = m.buf.length := by
  simp [dbmBackfill]

/-- The field array is closed inside the buffer. -/
theorem endFields_room {m : Marshal} (hm : m.buf.length ≤ 4096) :
    (dbusMarshalEndFields m).buf.length ≤ 4096 := by
  have pad :=
    dbmPadTo_writes
    (m := dbmBackfill { m with fend := m.buf.length } 12 ((m.buf.length : Int) - 16))
    ((backfill_length _ _ _).trans_le hm) (show 0 < 8 by decide) (Nat.le_refl 8)
  exact pad.room

/-- Backfilling overwrites the four bytes at `A.length`. -/
theorem backfill_eq {m : Marshal} {A w C : Bytes} {i : Nat} (v : Int) (h : m.buf = A ++ (w ++ C))
    (hi : A.length = i) (hw : w.length = 4) :
    dbmBackfill m i v = { m with buf := A ++ (le32 v ++ C) } := by
  obtain ⟨a, b, c, d, rfl⟩ : ∃ a b c d, w = [a, b, c, d] := by
    match w, hw with
    | [a, b, c, d], _ => exact ⟨a, b, c, d, rfl⟩
  subst hi
  unfold dbmBackfill
  rw [h]
  simp [le32]

/-- The header's words before the lengths are known. -/
def headBytes (mtype flags : Int) : Bytes := [108, low8 mtype, low8 flags, 1]

theorem fields_end (mtype flags serial : Int) (fields : List HeaderField)
    (h : (dbusMarshalEndFields
    (fields.foldl HeaderField.write (dbusMarshalBegin mtype flags serial))).bad = false) :
    dbusMarshalEndFields (fields.foldl HeaderField.write (dbusMarshalBegin mtype flags serial)) =
      { buf := headBytes mtype flags ++
      (le32 0 ++ (le32 serial ++ (le32 (fieldsBytes fields).length ++
          (fieldsBytes fields ++ padBytes (16 + (fieldsBytes fields).length) 8)))),
        fend := 16 + (fieldsBytes fields).length } ∧
      align (16 + (fieldsBytes fields).length) 8 ≤ 4096 := by
  generalize hm : fields.foldl HeaderField.write (dbusMarshalBegin mtype flags serial) = m at h ⊢
  have h16 := begin_length mtype flags serial
  have written := foldl_writes HeaderField.write_writes fields
    (m := dbusMarshalBegin mtype flags serial) (by omega)
  rw [hm] at written
  have pad :=
    dbmPadTo_writes
    (m := dbmBackfill { m with fend := m.buf.length } 12 ((m.buf.length : Int) - 16))
    ((backfill_length _ _ _).trans_le written.room) (show 0 < 8 by decide) (Nat.le_refl 8)
  obtain ⟨hb1, -⟩ := pad.good h
  obtain ⟨-, -, hl, e2⟩ := written.good hb1
  have hbuf : m.buf = (headBytes mtype flags ++ (le32 0 ++ le32 serial)) ++
    (le32 0 ++ fieldsBytes fields) := by
    rw [e2, begin_length, begin_eq]
    simp only [headBytes, List.append_assoc]
    rfl
  have hlen : m.buf.length = 16 + (fieldsBytes fields).length := by
    rw [hbuf]
    simp only [headBytes, List.length_append, le32_length, List.length_cons, List.length_nil]
    omega
  have hint : (m.buf.length : Int) - 16 = ((fieldsBytes fields).length : Int) := by omega
  have hbad : m.bad = false := hb1
  have back : dbmBackfill { m with fend := m.buf.length } 12 ((m.buf.length : Int) - 16) =
      { buf := (headBytes mtype flags ++ (le32 0 ++ le32 serial)) ++
          (le32 (fieldsBytes fields).length ++ fieldsBytes fields), fend :=
          16 + (fieldsBytes fields).length } := by
    refine (backfill_eq (m := { m with fend := m.buf.length }) (i := 12) ((m.buf.length : Int) - 16)
      hbuf rfl rfl).trans ?_
    rw [hint]
    simp only [hbad, hlen]
  have hX : ((headBytes mtype flags ++ (le32 0 ++ le32 serial)) ++
      (le32 (fieldsBytes fields).length ++ fieldsBytes fields)).length = 16 +
      (fieldsBytes fields).length := by
    simp only [headBytes, List.length_append, le32_length, List.length_cons, List.length_nil]
    omega
  have e3 : dbusMarshalEndFields m =
      dbmPadTo (dbmBackfill { m with fend := m.buf.length } 12 ((m.buf.length : Int) - 16)) 8 := rfl
  rw [back] at pad
  rw [e3, back] at h ⊢
  have e4 := pad.same h
  have hl4 := pad.room
  have hp := length_padBytes (n := 16 + (fieldsBytes fields).length) (show 0 < 8 by decide)
  constructor
  · rw [e4, hX]
    simp only [List.append_assoc]
  · rw [e4, List.length_append, hX] at hl4
    omega

theorem messageBytes_length (mtype flags serial : Int) (fields : List HeaderField)
    (body : List BodyValue) : (messageBytes mtype flags serial fields body).length =
      align (16 + (fieldsBytes fields).length) 8 + (bodyBytes fields body).length := by
  have hp := length_padBytes (n := 16 + (fieldsBytes fields).length) (show 0 < 8 by decide)
  simp only [messageBytes, List.length_append, le32_length, List.length_cons, List.length_nil]
  omega

/-- **The bytes of a message that was not poisoned**, and its length. -/
theorem build_bytes (mtype flags serial : Int) (fields : List HeaderField) (body : List BodyValue)
    (h : (dbusMarshalBuild mtype flags serial fields body).bad = false) :
    dbusMarshalFinish (dbusMarshalBuild mtype flags serial fields body) =
        ((messageBytes mtype flags serial fields body).length,
          { buf := messageBytes mtype flags serial fields body
            fend := 16 + (fieldsBytes fields).length }) ∧
      (dbusMarshalBuild mtype flags serial fields body).buf.length =
        (messageBytes mtype flags serial fields body).length ∧
      (messageBytes mtype flags serial fields body).length ≤ 4096 := by
  have h16 := begin_length mtype flags serial
  have fieldsWritten := foldl_writes HeaderField.write_writes fields
    (m := dbusMarshalBegin mtype flags serial) (by omega)
  have bodyWritten := foldl_writes BodyValue.write_writes body (endFields_room fieldsWritten.room)
  obtain ⟨hb, -, -, -⟩ := bodyWritten.good h
  have e := bodyWritten.same h
  obtain ⟨efin, ha⟩ := fields_end mtype flags serial fields hb
  have hp := length_padBytes (n := 16 + (fieldsBytes fields).length) (show 0 < 8 by decide)
  have hlen :
    (dbusMarshalEndFields
    (fields.foldl HeaderField.write (dbusMarshalBegin mtype flags serial))).buf.length
      = align (16 + (fieldsBytes fields).length) 8 := by
    rw [efin]
    simp only [headBytes, List.length_append, le32_length, List.length_cons, List.length_nil]
    omega
  have ebuild : dbusMarshalBuild mtype flags serial fields body =
      { buf := headBytes mtype flags ++
      (le32 0 ++ (le32 serial ++ (le32 (fieldsBytes fields).length ++
          (fieldsBytes fields ++
          (padBytes (16 + (fieldsBytes fields).length) 8 ++ bodyBytes fields body))))),
        fend := 16 + (fieldsBytes fields).length } := by
    refine Eq.trans e ?_
    rw [hlen, efin]
    simp only [List.append_assoc]
    rfl
  have hmsg := messageBytes_length mtype flags serial fields body
  have hbl : (dbusMarshalBuild mtype flags serial fields body).buf.length =
      (messageBytes mtype flags serial fields body).length := by
    rw [ebuild, hmsg]
    simp only [headBytes, List.length_append, le32_length, List.length_cons, List.length_nil]
    omega
  have hblen : ((dbusMarshalBuild mtype flags serial fields body).buf.length : Int) -
      align (dbusMarshalBuild mtype flags serial fields body).fend
      8 = (bodyBytes fields body).length := by
    rw [hbl, hmsg, ebuild]
    push_cast
    omega
  refine ⟨?_, hbl, ?_⟩
  · have back := backfill_eq (m := dbusMarshalBuild mtype flags serial fields body) (i := 4)
      ((bodyBytes fields body).length : Int) (congrArg Marshal.buf ebuild) rfl rfl
    have hneg : ¬ ((bodyBytes fields body).length : Int) < 0 := by omega
    have hfin : dbusMarshalFinish (dbusMarshalBuild mtype flags serial fields body) =
        ((dbusMarshalBuild mtype flags serial fields body).buf.length,
          dbmBackfill (dbusMarshalBuild mtype flags serial fields body) 4
          (bodyBytes fields body).length) := by
      simp only [dbusMarshalFinish, hblen, hneg, if_false]
    rw [hfin, hbl, back, ebuild]
    rfl
  · have room : (dbusMarshalBuild mtype flags serial fields body).buf.length ≤ 4096 :=
      bodyWritten.room
    omega

/-- A message is poisoned exactly if it does not fit in the buffer. -/
theorem build_bad (mtype flags serial : Int) (fields : List HeaderField) (body : List BodyValue) :
    (dbusMarshalBuild mtype flags serial fields body).bad =
      decide (4096 < (messageBytes mtype flags serial fields body).length) := by
  cases hb : (dbusMarshalBuild mtype flags serial fields body).bad with
  | false =>
    obtain ⟨-, -, fits⟩ := build_bytes mtype flags serial fields body hb
    exact (decide_eq_false (by omega)).symm
  | true =>
    refine (decide_eq_true ?_).symm
    have h16 := begin_length mtype flags serial
    have clean : (dbusMarshalBegin mtype flags serial).bad = false := by rw [begin_eq]
    have fieldsWritten := foldl_writes HeaderField.write_writes fields
      (m := dbusMarshalBegin mtype flags serial) (by omega)
    have bodyWritten := foldl_writes BodyValue.write_writes body (endFields_room fieldsWritten.room)
    have hp := length_padBytes (n := 16 + (fieldsBytes fields).length) (show 0 < 8 by decide)
    have whole := messageBytes_length mtype flags serial fields body
    have beyond := bodyWritten.bad.symm.trans hb
    cases hend :
      (dbusMarshalEndFields
      (fields.foldl HeaderField.write (dbusMarshalBegin mtype flags serial))).bad with
    | false =>
      -- the fields fit and the body does not
      have hlen := congrArg (fun m => m.buf.length) (fields_end mtype flags serial fields hend).1
      simp only [headBytes, List.length_append, le32_length, List.length_cons,
        List.length_nil] at hlen
      have at_ :
        (dbusMarshalEndFields
        (fields.foldl HeaderField.write (dbusMarshalBegin mtype flags serial))).buf.length =
          align (16 + (fieldsBytes fields).length) 8 := by omega
      simp only [hend, at_, Bool.or_self, Bool.false_or, decide_eq_true_eq] at beyond
      rw [whole]
      exact beyond
    | true =>
      generalize hm : fields.foldl HeaderField.write (dbusMarshalBegin mtype flags serial) =
        m at hend fieldsWritten
      have pad :=
        dbmPadTo_writes
        (m := dbmBackfill { m with fend := m.buf.length } 12 ((m.buf.length : Int) - 16))
        ((backfill_length _ _ _).trans_le fieldsWritten.room) (show 0 < 8 by decide) (Nat.le_refl 8)
      have padOver := pad.bad.symm.trans hend
      have fieldsOver := fieldsWritten.bad
      rw [clean, Bool.or_self, Bool.false_or, h16] at fieldsOver
      cases hbad : m.bad with
      | true =>
        have beyond := of_decide_eq_true (fieldsOver.symm.trans hbad)
        have fieldsLen :
          (layout HeaderField.bytes 16 fields).length = (fieldsBytes fields).length := rfl
        omega
      | false =>
        have hbuf : m.buf.length = 16 + (fieldsBytes fields).length := by
          obtain ⟨-, -, -, e⟩ := fieldsWritten.good hbad
          rw [e, List.length_append, h16]
          rfl
        have clean :
          (dbmBackfill { m with fend := m.buf.length } 12 ((m.buf.length : Int) - 16)).bad
          = false := hbad
        rw [clean, Bool.or_self, Bool.false_or, decide_eq_true_eq, backfill_length] at padOver
        simp only [hbuf] at padOver
        omega

end Samvada
