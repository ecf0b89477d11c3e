import Samvada.FieldOrder

/- tools/dbus_decode.py: a second decoder, written from the D-Bus specification
   alone. It reads a message the same wherever it starts in the buffer, whole or
   not, valid or not; so a stream of messages that samvada's validator accepts it
   reads one by one as samvada does, field for field. A `str` is its list of
   characters; printing is left out. -/
namespace Samvada.DbusDecode
open Octets Framing

/-! ## The decoder -/

/-- What Python raises: an index, `struct` or Unicode error. -/
inductive Raised where
  | index
  | struct
  | unicode
  deriving DecidableEq, Repr

/-- A Python `int` or `str`. -/
inductive Obj where
  | num (n : Nat)
  | str (s : List Char)
  deriving DecidableEq, Repr

/-- A `dict`, its items in order. -/
abbrev Dict := List (Obj × Obj)

def Dict.get (d : Dict) (k : Obj) : Option Obj := d.lookup k

/-- `d[k] = v` -/
def Dict.set (d : Dict) (k v : Obj) : Dict :=
  if (d.lookup k).isSome then d.map fun e => if e.1 = k then (k, v) else e else d ++ [(k, v)]

/-- The bits of a lead byte of UTF-8, how many bytes follow it, and the range of the first of them.
-/
def utf8Lead (b : Nat) : Option (Nat × Nat × Nat × Nat) :=
  if b < 128 then some (b, 0, 0, 0)
  else if 194 ≤ b ∧ b ≤ 223 then some (b - 192, 1, 128, 191)
  else if b = 224 then some (0, 2, 160, 191)
  else if b = 237 then some (13, 2, 128, 159)
  else if 225 ≤ b ∧ b ≤ 239 then some (b - 224, 2, 128, 191)
  else if b = 240 then some (0, 3, 144, 191)
  else if 241 ≤ b ∧ b ≤ 243 then some (b - 240, 3, 128, 191)
  else if b = 244 then some (4, 3, 128, 143)
  else none

/-- The bytes that follow: the character, none where one of them is missing or out of range. -/
def utf8Rest : Nat → Nat → Nat → Nat → Bytes → Option Char × Bytes
  | 0, _, _, c, bs => (some (Char.ofNat c), bs)
  | _ + 1, _, _, _, [] => (none, [])
  | n + 1, lo, hi, c, b :: bs =>
    if lo ≤ b.toNat ∧ b.toNat ≤ hi then utf8Rest n 128 191 (c * 64 + (b.toNat - 128)) bs
    else (none, b :: bs)

def utf8N : Nat → Bytes → List (Option Char)
  | 0, _ => []
  | _ + 1, [] => []
  | n + 1, b :: bs => match utf8Lead b.toNat with
    | none => none :: utf8N n bs
    | some (c, k, lo, hi) => (utf8Rest k lo hi c bs).1 :: utf8N n (utf8Rest k lo hi c bs).2

/-- The characters of a text, none for each longest part of one that is not UTF-8. -/
def utf8 (bs : Bytes) : List (Option Char) := utf8N bs.length bs

/-- `bytes.decode("utf-8", "replace")` -/
def utf8Replace (bs : Bytes) : List Char := (utf8 bs).map (·.getD (Char.ofNat 65533))

/-- `bytes.decode()`, none where it raises. -/
def utf8Strict (bs : Bytes) : Option (List Char) :=
  if (utf8 bs).all Option.isSome then some ((utf8 bs).filterMap id) else none

def align (n a : Nat) : Nat := n + (-(n : Int) % a).toNat

/-- `Reader`: the buffer, where the next byte is, the endianness, and where the message starts. -/
structure Reader where
  b : Bytes
  o : Nat
  le : Bool
  base : Nat

namespace Reader

def u8 (r : Reader) : Except Raised (Nat × Reader) := match r.b[r.o]? with
  | none => .error .index
  | some v => .ok (v.toNat, { r with o := r.o + 1 })

/-- The offset padded, relative to the start of the message. -/
def padded (r : Reader) (a : Nat) : Reader := { r with o := r.base + align (r.o - r.base) a }

def u32 (r : Reader) : Except Raised (Nat × Reader) :=
  let r := r.padded 4
  if r.b.length < r.o + 4 then .error .struct
  else .ok (if r.le then load32 r.b r.o else load32be r.b r.o, { r with o := r.o + 4 })

def string (r : Reader) : Except Raised (List Char × Reader) := do
  let (n, r) ← r.u32
  .ok (utf8Replace ((r.b.drop r.o).take n), { r with o := r.o + n + 1 })

def signature (r : Reader) : Except Raised (List Char × Reader) := do
  let (n, r) ← r.u8
  match utf8Strict ((r.b.drop r.o).take n) with
  | none => .error .unicode
  | some s => .ok (s, { r with o := r.o + n + 1 })

end Reader

def MSG_TYPE : List (Nat × String) :=
  [(1, "METHOD_CALL"), (2, "METHOD_RETURN"), (3, "ERROR"), (4, "SIGNAL")]

def FIELD : List (Nat × String) :=
  [(1, "PATH"), (2, "INTERFACE"), (3, "MEMBER"), (4, "ERROR_NAME"), (5, "REPLY_SERIAL"),
    (6, "DESTINATION"), (7, "SENDER"), (8, "SIGNATURE"), (9, "UNIX_FDS")]

def FLAGS : List (Nat × String) :=
  [(1, "NO_REPLY_EXPECTED"), (2, "NO_AUTO_START"), (4, "ALLOW_INTERACTIVE_AUTHORIZATION")]

/-- `table.get(n, n)` -/
def nameOf (table : List (Nat × String)) (n : Nat) : Obj := match table.lookup n with
  | some s => .str s.toList
  | none => .num n

/-- A field's value, by its signature. -/
def value (r : Reader) (sig : List Char) : Except Raised (Obj × Reader) :=
  if sig = ['u'] then do
    let (v, r) ← r.u32
    .ok (.num v, r)
  else if sig = ['s'] ∨ sig = ['o'] then do
    let (s, r) ← r.string
    .ok (.str s, r)
  else if sig = ['g'] then do
    let (s, r) ← r.signature
    .ok (.str s, r)
  -- the value itself is not passed over
  else .ok (.str ("<unhandled sig ".toList ++ sig ++ ['>']), r)

/-- The loop over the fields; each takes a byte at least, so `fend` bounds it. -/
def decodeFields (fend : Nat) : Nat → Reader → Dict → List Nat → Except Raised (Dict × List Nat)
  | 0, _, fields, order => .ok (fields, order)
  | n + 1, r, fields, order =>
    if fend ≤ r.o then .ok (fields, order)
    -- the last padding may reach the end
    else if fend ≤ (r.padded 8).o then .ok (fields, order)
    else do
      let (code, r) ← (r.padded 8).u8
      let (sig, r) ← r.signature
      let (val, r) ← value r sig
      decodeFields fend n r (fields.set (nameOf FIELD code) val) (order ++ [code])

/-- What is known of a message. -/
structure Info where
  endian : Char
  type : Obj
  flags : Nat
  flagNames : List String
  proto : Nat
  serial : Nat
  bodyLen : Nat
  fieldsLen : Nat
  fieldOrder : List Nat
  fields : Dict
  body : Bytes
  total : Nat
  deriving DecidableEq, Repr

inductive Decoded where
  /-- the bytes there are, those needed, and the type and serial once the header is read -/
  | incomplete (n : Int) (need : Nat) (head : Option (Obj × Nat))
  | message (info : Info)
  deriving DecidableEq, Repr

/-- Decode the message at `off`: what it is, and where the next one starts. -/
def decodeOne (buf : Bytes) (off : Nat) : Except Raised (Decoded × Nat) :=
  if (buf.length : Int) - off < 16 then .ok (.incomplete (buf.length - off) 16 none, buf.length)
  else do
    let endian := load8 buf off
    let (_, r) ← Reader.u8 ⟨buf, off, endian == 108, off⟩
    let (mtype, r) ← r.u8
    let (flags, r) ← r.u8
    let (proto, r) ← r.u8
    let (bodyLen, r) ← r.u32
    let (serial, r) ← r.u32
    let (fieldsLen, r) ← r.u32
    let need := align (16 + fieldsLen) 8 + bodyLen
    -- the rest of the message has not come yet: no error
    if (buf.length : Int) - off < need then
      .ok (.incomplete (buf.length - off) need (some (nameOf MSG_TYPE mtype, serial)), buf.length)
    else do
      let fend := r.o + fieldsLen
      let (fields, order) ← decodeFields fend fieldsLen r [] []
      let bodyOff := off + align (fend - off) 8
      .ok (.message {
        endian := Char.ofNat endian, type := nameOf MSG_TYPE mtype, flags := flags,
        flagNames := (FLAGS.filter fun f => flags &&& f.1 != 0).map Prod.snd, proto :=
          proto, serial := serial,
        bodyLen := bodyLen, fieldsLen := fieldsLen, fieldOrder := order, fields := fields,
        body := (buf.drop bodyOff).take bodyLen, total :=
          bodyOff + bodyLen - off }, bodyOff + bodyLen)

/-- The loop of `decode_stream`; every message takes a byte at least. -/
def decodeStreamN (buf : Bytes) : Nat → Nat → Except Raised (List Decoded)
  | 0, _ => .ok []
  | n + 1, off =>
    if buf.length ≤ off then .ok []
    else do
      let (m, off) ← decodeOne buf off
      let out ← decodeStreamN buf n off
      .ok (m :: out)

def decodeStream (buf : Bytes) : Except Raised (List Decoded) := decodeStreamN buf buf.length 0

/-! ## The bounds of the loops -/

theorem bind_ok {α β : Type} {x : Except Raised α} {f : α → Except Raised β} {b : β}
    (h : x >>= f = .ok b) : ∃ a, x = .ok a ∧ f a = .ok b := by
  cases x with
  | error e => cases h
  | ok a => exact ⟨a, rfl, h⟩

section
variable {r r' : Reader}

theorem le_padded (r : Reader) (a : Nat) : r.o ≤ (r.padded a).o := by
  show r.o ≤ r.base + align (r.o - r.base) a
  unfold align
  omega

theorem u8_moves {v : Nat} (h : r.u8 = .ok (v, r')) : r.o < r'.o := by
  unfold Reader.u8 at h
  split at h
  · cases h
  · cases h
    exact Nat.lt_succ_self r.o

theorem u32_moves {v : Nat} (h : r.u32 = .ok (v, r')) : r.o < r'.o := by
  unfold Reader.u32 at h
  simp only at h
  split_ifs at h
  all_goals
    cases h
    exact Nat.lt_add_right 3 (Nat.lt_succ_of_le (le_padded r 4))

theorem string_moves {s : List Char} (h : r.string = .ok (s, r')) : r.o < r'.o := by
  obtain ⟨⟨n, r₁⟩, hn, hr⟩ := bind_ok h
  have moved := u32_moves hn
  cases hr
  show r.o < r₁.o + n + 1
  omega

theorem signature_moves {s : List Char} (h : r.signature = .ok (s, r')) : r.o < r'.o := by
  obtain ⟨⟨n, r₁⟩, hn, hr⟩ := bind_ok h
  have moved := u8_moves hn
  simp only at hr
  split at hr
  · cases hr
  · cases hr
    show r.o < r₁.o + n + 1
    omega

theorem value_moves {sig : List Char} {v : Obj} (h : value r sig = .ok (v, r')) : r.o ≤ r'.o := by
  unfold value at h
  split_ifs at h with hu hs hg
  · obtain ⟨⟨n, r₁⟩, hn, hr⟩ := bind_ok h
    cases hr
    exact (u32_moves hn).le
  · obtain ⟨⟨s, r₁⟩, hs, hr⟩ := bind_ok h
    cases hr
    exact (string_moves hs).le
  · obtain ⟨⟨s, r₁⟩, hs, hr⟩ := bind_ok h
    cases hr
    exact (signature_moves hs).le
  · cases h
    exact Nat.le_refl _

/-- A bound that reaches the end of the fields makes no difference. -/
theorem decodeFields_enough {fend : Nat} :
    ∀ (n m : Nat) (r : Reader) (fields : Dict) (order : List Nat), fend ≤ n + r.o → fend ≤ m + r.o →
    decodeFields fend n r fields order = decodeFields fend m r fields order := by
  have done (n : Nat) (r : Reader) (fields : Dict) (order : List Nat) (h : fend ≤ r.o) :
    decodeFields fend n r fields order = .ok (fields, order) := by
    cases n with
    | zero => rfl
    | succ n => exact if_pos h
  intro n
  -- every round moves the reader on, so both bounds go down with it
  induction n with
  | zero =>
    exact fun m r fields order h _ =>
      ((done 0 r fields order (by omega)).trans (done m r fields order (by omega)).symm)
  | succ n ih =>
    intro m r fields order hn hm
    cases m with
    | zero =>
      exact (done (n + 1) r fields order (by omega)).trans (done 0 r fields order (by omega)).symm
    | succ m =>
      rw [decodeFields, decodeFields]
      split_ifs with h h'
      · rfl
      · rfl
      have le := le_padded r 8
      cases hcode : (r.padded 8).u8 with
      | error e => rfl
      | ok c =>
        have coded := u8_moves hcode
        show (c.2.signature >>= _) = (c.2.signature >>= _)
        cases hsig : c.2.signature with
        | error e => rfl
        | ok s =>
          have signed := signature_moves hsig
          show (value s.2 s.1 >>= _) = (value s.2 s.1 >>= _)
          cases hval : value s.2 s.1 with
          | error e => rfl
          | ok v =>
            have valued := value_moves hval
            exact ih m v.2 _ _ (by omega) (by omega)

end

/-- The next message starts further on. -/
theorem decodeOne_moves {buf : Bytes} {off off' : Nat} {m : Decoded} (ho : off < buf.length)
    (h : decodeOne buf off = .ok (m, off')) : off < off' := by
  unfold decodeOne at h
  split_ifs at h with short
  · cases h
    exact ho
  obtain ⟨⟨_, r⟩, hr, h⟩ := bind_ok h
  have moved := u8_moves hr
  obtain ⟨⟨mtype, r₁⟩, hr, h⟩ := bind_ok h
  have moved := moved.trans (u8_moves hr)
  obtain ⟨⟨flags, r₂⟩, hr, h⟩ := bind_ok h
  have moved := moved.trans (u8_moves hr)
  obtain ⟨⟨proto, r₃⟩, hr, h⟩ := bind_ok h
  have moved := moved.trans (u8_moves hr)
  obtain ⟨⟨bodyLen, r₄⟩, hr, h⟩ := bind_ok h
  have moved := moved.trans (u32_moves hr)
  obtain ⟨⟨serial, r₅⟩, hr, h⟩ := bind_ok h
  have moved := moved.trans (u32_moves hr)
  obtain ⟨⟨fieldsLen, r₆⟩, hr, h⟩ := bind_ok h
  have moved := moved.trans (u32_moves hr)
  simp only at h moved
  split_ifs at h with cut
  · cases h
    exact ho
  obtain ⟨⟨fields, order⟩, -, h⟩ := bind_ok h
  cases h
  show off < off + align (r₆.o + fieldsLen - off) 8 + bodyLen
  unfold align
  omega

theorem decodeStreamN_end (buf : Bytes) (n : Nat) {off : Nat} (h : buf.length ≤ off) :
    decodeStreamN buf n off = .ok [] := by
  cases n with
  | zero => rfl
  | succ n => exact if_pos h

/-- A bound that reaches the end of the buffer makes no difference. -/
theorem decodeStreamN_enough (buf : Bytes) : ∀ (n m off : Nat), buf.length ≤ off + n →
    buf.length ≤ off + m → decodeStreamN buf n off = decodeStreamN buf m off := by
  intro n
  induction n with
  | zero =>
    exact fun m off h _ => (decodeStreamN_end buf 0 h).trans (decodeStreamN_end buf m h).symm
  | succ n ih =>
    intro m off hn hm
    cases m with
    | zero => exact (decodeStreamN_end buf (n + 1) hm).trans (decodeStreamN_end buf 0 hm).symm
    | succ m =>
      rw [decodeStreamN, decodeStreamN]
      split_ifs with done
      · rfl
      cases hone : decodeOne buf off with
      | error e => rfl
      | ok r =>
        have moved := decodeOne_moves (not_le.mp done) hone
        show (decodeStreamN buf n r.2 >>= _) = (decodeStreamN buf m r.2 >>= _)
        rw [ih m r.2 (by omega) (by omega)]

/-! ## A message anywhere in the buffer -/

theorem align8_same (n : Nat) : align n 8 = Octets.align n 8 := by
  rw [align8_eq, align]
  omega

theorem align4_same (n : Nat) : align n 4 = Octets.align n 4 := by
  rw [align4_eq, align]
  omega

/-- Two readings of the bytes from `off` on, in the buffer and alone. -/
inductive Alike {α : Type} (buf : Bytes) (off : Nat) : Except Raised (α × Reader) →
    Except Raised (α × Reader) → Prop where
  | error (e : Raised) : Alike buf off (.error e) (.error e)
  | ok (a : α) (le : Bool) (j : Nat) : Alike buf off (.ok (a, ⟨buf, off + j, le, off⟩))
      (.ok (a, ⟨buf.drop off, j, le, 0⟩))

section
variable {α β : Type} {buf : Bytes} {off : Nat}

theorem Alike.bind {x y : Except Raised (α × Reader)}
    {f g : α × Reader → Except Raised (β × Reader)} (h : Alike buf off x y)
    (hf : ∀ a le j, Alike buf off (f (a, ⟨buf, off + j, le, off⟩))
    (g (a, ⟨buf.drop off, j, le, 0⟩))) : Alike buf off (x >>= f) (y >>= g) := by
  cases h with
  | error e => exact .error e
  | ok a le j => exact hf a le j

theorem Alike.same {x y : Except Raised (α × Reader)} {f g : α × Reader → Except Raised β}
    (h : Alike buf off x y)
    (hf : ∀ a le j, f (a, ⟨buf, off + j, le, off⟩) = g (a, ⟨buf.drop off, j, le, 0⟩)) :
    x >>= f = y >>= g := by
  cases h with
  | error e => rfl
  | ok a le j => exact hf a le j

theorem u8_alike (le : Bool) (i : Nat) : Alike buf off (Reader.u8 ⟨buf, off + i, le, off⟩)
    (Reader.u8 ⟨buf.drop off, i, le, 0⟩) := by
  unfold Reader.u8
  simp only [List.getElem?_drop]
  cases buf[off + i]? with
  | none => exact .error _
  | some v => exact .ok v.toNat le (i + 1)

theorem padded_shift (le : Bool) (i a : Nat) : (⟨buf, off + i, le, off⟩ : Reader).padded
    a = ⟨buf, off + align i a, le, off⟩ := by
  rw [Reader.padded, Nat.add_sub_cancel_left]

theorem padded_zero (p : Bytes) (le : Bool) (i a : Nat) : (⟨p, i, le, 0⟩ : Reader).padded
    a = ⟨p, align i a, le, 0⟩ := by
  rw [Reader.padded, Nat.sub_zero, Nat.zero_add]

theorem u32_alike (le : Bool) (i : Nat) : Alike buf off (Reader.u32 ⟨buf, off + i, le, off⟩)
    (Reader.u32 ⟨buf.drop off, i, le, 0⟩) := by
  unfold Reader.u32
  rw [padded_shift, padded_zero]
  generalize align i 4 = j
  have room : buf.length < off + j + 4 ↔ (buf.drop off).length < j + 4 := by
    rw [List.length_drop]
    omega
  have word : load32 (buf.drop off) j = load32 buf (off + j) := by
    unfold load32
    simp only [load8_drop, Nat.add_assoc]
  have wordbe : load32be (buf.drop off) j = load32be buf (off + j) := by
    unfold load32be
    simp only [load8_drop, Nat.add_assoc]
  simp only [room, word, wordbe]
  split_ifs with hroom
  · exact .error _
  · exact .ok _ le (j + 4)
  · exact .ok _ le (j + 4)

theorem string_alike (le : Bool) (i : Nat) : Alike buf off (Reader.string ⟨buf, off + i, le, off⟩)
    (Reader.string ⟨buf.drop off, i, le, 0⟩) := by
  refine (u32_alike le i).bind fun n le j => ?_
  have e : off + j + n + 1 = off + (j + n + 1) := by omega
  simp only [List.drop_drop, e]
  exact .ok _ le (j + n + 1)

theorem signature_alike (le : Bool) (i : Nat) :
    Alike buf off (Reader.signature ⟨buf, off + i, le, off⟩)
    (Reader.signature ⟨buf.drop off, i, le, 0⟩) := by
  refine (u8_alike le i).bind fun n le j => ?_
  have e : off + j + n + 1 = off + (j + n + 1) := by omega
  simp only [List.drop_drop, e]
  cases utf8Strict ((buf.drop (off + j)).take n) with
  | none => exact .error _
  | some s => exact .ok s le (j + n + 1)

theorem value_alike (le : Bool) (i : Nat) (sig : List Char) :
    Alike buf off (value ⟨buf, off + i, le, off⟩ sig) (value ⟨buf.drop off, i, le, 0⟩ sig) := by
  unfold value
  split_ifs with hu hs hg
  · exact (u32_alike le i).bind fun v le j => .ok _ le j
  · exact (string_alike le i).bind fun v le j => .ok _ le j
  · exact (signature_alike le i).bind fun v le j => .ok _ le j
  · exact .ok _ le i

theorem decodeFields_shift (fend : Nat) :
    ∀ (n i : Nat) (le : Bool) (fields : Dict) (order : List Nat),
    decodeFields (off + fend) n ⟨buf, off + i, le, off⟩ fields order = decodeFields fend n
    ⟨buf.drop off, i, le, 0⟩ fields order
  | 0, _, _, _, _ => rfl
  | n + 1, i, le, fields, order => by
    unfold decodeFields
    rw [padded_shift, padded_zero]
    simp only [Nat.add_le_add_iff_left]
    split_ifs with h h'
    · rfl
    · rfl
    · refine (u8_alike le _).same fun code le j => (signature_alike le j).same fun sig le j =>
        (value_alike le j sig).same fun v le j => ?_
      exact decodeFields_shift fend n j le _ _

/-- An answer moved by `off`. -/
def shifted (off : Nat) (r : Decoded × Nat) : Decoded × Nat := (r.1, off + r.2)

theorem Alike.moved {x y : Except Raised (α × Reader)}
    {f g : α × Reader → Except Raised (Decoded × Nat)} (h : Alike buf off x y)
    (hf : ∀ a le j, f (a, ⟨buf, off + j, le, off⟩) = (g (a, ⟨buf.drop off, j, le, 0⟩)).map
    (shifted off)) : x >>= f = (y >>= g).map (shifted off) := by
  cases h with
  | error e => rfl
  | ok a le j => exact hf a le j

/-- **A message reads the same wherever it starts**, whole or cut short, valid or not. -/
theorem decodeOne_shift (buf : Bytes) (off : Nat) (h : off ≤ buf.length) :
    decodeOne buf off = (decodeOne (buf.drop off) 0).map (shifted off) := by
  have len : ((buf.drop off).length : Int) = buf.length - off := by
    rw [List.length_drop]
    omega
  have all : off + (buf.drop off).length = buf.length := by
    rw [List.length_drop]
    omega
  unfold decodeOne
  rw [len, Int.ofNat_zero, Int.sub_zero, load8_drop, Nat.add_zero]
  split_ifs with short
  · exact congrArg Except.ok (Prod.ext rfl all.symm)
  -- each read is the same in the two buffers, its place moved by `off`
  refine (u8_alike _ 0).moved fun _ le j => (u8_alike le j).moved fun mtype le j =>
    (u8_alike le j).moved fun flags le j =>
    (u8_alike le j).moved fun proto le j => (u32_alike le j).moved fun bodyLen le j =>
      (u32_alike le j).moved fun serial le j =>
    (u32_alike le j).moved fun fieldsLen le j => ?_
  dsimp only
  split_ifs with cut
  · exact congrArg Except.ok (Prod.ext rfl all.symm)
  have fend : off + j + fieldsLen = off + (j + fieldsLen) := Nat.add_assoc ..
  rw [fend, decodeFields_shift, Nat.add_sub_cancel_left, Nat.sub_zero, Nat.zero_add]
  cases decodeFields (j + fieldsLen) fieldsLen ⟨buf.drop off, j, le, 0⟩ [] [] with
  | error e => rfl
  | ok r =>
    have total (n : Nat) : off + n + bodyLen - off = n + bodyLen := by omega
    have next (n : Nat) : off + n + bodyLen = off + (n + bodyLen) := Nat.add_assoc ..
    show Except.ok _ = Except.ok _
    rw [shifted, Nat.sub_zero, List.drop_drop, total, next]

end

/-! ## A message that samvada accepts -/

/-- A field's value as the decoder shows it. -/
def shown (f : Field) : Obj :=
  if f.type = 117 then .num (load32 f.value 0)
  else if f.type = 103 then .str ((utf8Strict f.value).getD [])
  else .str (utf8Replace f.value)

/-- The decoder knows the type, and can decode the text of a signature. -/
def Readable (f : Field) : Prop :=
  f.type = 117 ∨ Stringy f.type ∨ f.type = 103 ∧ (utf8Strict f.value).isSome

/-- The fields in order, the last of a name standing. -/
def shownFields (fs : List Field) (d : Dict) : Dict :=
  fs.foldl (fun d f => d.set (nameOf FIELD f.code) (shown f)) d

section
variable {p : Bytes} {i n fin : Nat}

theorem u8_ok (le : Bool) (h : i < p.length) : Reader.u8 ⟨p, i, le, 0⟩ = .ok
    (load8 p i, ⟨p, i + 1, le, 0⟩) := by
  unfold Reader.u8 load8
  simp only [List.getElem?_eq_getElem h, List.getD_eq_getElem?_getD, Option.getD_some]

/-- A word of the header, in either endianness. -/
theorem word_ok (le : Bool) (hi : Octets.align i 4 = i) (h : i + 4 ≤ p.length) :
    Reader.u32 ⟨p, i, le, 0⟩ = .ok
    (if le then load32 p i else load32be p i, ⟨p, i + 4, le, 0⟩) := by
  unfold Reader.u32
  rw [padded_zero, align4_same, hi]
  exact if_neg (by simp only; omega)

theorem u32_ok (h : Octets.align i 4 + 4 ≤ p.length) :
    Reader.u32 ⟨p, i, true, 0⟩ = .ok
    (load32 p (Octets.align i 4), ⟨p, Octets.align i 4 + 4, true, 0⟩) := by
  unfold Reader.u32
  rw [padded_zero, align4_same]
  exact if_neg (by simp only; omega)

theorem string_ok (h : Octets.align i 4 + 4 + n ≤ p.length) (hn : load32 p (Octets.align i 4) = n) :
    Reader.string ⟨p, i, true, 0⟩ = .ok (utf8Replace (loadN p (Octets.align i 4 + 4) n),
    ⟨p, Octets.align i 4 + 4 + n + 1, true, 0⟩) := by
  unfold Reader.string
  rw [u32_ok (by omega), hn, loadN_eq h]
  rfl

theorem signature_ok {s : List Char} (h : i + 1 + n ≤ p.length) (hn : load8 p i = n)
    (hs : utf8Strict (loadN p (i + 1) n) = some s) : Reader.signature ⟨p, i, true, 0⟩ = .ok
    (s, ⟨p, i + 1 + n + 1, true, 0⟩) := by
  unfold Reader.signature
  rw [loadN_eq h] at hs
  rw [u8_ok true (by omega), hn]
  show (match utf8Strict ((p.drop (i + 1)).take n) with
    | none => .error Raised.unicode
    | some s => .ok (s, _) : Except Raised (List Char × Reader)) = _
  rw [hs]

/-- The signature of a field's value, as the decoder compares it. -/
theorem type_strict {t : Nat} (h : t = 117 ∨ Stringy t ∨ t = 103) :
    utf8Strict [UInt8.ofNat t] = some [Char.ofNat t] := by
  rcases h with rfl | (rfl | rfl) | rfl <;> decide

/-- A field whose value the decoder knows is read as it stands. -/
theorem value_ok {start vo nxt : Nat} {f : Field} (h : ValueAt p fin start f.type f.value vo nxt)
    (hf : fin ≤ p.length) (hr : Readable f) : value ⟨p, start, true, 0⟩ [Char.ofNat f.type] = .ok
    (shown f, ⟨p, nxt, true, 0⟩) := by
  obtain ⟨code, type, v⟩ := f
  simp only at h ⊢
  cases h with
  | text ht hvo hin hn hv hnul =>
    subst hvo
    have read := string_ok (p := p) (i := start) (by omega) hn
    rw [hv] at read
    have string : value ⟨p, start, true, 0⟩ [Char.ofNat type] = .ok
      (.str (utf8Replace v), ⟨p, Octets.align start 4 + 4 + v.length + 1, true, 0⟩) := by
      rcases ht with rfl | rfl
      · rw [value, if_neg (by decide), if_pos (by decide), read]
        rfl
      · rw [value, if_neg (by decide), if_pos (by decide), read]
        rfl
    obtain ⟨notU, notG⟩ : ¬ type = 117 ∧ ¬ type = 103 := by rcases ht with rfl | rfl <;> decide
    rw [string, shown, if_neg notU, if_neg notG]
  | signature hin hn hv hnul =>
    have notU : ¬ (103 : Nat) = 117 := by decide
    have plain : ¬ Stringy 103 := by decide
    have decodes : (utf8Strict v).isSome := by
      rcases hr with h | h | h
      · exact absurd h notU
      · exact absurd h plain
      · exact h.2
    obtain ⟨s, hs⟩ := Option.isSome_iff_exists.mp decodes
    have read := signature_ok (p := p) (i := start) (by omega) hn (by rwa [hv])
    rw [value, if_neg (by decide), if_neg (by decide), if_pos (by decide), read]
    show Except.ok (Obj.str s, _) = _
    rw [shown, if_neg notU, if_pos rfl, hs, Option.getD_some]
  | @fixed _ sz _ _ ht hvo hin hv =>
    -- of the types of a fixed size the decoder knows one
    obtain ⟨plain, notG, -⟩ := fixed_not_text ht
    have word : type = 117 := by
      rcases hr with h | h | h
      · exact h
      · exact absurd h plain
      · exact absurd h.1 notG
    subst word
    have four : sz = 4 := (dbuBasicSize_fixed ht).symm
    subst four hvo
    rw [value, if_pos (by decide), u32_ok (by omega)]
    show Except.ok (Obj.num (load32 p _), _) = _
    rw [shown, if_pos rfl, ← hv, load32_loadN (Nat.le_refl 4)]

/-- One field, from where it stands to where it ends. -/
theorem decodeFields_field {at_ vo nxt k : Nat} {f : Field}
    (h : FieldAt p fin (Octets.align at_ 8) f vo nxt) (hf : fin ≤ p.length) (hr : Readable f)
    (fields : Dict) (order : List Nat) : decodeFields fin (k + 1) ⟨p, at_, true, 0⟩ fields order =
      decodeFields fin k ⟨p, nxt, true, 0⟩ (fields.set (nameOf FIELD f.code) (shown f))
      (order ++ [f.code]) := by
  have pos := le_align at_ (show 0 < 8 by decide)
  have head := h.head
  have known : f.type = 117 ∨ Stringy f.type ∨ f.type = 103 :=
    hr.imp_right fun h => h.imp_right fun h => h.1
  have letter : utf8Strict (loadN p (Octets.align at_ 8 + 1 + 1) 1) = some [Char.ofNat f.type] := by
    rw [← type_strict known, ← h.type]
    refine congrArg utf8Strict ?_
    rw [loadN, List.range_one, List.map_singleton, Nat.add_zero]
    exact congrArg (fun b => [b]) (UInt8.ofNat_toNat).symm
  rw [decodeFields, padded_zero, align8_same, if_neg (by simp only; omega),
    if_neg (by simp only; omega), u8_ok true (by omega), h.code]
  show (Reader.signature _ >>= _) = _
  rw [signature_ok (n := 1) (by omega) h.one letter]
  show (value _ _ >>= _) = _
  rw [value_ok h.value hf hr]
  rfl

/-- The loop reads the fields in order. -/
theorem decodeFields_all {at_ : Nat} {fs : List Field} (h : Fields p fin at_ fs)
    (hf : fin ≤ p.length) (hr : ∀ f ∈ fs, Readable f) :
    ∀ (k : Nat) (fields : Dict) (order : List Nat), fin ≤ k + at_ →
      decodeFields fin k ⟨p, at_, true, 0⟩ fields order = .ok
      (shownFields fs fields, order ++ fs.map Field.code) := by
  induction h with
  | @nil at_ hgap =>
    intro k fields order hk
    have done : order ++ ([] : List Field).map Field.code = order := List.append_nil order
    rw [done]
    cases k with
    | zero => rfl
    | succ k =>
      rw [decodeFields, padded_zero, align8_same]
      split_ifs with h
      · rfl
      · rfl
  | @cons at_ vo nxt f fs hfield rest ih =>
    intro k fields order hk
    have pos := le_align at_ (show 0 < 8 by decide)
    have head := hfield.head
    have ends := hfield.value.ends
    obtain ⟨k, rfl⟩ : ∃ m, k = m + 1 := ⟨k - 1, by omega⟩
    rw [decodeFields_field hfield hf (hr f List.mem_cons_self),
      ih (fun g hg => hr g (List.mem_cons_of_mem f hg)) k _ _ (by omega),
      List.map_cons, List.append_assoc]
    rfl

/-- What the decoder shows of a message with these fields. -/
def shownInfo (p : Bytes) (fs : List Field) : Info where
  endian := Char.ofNat (load8 p 0)
  type := nameOf MSG_TYPE (dbusUnmarshalType p)
  flags := load8 p 2
  flagNames := (FLAGS.filter fun f => load8 p 2 &&& f.1 != 0).map Prod.snd
  proto := load8 p 3
  serial := load32 p 8
  bodyLen := dbusUnmarshalBodyLen p
  fieldsLen := dbusUnmarshalFieldsLen p
  fieldOrder := fs.map Field.code
  fields := shownFields fs []
  body := (p.drop (dbusUnmarshalBodyOff p)).take (dbusUnmarshalBodyLen p)
  total := dbusUnmarshalBodyOff p + dbusUnmarshalBodyLen p

/-- A little-endian message of `n` bytes that samvada's validator accepts and whose fields the
decoder knows. -/
structure Accepted (p : Bytes) (n : Nat) : Prop where
  little : load8 p 0 = 108
  valid : dbusUnmarshalValidate n p = true
  readable : ∃ fs, WellFormed n p fs ∧ ∀ f ∈ fs, Readable f

/-- The header read: how many bytes the message needs, and what follows where they are there. -/
theorem decodeOne_header (h : 16 ≤ p.length) {le : Bool} (hle : (load8 p 0 == 108) = le)
    {word : Nat → Nat} (hw : ∀ i, (if le then load32 p i else load32be p i) = word i) :
    (p.length < Octets.align (16 + word 12) 8 + word 4 → decodeOne p 0 =
      .ok (.incomplete p.length (Octets.align (16 + word 12) 8 + word 4)
      (some (nameOf MSG_TYPE (load8 p 1), word 8)), p.length)) ∧
    ∀ r, Octets.align (16 + word 12) 8 + word 4 ≤ p.length → decodeFields (16 + word 12) (word 12)
    ⟨p, 16, le, 0⟩ [] [] = .ok r → decodeOne p 0 =
      .ok (.message {
        endian := Char.ofNat (load8 p 0), type := nameOf MSG_TYPE (load8 p 1), flags := load8 p 2,
        flagNames := (FLAGS.filter fun f => load8 p 2 &&& f.1 != 0).map Prod.snd, proto :=
          load8 p 3, serial := word 8,
        bodyLen := word 4, fieldsLen := word 12, fieldOrder := r.2, fields := r.1,
        body := (p.drop (Octets.align (16 + word 12) 8)).take (word 4), total :=
          Octets.align (16 + word 12) 8 + word 4 },
        Octets.align (16 + word 12) 8 + word 4) := by
  have four : Octets.align 4 4 = 4 ∧ Octets.align 8 4 = 8 ∧ Octets.align 12 4 = 12 := by decide
  have head : decodeOne p 0 =
      if (p.length : Int) - (0 : Nat) < (align (16 + word 12) 8 + word 4 : Nat) then
        .ok (.incomplete (p.length - (0 : Nat)) (align (16 + word 12) 8 + word 4)
          (some (nameOf MSG_TYPE (load8 p 1), word 8)), p.length)
      else decodeFields (16 + word 12) (word 12) ⟨p, 16, le, 0⟩ [] [] >>= fun r =>
        .ok (.message {
          endian := Char.ofNat (load8 p 0), type := nameOf MSG_TYPE (load8 p 1), flags := load8 p 2,
          flagNames := (FLAGS.filter fun f => load8 p 2 &&& f.1 != 0).map Prod.snd, proto :=
            load8 p 3, serial := word 8,
          bodyLen := word 4, fieldsLen := word 12, fieldOrder := r.2, fields := r.1,
          body := (p.drop (0 + align (16 + word 12 - 0) 8)).take (word 4), total :=
            0 + align (16 + word 12 - 0) 8 + word 4 - 0 },
          0 + align (16 + word 12 - 0) 8 + word 4) := by
    unfold decodeOne
    rw [if_neg (by omega)]
    simp only [hle]
    rw [u8_ok le (by omega)]
    show (Reader.u8 ⟨p, 1, le, 0⟩ >>= _) = _
    rw [u8_ok le (by omega)]
    show (Reader.u8 ⟨p, 2, le, 0⟩ >>= _) = _
    rw [u8_ok le (by omega)]
    show (Reader.u8 ⟨p, 3, le, 0⟩ >>= _) = _
    rw [u8_ok le (by omega)]
    show (Reader.u32 ⟨p, 4, le, 0⟩ >>= _) = _
    rw [word_ok le four.1 (by omega), hw]
    show (Reader.u32 ⟨p, 8, le, 0⟩ >>= _) = _
    rw [word_ok le four.2.1 (by omega), hw]
    show (Reader.u32 ⟨p, 12, le, 0⟩ >>= _) = _
    rw [word_ok le four.2.2 (by omega), hw]
    rfl
  rw [head, ← align8_same]
  refine ⟨fun cut => ?_, fun r whole hr => ?_⟩
  · rw [if_pos (by omega)]
    simp only [Int.ofNat_zero, Int.sub_zero]
  · rw [if_neg (by omega), hr]
    simp only [Nat.sub_zero, Nat.zero_add]
    rfl

/-- A header of either endianness, and fewer bytes than it says. -/
theorem decodeOne_cut (h : 16 ≤ p.length) (ht : messageTotal p = .ok n) (hn : p.length < n) :
    ∃ need head, decodeOne p 0 = .ok (.incomplete p.length need head, p.length) := by
  obtain ⟨word, hword, -, rfl, -⟩ := messageTotal_ok ht
  unfold headerWord at hword
  split_ifs at hword with hl hb
  · cases hword
    exact ⟨_, _, (decodeOne_header h (beq_iff_eq.mpr hl) fun i => if_pos rfl).1 hn⟩
  · cases hword
    exact ⟨_, _, (decodeOne_header h (beq_eq_false_iff_ne.mpr hl) fun i =>
      if_neg Bool.false_ne_true).1 hn⟩

theorem total_little (little : load8 p 0 = 108) (ht : messageTotal p = .ok n) :
    n = dbusUnmarshalBodyOff p + dbusUnmarshalBodyLen p := by
  obtain ⟨word, hword, -, hn, -⟩ := messageTotal_ok ht
  rw [headerWord, if_pos little] at hword
  cases hword
  exact hn

/-- A little-endian message with these fields. -/
theorem decodeOne_fields (little : load8 p 0 = 108) (ht : messageTotal p = .ok n)
    (hn : n ≤ p.length) {fs : List Field}
    (wf : WellFormed n p fs) (hr : ∀ f ∈ fs, Readable f) :
    decodeOne p 0 = .ok (.message (shownInfo p fs), n) := by
  have total := total_little little ht
  have inside := wf.inside
  have header := wf.header
  have fields :=
    decodeFields_all wf.fields (by omega) hr (dbusUnmarshalFieldsLen p) [] [] (Nat.add_comm ..).le
  have read := (decodeOne_header (by omega) (beq_iff_eq.mpr little) fun i => if_pos rfl).2 _
    (total ▸ hn) fields
  rw [read, total]
  rfl

end

/-! ## A field by its name -/

theorem Dict.get_set (d : Dict) (k v k' : Obj) : (d.set k v).get k' = if k' = k then some v
else d.get k' := by
  unfold Dict.set Dict.get
  split_ifs with hold hk hk
  · -- the key is there: its value changes where it stands
    subst hk
    induction d with
    | nil => cases hold
    | cons e d ih =>
      by_cases he : e.1 = k'
      · rw [List.map_cons, if_pos he, List.lookup_cons_self]
      · have away : (k' == e.1) = false := beq_eq_false_iff_ne.mpr (Ne.symm he)
        rw [List.lookup_cons, away] at hold
        rw [List.map_cons, if_neg he, List.lookup_cons, away]
        exact ih hold
  · clear hold
    induction d with
    | nil => rfl
    | cons e d ih =>
      by_cases he : e.1 = k
      · have away : (k' == k) = false := beq_eq_false_iff_ne.mpr hk
        rw [List.map_cons, if_pos he, List.lookup_cons, List.lookup_cons, he, away]
        exact ih
      · rw [List.map_cons, if_neg he, List.lookup_cons, List.lookup_cons, ih]
  · -- a new key goes at the end
    subst hk
    have new : d.lookup k' = none := Option.not_isSome_iff_eq_none.mp hold
    rw [List.lookup_append, new, Option.none_or, List.lookup_cons_self]
  · have away : (k' == k) = false := beq_eq_false_iff_ne.mpr hk
    rw [List.lookup_append, List.lookup_cons, away, List.lookup_nil, Option.or_none]

theorem field_known : ∀ e ∈ definedTypes, (FIELD.lookup e.1).isSome := by decide

theorem field_names : ∀ e ∈ FIELD, ∀ e' ∈ FIELD, e.2 = e'.2 → e.1 = e'.1 := by decide

theorem mem_of_lookup {table : List (Nat × String)} {n : Nat} {s : String}
    (h : table.lookup n = some s) : (n, s) ∈ table := by
  obtain ⟨l, r, rfl, -⟩ := List.lookup_eq_some_iff.mp h
  exact List.mem_append_right l List.mem_cons_self

/-- The name of a defined code is no other code's. -/
theorem nameOf_field {c t : Nat} (hc : (c, t) ∈ definedTypes) (c' : Nat) :
    nameOf FIELD c = nameOf FIELD c' ↔ c = c' := by
  refine ⟨fun e => ?_, fun e => e ▸ rfl⟩
  obtain ⟨s, hs⟩ := Option.isSome_iff_exists.mp (field_known _ hc)
  simp only at hs
  unfold nameOf at e
  rw [hs] at e
  cases hs' : FIELD.lookup c' with
  | none =>
    rw [hs'] at e
    cases e
  | some s' =>
    rw [hs'] at e
    have same : s = s' := String.toList_inj.mp (Obj.str.inj e)
    exact field_names (c, s) (mem_of_lookup hs) (c', s') (mem_of_lookup hs') same

theorem shownFields_get {c t : Nat} (hc : (c, t) ∈ definedTypes) : ∀ (fs : List Field) (d : Dict),
    (fs.map Field.code).count c ≤ 1 →
    (shownFields fs d).get (nameOf FIELD c) = ((firstField fs c).map shown).or
    (d.get (nameOf FIELD c))
  | [], _, _ => rfl
  | f :: fs, d, h => by
    rw [List.map_cons, List.count_cons] at h
    have ih := shownFields_get hc fs (d.set (nameOf FIELD f.code) (shown f)) (by omega)
    show (shownFields fs (d.set (nameOf FIELD f.code) (shown f))).get _ = _
    rw [ih, Dict.get_set]
    simp only [nameOf_field hc, firstField, List.find?_cons]
    by_cases hf : f.code = c
    · -- no later field of the code replaces it
      have once : (fs.map Field.code).count c = 0 := by
        rw [if_pos (beq_iff_eq.mpr hf)] at h
        omega
      have none : fs.find? (·.code == c) = none := by
        rw [List.find?_eq_none]
        intro g hg e
        exact List.count_eq_zero.mp once (List.mem_map.mpr ⟨g, hg, beq_iff_eq.mp e⟩)
      rw [none, if_pos hf.symm, beq_iff_eq.mpr hf]
      rfl
    · rw [if_neg (Ne.symm hf), beq_eq_false_iff_ne.mpr hf]

/-! ## The two decoders -/

/-- `m` shows the first `n` bytes of `p` as samvada reads them. -/
structure Shows (p : Bytes) (n : Nat) (m : Info) : Prop where
  type : m.type = nameOf MSG_TYPE (dbusUnmarshalType p)
  serial : m.serial = load32 p 8
  total : m.total = n
  body : m.body = loadN p (dbusUnmarshalBodyOff p) (dbusUnmarshalBodyLen p)
  order : ∃ fs, WellFormed n p fs ∧ m.fieldOrder = fs.map Field.code
  fields : ∀ c t, (c, t) ∈ definedTypes →
    m.fields.get (nameOf FIELD c) = (lookupValue n p c).toOption.map fun v => shown ⟨c, v.1, v.2⟩

theorem shownInfo_shows {p : Bytes} {n : Nat} {fs : List Field} (wf : WellFormed n p fs)
    (total : n = dbusUnmarshalBodyOff p + dbusUnmarshalBodyLen p) (hn : n ≤ p.length) :
    Shows p n (shownInfo p fs) := by
  refine ⟨rfl, rfl, total.symm, (loadN_eq (by omega)).symm, ⟨fs, wf, rfl⟩, fun c t hc => ?_⟩
  show (shownFields fs []).get _ = _
  rw [shownFields_get hc fs [] (wf.once c t hc), wf.lookupValue]
  cases firstField fs c with
  | none => rfl
  | some f => rfl

/-- A message that samvada accepts, wherever it stands in the buffer. -/
theorem Accepted.shown {buf : Bytes} {off n : Nat} (h : Accepted (buf.drop off) n)
    (ht : messageTotal (buf.drop off) = .ok n)
    (hn : off + n ≤ buf.length) : ∃ m, decodeOne buf off = .ok (.message m, off + n) ∧
    Shows (buf.drop off) n m := by
  obtain ⟨fs, wf, hr⟩ := h.readable
  have len : (buf.drop off).length = buf.length - off := List.length_drop
  refine ⟨shownInfo (buf.drop off) fs, ?_, shownInfo_shows wf (total_little h.little ht) (by omega)⟩
  rw [decodeOne_shift buf off (by omega), decodeOne_fields h.little ht (by omega) wf hr]
  rfl

/-! ## A stream -/

/-- Every D-Bus message, those too long for samvada's buffer among them. -/
def wholeFormat : Format UInt8 BadHeader := dbusFormat.upTo (c := 134217728) (by decide)

/-- What follows the messages: nothing, or the part of one. -/
inductive Ends : Stop BadHeader → List Decoded → Prop where
  | boundary : Ends .boundary []
  | inside (n : Int) (need : Nat) (head : Option (Obj × Nat)) :
      Ends .inside [.incomplete n need head]

/-- The end of the stream cuts a message. -/
theorem decodeStreamN_cut {buf : Bytes} {n off : Nat} {k : Int} {need : Nat}
    {head : Option (Obj × Nat)} (ho : ¬ buf.length ≤ off)
    (h : decodeOne (buf.drop off) 0 = .ok (.incomplete k need head, (buf.drop off).length)) :
    decodeStreamN buf (n + 1) off = .ok [.incomplete k need head] := by
  have next : off + (buf.drop off).length = buf.length := by
    rw [List.length_drop]
    omega
  rw [decodeStreamN, if_neg ho, decodeOne_shift buf off (by omega), h]
  show (decodeStreamN buf n (off + (buf.drop off).length) >>= _) = _
  rw [next, decodeStreamN_end buf n (Nat.le_refl _)]
  rfl

/-- From `off` on; the induction is on the bound of the loop, a message taking sixteen bytes at
least. -/
theorem decodeStreamN_shows (buf : Bytes) : ∀ (n off : Nat), buf.length ≤ off + n →
    ∀ {r : Parsed UInt8 BadHeader},
    parse wholeFormat off (buf.drop off) = r → (∀ e, r.stop ≠ .bad e) →
    (∀ m ∈ r.msgs, Accepted (buf.drop m.1) m.2.length) → ∃ ms tail, decodeStreamN buf n off = .ok
    (ms.map .message ++ tail) ∧
      List.Forall₂ (fun m i => Shows (buf.drop m.1) m.2.length i) r.msgs ms ∧ Ends r.stop tail := by
  intro n
  induction n with
  | zero =>
    intro off ho r hr _ _
    have none : buf.drop off = [] := List.drop_eq_nil_of_le ho
    rw [none, parse_nil] at hr
    subst hr
    exact ⟨[], [], rfl, .nil, .boundary⟩
  | succ n ih =>
    intro off ho r hr hbad hacc
    have len : (buf.drop off).length = buf.length - off := List.length_drop
    by_cases done : buf.length ≤ off
    · have none : buf.drop off = [] := List.drop_eq_nil_of_le done
      rw [none, parse_nil] at hr
      subst hr
      exact ⟨[], [], decodeStreamN_end buf _ done, .nil, .boundary⟩
    -- fewer bytes than a header, then a header and fewer bytes than it says, then a whole message
    by_cases short : (buf.drop off).length < 16
    · have some : buf.drop off ≠ [] := List.ne_nil_of_length_pos (by omega)
      rw [parse_short some short] at hr
      subst hr
      have cut : decodeOne (buf.drop off) 0 = .ok
        (.incomplete ((buf.drop off).length - (0 : Nat)) 16 none, (buf.drop off).length) := by
        rw [decodeOne, if_pos (by omega)]
      exact ⟨[], _, decodeStreamN_cut done cut, .nil, .inside _ _ _⟩
    cases ht : messageTotal (buf.drop off) with
    | error e =>
      rw [parse_bad (F := wholeFormat) (not_lt.mp short) ht] at hr
      subst hr
      exact absurd rfl (hbad e)
    | ok t =>
      by_cases part : (buf.drop off).length < t
      · rw [parse_part (F := wholeFormat) (not_lt.mp short) ht part] at hr
        subst hr
        obtain ⟨need, head, cut⟩ := decodeOne_cut (not_lt.mp short) ht part
        exact ⟨[], _, decodeStreamN_cut done cut, .nil, .inside _ _ _⟩
      obtain ⟨-, -, -, -, small⟩ := messageTotal_ok ht
      have ge := messageTotal_ge ht
      have taken : ((buf.drop off).take t).length = t := List.length_take_of_le (not_lt.mp part)
      have fits : t ≤ wholeFormat.cap := small.le
      rw [parse_whole (F := wholeFormat) ht (not_lt.mp part), if_pos fits, List.drop_drop] at hr
      subst hr
      have first := hacc _ List.mem_cons_self
      simp only [taken] at first
      obtain ⟨i, hi, shows⟩ := first.shown ht (by omega)
      obtain ⟨ms, tail, hms, each, ends⟩ :=
        ih (off + t) (by omega) rfl hbad fun m hm => hacc m (List.mem_cons_of_mem _ hm)
      refine ⟨i :: ms, tail, ?_, .cons (by rwa [taken]) each, ends⟩
      rw [decodeStreamN, if_neg done, hi]
      show (decodeStreamN buf n (off + t) >>= _) = _
      rw [hms]
      rfl

/-- **The two decoders agree.** Of a stream whose messages samvada accepts, the tool shows every
message, in order, with samvada's
type, serial, lengths, body and fields, then the part of a message where the stream ends in one.
Those of its messages that
fit the buffer are the ones samvada's framer yields. -/
theorem decoders_agree (S : Bytes) (hbad : ∀ e, (parse wholeFormat 0 S).stop ≠ .bad e)
    (hacc : ∀ m ∈ (parse wholeFormat 0 S).msgs, Accepted (S.drop m.1) m.2.length) :
    ∃ ms tail, decodeStream S = .ok (ms.map .message ++ tail) ∧
      List.Forall₂ (fun m i => Shows (S.drop m.1) m.2.length i) (parse wholeFormat 0 S).msgs ms ∧
      Ends (parse wholeFormat 0 S).stop tail ∧
      (parse dbusFormat 0 S).msgs = (parse wholeFormat 0 S).msgs.filter (·.2.length ≤ 8192) ∧
      (parse dbusFormat 0 S).stop = (parse wholeFormat 0 S).stop := by
  obtain ⟨ms, tail, hms, each, ends⟩ := decodeStreamN_shows S S.length 0 (by omega) rfl hbad hacc
  have cuts :=
    parse_upTo (F := dbusFormat) (c := 134217728) (by decide) S.length 0 S (Nat.le_refl _)
  exact ⟨ms, tail, hms, each, ends, cuts.1, cuts.2⟩

/-- A reply to the call `n`. -/
def replyTo (n : UInt8) : Bytes :=
  [108, 2, 1, 1, 0, 0, 0, 0, 1, 0, 0, 0, 8, 0, 0, 0, 5, 1, 117, 0, n, 0, 0, 0]

theorem replyTo_wellFormed (n : UInt8) (rest : Bytes) : WellFormed 24 (replyTo n ++ rest)
    [⟨5, 117, [n, 0, 0, 0]⟩] where
  header := by decide
  inside := Nat.le_refl 24
  fields := by
    refine .cons ⟨Nat.le_of_ble_eq_true rfl, rfl, (by decide : (5 : Nat) ≠ 0), rfl, rfl, rfl, ?_,
      .fixed serial_value.1 rfl (Nat.le_refl 24) rfl, ?_⟩ (.nil (Nat.le_refl 24))
    all_goals simp [definedTypes, CleanText]
  once := (definedCodes_nodup _).mp (by decide : ([5] : List Nat).Nodup)

theorem replyTo_accepted (n : UInt8) (rest : Bytes) : Accepted (replyTo n ++ rest) 24 := by
  have wf := replyTo_wellFormed n rest
  refine ⟨rfl, (validate_iff_wellFormed _ _).mpr ⟨_, wf⟩, _, wf, fun f hf => ?_⟩
  cases List.mem_singleton.mp hf
  exact .inl rfl

/-- Two replies and the first bytes of a third. -/
theorem decoders_agree_replies : ∃ (ms : List Info) (tail : List Decoded),
    decodeStream (replyTo 7 ++ (replyTo 8 ++ [108, 2, 1])) = .ok (ms.map .message ++ tail) ∧
    ms.length = 2 ∧ tail.length = 1 := by
  have msgs : (parse wholeFormat 0 (replyTo 7 ++ (replyTo 8 ++ [108, 2, 1]))).msgs =
    [(0, replyTo 7), (24, replyTo 8)] := by decide +kernel
  have stop : (parse wholeFormat 0 (replyTo 7 ++ (replyTo 8 ++ [108, 2, 1]))).stop = .inside := by
    decide +kernel
  have whole (e : BadHeader) :
    (parse wholeFormat 0 (replyTo 7 ++ (replyTo 8 ++ [108, 2, 1]))).stop ≠ .bad e := by
    rw [stop]
    rintro ⟨⟩
  have accepted : ∀ m ∈ (parse wholeFormat 0 (replyTo 7 ++ (replyTo 8 ++ [108, 2, 1]))).msgs,
      Accepted ((replyTo 7 ++ (replyTo 8 ++ [108, 2, 1])).drop m.1) m.2.length := by
    rw [msgs]
    intro m hm
    rcases List.mem_cons.mp hm with rfl | hm
    · exact replyTo_accepted 7 _
    · cases List.mem_singleton.mp hm
      exact replyTo_accepted 8 _
  obtain ⟨ms, tail, shown, each, ends, -⟩ := decoders_agree _ whole accepted
  rw [msgs] at each
  rw [stop] at ends
  refine ⟨ms, tail, shown, each.length_eq.symm, ?_⟩
  cases ends
  rfl

end Samvada.DbusDecode
