import Samvada.Unmarshal

/- What the decoder leaves behind. dbus_unmarshal.cyr keeps the message's extent
   and its body cursor in file-scope variables, and the out-pointers its readers
   are given are words of `_dbs_scratch()`: all of them outlive the message, the
   call and the connection. The functions here are those of Unmarshal.lean as the
   session layer calls them, over that state. A word of the scratch that holds a
   pointer is the bytes from it on. -/
namespace Samvada
open Octets

/-- The words of `_dbs_scratch()` that are read back. -/
inductive Slot where
  /-- +8, the DESTINATION -/
  | dest
  /-- +32, an ERROR's name -/
  | errname
  /-- +40, the body's signature -/
  | bodysig
  /-- +56, a reply body's string -/
  | bodystr
  deriving DecidableEq, Repr

/-- `_dbu_limit`, the body cursor, and the scratch words. -/
structure Decoder where
  limit : Nat := 0
  body : BodyCursor := {}
  slots : Slot → Bytes := fun _ => []

/-- A function of the decoder. -/
abbrev Decode := StateM Decoder

namespace Decode

def store (s : Slot) (p : Bytes) : Decode Unit :=
  modify fun d => { d with slots := fun t => if t = s then p else d.slots t }

def load (s : Slot) : Decode Bytes := do pure ((← get).slots s)

/-- `total` is 0 for what is not a length. -/
def dbusUnmarshalSetLimit (total : Nat) : Decode Unit := modify fun d => { d with limit := total }

def dbusUnmarshalFindField (p : Bytes) (code : Nat) : Decode (Except UnmarshalErr (Nat × Nat)) := do
  pure (Samvada.dbusUnmarshalFindField (← get).limit p code)

def dbusUnmarshalValidate (p : Bytes) : Decode Bool := do
  pure (Samvada.dbusUnmarshalValidate (← get).limit p)

/-- A length, its text's pointer stored; or a failure, and nothing stored. -/
def reading (s : Slot) (p : Bytes) : Except UnmarshalErr (Nat × Nat) → Decode Int
  | .error .notfound => pure (-1200)
  | .error .malformed => pure (-1201)
  | .ok (at_, n) => do
    store s (p.drop at_)
    pure n

def dbusUnmarshalStrAt (p : Bytes) (off : Nat) (s : Slot) : Decode Int := do
  reading s p (Samvada.dbusUnmarshalStrAt (← get).limit p off)

def dbusUnmarshalSigAt (p : Bytes) (off : Nat) (s : Slot) : Decode Int := do
  reading s p (Samvada.dbusUnmarshalSigAt (← get).limit p off)

def dbusUnmarshalBodyBegin (p : Bytes) : Decode Unit :=
  modify fun d => { d with body := Samvada.dbusUnmarshalBodyBegin d.limit p }

/-- A reader of the body, which moves its cursor. -/
def fromBody {α : Type} (f : BodyCursor → α × BodyCursor) : Decode α := do
  let d ← get
  set { d with body := (f d.body).2 }
  pure (f d.body).1

def dbusUnmarshalNextStr (s : Slot) : Decode Int := do
  let p := (← get).body.p
  reading s p (← fromBody Samvada.dbusUnmarshalNextStr)

def dbusUnmarshalNextBool : Decode (Except UnmarshalErr Nat) :=
  fromBody Samvada.dbusUnmarshalNextBool
def dbusUnmarshalNextFdIndex : Decode (Except UnmarshalErr Nat) :=
  fromBody Samvada.dbusUnmarshalNextFdIndex

/-! ## What a reading answers, whatever was left -/

variable {α β : Type}

/-- Under the limit `r`, `x` answers `a` and keeps the limit, whatever else was left. -/
def Answers (r : Nat) (x : Decode α) (a : α) : Prop :=
  ∀ d, d.limit = r → (x d).1 = a ∧ (x d).2.limit = r

namespace Answers
variable {r : Nat}

theorem pure (a : α) : Answers r (Pure.pure a : Decode α) a := fun _ h => ⟨rfl, h⟩

theorem bind {x : Decode α} {f : α → Decode β} {a : α} {b : β} (hx : Answers r x a)
    (hf : Answers r (f a) b) : Answers r (x >>= f) b := by
  intro d h
  obtain ⟨ha, hl⟩ := hx d h
  have next : (x >>= f) d = f a (x d).2 := by
    show f (x d).1 (x d).2 = _
    rw [ha]
  rw [next]
  exact hf _ hl

theorem ite {c : Prop} [Decidable c] {x y : Decode α} {a b : α} (hx : c → Answers r x a)
    (hy : ¬c → Answers r y b) : Answers r (if c then x else y) (if c then a else b) := by
  split
  · next h => exact hx h
  · next h => exact hy h

theorem findField (p : Bytes) (code : Nat) :
    Answers r (dbusUnmarshalFindField p code) (Samvada.dbusUnmarshalFindField r p code) :=
  fun _ h => ⟨congrArg (fun n => Samvada.dbusUnmarshalFindField n p code) h, h⟩

theorem validate (p : Bytes) : Answers r (dbusUnmarshalValidate p)
    (Samvada.dbusUnmarshalValidate r p) :=
  fun _ h => ⟨congrArg (fun n => Samvada.dbusUnmarshalValidate n p) h, h⟩

/-- A failed reading is a negative length, and the slot is whatever it was. -/
theorem read {s : Slot} {p : Bytes} {f : Int → Bytes → β} {g : Except UnmarshalErr (Nat × Nat) → β}
    {y : Except UnmarshalErr (Nat × Nat)}
    (hok : ∀ (at_ n : Nat), f n (p.drop at_) = g (.ok (at_, n)))
    (herr : ∀ (n : Int) q e, n < 0 → f n q = g (.error e)) : Answers r (do
      let n ← reading s p y
      let q ← load s
      Pure.pure (f n q) : Decode β) (g y) := by
  intro d h
  match y with
  | .error .notfound => exact ⟨herr (-1200) (d.slots s) .notfound (by decide), h⟩
  | .error .malformed => exact ⟨herr (-1201) (d.slots s) .malformed (by decide), h⟩
  | .ok (at_, n) =>
    refine ⟨?_, h⟩
    show f n (if s = s then p.drop at_ else d.slots s) = _
    rw [if_pos rfl]
    exact hok at_ n

theorem strAt {s : Slot} {p : Bytes} {off : Nat} {f : Int → Bytes → β}
    {g : Except UnmarshalErr (Nat × Nat) → β}
    (hok : ∀ (at_ n : Nat), f n (p.drop at_) = g (.ok (at_, n)))
    (herr : ∀ (n : Int) q e, n < 0 → f n q = g (.error e)) : Answers r (do
      let n ← dbusUnmarshalStrAt p off s
      let q ← load s
      Pure.pure (f n q) : Decode β) (g (Samvada.dbusUnmarshalStrAt r p off)) := by
  intro d h
  subst h
  exact read (s := s) hok herr d rfl

theorem sigAt {s : Slot} {p : Bytes} {off : Nat} {f : Int → Bytes → β}
    {g : Except UnmarshalErr (Nat × Nat) → β}
    (hok : ∀ (at_ n : Nat), f n (p.drop at_) = g (.ok (at_, n)))
    (herr : ∀ (n : Int) q e, n < 0 → f n q = g (.error e)) : Answers r (do
      let n ← dbusUnmarshalSigAt p off s
      let q ← load s
      Pure.pure (f n q) : Decode β) (g (Samvada.dbusUnmarshalSigAt r p off)) := by
  intro d h
  subst h
  exact read (s := s) hok herr d rfl

/-- A body's first string. -/
theorem firstStr {s : Slot} {p : Bytes} {f : Int → Bytes → β}
    {g : Except UnmarshalErr (Nat × Nat) → β}
    (hok : ∀ (at_ n : Nat), f n (p.drop at_) = g (.ok (at_, n)))
    (herr : ∀ (n : Int) q e, n < 0 → f n q = g (.error e)) : Answers r (do
      dbusUnmarshalBodyBegin p
      let n ← dbusUnmarshalNextStr s
      let q ← load s
      Pure.pure (f n q) : Decode β)
        (g (Samvada.dbusUnmarshalNextStr (Samvada.dbusUnmarshalBodyBegin r p)).1) := by
  intro d h
  subst h
  have at_base : (Samvada.dbusUnmarshalBodyBegin d.limit p).p = p := by
    unfold Samvada.dbusUnmarshalBodyBegin
    split <;> rfl
  have run (q : Bytes) (hq : q = p) := read (r := d.limit) (s := s) (p := q)
    (y := (Samvada.dbusUnmarshalNextStr (Samvada.dbusUnmarshalBodyBegin d.limit p)).1)
    (hq ▸ hok) herr
    { d with body := (Samvada.dbusUnmarshalNextStr (Samvada.dbusUnmarshalBodyBegin d.limit p)).2 }
    rfl
  exact run _ at_base

/-- The limit is set first. -/
theorem limited {x : Decode α} {a : α} (h : Answers r x a) (d : Decoder) :
    ((do
      dbusUnmarshalSetLimit r
      x : Decode α) d).1 = a :=
  (h { d with limit := r } rfl).1

end Answers

end Decode

end Samvada
