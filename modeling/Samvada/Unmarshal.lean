import Samvada.Lib.Octets

/- dbus_unmarshal.cyr: the decoder. `p` is the message from its base on and
   `limit` is `_dbu_limit`; offsets are message-relative. A function that
   answers a value, -1200 or -1201 answers an `Except`; an out-parameter is
   part of the value. -/
namespace Samvada
open Octets

/-- The decoder's two failures: `dbus_unmarshal_notfound` and `dbus_unmarshal_malformed`. -/
inductive UnmarshalErr where
  | notfound
  | malformed
  deriving DecidableEq, Repr

def dbusUnmarshalBodyLen (p : Bytes) : Nat := load32 p 4
def dbusUnmarshalFieldsLen (p : Bytes) : Nat := load32 p 12
def dbusUnmarshalType (p : Bytes) : Nat := load8 p 1
def dbusUnmarshalBodyOff (p : Bytes) : Nat := align (16 + dbusUnmarshalFieldsLen p) 8

/-- The wire size of a fixed-size basic type, 0 for any other. -/
def dbuBasicSize (t : Nat) : Nat :=
  if t = 121 then 1
  else if t = 110 ∨ t = 113 then 2
  else if t = 98 ∨ t = 105 ∨ t = 117 ∨ t = 104 then 4
  else if t = 120 ∨ t = 116 ∨ t = 100 then 8
  else 0

/-- The type a defined header field must have, 0 for a code without one. -/
def dbuFieldType (code : Nat) : Nat :=
  if code = 1 then 111
  else if code = 2 ∨ code = 3 ∨ code = 4 ∨ code = 6 ∨ code = 7 then 115
  else if code = 5 ∨ code = 9 then 117
  else if code = 8 then 103
  else 0

/-- A field's value: where it starts, where its text starts, how long the text
is, and where the field ends. A fixed-size value has no text. -/
structure FieldExtent where
  vo : Nat
  text : Nat
  len : Nat
  nxt : Nat
  deriving DecidableEq, Repr

/-- The extent of the value of type `sig0` whose signature ends at `vo`, inside
`[0, fin)`: the part the finder and the validator share. -/
def dbuExtent (p : Bytes) (fin vo sig0 : Nat) : Option FieldExtent :=
  if sig0 = 115 ∨ sig0 = 111 then
    let vo := align vo 4
    if fin < vo + 4 then none
    else
      let n := load32 p vo
      if fin < vo + 4 + n + 1 then none else some ⟨vo, vo + 4, n, vo + 4 + n + 1⟩
  else if sig0 = 103 then
    if fin < vo + 1 then none
    else
      let gn := load8 p vo
      if fin < vo + 1 + gn + 1 then none else some ⟨vo, vo + 1, gn, vo + 1 + gn + 1⟩
  else
    let sz := dbuBasicSize sig0
    if sz = 0 then none
    else
      let vo := align vo sz
      if fin < vo + sz then none else some ⟨vo, vo, 0, vo + sz⟩

/-- The walk of `dbus_unmarshal_find_field`: `n` bounds the fields, each at least five bytes. -/
def dbuFindWalk (p : Bytes) (fin code : Nat) : Nat → Nat → Except UnmarshalErr (Nat × Nat)
  | 0, _ => .error .notfound
  | n + 1, at_ =>
    if fin ≤ at_ then .error .notfound
    else
      let pos := align at_ 8
      if fin ≤ pos then .error .notfound
      else if fin < pos + 4 then .error .malformed
      else
        let c := load8 p pos
        if load8 p (pos + 1) ≠ 1 then .error .malformed
        else
          let sig0 := load8 p (pos + 2)
          if load8 p (pos + 3) ≠ 0 then .error .malformed
          else if dbuFieldType c ≠ 0 ∧ sig0 ≠ dbuFieldType c then .error .malformed
          else match dbuExtent p fin (pos + 4) sig0 with
            | none => .error .malformed
            | some x =>
              if x.nxt ≤ pos then .error .malformed
              else if c = code then .ok (x.vo, sig0)
              else dbuFindWalk p fin code n x.nxt

/-- Locate a header field by its code: the offset of its value, and its type. -/
def dbusUnmarshalFindField (limit : Nat) (p : Bytes) (code : Nat) :
    Except UnmarshalErr (Nat × Nat) :=
  if limit < 16 then .error .malformed
  else
    let fin := 16 + dbusUnmarshalFieldsLen p
    if limit < fin then .error .malformed else dbuFindWalk p fin code fin 16

/-- The characters of an object path's segments. -/
def isPathWord (c : UInt8) : Bool :=
  (65 ≤ c && c ≤ 90) || (97 ≤ c && c ≤ 122) || (48 ≤ c && c ≤ 57) || c == 95

/-- The loop of `dbus_unmarshal_path_ok`, from the second character on. -/
def pathSegments : Bool → Bytes → Bool
  | _, [] => true
  | prevSlash, c :: cs =>
    if c = 47 then if prevSlash then false else pathSegments true cs
    else if isPathWord c then pathSegments false cs else false

/-- Are the `n` bytes at `p` a valid object path? -/
def dbusUnmarshalPathOk (p : Bytes) (n : Int) : Bool :=
  if n ≤ 0 then false
  else if load8 p 0 ≠ 47 then false
  else if n = 1 then true
  else if load8 p (n - 1).toNat = 47 then false
  else pathSegments true ((loadN p 0 n.toNat).drop 1)

/-- None of the `n` bytes at `p` is NUL. -/
def dbuNoNul (p : Bytes) (n : Nat) : Bool := (loadN p 0 n).all (· != 0)

/-- The validator's own conditions on a field's text. -/
def dbuTextOk (p : Bytes) (sig0 : Nat) (x : FieldExtent) : Bool :=
  if sig0 = 115 ∨ sig0 = 111 ∨ sig0 = 103 then
    load8 p (x.text + x.len) == 0 && dbuNoNul (p.drop x.text) x.len &&
      (sig0 != 111 || dbusUnmarshalPathOk (p.drop x.text) x.len)
  else true

/-- The walk of `dbus_unmarshal_validate`; `seen` are the defined codes met so far. -/
def dbuValidateWalk (p : Bytes) (fin : Nat) : Nat → List Nat → Nat → Bool
  | 0, _, _ => true
  | n + 1, seen, at_ =>
    if fin ≤ at_ then true
    else
      let pos := align at_ 8
      if fin ≤ pos then true
      else if fin < pos + 4 then false
      else
        let c := load8 p pos
        if c = 0 then false
        else if load8 p (pos + 1) ≠ 1 then false
        else
          let sig0 := load8 p (pos + 2)
          if load8 p (pos + 3) ≠ 0 then false
          else if dbuFieldType c ≠ 0 ∧ (sig0 ≠ dbuFieldType c ∨ c ∈ seen) then false
          else match dbuExtent p fin (pos + 4) sig0 with
            | none => false
            | some x =>
              if dbuTextOk p sig0 x then
                dbuValidateWalk p fin n (if dbuFieldType c ≠ 0 then c :: seen else seen) x.nxt
              else false

/-- Validate the whole field array: `true` is the source's 0, `false` its malformed. -/
def dbusUnmarshalValidate (limit : Nat) (p : Bytes) : Bool :=
  if limit < 16 then false
  else
    let fin := 16 + dbusUnmarshalFieldsLen p
    if limit < fin then false else dbuValidateWalk p fin fin [] 16

/-- A string value at `off`: the offset of its first byte, and its length. -/
def dbusUnmarshalStrAt (limit : Nat) (p : Bytes) (off : Nat) : Except UnmarshalErr (Nat × Nat) :=
  if limit = 0 then .error .malformed
  else if limit < off + 4 then .error .malformed
  else
    let n := load32 p off
    if limit < off + 4 + n + 1 then .error .malformed else .ok (off + 4, n)

/-- A signature value at `off`: one length byte, not four. -/
def dbusUnmarshalSigAt (limit : Nat) (p : Bytes) (off : Nat) : Except UnmarshalErr (Nat × Nat) :=
  if limit = 0 then .error .malformed
  else if limit < off + 1 then .error .malformed
  else
    let n := load8 p off
    if limit < off + 1 + n + 1 then .error .malformed else .ok (off + 1, n)

/-- The body cursor: `_dbu_p`, `_dbu_at`, `_dbu_end`. -/
structure BodyCursor where
  p : Bytes := []
  at_ : Nat := 0
  fin : Nat := 0
  deriving DecidableEq, Repr

def dbusUnmarshalBodyBegin (limit : Nat) (p : Bytes) : BodyCursor :=
  if limit = 0 then ⟨p, 0, 0⟩
  else
    let at_ := dbusUnmarshalBodyOff p
    ⟨p, min at_ limit, min (at_ + dbusUnmarshalBodyLen p) limit⟩

def dbusUnmarshalBodyRemaining (b : BodyCursor) : Int := b.fin - b.at_

def dbusUnmarshalNextU32 (b : BodyCursor) : Except UnmarshalErr Nat × BodyCursor :=
  let b := { b with at_ := align b.at_ 4 }
  if b.fin < b.at_ + 4 then (.error .malformed, b)
  else (.ok (load32 b.p b.at_), { b with at_ := b.at_ + 4 })

/-- A boolean is a word, strictly 0 or 1. -/
def dbusUnmarshalNextBool (b : BodyCursor) : Except UnmarshalErr Nat × BodyCursor :=
  match dbusUnmarshalNextU32 b with
  | (.ok v, b) => if 1 < v then (.error .malformed, b) else (.ok v, b)
  | r => r

def dbusUnmarshalNextStr (b : BodyCursor) : Except UnmarshalErr (Nat × Nat) × BodyCursor :=
  let b := { b with at_ := align b.at_ 4 }
  if b.fin < b.at_ + 4 then (.error .malformed, b)
  else
    let n := load32 b.p b.at_
    if b.fin < b.at_ + 4 + n + 1 then (.error .malformed, b)
    else (.ok (b.at_ + 4, n), { b with at_ := b.at_ + 4 + n + 1 })

def dbusUnmarshalNextFdIndex (b : BodyCursor) : Except UnmarshalErr Nat × BodyCursor :=
  dbusUnmarshalNextU32 b

end Samvada
