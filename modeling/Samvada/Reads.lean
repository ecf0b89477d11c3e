import Mathlib.Algebra.Group.Nat.Defs
import Samvada.Lib.Probe
import Samvada.Unmarshal

/- What the decoder reads. Each of its functions is written out once more with
   its reads recorded, in the source's order and with the source's early exits,
   and computes what the plain one does. The sums of offsets and lengths stay
   below 2^63: a length is a 32-bit word, an offset is below 2^62. -/
namespace Samvada
open Octets Octets.Probe

namespace Recorded

/-- The loop of `_dbu_no_nul`: `n` bytes from `i`. -/
def dbuNoNul (p : Bytes) : Nat → Nat → Probe Bool
  | _, 0 => pure true
  | i, n + 1 => do
    let b ← read8 p i
    if b = 0 then pure false else dbuNoNul p (i + 1) n

/-- The loop of `dbus_unmarshal_path_ok`: `n` bytes from `i`. -/
def pathSegments (p : Bytes) : Bool → Nat → Nat → Probe Bool
  | _, _, 0 => pure true
  | prevSlash, i, n + 1 => do
    let c ← read8 p i
    if c = 47 then if prevSlash then pure false else pathSegments p true (i + 1) n
    else if isPathWord (UInt8.ofNat c) then pathSegments p false (i + 1) n else pure false

/-- Are the `n` bytes at `i` a valid object path? -/
def dbusUnmarshalPathOk (p : Bytes) (i n : Nat) : Probe Bool :=
  if n = 0 then pure false
  else do
    let first ← read8 p i
    if first ≠ 47 then pure false
    else if n = 1 then pure true
    else do
      let last ← read8 p (i + n - 1)
      if last = 47 then pure false else pathSegments p true (i + 1) (n - 1)

def dbuExtent (p : Bytes) (fin vo sig0 : Nat) : Probe (Option FieldExtent) :=
  if sig0 = 115 ∨ sig0 = 111 then
    let vo := align vo 4
    if fin < vo + 4 then pure none
    else do
      let n ← read32 p vo
      if fin < vo + 4 + n + 1 then pure none else pure (some ⟨vo, vo + 4, n, vo + 4 + n + 1⟩)
  else if sig0 = 103 then
    if fin < vo + 1 then pure none
    else do
      let gn ← read8 p vo
      if fin < vo + 1 + gn + 1 then pure none else pure (some ⟨vo, vo + 1, gn, vo + 1 + gn + 1⟩)
  else
    let sz := dbuBasicSize sig0
    if sz = 0 then pure none
    else
      let vo := align vo sz
      if fin < vo + sz then pure none else pure (some ⟨vo, vo, 0, vo + sz⟩)

def dbuFindWalk (p : Bytes) (fin code : Nat) : Nat → Nat → Probe (Except UnmarshalErr (Nat × Nat))
  | 0, _ => pure (.error .notfound)
  | n + 1, at_ =>
    if fin ≤ at_ then pure (.error .notfound)
    else
      let pos := align at_ 8
      if fin ≤ pos then pure (.error .notfound)
      else if fin < pos + 4 then pure (.error .malformed)
      else do
        let c ← read8 p pos
        let siglen ← read8 p (pos + 1)
        if siglen ≠ 1 then pure (.error .malformed)
        else do
          let sig0 ← read8 p (pos + 2)
          let nul ← read8 p (pos + 3)
          if nul ≠ 0 then pure (.error .malformed)
          else if dbuFieldType c ≠ 0 ∧ sig0 ≠ dbuFieldType c then pure (.error .malformed)
          else do
            match ← dbuExtent p fin (pos + 4) sig0 with
            | none => pure (.error .malformed)
            | some x =>
              if x.nxt ≤ pos then pure (.error .malformed)
              else if c = code then pure (.ok (x.vo, sig0))
              else dbuFindWalk p fin code n x.nxt

def dbusUnmarshalFindField (limit : Nat) (p : Bytes) (code : Nat) :
    Probe (Except UnmarshalErr (Nat × Nat)) :=
  if limit < 16 then pure (.error .malformed)
  else do
    let flen ← read32 p 12
    if limit < 16 + flen then pure (.error .malformed)
    else dbuFindWalk p (16 + flen) code (16 + flen) 16

/-- The validator's own reads of a field's text. -/
def dbuTextOk (p : Bytes) (sig0 : Nat) (x : FieldExtent) : Probe Bool :=
  if sig0 = 115 ∨ sig0 = 111 ∨ sig0 = 103 then do
    let nul ← read8 p (x.text + x.len)
    if nul ≠ 0 then pure false
    else do
      let clean ← dbuNoNul p x.text x.len
      if clean = false then pure false
      else if sig0 = 111 then dbusUnmarshalPathOk p x.text x.len
      else pure true
  else pure true

def dbuValidateWalk (p : Bytes) (fin : Nat) : Nat → List Nat → Nat → Probe Bool
  | 0, _, _ => pure true
  | n + 1, seen, at_ =>
    if fin ≤ at_ then pure true
    else
      let pos := align at_ 8
      if fin ≤ pos then pure true
      else if fin < pos + 4 then pure false
      else do
        let c ← read8 p pos
        if c = 0 then pure false
        else do
          let siglen ← read8 p (pos + 1)
          if siglen ≠ 1 then pure false
          else do
            let sig0 ← read8 p (pos + 2)
            let nul ← read8 p (pos + 3)
            if nul ≠ 0 then pure false
            else if dbuFieldType c ≠ 0 ∧ (sig0 ≠ dbuFieldType c ∨ c ∈ seen) then pure false
            else do
              match ← dbuExtent p fin (pos + 4) sig0 with
              | none => pure false
              | some x => do
                let ok ← dbuTextOk p sig0 x
                if ok then
                  dbuValidateWalk p fin n (if dbuFieldType c ≠ 0 then c :: seen else seen) x.nxt
                else pure false

def dbusUnmarshalValidate (limit : Nat) (p : Bytes) : Probe Bool :=
  if limit < 16 then pure false
  else do
    let flen ← read32 p 12
    if limit < 16 + flen then pure false else dbuValidateWalk p (16 + flen) (16 + flen) [] 16

def dbusUnmarshalStrAt (limit : Nat) (p : Bytes) (off : Nat) :
    Probe (Except UnmarshalErr (Nat × Nat)) :=
  if limit = 0 then pure (.error .malformed)
  else if limit < off + 4 then pure (.error .malformed)
  else do
    let n ← read32 p off
    if limit < off + 4 + n + 1 then pure (.error .malformed) else pure (.ok (off + 4, n))

def dbusUnmarshalSigAt (limit : Nat) (p : Bytes) (off : Nat) :
    Probe (Except UnmarshalErr (Nat × Nat)) :=
  if limit = 0 then pure (.error .malformed)
  else if limit < off + 1 then pure (.error .malformed)
  else do
    let n ← read8 p off
    if limit < off + 1 + n + 1 then pure (.error .malformed) else pure (.ok (off + 1, n))

/-- `dbus_unmarshal_body_begin` reads the two lengths before it looks at the limit. -/
def dbusUnmarshalBodyBegin (limit : Nat) (p : Bytes) : Probe BodyCursor := do
  let flen ← read32 p 12
  let blen ← read32 p 4
  let at_ := align (16 + flen) 8
  if limit = 0 then pure ⟨p, 0, 0⟩ else pure ⟨p, min at_ limit, min (at_ + blen) limit⟩

def dbusUnmarshalNextU32 (b : BodyCursor) : Probe (Except UnmarshalErr Nat × BodyCursor) :=
  let b := { b with at_ := align b.at_ 4 }
  if b.fin < b.at_ + 4 then pure (.error .malformed, b)
  else do
    let v ← read32 b.p b.at_
    pure (.ok v, { b with at_ := b.at_ + 4 })

def dbusUnmarshalNextBool (b : BodyCursor) : Probe (Except UnmarshalErr Nat × BodyCursor) := do
  match ← dbusUnmarshalNextU32 b with
  | (.ok v, b) => if 1 < v then pure (.error .malformed, b) else pure (.ok v, b)
  | r => pure r

def dbusUnmarshalNextStr (b : BodyCursor) : Probe (Except UnmarshalErr (Nat × Nat) × BodyCursor) :=
  let b := { b with at_ := align b.at_ 4 }
  if b.fin < b.at_ + 4 then pure (.error .malformed, b)
  else do
    let n ← read32 b.p b.at_
    if b.fin < b.at_ + 4 + n + 1 then pure (.error .malformed, b)
    else pure (.ok (b.at_ + 4, n), { b with at_ := b.at_ + 4 + n + 1 })

def dbusUnmarshalNextFdIndex (b : BodyCursor) : Probe (Except UnmarshalErr Nat × BodyCursor) :=
  dbusUnmarshalNextU32 b

/-! ## The recorded functions compute what the plain ones do -/

theorem noNul_val (p : Bytes) : ∀ n i, (dbuNoNul p i n).val = (loadN p i n).all (· != 0)
  | 0, i => rfl
  | n + 1, i => by
    rw [dbuNoNul, bind_val, read8_val, ite_val, pure_val, noNul_val p n (i + 1),
      loadN_succ, List.all_cons]
    have zero : load8 p i = 0 ↔ p.getD i 0 = 0 :=
      ⟨fun h => UInt8.toNat_inj.mp h, fun h => by rw [load8, h]; rfl⟩
    by_cases h : load8 p i = 0
    · have byte : (p.getD i 0 != 0) = false := by rw [zero.mp h]; rfl
      rw [if_pos h, byte, Bool.false_and]
    · have byte : (p.getD i 0 != 0) = true := bne_iff_ne.mpr (mt zero.mpr h)
      rw [if_neg h, byte, Bool.true_and]

theorem pathSegments_val (p : Bytes) : ∀ n slash i,
    (pathSegments p slash i n).val = Samvada.pathSegments slash (loadN p i n)
  | 0, slash, i => rfl
  | n + 1, slash, i => by
    have byte : UInt8.ofNat (load8 p i) = p.getD i 0 := UInt8.ofNat_toNat
    have is47 : load8 p i = 47 ↔ p.getD i 0 = 47 :=
      ⟨fun h => UInt8.toNat_inj.mp h, fun h => by rw [load8, h]; rfl⟩
    rw [pathSegments, bind_val, read8_val, loadN_succ, Samvada.pathSegments, byte]
    simp only [ite_val, pure_val, pathSegments_val p n, is47]

theorem pathOk_val (p : Bytes) (i n : Nat) :
    (dbusUnmarshalPathOk p i n).val = Samvada.dbusUnmarshalPathOk (p.drop i) n := by
  rw [dbusUnmarshalPathOk, Samvada.dbusUnmarshalPathOk]
  cases n with
  | zero => rfl
  | succ n =>
    have h0 : ¬ (((n + 1 : Nat) : Int) ≤ 0) := by omega
    have h1 : ((n + 1 : Nat) : Int) = 1 ↔ n + 1 = 1 := by omega
    have last : i + (((n + 1 : Nat) : Int) - 1).toNat = i + (n + 1) - 1 := by omega
    have rest : (loadN (p.drop i) 0 (n + 1)).drop 1 = loadN p (i + 1) n := by
      rw [loadN_drop, loadN_succ]
      rfl
    rw [if_neg h0, Int.toNat_natCast, rest]
    simp only [Nat.succ_ne_zero, if_false, bind_val, ite_val, pure_val, pathSegments_val,
      load8_drop, h1, last, Nat.add_zero, Nat.add_sub_cancel]

theorem extent_val (p : Bytes) (fin vo sig0 : Nat) :
    (dbuExtent p fin vo sig0).val = Samvada.dbuExtent p fin vo sig0 := by
  simp only [dbuExtent, Samvada.dbuExtent, ite_val, bind_val, pure_val]

theorem findWalk_val (p : Bytes) (fin code : Nat) : ∀ n at_,
    (dbuFindWalk p fin code n at_).val = Samvada.dbuFindWalk p fin code n at_
  | 0, at_ => rfl
  | n + 1, at_ => by
    simp only [dbuFindWalk, Samvada.dbuFindWalk, ite_val, bind_val, pure_val, extent_val]
    cases Samvada.dbuExtent p fin (align at_ 8 + 4) (load8 p (align at_ 8 + 2)) with
    | none => rfl
    | some x => simp only [ite_val, pure_val, findWalk_val p fin code n]

theorem findField_val (limit : Nat) (p : Bytes) (code : Nat) :
    (dbusUnmarshalFindField limit p code).val = Samvada.dbusUnmarshalFindField limit p code := by
  simp only [dbusUnmarshalFindField, Samvada.dbusUnmarshalFindField, ite_val, bind_val,
    pure_val, findWalk_val]
  rfl

theorem textOk_val (p : Bytes) (sig0 : Nat) (x : FieldExtent) :
    (dbuTextOk p sig0 x).val = Samvada.dbuTextOk p sig0 x := by
  have clean : (dbuNoNul p x.text x.len).val = Samvada.dbuNoNul (p.drop x.text) x.len := by
    rw [noNul_val, Samvada.dbuNoNul, loadN_drop]
  simp only [dbuTextOk, Samvada.dbuTextOk, ite_val, bind_val, pure_val,
    clean, pathOk_val]
  by_cases h0 : load8 p (x.text + x.len) = 0
  · cases Samvada.dbuNoNul (p.drop x.text) x.len with
    | false => simp [h0]
    | true => by_cases h111 : sig0 = 111 <;> simp [h0, h111]
  · simp [h0]

theorem validateWalk_val (p : Bytes) (fin : Nat) : ∀ n seen at_,
    (dbuValidateWalk p fin n seen at_).val = Samvada.dbuValidateWalk p fin n seen at_
  | 0, seen, at_ => rfl
  | n + 1, seen, at_ => by
    simp only [dbuValidateWalk, Samvada.dbuValidateWalk, ite_val, bind_val,
      pure_val, extent_val]
    cases Samvada.dbuExtent p fin (align at_ 8 + 4) (load8 p (align at_ 8 + 2)) with
    | none => rfl
    | some x => simp only [ite_val, bind_val, pure_val, textOk_val, validateWalk_val p fin n]

theorem validate_val (limit : Nat) (p : Bytes) :
    (dbusUnmarshalValidate limit p).val = Samvada.dbusUnmarshalValidate limit p := by
  simp only [dbusUnmarshalValidate, Samvada.dbusUnmarshalValidate, ite_val, bind_val,
    pure_val, validateWalk_val]
  rfl

theorem strAt_val (limit : Nat) (p : Bytes) (off : Nat) :
    (dbusUnmarshalStrAt limit p off).val = Samvada.dbusUnmarshalStrAt limit p off := by
  simp only [dbusUnmarshalStrAt, Samvada.dbusUnmarshalStrAt, ite_val, bind_val,
    pure_val]

theorem sigAt_val (limit : Nat) (p : Bytes) (off : Nat) :
    (dbusUnmarshalSigAt limit p off).val = Samvada.dbusUnmarshalSigAt limit p off := by
  simp only [dbusUnmarshalSigAt, Samvada.dbusUnmarshalSigAt, ite_val, bind_val, pure_val]

theorem bodyBegin_val (limit : Nat) (p : Bytes) :
    (dbusUnmarshalBodyBegin limit p).val = Samvada.dbusUnmarshalBodyBegin limit p := by
  simp only [dbusUnmarshalBodyBegin, Samvada.dbusUnmarshalBodyBegin, ite_val, bind_val,
    pure_val, dbusUnmarshalBodyOff, dbusUnmarshalBodyLen, dbusUnmarshalFieldsLen]

theorem nextU32_val (b : BodyCursor) :
    (dbusUnmarshalNextU32 b).val = Samvada.dbusUnmarshalNextU32 b := by
  simp only [dbusUnmarshalNextU32, Samvada.dbusUnmarshalNextU32, ite_val, bind_val,
    pure_val]

theorem nextBool_val (b : BodyCursor) :
    (dbusUnmarshalNextBool b).val = Samvada.dbusUnmarshalNextBool b := by
  simp only [dbusUnmarshalNextBool, Samvada.dbusUnmarshalNextBool, bind_val, nextU32_val]
  rcases Samvada.dbusUnmarshalNextU32 b with ⟨r, c⟩
  cases r with
  | error e => rfl
  | ok v => simp only [ite_val, pure_val]

theorem nextStr_val (b : BodyCursor) :
    (dbusUnmarshalNextStr b).val = Samvada.dbusUnmarshalNextStr b := by
  simp only [dbusUnmarshalNextStr, Samvada.dbusUnmarshalNextStr, ite_val, bind_val,
    pure_val]

/-! ## Their reads are bounded

One lemma per function: with the array (the cursor) inside `[0, b)`, so are the
reads. -/

variable {p : Bytes} {b : Nat}

theorem noNul_within : ∀ n i, i + n ≤ b → Within b (dbuNoNul p i n)
  | 0, _, _ => .pure _
  | n + 1, i, h => by
    refine .bind (.read8 (by omega)) (.ite (fun _ => .pure _) fun _ => ?_)
    exact noNul_within n (i + 1) (by omega)

theorem pathSegments_within : ∀ n slash i, i + n ≤ b → Within b (pathSegments p slash i n)
  | 0, _, _, _ => .pure _
  | n + 1, slash, i, h => by
    have rest : ∀ s, Within b (pathSegments p s (i + 1) n) :=
      fun s => pathSegments_within n s (i + 1) (by omega)
    refine .bind (.read8 (by omega)) (.ite (fun _ => ?_) fun _ => ?_)
    · exact .ite (fun _ => .pure _) fun _ => rest true
    · exact .ite (fun _ => rest false) fun _ => .pure _

theorem pathOk_within {i n : Nat} (h : i + n ≤ b) : Within b (dbusUnmarshalPathOk p i n) := by
  refine .ite (fun _ => .pure _) fun h0 => .bind (.read8 (by omega)) ?_
  refine .ite (fun _ => .pure _) fun _ => .ite (fun _ => .pure _) fun _ =>
    .bind (.read8 (by omega)) ?_
  exact .ite (fun _ => .pure _) fun _ => pathSegments_within _ _ _ (by omega)

theorem extent_within {fin vo sig0 : Nat} (h : fin ≤ b) : Within b (dbuExtent p fin vo sig0) := by
  refine .ite (fun _ => ?_) fun _ => .ite (fun _ => ?_) fun _ => .ite (fun _ => .pure _) fun _ =>
    .ite (fun _ => .pure _) fun _ => .pure _
  · exact .ite (fun _ => .pure _) fun _ =>
      .bind (.read32 (by omega)) (.ite (fun _ => .pure _) fun _ => .pure _)
  · exact .ite (fun _ => .pure _) fun _ =>
      .bind (.read8 (by omega)) (.ite (fun _ => .pure _) fun _ => .pure _)

/-- What an extent says of its text and of where the field ends. -/
theorem extent_inside {fin vo sig0 : Nat} {x : FieldExtent}
    (hx : Samvada.dbuExtent p fin vo sig0 = some x) : x.vo < fin ∧ x.nxt ≤ fin ∧
    (sig0 = 115 ∨ sig0 = 111 ∨ sig0 = 103 → x.text + x.len < fin) := by
  unfold Samvada.dbuExtent at hx
  simp only at hx
  split_ifs at hx with h1 h2 h3 h4 h5 h6 h7 h8
  -- the text with a word of length, the signature, the fixed-size value
  · cases hx
    exact ⟨by dsimp only; omega, by dsimp only; omega, fun _ => by dsimp only; omega⟩
  · cases hx
    exact ⟨by dsimp only; omega, by dsimp only; omega, fun _ => by dsimp only; omega⟩
  · cases hx
    exact ⟨by dsimp only; omega, by dsimp only; omega, fun h => absurd h (by omega)⟩

theorem textOk_within {fin vo sig0 : Nat} {x : FieldExtent}
    (hx : Samvada.dbuExtent p fin vo sig0 = some x) (h : fin ≤ b) :
    Within b (dbuTextOk p sig0 x) := by
  obtain ⟨-, -, text⟩ := extent_inside hx
  refine .ite (fun ht => ?_) fun _ => .pure _
  have inside := text ht
  refine .bind (.read8 (by omega)) (.ite (fun _ => .pure _) fun _ => ?_)
  refine .bind (noNul_within _ _ (by omega)) (.ite (fun _ => .pure _) fun _ => ?_)
  exact .ite (fun _ => pathOk_within (by omega)) fun _ => .pure _

theorem findWalk_within {fin code : Nat} (h : fin ≤ b) :
    ∀ n at_, Within b (dbuFindWalk p fin code n at_)
  | 0, _ => .pure _
  | n + 1, at_ => by
    refine .ite (fun _ => .pure _) fun _ => .ite (fun _ => .pure _) fun _ =>
      .ite (fun _ => .pure _) fun room => ?_
    refine .bind (.read8 (by omega))
      (.bind (.read8 (by omega)) (.ite (fun _ => .pure _) fun _ => ?_))
    refine .bind (.read8 (by omega))
      (.bind (.read8 (by omega)) (.ite (fun _ => .pure _) fun _ => ?_))
    refine .ite (fun _ => .pure _) fun _ => .bind (extent_within h) ?_
    rw [extent_val]
    cases Samvada.dbuExtent p fin _ _ with
    | none => exact .pure _
    | some x =>
      exact .ite (fun _ => .pure _) fun _ => .ite (fun _ => .pure _) fun _ =>
        findWalk_within h n x.nxt

theorem findField_within (p : Bytes) (limit code : Nat) :
    Within limit (dbusUnmarshalFindField limit p code) := by
  refine .ite (fun _ => .pure _) fun _ =>
    .bind (.read32 (by omega)) (.ite (fun _ => .pure _) fun _ => ?_)
  exact findWalk_within (by omega) _ _

theorem validateWalk_within {fin : Nat} (h : fin ≤ b) : ∀ n seen at_,
    Within b (dbuValidateWalk p fin n seen at_)
  | 0, _, _ => .pure _
  | n + 1, seen, at_ => by
    refine .ite (fun _ => .pure _) fun _ => .ite (fun _ => .pure _) fun _ =>
      .ite (fun _ => .pure _) fun room => ?_
    refine .bind (.read8 (by omega)) (.ite (fun _ => .pure _) fun _ => ?_)
    refine .bind (.read8 (by omega)) (.ite (fun _ => .pure _) fun _ => ?_)
    refine .bind (.read8 (by omega))
      (.bind (.read8 (by omega)) (.ite (fun _ => .pure _) fun _ => ?_))
    refine .ite (fun _ => .pure _) fun _ => .bind (extent_within h) ?_
    rw [extent_val]
    cases hx : Samvada.dbuExtent p fin _ _ with
    | none => exact .pure _
    | some x =>
      refine .bind (textOk_within hx h) (.ite (fun _ => ?_) fun _ => .pure _)
      exact validateWalk_within h n _ x.nxt

theorem validate_within (p : Bytes) (limit : Nat) :
    Within limit (dbusUnmarshalValidate limit p) := by
  refine .ite (fun _ => .pure _) fun _ =>
    .bind (.read32 (by omega)) (.ite (fun _ => .pure _) fun _ => ?_)
  exact validateWalk_within (by omega) _ _ _

theorem strAt_within (p : Bytes) (limit off : Nat) :
    Within limit (dbusUnmarshalStrAt limit p off) := by
  refine .ite (fun _ => .pure _) fun _ => .ite (fun _ => .pure _) fun _ =>
    .bind (.read32 (by omega)) ?_
  exact .ite (fun _ => .pure _) fun _ => .pure _

theorem sigAt_within (p : Bytes) (limit off : Nat) :
    Within limit (dbusUnmarshalSigAt limit p off) := by
  refine .ite (fun _ => .pure _) fun _ => .ite (fun _ => .pure _) fun _ =>
    .bind (.read8 (by omega)) ?_
  exact .ite (fun _ => .pure _) fun _ => .pure _

/-- The body cursor reads the fixed header whatever the limit is. -/
theorem bodyBegin_reads (p : Bytes) (limit : Nat) :
    (dbusUnmarshalBodyBegin limit p).reads = [12, 13, 14, 15, 4, 5, 6, 7] := by
  rw [dbusUnmarshalBodyBegin, bind_reads, bind_reads]
  split <;> rfl

theorem bodyBegin_within (p : Bytes) {limit : Nat} (h : 16 ≤ limit) :
    Within limit (dbusUnmarshalBodyBegin limit p) := by
  intro i hi
  have small : ∀ i ∈ (dbusUnmarshalBodyBegin limit p).reads, i < 16 := by
    rw [bodyBegin_reads]
    decide
  exact lt_of_lt_of_le (small i hi) h

theorem nextU32_within {c : BodyCursor} (h : c.fin ≤ b) : Within b (dbusUnmarshalNextU32 c) :=
  .ite (fun _ => .pure _) fun room => .bind (.read32 (by dsimp only at room ⊢; omega)) (.pure _)

theorem nextBool_within {c : BodyCursor} (h : c.fin ≤ b) : Within b (dbusUnmarshalNextBool c) := by
  refine .bind (nextU32_within h) ?_
  rcases (dbusUnmarshalNextU32 c).val with ⟨r, c'⟩
  cases r with
  | error e => exact .pure _
  | ok v => exact .ite (fun _ => .pure _) fun _ => .pure _

theorem nextStr_within {c : BodyCursor} (h : c.fin ≤ b) : Within b (dbusUnmarshalNextStr c) :=
  .ite (fun _ => .pure _) fun room =>
    .bind (.read32 (by dsimp only at room ⊢; omega)) (.ite (fun _ => .pure _) fun _ => .pure _)

end Recorded

/-! ## Any sequence of calls -/

/-- A call on the decoder. An offset is non-negative and below 2^62. -/
inductive DecoderOp where
  | findField (code : Nat)
  | validate
  | strAt (off : Fin (2 ^ 62))
  | sigAt (off : Fin (2 ^ 62))
  | bodyBegin
  | nextU32
  | nextBool
  | nextStr
  | nextFdIndex
  deriving DecidableEq, Repr

/-- The positions a text result hands back: its first byte, its length, its NUL. -/
def handedText : Except UnmarshalErr (Nat × Nat) → List Nat
  | .ok (at_, n) => [at_, n, at_ + n]
  | .error _ => []

/-- The position a lookup hands back. -/
def handedValue : Except UnmarshalErr (Nat × Nat) → List Nat
  | .ok (vo, _) => [vo]
  | .error _ => []

/-- One call: the cursor it leaves and the positions it hands back. -/
def decoderStep (limit : Nat) (p : Bytes) (c : BodyCursor) : DecoderOp →
    Probe (BodyCursor × List Nat)
  | .findField code => do
    let r ← Recorded.dbusUnmarshalFindField limit p code
    pure (c, handedValue r)
  | .validate => do
    let _ ← Recorded.dbusUnmarshalValidate limit p
    pure (c, [])
  | .strAt off => do
    let r ← Recorded.dbusUnmarshalStrAt limit p off
    pure (c, handedText r)
  | .sigAt off => do
    let r ← Recorded.dbusUnmarshalSigAt limit p off
    pure (c, handedText r)
  | .bodyBegin => do
    let c' ← Recorded.dbusUnmarshalBodyBegin limit p
    pure (c', [])
  | .nextU32 => do
    let (_, c') ← Recorded.dbusUnmarshalNextU32 c
    pure (c', [])
  | .nextBool => do
    let (_, c') ← Recorded.dbusUnmarshalNextBool c
    pure (c', [])
  | .nextStr => do
    let (r, c') ← Recorded.dbusUnmarshalNextStr c
    pure (c', handedText r)
  | .nextFdIndex => do
    let (_, c') ← Recorded.dbusUnmarshalNextFdIndex c
    pure (c', [])

/-- A sequence of calls: everything they hand back. -/
def decoderRun (limit : Nat) (p : Bytes) : BodyCursor → List DecoderOp → Probe (List Nat)
  | _, [] => pure []
  | c, op :: ops => do
    let (c', handed) ← decoderStep limit p c op
    let more ← decoderRun limit p c' ops
    pure (handed ++ more)

/-- The calls read and hand back positions of the declared extent only. -/
def FailsClosed (limit : Nat) (p : Bytes) (ops : List DecoderOp) : Prop :=
  Within limit (decoderRun limit p {} ops) ∧ ∀ i ∈ (decoderRun limit p {} ops).val, i < limit

instance (limit : Nat) (p : Bytes) (ops : List DecoderOp) : Decidable (FailsClosed limit p ops) :=
  inferInstanceAs (Decidable ((∀ i ∈ _, i < limit) ∧ ∀ i ∈ _, i < limit))

theorem findWalk_ok {p : Bytes} {fin code : Nat} {r : Nat × Nat} : ∀ n at_, dbuFindWalk p fin code n
    at_ = .ok r → r.1 < fin
  | 0, at_, h => by cases h
  | n + 1, at_, h => by
    rw [dbuFindWalk] at h
    cases hx : dbuExtent p fin (align at_ 8 + 4) (load8 p (align at_ 8 + 2)) with
    | none =>
      simp only [hx] at h
      split_ifs at h
    | some x =>
      simp only [hx] at h
      split_ifs at h
      · cases h
        exact (Recorded.extent_inside hx).1
      · exact findWalk_ok n x.nxt h

theorem findField_ok {p : Bytes} {limit code : Nat} {r : Nat × Nat}
    (h : dbusUnmarshalFindField limit p code = .ok r) : r.1 < limit := by
  simp only [dbusUnmarshalFindField] at h
  split_ifs at h with _ inside
  exact lt_of_lt_of_le (findWalk_ok _ _ h) (by omega)

theorem handedValue_lt {limit code : Nat} {p : Bytes} :
    ∀ i ∈ handedValue (dbusUnmarshalFindField limit p code), i < limit := by
  intro i hi
  cases h : dbusUnmarshalFindField limit p code with
  | error e =>
    rw [h] at hi
    cases hi
  | ok r =>
    rw [h] at hi
    rw [List.mem_singleton.mp hi]
    exact findField_ok h

/-- A text that ends before its NUL, inside `limit`, is handed back inside `limit`. -/
theorem handedText_lt {limit at_ n : Nat} (h : at_ + n < limit) : ∀ i ∈ handedText (.ok (at_, n)),
    i < limit := by
  simp only [handedText, List.mem_cons, List.not_mem_nil, or_false]
  omega

theorem handedError_lt {limit : Nat} {e : UnmarshalErr} : ∀ i ∈ handedText (.error e), i < limit :=
  fun _ h => by cases h

theorem strAt_lt (limit : Nat) (p : Bytes) (off : Nat) :
    ∀ i ∈ handedText (dbusUnmarshalStrAt limit p off), i < limit := by
  unfold dbusUnmarshalStrAt
  simp only
  split_ifs
  · exact handedError_lt
  · exact handedError_lt
  · exact handedError_lt
  · exact handedText_lt (by omega)

theorem sigAt_lt (limit : Nat) (p : Bytes) (off : Nat) :
    ∀ i ∈ handedText (dbusUnmarshalSigAt limit p off), i < limit := by
  unfold dbusUnmarshalSigAt
  simp only
  split_ifs
  · exact handedError_lt
  · exact handedError_lt
  · exact handedError_lt
  · exact handedText_lt (by omega)

theorem bodyBegin_fin (limit : Nat) (p : Bytes) : (dbusUnmarshalBodyBegin limit p).fin ≤ limit := by
  unfold dbusUnmarshalBodyBegin
  split_ifs
  · exact Nat.zero_le _
  · exact Nat.min_le_right _ _

theorem nextU32_fin (c : BodyCursor) : (dbusUnmarshalNextU32 c).2.fin = c.fin := by
  unfold dbusUnmarshalNextU32
  simp only
  split_ifs <;> rfl

theorem nextBool_fin (c : BodyCursor) : (dbusUnmarshalNextBool c).2.fin = c.fin := by
  have word := nextU32_fin c
  rw [dbusUnmarshalNextBool]
  rcases h : dbusUnmarshalNextU32 c with ⟨r, c'⟩
  rw [h] at word
  cases r with
  | error e => exact word
  | ok v =>
    dsimp only
    split_ifs <;> exact word

theorem nextStr_fin (c : BodyCursor) : (dbusUnmarshalNextStr c).2.fin = c.fin := by
  unfold dbusUnmarshalNextStr
  simp only
  split_ifs <;> rfl

theorem nextStr_lt {c : BodyCursor} {limit : Nat} (h : c.fin ≤ limit) :
    ∀ i ∈ handedText (dbusUnmarshalNextStr c).1, i < limit := by
  unfold dbusUnmarshalNextStr
  simp only
  split_ifs
  · exact handedError_lt
  · exact handedError_lt
  · exact handedText_lt (by omega)

/-- One call whose fixed header is inside the limit, if it reads it: it stays
inside, and so does the cursor. -/
theorem decoderStep_within {limit : Nat} {p : Bytes} {c : BodyCursor} {op : DecoderOp}
    (hc : c.fin ≤ limit) (h : 16 ≤ limit ∨ op ≠ .bodyBegin) :
    Within limit (decoderStep limit p c op) ∧
      (decoderStep limit p c op).val.1.fin ≤ limit ∧ ∀ i ∈ (decoderStep limit p c op).val.2,
      i < limit := by
  have none : ∀ i ∈ ([] : List Nat), i < limit := fun _ h => by cases h
  cases op with
  | findField code =>
    refine ⟨.bind (Recorded.findField_within p limit code) (.pure _), hc, ?_⟩
    rw [decoderStep, bind_val, Recorded.findField_val]
    exact handedValue_lt
  | validate => exact ⟨.bind (Recorded.validate_within p limit) (.pure _), hc, none⟩
  | strAt off =>
    refine ⟨.bind (Recorded.strAt_within p limit off) (.pure _), hc, ?_⟩
    rw [decoderStep, bind_val, Recorded.strAt_val]
    exact strAt_lt limit p off
  | sigAt off =>
    refine ⟨.bind (Recorded.sigAt_within p limit off) (.pure _), hc, ?_⟩
    rw [decoderStep, bind_val, Recorded.sigAt_val]
    exact sigAt_lt limit p off
  | bodyBegin =>
    refine ⟨.bind (Recorded.bodyBegin_within p (h.resolve_right fun h => h rfl))
      (.pure _), ?_, none⟩
    rw [decoderStep, bind_val, Recorded.bodyBegin_val]
    exact bodyBegin_fin limit p
  | nextU32 =>
    refine ⟨.bind (Recorded.nextU32_within hc) (.pure _), ?_, none⟩
    rw [decoderStep, bind_val, Recorded.nextU32_val]
    exact (nextU32_fin c).le.trans hc
  | nextBool =>
    refine ⟨.bind (Recorded.nextBool_within hc) (.pure _), ?_, none⟩
    rw [decoderStep, bind_val, Recorded.nextBool_val]
    exact (nextBool_fin c).le.trans hc
  | nextStr =>
    refine ⟨.bind (Recorded.nextStr_within hc) (.pure _), ?_, ?_⟩
    · rw [decoderStep, bind_val, Recorded.nextStr_val]
      exact (nextStr_fin c).le.trans hc
    · rw [decoderStep, bind_val, Recorded.nextStr_val]
      exact nextStr_lt hc
  | nextFdIndex =>
    refine ⟨.bind (Recorded.nextU32_within hc) (.pure _), ?_, none⟩
    rw [decoderStep, bind_val, Recorded.dbusUnmarshalNextFdIndex, Recorded.nextU32_val]
    exact (nextU32_fin c).le.trans hc

/-- A run whose calls keep to the limit keeps to it. -/
theorem decoderRun_within {limit : Nat} {p : Bytes} : ∀ {ops : List DecoderOp} {c : BodyCursor},
    c.fin ≤ limit →
    (16 ≤ limit ∨ .bodyBegin ∉ ops) → Within limit (decoderRun limit p c ops) ∧
    ∀ i ∈ (decoderRun limit p c ops).val, i < limit
  | [], _, _, _ => ⟨.pure _, fun _ h => by cases h⟩
  | op :: ops, c, hc, h => by
    have first : 16 ≤ limit ∨ op ≠ .bodyBegin := h.imp_right fun h e => h (e ▸ List.mem_cons_self)
    have later : 16 ≤ limit ∨ .bodyBegin ∉ ops :=
      h.imp_right fun h m => h (List.mem_cons_of_mem _ m)
    obtain ⟨reads, fin, handed⟩ := decoderStep_within hc first (p := p)
    obtain ⟨moreReads, moreHanded⟩ := decoderRun_within fin later
    refine ⟨.bind reads (.bind moreReads (.pure _)), fun i hi => ?_⟩
    rcases List.mem_append.mp hi with hi | hi
    · exact handed i hi
    · exact moreHanded i hi

/-- A run that opens the body reads the last byte of the fixed header. -/
theorem decoderRun_reads_header {limit : Nat} {p : Bytes} :
    ∀ {ops : List DecoderOp} {c : BodyCursor}, .bodyBegin ∈ ops →
    15 ∈ (decoderRun limit p c ops).reads
  | op :: ops, c, h => by
    rw [decoderRun, bind_reads]
    rcases List.mem_cons.mp h with rfl | h
    · apply List.mem_append_left
      rw [decoderStep, bind_reads, Recorded.bodyBegin_reads]
      exact List.mem_append_left _ (by decide)
    · exact List.mem_append_right _ (List.mem_append_left _ (decoderRun_reads_header h))

/-- **The decoder fails closed except that it opens the body unchecked.** Over any
sequence of calls, every read and every position handed back is below the limit
exactly when the limit covers the fixed header or no call opens the body. -/
theorem decoder_fails_closed_iff (limit : Nat) (p : Bytes) (ops : List DecoderOp) :
    FailsClosed limit p ops ↔ 16 ≤ limit ∨ DecoderOp.bodyBegin ∉ ops := by
  constructor
  · intro h
    by_contra hn
    obtain ⟨hl, hb⟩ := not_or.mp hn
    have := h.1 15 (decoderRun_reads_header (not_not.mp hb))
    omega
  · exact decoderRun_within (Nat.zero_le _)

/-- With no limit declared, opening the body reads the header all the same. -/
theorem unset_limit_reads_header : ¬ FailsClosed 0 [] [.bodyBegin] := by decide

end Samvada
