import Samvada.Unmarshal
import Mathlib.Data.List.Chain

/- The format of a message's field array, and that the validator accepts exactly
   it. The grammar is stated over the bytes: a field is a code, a type and the
   content of its value, `FieldAt` says when one stands at a position, and
   `Fields` strings them together. -/
namespace Samvada
open Octets

/-! ## Object paths -/

/-- A segment of an object path. -/
def PathWord (w : Bytes) : Prop := w ≠ [] ∧ ∀ c ∈ w, isPathWord c = true

/-- `/`, or segments each after a `/`. -/
inductive ObjectPath : Bytes → Prop where
  | root : ObjectPath [47]
  | segments (ws : List Bytes) (h : ws ≠ []) (hw : ∀ w ∈ ws, PathWord w) :
      ObjectPath (ws.flatMap (47 :: ·))

/-- The last byte is not a slash. -/
def NoTrail (cs : Bytes) : Prop := cs.getLast? ≠ some 47

theorem noTrail_cons {c : UInt8} {cs : Bytes} (h : cs ≠ []) : NoTrail (c :: cs) ↔ NoTrail cs := by
  obtain ⟨d, ds, rfl⟩ := List.exists_cons_of_ne_nil h
  rw [NoTrail, NoTrail, List.getLast?_cons_cons]

theorem slash_not_word : isPathWord 47 = false := by decide

/-- **The path loop, from inside a segment and from after a slash**: what is
left is the rest of a segment, or a whole one, and further segments. -/
theorem pathSegments_iff (cs : Bytes) :
    (pathSegments false cs = true ∧ NoTrail cs ↔ ∃ (w : Bytes) (ws : List Bytes),
    (∀ c ∈ w, isPathWord c = true) ∧
      (∀ w ∈ ws, PathWord w) ∧ cs = w ++ ws.flatMap (47 :: ·)) ∧
    (pathSegments true cs = true ∧ cs ≠ [] ∧ NoTrail cs ↔ ∃ (w : Bytes) (ws : List Bytes),
    PathWord w ∧
      (∀ w ∈ ws, PathWord w) ∧ cs = w ++ ws.flatMap (47 :: ·)) := by
  induction cs with
  | nil =>
    refine ⟨⟨fun _ => ⟨[], [], by simp, by simp, rfl⟩, fun _ => ⟨rfl, by simp [NoTrail]⟩⟩,
      ⟨fun h => absurd rfl h.2.1, ?_⟩⟩
    rintro ⟨w, ws, hw, -, e⟩
    exact absurd (List.append_eq_nil_iff.mp e.symm).1 hw.1
  | cons c cs ih =>
    obtain ⟨inside, after⟩ := ih
    by_cases hc : c = 47
    · subst hc
      constructor
      · -- a slash ends the segment: a whole one must follow
        have go : pathSegments false (47 :: cs) = pathSegments true cs := by simp [pathSegments]
        constructor
        · rintro ⟨h, ht⟩
          rw [go] at h
          have hne : cs ≠ [] := by
            rintro rfl
            simp [NoTrail] at ht
          obtain ⟨w, ws, hw, hws, e⟩ := after.mp ⟨h, hne, (noTrail_cons hne).mp ht⟩
          refine ⟨[], w :: ws, by simp, ?_, by rw [e]; rfl⟩
          intro x hx
          rcases List.mem_cons.mp hx with rfl | hx
          · exact hw
          · exact hws x hx
        · rintro ⟨w, ws, hw, hws, e⟩
          cases w with
          | cons d w =>
            have hd : 47 = d := (List.cons.inj e).1
            have := hw d (List.mem_cons_self ..)
            rw [← hd, slash_not_word] at this
            cases this
          | nil =>
            cases ws with
            | nil => cases e
            | cons v ws =>
              have e' : cs = v ++ ws.flatMap (47 :: ·) := (List.cons.inj e).2
              obtain ⟨h, hne, ht⟩ := after.mpr ⟨v, ws, hws v (List.mem_cons_self ..),
                fun x hx => hws x (List.mem_cons_of_mem _ hx), e'⟩
              exact ⟨go.trans h, (noTrail_cons hne).mpr ht⟩
      · constructor
        · rintro ⟨h, -⟩
          simp [pathSegments] at h
        · rintro ⟨w, ws, hw, -, e⟩
          obtain ⟨d, w', rfl⟩ := List.exists_cons_of_ne_nil hw.1
          have hd : 47 = d := (List.cons.inj e).1
          have := hw.2 d (List.mem_cons_self ..)
          rw [← hd, slash_not_word] at this
          cases this
    · -- any other byte is one of a segment
      have step (slash : Bool) :
        pathSegments slash (c :: cs) = (isPathWord c && pathSegments false cs) := by
        rw [pathSegments, if_neg hc]
        cases isPathWord c <;> rfl
      have trail : NoTrail (c :: cs) ↔ NoTrail cs := by
        by_cases hne : cs = []
        · subst hne
          simp [NoTrail, hc]
        · exact noTrail_cons hne
      have word : isPathWord c = true ∧ pathSegments false cs = true ∧ NoTrail (c :: cs) ↔
          ∃ (w : Bytes) (ws : List Bytes), PathWord w ∧ (∀ w ∈ ws, PathWord w) ∧
          c :: cs = w ++ ws.flatMap (47 :: ·) := by
        rw [trail, inside]
        constructor
        · rintro ⟨hcw, w, ws, hw, hws, rfl⟩
          exact ⟨c :: w, ws,
            ⟨by simp, fun x hx => (List.mem_cons.mp hx).elim (fun e => e ▸ hcw) (hw x)⟩, hws, rfl⟩
        · rintro ⟨w, ws, hw, hws, e⟩
          obtain ⟨d, w', rfl⟩ := List.exists_cons_of_ne_nil hw.1
          obtain ⟨rfl, e'⟩ := List.cons.inj e
          exact ⟨hw.2 c (List.mem_cons_self ..), w', ws, fun x hx =>
            hw.2 x (List.mem_cons_of_mem _ hx), hws, e'⟩
      rw [step, step, Bool.and_eq_true, and_assoc]
      constructor
      · rw [word]
        constructor
        · rintro ⟨w, ws, hw, hws, e⟩
          exact ⟨w, ws, hw.2, hws, e⟩
        · rintro ⟨w, ws, hw, hws, e⟩
          refine ⟨w, ws, ⟨?_, hw⟩, hws, e⟩
          rintro rfl
          cases ws with
          | nil => cases e
          | cons v ws => exact hc (List.cons.inj e).1
      · rw [← word, and_assoc]
        simp

theorem objectPath_iff (c : UInt8) (cs : Bytes) : ObjectPath (c :: cs) ↔
    c = 47 ∧ (cs = [] ∨ pathSegments true cs = true ∧ cs ≠ [] ∧ NoTrail cs) := by
  rw [(pathSegments_iff cs).2]
  constructor
  · intro h
    generalize hs : c :: cs = s at h
    cases h with
    | root => exact ⟨(List.cons.inj hs).1, .inl (List.cons.inj hs).2⟩
    | segments ws h hw =>
      obtain ⟨v, ws, rfl⟩ := List.exists_cons_of_ne_nil h
      obtain ⟨hc, hcs⟩ := List.cons.inj hs
      exact ⟨hc, .inr ⟨v, ws, hw v (List.mem_cons_self ..), fun w hm =>
        hw w (List.mem_cons_of_mem _ hm), hcs⟩⟩
  · rintro ⟨rfl, rfl | ⟨w, ws, hw, hws, rfl⟩⟩
    · exact .root
    · refine .segments (w :: ws) (by simp) fun x hx => ?_
      rcases List.mem_cons.mp hx with rfl | hx
      · exact hw
      · exact hws x hx

theorem load8_cons_last {c : UInt8} {cs : Bytes} (h : cs ≠ []) {i : Nat} (hi : i = cs.length) :
    load8 (c :: cs) i = (cs.getLast h).toNat := by
  have hpos := List.length_pos_iff.mpr h
  obtain ⟨j, rfl⟩ : ∃ j, i = j + 1 := ⟨i - 1, by omega⟩
  have hj : j < cs.length := by omega
  rw [load8, List.getD_cons_succ, List.getD_eq_getElem _ _ hj, List.getLast_eq_getElem]
  congr 2
  omega

/-- **The path check accepts object paths.** -/
theorem dbusUnmarshalPathOk_iff (p : Bytes) (n : Nat) :
    dbusUnmarshalPathOk p n = true ↔ ObjectPath (loadN p 0 n) := by
  have hl := loadN_length p 0 n
  unfold dbusUnmarshalPathOk
  rw [Int.toNat_natCast]
  match hs : loadN p 0 n with
  | [] =>
    rw [hs] at hl
    have h0 : (n : Int) ≤ 0 := by simp at hl; omega
    rw [if_pos h0]
    constructor
    · intro h
      cases h
    · intro h
      generalize hb : ([] : Bytes) = b at h
      cases h with
      | root => cases hb
      | segments ws h hw =>
        obtain ⟨v, ws, rfl⟩ := List.exists_cons_of_ne_nil h
        cases hb
  | c :: cs =>
    rw [hs, List.length_cons] at hl
    have h0 : ¬ (n : Int) ≤ 0 := by omega
    have first : load8 p 0 = c.toNat := by
      have := load8_loadN (p := p) (i := 0) (n := n) (j := 0) (by omega)
      rw [hs, Nat.zero_add] at this
      exact this.symm
    have isSlash : load8 p 0 ≠ 47 ↔ ¬ c = 47 := by
      rw [first]
      exact not_congr ⟨fun h => UInt8.toNat_inj.mp h, fun h => by rw [h]; rfl⟩
    rw [if_neg h0, objectPath_iff]
    simp only [isSlash, List.drop_one, List.tail_cons]
    by_cases hc : c = 47
    · rw [if_neg (not_not.mpr hc)]
      by_cases h1 : cs = []
      · subst h1
        have : (n : Int) = 1 := by simp at hl; omega
        rw [if_pos this]
        simp [hc]
      · have hpos := List.length_pos_iff.mpr h1
        have hn1 : ¬ (n : Int) = 1 := by omega
        have last : load8 p ((n : Int) - 1).toNat = 47 ↔ ¬ NoTrail cs := by
          have e := load8_loadN (p := p) (i := 0) (n := n) (j := ((n : Int) - 1).toNat) (by omega)
          rw [hs, Nat.zero_add] at e
          rw [← e, NoTrail, not_not, List.getLast?_eq_some_getLast h1,
            load8_cons_last h1 (by omega)]
          exact ⟨fun h => congrArg some (UInt8.toNat_inj.mp h), fun h =>
            by rw [Option.some.inj h]; rfl⟩
        rw [if_neg hn1]
        simp only [last, h1, hc, false_or, true_and, ne_eq, not_false_eq_true]
        split
        · simp_all
        · simp_all
    · rw [if_pos hc]
      simp [hc]

/-- The characters of a segment, as the specification lists them. -/
def pathChars : Bytes := lit "ABCDEFGHIJKLMNOPQRSTUVWXYZabcdefghijklmnopqrstuvwxyz0123456789_"

theorem isPathWord_iff (c : UInt8) : isPathWord c = true ↔ c ∈ pathChars := by
  have all : ∀ n < 256, isPathWord (UInt8.ofNat n) = decide (UInt8.ofNat n ∈ pathChars) := by
    decide +kernel
  have here := all c.toNat (UInt8.toNat_lt c)
  rw [UInt8.ofNat_toNat] at here
  rw [here, decide_eq_true_iff]

/-- Segments after slashes: no NUL, no two slashes together, and none at the end. -/
theorem segments_shape {ws : List Bytes} (hw : ∀ w ∈ ws, PathWord w) :
    (∀ c ∈ ws.flatMap (47 :: ·), c ≠ 0) ∧ (ws.flatMap (47 :: ·)).IsChain
    (fun a b => ¬(a = 47 ∧ b = 47)) ∧
      NoTrail (ws.flatMap (47 :: ·)) := by
  induction ws with
  | nil => exact ⟨by simp, List.isChain_nil, by simp [NoTrail]⟩
  | cons w ws ih =>
    obtain ⟨hne, hchars⟩ := hw w List.mem_cons_self
    obtain ⟨clean, chain, trail⟩ := ih fun v hv => hw v (List.mem_cons_of_mem _ hv)
    have char {c : UInt8} (hc : c ∈ w) : c ≠ 0 ∧ c ≠ 47 := by
      have word := hchars c hc
      constructor
      · rintro rfl
        exact absurd word (by decide)
      · rintro rfl
        exact absurd word (by decide)
    have last : w.getLast? ≠ some 47 := fun h => (char (List.mem_of_getLast? h)).2 rfl
    rw [List.flatMap_cons]
    refine ⟨fun c hc => ?_, ?_, ?_⟩
    · obtain hc | hc := List.mem_append.mp hc
      · obtain rfl | hc := List.mem_cons.mp hc
        · decide
        · exact (char hc).1
      · exact clean c hc
    · have inside : (47 :: w).IsChain (fun a b => ¬(a = 47 ∧ b = 47)) := by
        refine List.IsChain.cons ?_ fun c hc h => (char (List.mem_of_head? hc)).2 h.2
        have apart : w.Pairwise fun a b => ¬(a = 47 ∧ b = 47) :=
          List.pairwise_of_forall_mem_list fun a ha b _ h => (char ha).2 h.1
        exact apart.isChain
      refine inside.append chain fun a ha b _ h => ?_
      rw [List.getLast?_cons_of_ne_nil hne] at ha
      exact last (h.1 ▸ ha)
    · intro h
      rw [List.getLast?_append] at h
      cases hf : (ws.flatMap (47 :: ·)).getLast? with
      | some c =>
        rw [hf] at h
        exact trail (hf.trans h)
      | none =>
        rw [hf, List.getLast?_cons_of_ne_nil hne] at h
        exact last h

/-- **Exactly the object paths pass**: `/`, or groups of a slash and one or more
characters; so what passes has no NUL, no empty segment and no trailing slash. -/
theorem path_ok_exact (p : Bytes) (n : Int) :
    (dbusUnmarshalPathOk p n = true ↔ 0 < n ∧
    (loadN p 0 n.toNat = [47] ∨ ∃ ws : List Bytes, ws ≠ [] ∧
      (∀ w ∈ ws, w ≠ [] ∧ ∀ c ∈ w, c ∈ pathChars) ∧ loadN p 0 n.toNat = ws.flatMap (47 :: ·))) ∧
    (dbusUnmarshalPathOk p n = true → (∀ c ∈ loadN p 0 n.toNat, c ≠ 0) ∧ ¬ [47, 47] <:+:
    loadN p 0 n.toNat ∧
      (loadN p 0 n.toNat ≠ [47] → (loadN p 0 n.toNat).getLast? ≠ some 47)) := by
  have words (ws : List Bytes) : (∀ w ∈ ws, w ≠ [] ∧ ∀ c ∈ w, c ∈ pathChars) ↔ ∀ w ∈ ws,
    PathWord w := by
    simp only [PathWord, isPathWord_iff]
  have path (s : Bytes) : ObjectPath s ↔ s = [47] ∨ ∃ ws : List Bytes, ws ≠ [] ∧
      (∀ w ∈ ws, w ≠ [] ∧ ∀ c ∈ w, c ∈ pathChars) ∧ s = ws.flatMap (47 :: ·) := by
    constructor
    · intro h
      cases h with
      | root => exact .inl rfl
      | segments ws h hw => exact .inr ⟨ws, h, (words ws).mpr hw, rfl⟩
    · rintro (rfl | ⟨ws, h, hw, rfl⟩)
      · exact .root
      · exact .segments ws h ((words ws).mp hw)
  have accepts : dbusUnmarshalPathOk p n = true ↔ 0 < n ∧ ObjectPath (loadN p 0 n.toNat) := by
    by_cases hn : 0 < n
    · have len : ((n.toNat : Nat) : Int) = n := by omega
      have here := dbusUnmarshalPathOk_iff p n.toNat
      rw [len] at here
      rw [here, and_iff_right hn]
    · have refused : dbusUnmarshalPathOk p n = false := by
        unfold dbusUnmarshalPathOk
        rw [if_pos (by omega)]
      simp [refused, hn]
  refine ⟨by rw [accepts, path], fun h => ?_⟩
  generalize loadN p 0 n.toNat = s at accepts
  cases (accepts.mp h).2 with
  | root => exact ⟨by simp, by decide, fun h => absurd rfl h⟩
  | segments ws h hw =>
    obtain ⟨clean, chain, trail⟩ := segments_shape hw
    refine ⟨clean, fun two => ?_, fun _ => trail⟩
    have pair := List.IsChain.infix chain two
    exact List.isChain_pair.mp pair ⟨rfl, rfl⟩

/-- A seat's path is one of them, of two groups. -/
theorem path_ok_exact_seat : (∀ c ∈ loadN (lit "/seat/seat0") 0 11, c ≠ 0) ∧
    ¬ [47, 47] <:+: loadN (lit "/seat/seat0") 0 11 ∧
    (loadN (lit "/seat/seat0") 0 11 ≠ [47] → (loadN (lit "/seat/seat0") 0 11).getLast? ≠ some 47) :=
  (path_ok_exact (lit "/seat/seat0") 11).2 (by decide)

/-! ## Fields -/

/-- A header field: its code, its type, and the content of its value. -/
structure Field where
  code : Nat
  type : Nat
  value : Bytes
  deriving DecidableEq, Repr

/-- The basic types of a fixed size, `y n q b i u h x t d`, with the size: their alignment too. -/
def fixedTypes : List (Nat × Nat) :=
  [(121, 1), (110, 2), (113, 2), (98, 4), (105, 4), (117, 4), (104, 4), (120, 8),
    (116, 8), (100, 8)]

/-- The defined codes, with their types. -/
def definedTypes : List (Nat × Nat) :=
  [(1, 111), (2, 115), (3, 115), (4, 115), (5, 117), (6, 115), (7, 115), (8, 103), (9, 117)]

theorem dbuBasicSize_fixed : ∀ {e : Nat × Nat}, e ∈ fixedTypes → dbuBasicSize e.1 = e.2 := by decide

theorem dbuBasicSize_iff {t sz : Nat} (h : sz ≠ 0) : dbuBasicSize t = sz ↔
    (t, sz) ∈ fixedTypes := by
  refine ⟨fun e => ?_, dbuBasicSize_fixed⟩
  subst e
  unfold dbuBasicSize at h ⊢
  split_ifs with h1 h2 h4 h8
  · simp [fixedTypes, h1]
  · rcases h2 with rfl | rfl <;> decide
  · rcases h4 with rfl | rfl | rfl | rfl <;> decide
  · rcases h8 with rfl | rfl | rfl <;> decide
  · simp [h1, h2, h4, h8] at h

theorem dbuFieldType_defined : ∀ {e : Nat × Nat}, e ∈ definedTypes →
    dbuFieldType e.1 = e.2 := by decide

theorem dbuFieldType_iff {c t : Nat} (h : t ≠ 0) : dbuFieldType c = t ↔ (c, t) ∈ definedTypes := by
  refine ⟨fun e => ?_, dbuFieldType_defined⟩
  subst e
  unfold dbuFieldType at h ⊢
  split_ifs with h1 hs hu hg
  · simp [definedTypes, h1]
  · rcases hs with rfl | rfl | rfl | rfl | rfl <;> decide
  · rcases hu with rfl | rfl <;> decide
  · subst hg
    decide
  · simp [h1, hs, hu, hg] at h

/-- A string or an object path. -/
abbrev Stringy (t : Nat) : Prop := t = 115 ∨ t = 111

/-- A value of type `t` and content `v` stands at `vo`, the first position from
`start` its type allows, inside `[0, fin)`, and ends at `nxt`. -/
inductive ValueAt (p : Bytes) (fin start : Nat) : Nat → Bytes → Nat → Nat → Prop where
  | text {t vo : Nat} {v : Bytes} (ht : Stringy t) (hvo : vo = align start 4)
      (hin : vo + 4 + v.length + 1 ≤ fin)
    (hn : load32 p vo = v.length) (hv : loadN p (vo + 4) v.length = v)
    (hnul : load8 p (vo + 4 + v.length) = 0) : ValueAt p fin start t v vo (vo + 4 + v.length + 1)
  | signature {v : Bytes} (hin : start + 1 + v.length + 1 ≤ fin) (hn : load8 p start = v.length)
    (hv : loadN p (start + 1) v.length = v) (hnul : load8 p (start + 1 + v.length) = 0) :
    ValueAt p fin start 103 v start (start + 1 + v.length + 1)
  | fixed {t sz vo : Nat} {v : Bytes} (ht : (t, sz) ∈ fixedTypes) (hvo : vo = align start sz)
      (hin : vo + sz ≤ fin)
    (hv : loadN p vo sz = v) : ValueAt p fin start t v vo (vo + sz)

/-- What a text of type `t` may hold: no NUL, and a path is a path. -/
def CleanText (t : Nat) (v : Bytes) : Prop :=
  (Stringy t ∨ t = 103 → ∀ b ∈ v, b ≠ 0) ∧ (t = 111 → ObjectPath v)

/-- A field stands at `pos`, its value at `vo`; it ends at `nxt`. -/
structure FieldAt (p : Bytes) (fin pos : Nat) (f : Field) (vo nxt : Nat) : Prop where
  head : pos + 4 ≤ fin
  code : load8 p pos = f.code
  valid : f.code ≠ 0
  one : load8 p (pos + 1) = 1
  type : load8 p (pos + 2) = f.type
  nul : load8 p (pos + 3) = 0
  defined : ∀ t, (f.code, t) ∈ definedTypes → f.type = t
  value : ValueAt p fin (pos + 4) f.type f.value vo nxt
  clean : CleanText f.type f.value

/-- The bytes `[n, fin)` are these fields, each at a multiple of 8, up to a gap
that reaches no further multiple of 8. -/
inductive Fields (p : Bytes) (fin : Nat) : Nat → List Field → Prop where
  | nil {n : Nat} (h : fin ≤ align n 8) : Fields p fin n []
  | cons {n vo nxt : Nat} {f : Field} {fs : List Field} (h : FieldAt p fin (align n 8) f vo nxt)
    (rest : Fields p fin nxt fs) : Fields p fin n (f :: fs)

/-- The message at `p` has these header fields, and `limit` bytes hold them. -/
structure WellFormed (limit : Nat) (p : Bytes) (fs : List Field) : Prop where
  header : 16 ≤ limit
  inside : 16 + dbusUnmarshalFieldsLen p ≤ limit
  fields : Fields p (16 + dbusUnmarshalFieldsLen p) 16 fs
  once : ∀ c t, (c, t) ∈ definedTypes → (fs.map Field.code).count c ≤ 1

/-! ## Values -/

theorem noNul_iff (p : Bytes) (i n : Nat) : dbuNoNul (p.drop i) n = true ↔
    ∀ b ∈ loadN p i n, b ≠ 0 := by
  simp [dbuNoNul, loadN_drop]

/-- The validator's conditions on a text. -/
theorem dbuTextOk_iff {p : Bytes} {t : Nat} {x : FieldExtent} (ht : Stringy t ∨ t = 103) :
    dbuTextOk p t x = true ↔ load8 p (x.text + x.len) = 0 ∧ CleanText t (loadN p x.text x.len) := by
  have path : t = 111 ∧ dbusUnmarshalPathOk (p.drop x.text) x.len = true ↔ t = 111 ∧
    ObjectPath (loadN p x.text x.len) := by
    rw [dbusUnmarshalPathOk_iff, loadN_drop]
  have texty : t = 115 ∨ t = 111 ∨ t = 103 := by
    unfold Stringy at ht
    omega
  rw [dbuTextOk, if_pos texty]
  simp only [Bool.and_eq_true, beq_iff_eq, noNul_iff, Bool.or_eq_true, bne_iff_ne,
    CleanText, and_assoc]
  constructor
  · rintro ⟨h0, hn, hp⟩
    exact ⟨h0, fun _ => hn, fun h => (path.mp ⟨h, hp.resolve_left (not_not.mpr h)⟩).2⟩
  · rintro ⟨h0, hn, hp⟩
    refine ⟨h0, hn ht, ?_⟩
    by_cases h : t = 111
    · exact .inr (path.mpr ⟨h, hp h⟩).2
    · exact .inl h

theorem fixed_not_text {t sz : Nat} (h : (t, sz) ∈ fixedTypes) : ¬ Stringy t ∧
    t ≠ 103 ∧ sz ≠ 0 := by
  have all : ∀ e ∈ fixedTypes, (e.1 ≠ 115 ∧ e.1 ≠ 111) ∧ e.1 ≠ 103 ∧ e.2 ≠ 0 := by decide
  obtain ⟨h1, h2, h3⟩ := all _ h
  exact ⟨fun hs => hs.elim h1.1 h1.2, h2, h3⟩

theorem textOk_fixed {p : Bytes} {t : Nat} {x : FieldExtent} (h : ¬ Stringy t) (h' : t ≠ 103) :
    dbuTextOk p t x = true := by
  have none : ¬ (t = 115 ∨ t = 111 ∨ t = 103) := by
    unfold Stringy at h
    omega
  rw [dbuTextOk, if_neg none]

/-- An extent whose text passes is a value. -/
theorem value_of_extent {p : Bytes} {fin start t : Nat} {x : FieldExtent}
    (hx : dbuExtent p fin start t = some x) (ht : dbuTextOk p t x = true) :
    ∃ v, ValueAt p fin start t v x.vo x.nxt ∧ CleanText t v := by
  unfold dbuExtent at hx
  by_cases hs : Stringy t
  · rw [if_pos hs] at hx
    simp only at hx
    split_ifs at hx with h1 h2
    cases hx
    obtain ⟨hnul, clean⟩ := (dbuTextOk_iff (.inl hs)).mp ht
    refine ⟨_, ?_, clean⟩
    have length := loadN_length p (align start 4 + 4) (load32 p (align start 4))
    have value : ValueAt p fin start t (loadN p (align start 4 + 4) (load32 p (align start 4)))
      (align start 4) _ :=
      .text hs rfl (by rw [length]; omega) length.symm (by rw [length]) (by rw [length]; exact hnul)
    rw [length] at value
    exact value
  by_cases hg : t = 103
  · subst hg
    rw [if_neg hs, if_pos rfl] at hx
    simp only at hx
    split_ifs at hx with h1 h2
    cases hx
    obtain ⟨hnul, clean⟩ := (dbuTextOk_iff (.inr rfl)).mp ht
    refine ⟨_, ?_, clean⟩
    have length := loadN_length p (start + 1) (load8 p start)
    have value : ValueAt p fin start 103 (loadN p (start + 1) (load8 p start)) start _ :=
      .signature (by rw [length]; omega) length.symm (by rw [length]) (by rw [length]; exact hnul)
    rw [length] at value
    exact value
  · rw [if_neg hs, if_neg hg] at hx
    simp only at hx
    split_ifs at hx with h0 h1
    cases hx
    have hin : align start (dbuBasicSize t) + dbuBasicSize t ≤ fin := by omega
    refine ⟨_, .fixed ((dbuBasicSize_iff h0).mp rfl) rfl hin rfl, ?_, fun h => absurd (.inr h) hs⟩
    intro h
    exact absurd h (not_or.mpr ⟨hs, hg⟩)

/-- A value is an extent whose text passes. -/
theorem ValueAt.extent {p : Bytes} {fin start t vo nxt : Nat} {v : Bytes}
    (h : ValueAt p fin start t v vo nxt)
    (clean : CleanText t v) : ∃ x, dbuExtent p fin start t = some x ∧ dbuTextOk p t x = true ∧
    x.vo = vo ∧ x.nxt = nxt := by
  cases h with
  | text ht hvo hin hn hv hnul =>
    subst hvo
    have h1 : ¬ fin < align start 4 + 4 := by omega
    have h2 : ¬ fin < align start 4 + 4 + v.length + 1 := by omega
    refine ⟨⟨align start 4, align start 4 + 4, v.length, align start 4 + 4 + v.length + 1⟩,
      ?_, ?_, rfl, rfl⟩
    · rw [dbuExtent, if_pos ht]
      simp only [h1, hn, h2, if_false]
    · exact (dbuTextOk_iff (.inl ht)).mpr ⟨hnul, hv.symm ▸ clean⟩
  | signature hin hn hv hnul =>
    have hs : ¬ Stringy 103 := by unfold Stringy; omega
    have h1 : ¬ fin < start + 1 := by omega
    have h2 : ¬ fin < start + 1 + v.length + 1 := by omega
    refine ⟨⟨start, start + 1, v.length, start + 1 + v.length + 1⟩, ?_, ?_, rfl, rfl⟩
    · rw [dbuExtent, if_neg hs, if_pos rfl]
      simp only [h1, hn, h2, if_false]
    · exact (dbuTextOk_iff (.inr rfl)).mpr ⟨hnul, hv.symm ▸ clean⟩
  | @fixed t sz vo v ht hvo hin hv =>
    subst hvo
    obtain ⟨hs, hg, h0⟩ := fixed_not_text ht
    have size := dbuBasicSize_fixed ht
    have h1 : ¬ fin < align start sz + sz := by omega
    refine ⟨⟨align start sz, align start sz, 0, align start sz + sz⟩, ?_, textOk_fixed
      hs hg, rfl, rfl⟩
    rw [dbuExtent, if_neg hs, if_neg hg]
    simp only at size
    simp only [size, h0, h1, if_false]

theorem ValueAt.ends {p : Bytes} {fin start t vo nxt : Nat} {v : Bytes}
    (h : ValueAt p fin start t v vo nxt) : start ≤ vo ∧ vo < nxt ∧ nxt ≤ fin := by
  cases h with
  | text ht hvo hin hn hv hnul =>
    have := le_align start (show 0 < 4 by decide)
    omega
  | signature hin hn hv hnul => omega
  | fixed ht hvo hin hv =>
    obtain ⟨-, -, h0⟩ := fixed_not_text ht
    have := le_align start (Nat.pos_of_ne_zero h0)
    omega

/-! ## The validator -/

/-- The defined codes among some fields. -/
def definedCodes (fs : List Field) : List Nat :=
  (fs.map Field.code).filter fun c => dbuFieldType c ≠ 0

theorem definedCodes_cons (f : Field) (fs : List Field) : definedCodes (f :: fs) =
    if dbuFieldType f.code ≠ 0 then f.code :: definedCodes fs else definedCodes fs := by
  by_cases h : dbuFieldType f.code = 0
  · simp [definedCodes, h]
  · simp [definedCodes, h]

theorem definedCodes_nodup (fs : List Field) : (definedCodes fs).Nodup ↔
    ∀ c t, (c, t) ∈ definedTypes → (fs.map Field.code).count c ≤ 1 := by
  rw [List.nodup_iff_count]
  constructor
  · intro h c t hc
    have hd := dbuFieldType_defined hc
    have h0 : t ≠ 0 := (by decide : ∀ e ∈ definedTypes, e.2 ≠ 0) _ hc
    have := h c
    rwa [definedCodes, List.count_filter (by simp only [hd]; simpa using h0)] at this
  · intro h c
    by_cases hd : dbuFieldType c = 0
    · have none : c ∉ definedCodes fs := by simp [definedCodes, hd]
      rw [List.count_eq_zero_of_not_mem none]
      exact Nat.zero_le _
    · rw [definedCodes, List.count_filter (by simpa using hd)]
      exact h c _ ((dbuFieldType_iff hd).mp rfl)

theorem unless_iff {c : Prop} [Decidable c] {b : Bool} : (if c then false else b) = true ↔
    ¬c ∧ b = true := by
  split <;> simp [*]

/-- The defined codes met once the field `f` has been. -/
def seenWith (f : Field) (seen : List Nat) : List Nat := if dbuFieldType f.code ≠ 0 then
    f.code :: seen else seen

/-- **One round of the walk**: a field stands at the next multiple of 8, its code not a defined one
met before. -/
theorem dbuValidateWalk_step {p : Bytes} {fin n at_ : Nat} {seen : List Nat}
    (h : ¬ fin ≤ align at_ 8) :
    dbuValidateWalk p fin (n + 1) seen at_ = true ↔ ∃ f vo nxt,
    FieldAt p fin (align at_ 8) f vo nxt ∧
      (dbuFieldType f.code ≠ 0 → f.code ∉ seen) ∧ dbuValidateWalk p fin n (seenWith f seen)
      nxt = true := by
  have hle := le_align at_ (show 0 < 8 by decide)
  have hat : ¬ fin ≤ at_ := by omega
  rw [dbuValidateWalk]
  simp only [hat, h, if_false, unless_iff, not_not]
  constructor
  · rintro ⟨h4, hc, h1, h0, hd, hrest⟩
    cases hx : dbuExtent p fin (align at_ 8 + 4) (load8 p (align at_ 8 + 2)) with
    | none =>
      rw [hx] at hrest
      cases hrest
    | some x =>
      rw [hx] at hrest
      simp only at hrest
      split at hrest
      · next htext =>
        obtain ⟨v, value, clean⟩ := value_of_extent hx htext
        refine ⟨⟨load8 p (align at_ 8), load8 p (align at_ 8 + 2), v⟩, x.vo, x.nxt,
          ⟨by omega, rfl, hc, h1, rfl, h0, fun t ht => ?_, value, clean⟩, fun hne hin =>
          hd ⟨hne, .inr hin⟩, hrest⟩
        have e := dbuFieldType_defined ht
        have h0 : t ≠ 0 := (by decide : ∀ e ∈ definedTypes, e.2 ≠ 0) _ ht
        simp only at e
        by_contra hne
        exact hd ⟨by rw [e]; exact h0, .inl (by rw [e]; exact hne)⟩
      · cases hrest
  · rintro ⟨f, vo, nxt, hf, hseen, hrest⟩
    obtain ⟨x, hx, htext, -, hnxt⟩ := hf.value.extent hf.clean
    have hhead := hf.head
    rw [hf.code, hf.type, hx]
    refine ⟨by omega, hf.valid, hf.one, hf.nul, ?_, ?_⟩
    · rintro ⟨hne, hbad | hin⟩
      · exact hbad (hf.defined _ ((dbuFieldType_iff hne).mp rfl))
      · exact hseen hne hin
    · simp only [htext, if_true, hnxt]
      exact hrest

/-- **The validator's walk is the grammar**: from any position, with the defined
codes met before it, by induction on the bound of the walk. -/
theorem dbuValidateWalk_iff {p : Bytes} {fin : Nat} : ∀ (n : Nat) (seen : List Nat) (at_ : Nat),
    fin ≤ n + at_ → seen.Nodup → (dbuValidateWalk p fin n seen at_ = true ↔
      ∃ fs, Fields p fin at_ fs ∧ (seen ++ definedCodes fs).Nodup) := by
  intro n
  induction n with
  | zero =>
    intro seen at_ hn hs
    have hgap : fin ≤ align at_ 8 := (by omega : fin ≤ at_).trans (le_align at_ (by decide))
    exact ⟨fun _ => ⟨[], .nil hgap, by simpa [definedCodes] using hs⟩, fun _ => rfl⟩
  | succ n ih =>
    intro seen at_ hn hs
    by_cases hgap : fin ≤ align at_ 8
    · have ends : dbuValidateWalk p fin (n + 1) seen at_ = true := by
        simp [dbuValidateWalk, hgap]
      exact ⟨fun _ => ⟨[], .nil hgap, by simpa [definedCodes] using hs⟩, fun _ => ends⟩
    have hle := le_align at_ (show 0 < 8 by decide)
    -- the field found ends after it starts, so the bound covers what is left
    have rest {f : Field} {vo nxt : Nat} (hf : FieldAt p fin (align at_ 8) f vo nxt)
        (hseen : dbuFieldType f.code ≠ 0 → f.code ∉ seen) :
        dbuValidateWalk p fin n (seenWith f seen) nxt = true ↔
          ∃ fs, Fields p fin nxt fs ∧ (seen ++ definedCodes (f :: fs)).Nodup := by
      have := hf.value.ends
      have later := ih (seenWith f seen) nxt (by omega) (by
        unfold seenWith
        split
        · next hne => exact List.nodup_cons.mpr ⟨hseen hne, hs⟩
        · exact hs)
      rw [later]
      refine exists_congr fun fs => and_congr_right fun _ => ?_
      rw [definedCodes_cons, seenWith]
      split
      · exact List.perm_middle.nodup_iff.symm
      · exact Iff.rfl
    rw [dbuValidateWalk_step hgap]
    constructor
    · rintro ⟨f, vo, nxt, hf, hseen, hrest⟩
      obtain ⟨fs, hfs, hnd⟩ := (rest hf hseen).mp hrest
      exact ⟨f :: fs, .cons hf hfs, hnd⟩
    · rintro ⟨fs, hfs, hnd⟩
      cases hfs with
      | nil h => exact absurd h hgap
      | @cons _ vo nxt f fs hf hfs =>
        have hseen : dbuFieldType f.code ≠ 0 → f.code ∉ seen := by
          intro hne hin
          rw [definedCodes_cons, if_pos hne] at hnd
          exact (List.nodup_cons.mp (List.perm_middle.nodup_iff.mp hnd)).1
            (List.mem_append_left _ hin)
        exact ⟨f, vo, nxt, hf, hseen, (rest hf hseen).mpr ⟨fs, hfs, hnd⟩⟩

theorem validate_iff_wellFormed (limit : Nat) (p : Bytes) :
    dbusUnmarshalValidate limit p = true ↔ ∃ fs, WellFormed limit p fs := by
  have walk := dbuValidateWalk_iff (p := p) (16 + dbusUnmarshalFieldsLen p) [] 16
    (Nat.le_add_right _ _) List.nodup_nil
  rw [dbusUnmarshalValidate, unless_iff, unless_iff, walk]
  constructor
  · rintro ⟨h16, hin, fs, hfs, hnd⟩
    exact ⟨fs, by omega, by omega, hfs, (definedCodes_nodup fs).mp hnd⟩
  · rintro ⟨fs, wf⟩
    have h16 := wf.header
    have hin := wf.inside
    exact ⟨by omega, by omega, fs, wf.fields, (definedCodes_nodup fs).mpr wf.once⟩

/-- **The validator accepts exactly its grammar**, whatever the bytes and the
limit; and it terminates: from the length of the array on, the bound of the
walk makes no difference. -/
theorem validate_accepts_grammar (limit : Nat) (p : Bytes) :
    (dbusUnmarshalValidate limit p = true ↔ ∃ fs, WellFormed limit p fs) ∧
    ∀ n, 16 + dbusUnmarshalFieldsLen p ≤ n →
      dbuValidateWalk p (16 + dbusUnmarshalFieldsLen p) n [] 16 =
        dbuValidateWalk p (16 + dbusUnmarshalFieldsLen p)
        (16 + dbusUnmarshalFieldsLen p) [] 16 := by
  refine ⟨validate_iff_wellFormed limit p, fun n hn => Bool.eq_iff_iff.mpr ?_⟩
  rw [dbuValidateWalk_iff n [] 16 (by omega) List.nodup_nil,
    dbuValidateWalk_iff (16 + dbusUnmarshalFieldsLen p) [] 16 (by omega) List.nodup_nil]

end Samvada
