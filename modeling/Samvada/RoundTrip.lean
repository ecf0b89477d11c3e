import Samvada.Encode
import Samvada.FrameStream

/- Decoding what was encoded. Each header field, wherever its bytes stand, is read
   back by the pieces the two field walks share; the walks follow by induction
   on the field list, and the body by induction on its values. -/
namespace Samvada
open Octets

/-! ## One field -/

/-- What the decoder's readers give for a field's value at `off`. -/
def HeaderField.ReadsAt (limit : Nat) (p : Bytes) (off : Nat) : HeaderField → Prop
  | .path s _ _ =>
    dbusUnmarshalStrAt limit p off = .ok (off + 4, s.length) ∧ loadN p (off + 4) s.length = s
  | .text _ s _ _ _ =>
    dbusUnmarshalStrAt limit p off = .ok (off + 4, s.length) ∧ loadN p (off + 4) s.length = s
  | .signature s _ _ =>
    dbusUnmarshalSigAt limit p off = .ok (off + 1, s.length) ∧ loadN p (off + 1) s.length = s
  | .word _ v _ => load32 p off = v.toNat

theorem HeaderField.code_cases (f : HeaderField) :
    dbuFieldType f.code = f.sig ∧ 0 < f.code ∧ f.code < 256 ∧ 0 < f.sig ∧ f.sig < 256 := by
  cases f with
  | path s ok hm => exact (by decide : dbuFieldType 1 = 111 ∧ 0 < 1 ∧ 1 < 256 ∧ 0 < 111 ∧ 111 < 256)
  | signature s h hl =>
    exact (by decide : dbuFieldType 8 = 103 ∧ 0 < 8 ∧ 8 < 256 ∧ 0 < 103 ∧ 103 < 256)
  | text c s hc h hm =>
    have all : ∀ c ∈ [2, 3, 4, 6, 7], dbuFieldType c = 115 ∧ 0 < c ∧ c < 256 ∧ 0 < 115 ∧
      115 < 256 := by decide
    exact all c hc
  | word c v hc =>
    have all : ∀ c ∈ [5, 9], dbuFieldType c = 117 ∧ 0 < c ∧ c < 256 ∧ 0 < 117 ∧
      117 < 256 := by decide
    exact all c hc

theorem low8_nat {n : Nat} (h : n < 256) : (low8 n).toNat = n := by
  rw [low8_toNat]
  omega

theorem HeaderField.bytes_length (f : HeaderField) (n : Nat) :
    n + (f.bytes n).length = align n 8 + 4 + f.value.length := by
  have := length_padBytes (n := n) (show 0 < 8 by decide)
  simp only [HeaderField.bytes, fieldBytes, List.length_append, List.length_cons, List.length_nil]
  omega

theorem align8_mod (n : Nat) : align n 8 % 8 = 0 := by
  rw [align8_eq]
  omega

theorem align4_of_mod {n : Nat} (h : n % 4 = 0) : align n 4 = n := by
  rw [align4_eq]
  omega

theorem pathSegments_ne : ∀ (slash : Bool) (s : Bytes), pathSegments slash s = true → ∀ b ∈ s, b ≠ 0
  | _, [], _, _, hb => by cases hb
  | slash, c :: cs, h, b, hb => by
    unfold pathSegments at h
    rcases List.mem_cons.mp hb with rfl | hb
    · rintro rfl
      simp [isPathWord] at h
    · split at h
      · split at h
        · cases h
        · exact pathSegments_ne true cs h b hb
      · split at h
        · exact pathSegments_ne false cs h b hb
        · cases h

/-- A valid object path has no NUL. -/
theorem pathOk_ne {s : Bytes} (h : dbusUnmarshalPathOk s s.length = true) : ∀ b ∈ s, b ≠ 0 := by
  unfold dbusUnmarshalPathOk at h
  rw [Int.toNat_natCast, loadN_self] at h
  cases s with
  | nil => simp
  | cons c cs =>
    have hc : load8 (c :: cs) 0 = c.toNat := rfl
    have h47 : ¬ load8 (c :: cs) 0 ≠ 47 := by
      intro hne
      simp [hne] at h
    have c0 : c ≠ 0 := by
      rintro rfl
      rw [hc] at h47
      exact h47 (by decide)
    intro b hb
    rcases List.mem_cons.mp hb with rfl | hb
    · exact c0
    · by_cases h1 : cs = []
      · rw [h1] at hb
        cases hb
      · have hlen : ¬ (((c :: cs).length : Int) = 1) := by
          have := List.length_pos_iff.mpr h1
          simp only [List.length_cons]
          omega
        have hpos : ¬ (((c :: cs).length : Int) ≤ 0) := by
          simp only [List.length_cons]
          omega
        rw [if_neg hpos, if_neg h47, if_neg hlen] at h
        split at h
        · cases h
        · exact pathSegments_ne true cs h b hb

/-- Whether bytes are a path depends on the bytes only. -/
theorem pathOk_append (s q : Bytes) : dbusUnmarshalPathOk (s ++ q) s.length = dbusUnmarshalPathOk
    s s.length := by
  unfold dbusUnmarshalPathOk
  rw [Int.toNat_natCast, loadN_left, loadN_self]
  by_cases h0 : (s.length : Int) ≤ 0
  · rw [if_pos h0, if_pos h0]
  · have e0 : load8 (s ++ q) 0 = load8 s 0 := load8_append_left (by omega)
    have e1 : load8 (s ++ q) ((s.length : Int) - 1).toNat = load8 s ((s.length : Int) - 1).toNat :=
      load8_append_left (by omega)
    rw [e0, e1]

theorem noNul_left {s : Bytes} (q : Bytes) (h : ∀ b ∈ s, b ≠ 0) :
    dbuNoNul (s ++ q) s.length = true := by
  unfold dbuNoNul
  rw [loadN_left]
  simpa using h

/-- A string value: its extent, its text and its reading. -/
theorem text_read {V R s : Bytes} {fin : Nat} (limit sig : Nat) (hsig : sig = 115 ∨ sig = 111)
    (hV : V.length % 4 = 0) (hlen : s.length < 4294967296)
    (hfin : V.length + 4 + s.length + 1 ≤ fin) (hlim : fin ≤ limit) :
    let p := V ++ (le32 s.length ++ (s ++ 0 :: R))
    dbuExtent p fin V.length sig = some
      ⟨V.length, V.length + 4, s.length, V.length + 4 + s.length + 1⟩ ∧
      load8 p (V.length + 4 + s.length) = 0 ∧ p.drop (V.length + 4) = s ++ 0 :: R ∧
      dbusUnmarshalStrAt limit p V.length = .ok (V.length + 4, s.length) ∧
      loadN p (V.length + 4) s.length = s := by
  intro p
  have hn : load32 p V.length = s.length := by
    have e := load32_add V (le32 s.length ++ (s ++ 0 :: R)) 0
    rw [load32_le32] at e
    simp only [Nat.add_zero] at e
    show load32 p V.length = _
    rw [e]
    omega
  have hdrop : p.drop (V.length + 4) = s ++ 0 :: R := by
    rw [← List.drop_drop, List.drop_left]
    rfl
  refine ⟨?_, ?_, hdrop, ?_, ?_⟩
  · have h1 : ¬ fin < V.length + 4 := by omega
    have h2 : ¬ fin < V.length + 4 + s.length + 1 := by omega
    unfold dbuExtent
    rw [if_pos hsig]
    simp only [align4_of_mod hV, hn, h1, h2, if_false]
  · have e := load8_at (p := V ++ (le32 s.length ++ s)) (q := R) 0
    have hp : p = (V ++ (le32 s.length ++ s)) ++ 0 :: R := by simp [p]
    have hl : (V ++ (le32 s.length ++ s)).length = V.length + 4 + s.length := by
      simp only [List.length_append, le32_length]
      omega
    rw [← hp, hl] at e
    exact e
  · have h0 : limit ≠ 0 := by omega
    have h1 : ¬ limit < V.length + 4 := by omega
    have h2 : ¬ limit < V.length + 4 + s.length + 1 := by omega
    simp only [dbusUnmarshalStrAt, h0, h1, hn, h2, if_false]
  · have e := loadN_add (V ++ le32 s.length) (s ++ 0 :: R) 0 s.length
    rw [loadN_left] at e
    have hp : p = (V ++ le32 s.length) ++ (s ++ 0 :: R) := by simp [p]
    rw [hp]
    simpa using e

/-- A signature value: its length is one byte. -/
theorem signature_read {V R s : Bytes} {fin : Nat} (limit : Nat) (hlen : s.length ≤ 255)
    (hfin : V.length + 1 + s.length + 1 ≤ fin) (hlim : fin ≤ limit) :
    let p := V ++ (low8 s.length :: (s ++ 0 :: R))
    dbuExtent p fin V.length 103 = some
      ⟨V.length, V.length + 1, s.length, V.length + 1 + s.length + 1⟩ ∧
      load8 p (V.length + 1 + s.length) = 0 ∧ p.drop (V.length + 1) = s ++ 0 :: R ∧
      dbusUnmarshalSigAt limit p V.length = .ok (V.length + 1, s.length) ∧
      loadN p (V.length + 1) s.length = s := by
  intro p
  have hn : load8 p V.length = s.length := by
    show load8 (V ++ (low8 s.length :: (s ++ 0 :: R))) V.length = _
    rw [load8_at, low8_nat (by omega)]
  have hdrop : p.drop (V.length + 1) = s ++ 0 :: R := by
    rw [← List.drop_drop, List.drop_left]
    rfl
  refine ⟨?_, ?_, hdrop, ?_, ?_⟩
  · have h1 : ¬ fin < V.length + 1 := by omega
    have h2 : ¬ fin < V.length + 1 + s.length + 1 := by omega
    simp [dbuExtent, hn, h1, h2]
  · have e := load8_at (p := V ++ (low8 s.length :: s)) (q := R) 0
    have hp : p = (V ++ (low8 s.length :: s)) ++ 0 :: R := by simp [p]
    have hl : (V ++ (low8 s.length :: s)).length = V.length + 1 + s.length := by
      simp only [List.length_append, List.length_cons]
      omega
    rw [← hp, hl] at e
    exact e
  · have h0 : limit ≠ 0 := by omega
    have h1 : ¬ limit < V.length + 1 := by omega
    have h2 : ¬ limit < V.length + 1 + s.length + 1 := by omega
    simp only [dbusUnmarshalSigAt, h0, h1, hn, h2, if_false]
  · have e := loadN_add (V ++ [low8 s.length]) (s ++ 0 :: R) 0 s.length
    rw [loadN_left] at e
    have hp : p = (V ++ [low8 s.length]) ++ (s ++ 0 :: R) := by simp [p]
    rw [hp]
    simpa using e

/-- A word value. -/
theorem word_read {V R : Bytes} {fin : Nat} (v : UInt32) (hV : V.length % 4 = 0)
    (hfin : V.length + 4 ≤ fin) :
    let p := V ++ (le32 v.toNat ++ R)
    dbuExtent p fin V.length 117 = some ⟨V.length, V.length, 0, V.length + 4⟩ ∧
      load32 p V.length = v.toNat := by
  intro p
  constructor
  · have h1 : ¬ fin < V.length + 4 := by omega
    simp [dbuExtent, dbuBasicSize, align4_of_mod hV, h1]
  · have e := load32_add V (le32 v.toNat ++ R) 0
    rw [load32_le32] at e
    have hv := v.toNat_lt
    show load32 (V ++ (le32 v.toNat ++ R)) (V.length + 0) = _
    rw [e]
    omega

/-- **One field, wherever it stands**: its four-byte head, its extent, the
validator's conditions on its text, and its value read back. -/
theorem field_read (f : HeaderField) {A R p : Bytes} {fin limit : Nat}
    (hp : p = A ++ (f.bytes A.length ++ R))
    (hfin : A.length + (f.bytes A.length).length ≤ fin) (hlim : fin ≤ limit)
    (hsmall : limit ≤ 8192) : load8 p (align A.length 8) = f.code ∧
    load8 p (align A.length 8 + 1) = 1 ∧
      load8 p (align A.length 8 + 2) = f.sig ∧ load8 p (align A.length 8 + 3) = 0 ∧
      ∃ x, dbuExtent p fin (align A.length 8 + 4) f.sig = some x ∧ x.vo = align A.length 8 + 4 ∧
        x.nxt = A.length + (f.bytes A.length).length ∧ dbuTextOk p f.sig x = true ∧
        f.ReadsAt limit p x.vo := by
  have hbl := f.bytes_length A.length
  obtain ⟨-, -, hcode, -, hsig⟩ := f.code_cases
  -- `W` ends where the field's head begins, `V` where its value does
  obtain ⟨W, hW⟩ : ∃ W, W = A ++ padBytes A.length 8 := ⟨_, rfl⟩
  have hWl : W.length = align A.length 8 := by
    rw [hW, List.length_append, length_padBytes (by decide)]
  have hpW : p = W ++ ([low8 f.code, 1, low8 f.sig, 0] ++ (f.value ++ R)) := by
    rw [hp, hW]
    simp only [HeaderField.bytes, fieldBytes, List.append_assoc]
  obtain ⟨V, hV⟩ : ∃ V, V = W ++ [low8 f.code, 1, low8 f.sig, 0] := ⟨_, rfl⟩
  have hVl : V.length = align A.length 8 + 4 := by
    rw [hV, List.length_append, hWl]
    rfl
  have hpV : p = V ++ (f.value ++ R) := by
    rw [hpW, hV]
    simp only [List.append_assoc]
  have hV4 : V.length % 4 = 0 := by
    have := align8_mod A.length
    omega
  have head : ∀ i, load8 p (align A.length 8 + i) = load8
    ([low8 f.code, 1, low8 f.sig, 0] ++ (f.value ++ R)) i := by
    intro i
    rw [hpW, ← hWl, load8_add]
  refine ⟨?_, ?_, ?_, ?_, ?_⟩
  · exact (head 0).trans (low8_nat hcode)
  · exact head 1
  · exact (head 2).trans (low8_nat hsig)
  · exact head 3
  · rw [← hVl]
    cases f with
    | path s ok hm =>
      have hl : (HeaderField.path s ok hm).value.length = 4 + s.length + 1 := by
        simp only [HeaderField.value, List.length_append, le32_length, List.length_cons,
          List.length_nil]
        omega
      have hpv : p = V ++ (le32 s.length ++ (s ++ 0 :: R)) := by
        rw [hpV]
        simp [HeaderField.value]
      obtain ⟨hx, h0, hd, hs, ht⟩ := text_read (V := V) (R := R) (s := s) limit 111
        (.inr rfl) hV4 (by omega) (show V.length + 4 + s.length + 1 ≤ fin by omega) hlim
      rw [← hpv] at hx h0 hd hs ht
      refine ⟨_, hx, rfl, by simp only [hbl, hl]; omega, ?_, hs, ht⟩
      have hok : dbusUnmarshalPathOk (s ++ 0 :: R) s.length = true := (pathOk_append s _).trans ok
      simp [dbuTextOk, HeaderField.sig, h0, hd, noNul_left _ (pathOk_ne ok), hok]
    | text c s hc h hm =>
      have hl : (HeaderField.text c s hc h hm).value.length = 4 + s.length + 1 := by
        simp only [HeaderField.value, List.length_append, le32_length, List.length_cons,
          List.length_nil]
        omega
      have hpv : p = V ++ (le32 s.length ++ (s ++ 0 :: R)) := by
        rw [hpV]
        simp [HeaderField.value]
      obtain ⟨hx, h0, hd, hs, ht⟩ := text_read (V := V) (R := R) (s := s) limit 115
        (.inl rfl) hV4 (by omega) (show V.length + 4 + s.length + 1 ≤ fin by omega) hlim
      rw [← hpv] at hx h0 hd hs ht
      refine ⟨_, hx, rfl, by simp only [hbl, hl]; omega, ?_, hs, ht⟩
      simp [dbuTextOk, HeaderField.sig, h0, hd, noNul_left _ h]
    | signature s h hl255 =>
      have hl : (HeaderField.signature s h hl255).value.length = 1 + s.length + 1 := by
        simp only [HeaderField.value, List.length_append, List.length_cons, List.length_nil]
        omega
      have hpv : p = V ++ (low8 s.length :: (s ++ 0 :: R)) := by
        rw [hpV]
        simp [HeaderField.value]
      obtain ⟨hx, h0, hd, hs, ht⟩ := signature_read (V := V) (R := R) (s := s) limit hl255
        (show V.length + 1 + s.length + 1 ≤ fin by omega) hlim
      rw [← hpv] at hx h0 hd hs ht
      refine ⟨_, hx, rfl, by simp only [hbl, hl]; omega, ?_, hs, ht⟩
      simp [dbuTextOk, HeaderField.sig, h0, hd, noNul_left _ h]
    | word c v hc =>
      have hl : (HeaderField.word c v hc).value.length = 4 := rfl
      have hpv : p = V ++ (le32 v.toNat ++ R) := hpV
      obtain ⟨hx, hv⟩ := word_read (V := V) (R := R) v hV4 (show V.length + 4 ≤ fin by omega)
      rw [← hpv] at hx hv
      exact ⟨_, hx, rfl, by simp only [hbl, hl]; omega, rfl, hv⟩

/-! ## The field walks -/

/-- A field starts inside the array, its head too. -/
theorem field_starts (f : HeaderField) {n fin : Nat} (h : n + (f.bytes n).length ≤ fin) :
    ¬ fin ≤ n ∧ ¬ fin ≤ align n 8 ∧ ¬ fin < align n 8 + 4 := by
  have hbl := f.bytes_length n
  have := le_align n (show 0 < 8 by decide)
  omega

/-- The validator accepts any list of fields with distinct codes. -/
theorem validate_fields {p : Bytes} {fin : Nat} (hfin : fin ≤ p.length) (hsmall : p.length ≤ 8192) :
    ∀ (fields : List HeaderField) (A R : Bytes) (n : Nat) (seen : List Nat),
      p = A ++ (layout (fun f => f.bytes) A.length fields ++ R) →
      fin = A.length + (layout (fun f => f.bytes) A.length fields).length →
      (seen ++ fields.map HeaderField.code).Nodup → dbuValidateWalk p fin n seen A.length = true
  | [], A, R, 0, seen, hp, he, hd => rfl
  | [], A, R, n + 1, seen, hp, he, hd => by
    have hend : fin ≤ A.length := by
      rw [he]
      exact Nat.le_refl _
    simp only [dbuValidateWalk, if_pos hend]
  | f :: fields, A, R, 0, seen, hp, he, hd => rfl
  | f :: fields, A, R, n + 1, seen, hp, he, hd => by
    have hrest : p = A ++ (f.bytes A.length ++
        (layout (fun f => f.bytes) (A.length + (f.bytes A.length).length) fields ++ R)) := by
      rw [hp, layout, List.append_assoc]
    have hle : A.length + (f.bytes A.length).length ≤ fin := by
      rw [he, layout, List.length_append]
      omega
    obtain ⟨s1, s2, s3⟩ := field_starts f hle
    obtain ⟨hc, h1, hs, h0, x, hx, -, hnxt, htext, -⟩ := field_read f hrest hle hfin hsmall
    obtain ⟨hty, hpos, -, hsig, -⟩ := f.code_cases
    have hseen : f.code ∉ seen := by
      intro hmem
      exact (List.nodup_append.mp hd).2.2 _ hmem _ (List.mem_map_of_mem (List.mem_cons_self)) rfl
    have hcode : ¬ f.code = 0 := by omega
    have htype : dbuFieldType f.code ≠ 0 := by
      rw [hty]
      omega
    have hfield : ¬ (¬ f.sig = dbuFieldType f.code ∨ f.code ∈ seen) := by
      rw [hty]
      rintro (hne | hmem)
      · exact hne rfl
      · exact hseen hmem
    have step : dbuValidateWalk p fin (n + 1) seen A.length = dbuValidateWalk p fin n
      (f.code :: seen) x.nxt := by
      simp only [dbuValidateWalk, s1, s2, s3, hc, hcode, h1, hs, h0, hfield, hx, htext, htype,
        if_false, if_true, ne_eq, not_true_eq_false, not_false_eq_true, true_and]
    rw [step, hnxt]
    have hA : (A ++ f.bytes A.length).length = A.length + (f.bytes A.length).length :=
      List.length_append
    rw [← hA]
    refine validate_fields hfin hsmall fields (A ++ f.bytes A.length) R n (f.code :: seen) ?_ ?_ ?_
    · rw [hrest, hA, List.append_assoc]
    · rw [he, layout, List.length_append, hA]
      omega
    · refine List.perm_middle.nodup_iff.mp
        (show (seen ++ f.code :: fields.map HeaderField.code).Nodup from ?_)
      simpa using hd

/-- The finder finds every field, with its type and a value that reads back, and
no other code. `n` is more than the number of fields. -/
theorem find_fields {p : Bytes} {fin : Nat} (hfin : fin ≤ p.length)
    (hsmall : p.length ≤ 8192) (code : Nat) : ∀ (fields : List HeaderField) (A R : Bytes) (n : Nat),
      p = A ++ (layout (fun f => f.bytes) A.length fields ++ R) →
      fin = A.length + (layout (fun f => f.bytes) A.length fields).length → fields.length < n →
      (fields.map HeaderField.code).Nodup →
      (∀ f ∈ fields, f.code = code → ∃ off, dbuFindWalk p fin code n A.length = .ok (off, f.sig) ∧
        f.ReadsAt p.length p off) ∧
      (code ∉ fields.map HeaderField.code → dbuFindWalk p fin code n A.length = .error .notfound)
  | _, _, _, 0, _, _, hn, _ => absurd hn (Nat.not_lt_zero _)
  | [], A, R, n + 1, hp, he, hn, hd => by
    have hend : fin ≤ A.length := by
      rw [he]
      exact Nat.le_refl _
    refine ⟨fun f hf => absurd hf (List.not_mem_nil), fun _ => ?_⟩
    simp only [dbuFindWalk, if_pos hend]
  | f :: fields, A, R, n + 1, hp, he, hn, hd => by
    have hrest : p = A ++ (f.bytes A.length ++
        (layout (fun f => f.bytes) (A.length + (f.bytes A.length).length) fields ++ R)) := by
      rw [hp, layout, List.append_assoc]
    have hle : A.length + (f.bytes A.length).length ≤ fin := by
      rw [he, layout, List.length_append]
      omega
    obtain ⟨s1, s2, s3⟩ := field_starts f hle
    obtain ⟨hc, h1, hs, h0, x, hx, hvo, hnxt, -, hreads⟩ := field_read f hrest hle hfin hsmall
    obtain ⟨hty, -⟩ := f.code_cases
    have hfield : ¬ f.sig ≠ dbuFieldType f.code := fun hne => hne hty.symm
    have hforward : ¬ x.nxt ≤ align A.length 8 := by
      have hbl := f.bytes_length A.length
      omega
    have step : dbuFindWalk p fin code (n + 1) A.length =
        if f.code = code then .ok (x.vo, f.sig) else dbuFindWalk p fin code n x.nxt := by
      simp only [dbuFindWalk, s1, s2, s3, hc, h1, hs, h0, hfield, hx, hforward, if_false,
        ne_eq, not_true_eq_false, and_false]
    have hA : (A ++ f.bytes A.length).length = A.length + (f.bytes A.length).length :=
      List.length_append
    obtain ⟨found, missing⟩ := find_fields hfin hsmall code fields (A ++ f.bytes A.length) R n
      (by rw [hrest, hA, List.append_assoc]) (by rw [he, layout, List.length_append, hA]; omega)
      (by simp only [List.length_cons] at hn; omega) (List.nodup_cons.mp hd).2
    rw [hA, ← hnxt] at found missing
    rw [step]
    constructor
    · intro g hg hgc
      rcases List.mem_cons.mp hg with rfl | hg
      · rw [if_pos hgc]
        exact ⟨x.vo, rfl, hreads⟩
      · have hne : f.code ≠ code := by
          intro hfc
          refine (List.nodup_cons.mp hd).1 ?_
          rw [hfc, ← hgc]
          exact List.mem_map_of_mem hg
        rw [if_neg hne]
        exact found g hg hgc
    · intro hmiss
      have hne : f.code ≠ code := by
        rintro rfl
        exact hmiss List.mem_cons_self
      rw [if_neg hne]
      exact missing fun hmem => hmiss (List.mem_cons_of_mem _ hmem)

/-! ## The body -/

/-- What a body value decodes to. -/
inductive Datum where
  | word (v : Nat)
  | text (s : Bytes)
  deriving DecidableEq, Repr

def BodyValue.datum : BodyValue → Datum
  | .word v => .word v.toNat
  | .bool v => .word (if v ≠ 0 then 1 else 0)
  | .text s _ => .text s

/-- The decoder's call for a value of this kind. -/
def BodyValue.next (b : BodyCursor) : BodyValue → Except UnmarshalErr Datum × BodyCursor
  | .word _ => ((dbusUnmarshalNextU32 b).1.map .word, (dbusUnmarshalNextU32 b).2)
  | .bool _ => ((dbusUnmarshalNextBool b).1.map .word, (dbusUnmarshalNextBool b).2)
  | .text _ _ =>
    ((dbusUnmarshalNextStr b).1.map fun r => .text (loadN b.p r.1 r.2), (dbusUnmarshalNextStr b).2)

/-- Read a body whose values have these kinds. -/
def readBody : List BodyValue → BodyCursor → List (Except UnmarshalErr Datum) × BodyCursor
  | [], b => ([], b)
  | v :: vs, b =>
    let (d, b) := v.next b
    let (ds, b) := readBody vs b
    (d :: ds, b)

theorem BodyValue.bytes_length (v : BodyValue) (n : Nat) :
    n + (v.bytes n).length = align n 4 + v.value.length := by
  have := length_padBytes (n := n) (show 0 < 4 by decide)
  simp only [BodyValue.bytes, List.length_append]
  omega

/-- **One body value, wherever it stands.** -/
theorem value_read (v : BodyValue) {A R p : Bytes} {fin : Nat}
    (hp : p = A ++ (v.bytes A.length ++ R)) (hfin : A.length + (v.bytes A.length).length ≤ fin)
    (hsmall : fin ≤ 8192) :
    v.next ⟨p, A.length, fin⟩ = (.ok v.datum, ⟨p, A.length + (v.bytes A.length).length, fin⟩) := by
  have hbl := v.bytes_length A.length
  obtain ⟨V, hV⟩ : ∃ V, V = A ++ padBytes A.length 4 := ⟨_, rfl⟩
  have hVl : V.length = align A.length 4 := by
    rw [hV, List.length_append, length_padBytes (by decide)]
  have hpV : p = V ++ (v.value ++ R) := by
    rw [hp, hV]
    simp only [BodyValue.bytes, List.append_assoc]
  -- the two word-sized kinds are read alike
  have word : ∀ (w : Int) (k : Nat), v.value = le32 w → (w % 4294967296).toNat = k →
      dbusUnmarshalNextU32
      ⟨p, A.length, fin⟩ = (.ok k, ⟨p, A.length + (v.bytes A.length).length, fin⟩) := by
    intro w k hw hk
    have hl : v.value.length = 4 := by rw [hw, le32_length]
    have h1 : ¬ fin < align A.length 4 + 4 := by omega
    have e : load32 p (align A.length 4) = k := by
      have e0 := load32_add V (le32 w ++ R) 0
      rw [load32_le32, hk, Nat.add_zero, ← hw, ← hpV, hVl] at e0
      exact e0
    simp only [dbusUnmarshalNextU32, h1, if_false, e]
    rw [hbl, hl]
  cases v with
  | word v =>
    have hv := v.toNat_lt
    simp only [BodyValue.next, word v.toNat v.toNat rfl (by omega)]
    rfl
  | bool v =>
    have hk : ((if v ≠ 0 then 1 else 0 : Int) % 4294967296).toNat = if v ≠ 0 then 1 else 0 := by
      split <;> rfl
    have e := word (if v ≠ 0 then 1 else 0) _ rfl hk
    have h1 : ¬ 1 < (if v ≠ 0 then 1 else 0 : Nat) := by
      split <;> decide
    simp only [BodyValue.next, dbusUnmarshalNextBool, e, h1, if_false]
    rfl
  | text s hm =>
    have hl : (BodyValue.text s hm).value.length = 4 + s.length + 1 := by
      simp only [BodyValue.value, List.length_append, le32_length, List.length_cons,
        List.length_nil]
      omega
    have h1 : ¬ fin < align A.length 4 + 4 := by omega
    have h2 : ¬ fin < align A.length 4 + 4 + s.length + 1 := by omega
    have hpv : p = V ++ (le32 s.length ++ (s ++ ([0] ++ R))) := by
      rw [hpV]
      simp [BodyValue.value]
    have e : load32 p (align A.length 4) = s.length := by
      have e0 := load32_add V (le32 s.length ++ (s ++ ([0] ++ R))) 0
      rw [load32_le32, Nat.add_zero, ← hpv, hVl] at e0
      rw [e0]
      omega
    have ht : loadN p (align A.length 4 + 4) s.length = s := by
      have e0 := loadN_add (V ++ le32 s.length) (s ++ ([0] ++ R)) 0 s.length
      rw [loadN_left, List.append_assoc, ← hpv, List.length_append, hVl] at e0
      exact e0
    simp only [BodyValue.next, dbusUnmarshalNextStr, h1, h2, if_false, e, Except.map, ht,
      BodyValue.datum]
    rw [hbl, hl]
    simp only [Nat.add_assoc]

theorem read_body {p : Bytes} {fin : Nat} (hsmall : fin ≤ 8192) :
    ∀ (body : List BodyValue) (A R : Bytes), p = A ++
    (layout (fun v => v.bytes) A.length body ++ R) →
      fin = A.length + (layout (fun v => v.bytes) A.length body).length →
      readBody body ⟨p, A.length, fin⟩ = (body.map fun v => .ok v.datum, ⟨p, fin, fin⟩)
  | [], A, R, hp, he => by
    have : A.length = fin := by
      rw [he]
      rfl
    rw [this]
    rfl
  | v :: body, A, R, hp, he => by
    have hrest : p = A ++ (v.bytes A.length ++
        (layout (fun v => v.bytes) (A.length + (v.bytes A.length).length) body ++ R)) := by
      rw [hp, layout, List.append_assoc]
    have hle : A.length + (v.bytes A.length).length ≤ fin := by
      rw [he, layout, List.length_append]
      omega
    have hA : (A ++ v.bytes A.length).length = A.length + (v.bytes A.length).length :=
      List.length_append
    have ih := read_body (p := p) hsmall body (A ++ v.bytes A.length) R
      (by rw [hrest, hA, List.append_assoc]) (by rw [he, layout, List.length_append, hA]; omega)
    rw [hA] at ih
    simp only [readBody, value_read v hrest hle hsmall, ih, List.map_cons]

/-! ## A whole message -/

section
variable (mtype flags serial : Int) (fields : List HeaderField) (body : List BodyValue)

/-- The bytes before the field array. -/
theorem message_head : ∃ H : Bytes, H.length = 16 ∧ messageBytes mtype flags serial
    fields body = H ++
    (fieldsBytes fields ++ (padBytes (16 + (fieldsBytes fields).length) 8 ++ bodyBytes fields body))
    := by
  refine ⟨[108, low8 mtype, low8 flags, 1] ++
    (le32 (bodyBytes fields body).length ++ (le32 serial ++ le32 (fieldsBytes fields).length)), rfl,
    ?_⟩
  simp only [messageBytes, List.append_assoc]

theorem message_length : (messageBytes mtype flags serial fields body).length =
    align (16 + (fieldsBytes fields).length) 8 + (bodyBytes fields body).length := by
  have hp := length_padBytes (n := 16 + (fieldsBytes fields).length) (show 0 < 8 by decide)
  simp only [messageBytes, List.length_append, le32_length, List.length_cons, List.length_nil]
  omega

variable {mtype flags serial fields body}

/-- The header words of a message short enough. -/
theorem message_words (h : (messageBytes mtype flags serial fields body).length ≤ 8192) :
    load32 (messageBytes mtype flags serial fields body) 4 = (bodyBytes fields body).length ∧
      load32 (messageBytes mtype flags serial fields body) 8 = (serial % 4294967296).toNat ∧
      load32 (messageBytes mtype flags serial fields body) 12 = (fieldsBytes fields).length := by
  have hlen := message_length mtype flags serial fields body
  have hge := le_align (16 + (fieldsBytes fields).length) (show 0 < 8 by decide)
  have split4 := load32_add [108, low8 mtype, low8 flags, 1] (le32 (bodyBytes fields body).length ++
    (le32 serial ++ (le32 (fieldsBytes fields).length ++ (fieldsBytes fields ++
      (padBytes (16 + (fieldsBytes fields).length) 8 ++ bodyBytes fields body)))))
  have split8 := load32_add (le32 (bodyBytes fields body).length) (le32 serial ++
    (le32 (fieldsBytes fields).length ++ (fieldsBytes fields ++
      (padBytes (16 + (fieldsBytes fields).length) 8 ++ bodyBytes fields body))))
  have split12 :=
    load32_add (le32 serial) (le32 (fieldsBytes fields).length ++ (fieldsBytes fields ++
      (padBytes (16 + (fieldsBytes fields).length) 8 ++ bodyBytes fields body)))
  refine ⟨?_, ?_, ?_⟩
  · refine (split4 0).trans ?_
    rw [load32_le32]
    omega
  · refine (split4 4).trans ((split8 0).trans ?_)
    rw [load32_le32]
  · refine (split4 8).trans ((split8 4).trans ((split12 0).trans ?_))
    rw [load32_le32]
    omega

/-- The framer reads a message's own length in its header. -/
theorem message_total (h : (messageBytes mtype flags serial fields body).length ≤ 8192) :
    messageTotal (messageBytes mtype flags serial fields body) =
      .ok (messageBytes mtype flags serial fields body).length := by
  obtain ⟨h4, -, h12⟩ := message_words h
  have hlen := message_length mtype flags serial fields body
  have h0 : load8 (messageBytes mtype flags serial fields body) 0 = 108 := rfl
  have h3 : load8 (messageBytes mtype flags serial fields body) 3 = 1 := rfl
  have hl : ¬ 134217728 ≤ align (16 + (fieldsBytes fields).length) 8 +
    (bodyBytes fields body).length := by omega
  simp only [messageTotal, headerWord, h0, h3, h4, h12, if_true, ne_eq, not_true_eq_false,
    if_false, hl, hlen]

/-- The validator accepts a message whose field codes are distinct. -/
theorem message_valid (h : (messageBytes mtype flags serial fields body).length ≤ 8192)
    (hd : (fields.map HeaderField.code).Nodup) :
    dbusUnmarshalValidate (messageBytes mtype flags serial fields body).length
      (messageBytes mtype flags serial fields body) = true := by
  obtain ⟨-, -, h12⟩ := message_words h
  obtain ⟨H, hH, hsplit⟩ := message_head mtype flags serial fields body
  have hlen := message_length mtype flags serial fields body
  have hge := le_align (16 + (fieldsBytes fields).length) (show 0 < 8 by decide)
  have h16 : ¬ (messageBytes mtype flags serial fields body).length < 16 := by omega
  have hfin : ¬ (messageBytes mtype flags serial fields body).length < 16 +
    (fieldsBytes fields).length := by omega
  have walk := validate_fields (p := messageBytes mtype flags serial fields body)
    (show 16 + (fieldsBytes fields).length ≤ _ by omega) h fields H _
    (16 + (fieldsBytes fields).length) [] (by rw [hH]; exact hsplit) (by rw [hH]; rfl)
    (by simpa using hd)
  rw [hH] at walk
  simp only [dbusUnmarshalValidate, dbusUnmarshalFieldsLen, h12, h16, hfin, if_false, walk]

/-- The finder on a message whose field codes are distinct. -/
theorem message_find (h : (messageBytes mtype flags serial fields body).length ≤ 8192)
    (hd : (fields.map HeaderField.code).Nodup) (code : Nat) :
    (∀ f ∈ fields, f.code = code → ∃ off,
      dbusUnmarshalFindField (messageBytes mtype flags serial fields body).length
        (messageBytes mtype flags serial fields body) code = .ok (off, f.sig) ∧
      f.ReadsAt (messageBytes mtype flags serial fields body).length
        (messageBytes mtype flags serial fields body) off) ∧
    (code ∉ fields.map HeaderField.code →
      dbusUnmarshalFindField (messageBytes mtype flags serial fields body).length
        (messageBytes mtype flags serial fields body) code = .error .notfound) := by
  obtain ⟨-, -, h12⟩ := message_words h
  obtain ⟨H, hH, hsplit⟩ := message_head mtype flags serial fields body
  have hlen := message_length mtype flags serial fields body
  have hge := le_align (16 + (fieldsBytes fields).length) (show 0 < 8 by decide)
  have h16 : ¬ (messageBytes mtype flags serial fields body).length < 16 := by omega
  have hfin : ¬ (messageBytes mtype flags serial fields body).length < 16 +
    (fieldsBytes fields).length := by omega
  have hcount : ∀ (fs : List HeaderField) (n : Nat),
    fs.length ≤ (layout (fun f => f.bytes) n fs).length := by
    intro fs
    induction fs with
    | nil => intro n; exact Nat.zero_le _
    | cons f fs ih =>
      intro n
      have hbl := f.bytes_length n
      have := le_align n (show 0 < 8 by decide)
      have := ih (n + (f.bytes n).length)
      simp only [layout, List.length_append, List.length_cons]
      omega
  have hfuel : fields.length < 16 + (fieldsBytes fields).length := by
    have := hcount fields 16
    show fields.length < 16 + (layout _ 16 fields).length
    omega
  have walk := find_fields (p := messageBytes mtype flags serial fields body)
    (show 16 + (fieldsBytes fields).length ≤ _ by omega) h code fields H _
    (16 + (fieldsBytes fields).length) (by rw [hH]; exact hsplit) (by rw [hH]; rfl) hfuel hd
  rw [hH] at walk
  simpa only [dbusUnmarshalFindField, dbusUnmarshalFieldsLen, h12, h16, hfin, if_false] using walk

/-- The body reads back in order, to its end. -/
theorem message_body (h : (messageBytes mtype flags serial fields body).length ≤ 8192) :
    (readBody body (dbusUnmarshalBodyBegin (messageBytes mtype flags serial fields body).length
        (messageBytes mtype flags serial fields body))).1 = body.map (fun v => .ok v.datum) ∧
      dbusUnmarshalBodyRemaining (readBody body
        (dbusUnmarshalBodyBegin (messageBytes mtype flags serial fields body).length
          (messageBytes mtype flags serial fields body))).2 = 0 := by
  obtain ⟨h4, -, h12⟩ := message_words h
  obtain ⟨H, hH, hsplit⟩ := message_head mtype flags serial fields body
  have hlen := message_length mtype flags serial fields body
  have hge := le_align (16 + (fieldsBytes fields).length) (show 0 < 8 by decide)
  have h0 : ¬ (messageBytes mtype flags serial fields body).length = 0 := by omega
  obtain ⟨A, hA⟩ :
    ∃ A, A = H ++ (fieldsBytes fields ++ padBytes (16 + (fieldsBytes fields).length) 8) := ⟨_, rfl⟩
  have hAl : A.length = align (16 + (fieldsBytes fields).length) 8 := by
    have hp := length_padBytes (n := 16 + (fieldsBytes fields).length) (show 0 < 8 by decide)
    rw [hA, List.length_append, List.length_append, hH]
    omega
  have hpA : messageBytes mtype flags serial fields body = A ++ (bodyBytes fields body ++ []) := by
    rw [hsplit, hA]
    simp only [List.append_assoc, List.append_nil]
  have cursor : dbusUnmarshalBodyBegin (messageBytes mtype flags serial fields body).length
      (messageBytes mtype flags serial fields body) =
      ⟨messageBytes mtype flags serial fields body, A.length,
        (messageBytes mtype flags serial fields body).length⟩ := by
    have m1 : min A.length (messageBytes mtype flags serial fields body).length = A.length := by
      omega
    have m2 : min (A.length + (bodyBytes fields body).length)
      (messageBytes mtype flags serial fields body).length =
        (messageBytes mtype flags serial fields body).length := by omega
    simp only [dbusUnmarshalBodyBegin, dbusUnmarshalBodyOff, dbusUnmarshalFieldsLen,
      dbusUnmarshalBodyLen, h0, h12, h4, if_false, ← hAl, m1, m2]
  have read := read_body (p := messageBytes mtype flags serial fields body) h body A []
    (by rw [hAl]; exact hpA) (by rw [hAl, hlen]; rfl)
  rw [cursor, read]
  exact ⟨rfl, by simp [dbusUnmarshalBodyRemaining]⟩

end

/-- **Encode, then decode, is the identity.** For every type, flags, serial, every
list of fields with distinct codes, every body: a message that is not poisoned
is as long as `dbus_marshal_finish`, `dbus_marshal_len` and `dbus_frame_total`
say; it is valid; every field written is found, of its type and with its value,
and no other; the body reads back in order, to its end. -/
theorem encode_decode (mtype flags : Int) (serial : UInt32) (fields : List HeaderField)
    (body : List BodyValue) (hd : (fields.map HeaderField.code).Nodup)
    (hb : (dbusMarshalFinish (dbusMarshalBuild mtype flags serial.toNat fields body)).2.bad = false)
    :
    let total := (dbusMarshalFinish (dbusMarshalBuild mtype flags serial.toNat fields body)).1
    let m := (dbusMarshalFinish (dbusMarshalBuild mtype flags serial.toNat fields body)).2
    total = dbusMarshalLen m ∧ dbusFrameTotal m.buf m.buf.length = .msg total ∧
    dbusUnmarshalValidate total m.buf = true ∧
    (∀ f ∈ fields, ∃ off, dbusUnmarshalFindField total m.buf f.code = .ok (off, f.sig) ∧
      f.ReadsAt total m.buf off) ∧
    (∀ code, code ∉ fields.map HeaderField.code →
      dbusUnmarshalFindField total m.buf code = .error .notfound) ∧
    (readBody body (dbusUnmarshalBodyBegin total m.buf)).1 = body.map (fun v => .ok v.datum) ∧
    dbusUnmarshalBodyRemaining (readBody body (dbusUnmarshalBodyBegin total m.buf)).2 = 0 := by
  have hb' : (dbusMarshalBuild mtype flags serial.toNat fields body).bad = false := hb
  obtain ⟨hfin, -, hl⟩ := build_bytes mtype flags serial.toNat fields body hb'
  rw [hfin]
  have hsmall : (messageBytes mtype flags serial.toNat fields body).length ≤ 8192 := by omega
  have hge := messageTotal_ge (message_total hsmall)
  refine ⟨rfl, (dbusFrameTotal_ok hge (message_total hsmall)).1, message_valid hsmall hd, ?_, ?_,
    (message_body hsmall).1, (message_body hsmall).2⟩
  · intro f hf
    exact (message_find hsmall hd f.code).1 f hf rfl
  · intro code hmiss
    exact (message_find hsmall hd code).2 hmiss

/-- A reply: a word, a boolean and a string. -/
def sampleReply : Marshal :=
  dbusMarshalBuild 2 1 (7 : UInt32).toNat [.signature (lit "ubs") (by simp [lit]) (by decide),
    .word 5 9 (by decide)] [.word 300, .bool 5, .text (lit "ok") (by decide)]

theorem encode_decode_reply :
    dbusUnmarshalValidate (dbusMarshalFinish sampleReply).1
    (dbusMarshalFinish sampleReply).2.buf = true ∧
      dbusUnmarshalFindField (dbusMarshalFinish sampleReply).1 (dbusMarshalFinish sampleReply).2.buf
      1 =
        .error .notfound := by
  obtain ⟨-, -, valid, -, missing, -⟩ := encode_decode 2 1 7
    [.signature (lit "ubs") (by simp [lit]) (by decide), .word 5 9 (by decide)]
    [.word 300, .bool 5, .text (lit "ok") (by decide)] (by decide) (by decide)
  exact ⟨valid, missing 1 (by decide)⟩

end Samvada
