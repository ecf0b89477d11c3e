import Samvada.FrameStream
import Samvada.Grammar
import Samvada.Decoded

/- The finder and the validator walk the same fields. On a message the validator
   accepts, every lookup is one in the list of its fields, so what it answers
   does not depend on their order or on the padding between them, and neither
   does what a call makes of the message. -/
namespace Samvada
open Octets Resumable

/-! ## The finder's walk -/

/-- The first field of a code. -/
def firstField (fs : List Field) (code : Nat) : Option Field := fs.find? (·.code == code)

/-- The fields `pre` stand from `n` on and end at `m`. -/
inductive Reaches (p : Bytes) (fin : Nat) : Nat → List Field → Nat → Prop where
  | nil (n : Nat) : Reaches p fin n [] n
  | cons {n vo nxt m : Nat} {f : Field} {pre : List Field} (h : FieldAt p fin (align n 8) f vo nxt)
    (rest : Reaches p fin nxt pre m) : Reaches p fin n (f :: pre) m

/-- What the finder answers: the first field of the code, and where its value is. -/
inductive Located (p : Bytes) (fin n code : Nat) (fs : List Field) :
    Except UnmarshalErr (Nat × Nat) → Prop where
  | missing (h : ∀ f ∈ fs, f.code ≠ code) : Located p fin n code fs (.error .notfound)
  | found {pre post : List Field} {f : Field} {m vo nxt : Nat} (split : fs = pre ++ f :: post)
      (hc : f.code = code)
    (first : ∀ g ∈ pre, g.code ≠ code) (reach : Reaches p fin n pre m)
    (h : FieldAt p fin (align m 8) f vo nxt) : Located p fin n code fs (.ok (vo, f.type))

theorem Located.cons {p : Bytes} {fin n vo nxt code : Nat} {f : Field} {fs : List Field}
    {r : Except UnmarshalErr (Nat × Nat)} (h : FieldAt p fin (align n 8) f vo nxt)
    (hne : f.code ≠ code) (rest : Located p fin nxt code fs r) :
    Located p fin n code (f :: fs) r := by
  cases rest with
  | missing hm =>
    refine .missing fun g hg => ?_
    rcases List.mem_cons.mp hg with rfl | hg
    · exact hne
    · exact hm g hg
  | found split hc first reach hf =>
    refine .found (congrArg (f :: ·) split) hc (fun g hg => ?_) (.cons h reach) hf
    rcases List.mem_cons.mp hg with rfl | hg
    · exact hne
    · exact first g hg

/-- **The finder walks the fields of the grammar**, by induction on them. -/
theorem dbuFindWalk_located {p : Bytes} {fin at_ : Nat} {fs : List Field}
    (h : Fields p fin at_ fs) (code : Nat) : ∀ n, fin ≤ n + at_ → Located p fin at_ code fs
    (dbuFindWalk p fin code n at_) := by
  induction h with
  | @nil at_ hgap =>
    intro n hn
    have none : dbuFindWalk p fin code n at_ = .error .notfound := by
      cases n with
      | zero => rfl
      | succ n => simp [dbuFindWalk, hgap]
    rw [none]
    exact .missing fun f hf => by cases hf
  | @cons at_ vo nxt f fs hf hrest ih =>
    intro n hn
    have hle := le_align at_ (show 0 < 8 by decide)
    have hhead := hf.head
    have hends := hf.value.ends
    obtain ⟨x, hx, -, hvo, hnxt⟩ := hf.value.extent hf.clean
    cases n with
    | zero => omega
    | succ n =>
      have h1 : ¬ fin ≤ at_ := by omega
      have h2 : ¬ fin ≤ align at_ 8 := by omega
      have h3 : ¬ fin < align at_ 8 + 4 := by omega
      have h4 : ¬ nxt ≤ align at_ 8 := by omega
      have h5 : ¬ (dbuFieldType f.code ≠ 0 ∧ f.type ≠ dbuFieldType f.code) := by
        rintro ⟨h0, hne⟩
        exact hne (hf.defined _ ((dbuFieldType_iff h0).mp rfl))
      have walk : dbuFindWalk p fin code (n + 1) at_ =
          if f.code = code then .ok (vo, f.type) else dbuFindWalk p fin code n nxt := by
        rw [dbuFindWalk]
        simp only [h1, h2, h3, if_false, hf.one, hf.nul, hf.code, hf.type, hx, h4, h5,
          not_true_eq_false, hvo, hnxt, ne_eq]
      rw [walk]
      by_cases hc : f.code = code
      · rw [if_pos hc]
        exact .found (show f :: fs = [] ++ f :: fs from rfl) hc
          (fun g hg => by cases hg) (.nil _) hf
      · rw [if_neg hc]
        exact .cons hf hc (ih n (by omega))

/-- On a well-formed message a lookup is one among its fields. -/
theorem WellFormed.located {limit : Nat} {p : Bytes} {fs : List Field}
    (wf : WellFormed limit p fs) (code : Nat) : Located p (16 + dbusUnmarshalFieldsLen p) 16 code fs
    (dbusUnmarshalFindField limit p code) := by
  have h1 : ¬ limit < 16 := Nat.not_lt.mpr wf.header
  have h2 : ¬ limit < 16 + dbusUnmarshalFieldsLen p := Nat.not_lt.mpr wf.inside
  rw [dbusUnmarshalFindField, if_neg h1]
  simp only [h2, if_false]
  exact dbuFindWalk_located wf.fields code _ (Nat.le_add_right _ _)

/-! ## What a lookup reads -/

/-- A field's value as its reader sees it at `vo`. -/
def HeldAt (limit : Nat) (p : Bytes) (vo : Nat) (f : Field) : Prop :=
  if Stringy f.type then dbusUnmarshalStrAt limit p vo = .ok (vo + 4, f.value.length) ∧
    loadN p (vo + 4) f.value.length = f.value ∧ load8 p (vo + 4 + f.value.length) = 0
  else if f.type = 103 then dbusUnmarshalSigAt limit p vo = .ok (vo + 1, f.value.length) ∧
    loadN p (vo + 1) f.value.length = f.value ∧ load8 p (vo + 1 + f.value.length) = 0
  else loadN p vo (dbuBasicSize f.type) = f.value

theorem ValueAt.held {p : Bytes} {fin limit start vo nxt : Nat} {f : Field}
    (h : ValueAt p fin start f.type f.value vo nxt) (hl : fin ≤ limit) : HeldAt limit p vo f := by
  obtain ⟨code, type, value⟩ := f
  unfold HeldAt
  simp only at h ⊢
  cases h with
  | text ht hvo hin hn hv hnul =>
    have h0 : limit ≠ 0 := by omega
    have h1 : ¬ limit < vo + 4 := by omega
    have h2 : ¬ limit < vo + 4 + value.length + 1 := by omega
    rw [if_pos ht]
    exact ⟨by simp only [dbusUnmarshalStrAt, h0, h1, hn, h2, if_false], hv, hnul⟩
  | signature hin hn hv hnul =>
    have hs : ¬ Stringy 103 := by omega
    have h0 : limit ≠ 0 := by omega
    have h1 : ¬ limit < start + 1 := by omega
    have h2 : ¬ limit < start + 1 + value.length + 1 := by omega
    rw [if_neg hs, if_pos rfl]
    exact ⟨by simp only [dbusUnmarshalSigAt, h0, h1, hn, h2, if_false], hv, hnul⟩
  | fixed ht hvo hin hv =>
    obtain ⟨hs, hg, -⟩ := fixed_not_text ht
    have size := dbuBasicSize_fixed ht
    rw [if_neg hs, if_neg hg]
    simp only at size
    rw [size]
    exact hv

/-- A lookup finds the first field of its code, or none has it. -/
theorem WellFormed.lookup {limit : Nat} {p : Bytes} {fs : List Field}
    (wf : WellFormed limit p fs) (code : Nat) :
    match firstField fs code with
    | none => dbusUnmarshalFindField limit p code = .error .notfound
    | some f =>
      ∃ vo, dbusUnmarshalFindField limit p code = .ok (vo, f.type) ∧ HeldAt limit p vo f := by
  have located := wf.located code
  generalize dbusUnmarshalFindField limit p code = r at located
  cases located with
  | missing hm =>
    have none : firstField fs code = none := by
      rw [firstField, List.find?_eq_none]
      intro f hf
      simpa using hm f hf
    rw [none]
  | @found pre post f m vo nxt split hc first reach hf =>
    have found : firstField fs code = some f := by
      rw [firstField, List.find?_eq_some_iff_append]
      refine ⟨by simpa using hc, pre, post, split, fun g hg => ?_⟩
      simpa using first g hg
    rw [found]
    exact ⟨vo, rfl, hf.value.held wf.inside⟩

/-- A field found under a defined code has its type. -/
theorem WellFormed.typed {limit : Nat} {p : Bytes} {fs : List Field} (wf : WellFormed limit p fs)
    {c t : Nat} {f : Field} (hc : (c, t) ∈ definedTypes) (hf : firstField fs c = some f) :
    f.type = t := by
  have typed : ∀ {n : Nat} {fs : List Field}, Fields p (16 + dbusUnmarshalFieldsLen p) n fs →
    ∀ f ∈ fs, f.code = c →
      f.type = t := by
    intro n fs h
    induction h with
    | nil => simp
    | cons hg _ ih =>
      intro f hf he
      rcases List.mem_cons.mp hf with rfl | hf
      · exact hg.defined t (he.symm ▸ hc)
      · exact ih f hf he
  exact typed wf.fields f (List.mem_of_find?_eq_some hf) (by simpa using List.find?_some hf)

/-- The content of the first field of a code, with its type, as a caller reads it. -/
def lookupValue (limit : Nat) (p : Bytes) (code : Nat) : Except UnmarshalErr (Nat × Bytes) :=
  match dbusUnmarshalFindField limit p code with
  | .error e => .error e
  | .ok (off, t) =>
    if t = 115 ∨ t = 111 then (dbusUnmarshalStrAt limit p off).map fun r => (t, loadN p r.1 r.2)
    else if t = 103 then (dbusUnmarshalSigAt limit p off).map fun r => (t, loadN p r.1 r.2)
    else .ok (t, loadN p off (dbuBasicSize t))

theorem WellFormed.lookupValue {limit : Nat} {p : Bytes} {fs : List Field}
    (wf : WellFormed limit p fs) (code : Nat) : lookupValue limit p code = match
    firstField fs code with
      | none => .error .notfound
      | some f => .ok (f.type, f.value) := by
  have look := wf.lookup code
  unfold Samvada.lookupValue
  cases hf : firstField fs code with
  | none =>
    rw [hf] at look
    simp only at look
    rw [look]
  | some f =>
    rw [hf] at look
    obtain ⟨vo, hfind, held⟩ := look
    rw [hfind]
    unfold HeldAt at held
    simp only
    split at held
    · next hs =>
      rw [if_pos hs, held.1]
      simp only [Except.map, held.2.1]
    · next hs =>
      rw [if_neg hs]
      split at held
      · next hg =>
        rw [if_pos hg, held.1]
        simp only [Except.map, held.2.1]
      · next hg =>
        rw [if_neg hg, held]

/-! ## A message alone -/

/-- Two blocks with the same first `n` bytes read the same inside them. -/
theorem loadN_congr {p q : Bytes} {n i m : Nat} (h : loadN q 0 n = loadN p 0 n) (hi : i + m ≤ n) :
    loadN q i m = loadN p i m := by
  apply List.map_congr_left
  intro j hj
  have hj' := List.mem_range.mp hj
  have e := congrArg (List.getD · (i + j) 0) h
  simp only [loadN_getD (show i + j < n by omega), Nat.zero_add] at e
  exact e

section
variable {p q : Bytes} {n : Nat} (h : loadN q 0 n = loadN p 0 n)
include h

theorem load8_congr {i : Nat} (hi : i < n) : load8 q i = load8 p i := by
  have e := load8_loadN (p := q) (i := 0) hi
  rw [h, load8_loadN hi, Nat.zero_add] at e
  exact e.symm

theorem load32_congr {i : Nat} (hi : i + 4 ≤ n) : load32 q i = load32 p i := by
  unfold load32
  rw [load8_congr h (by omega), load8_congr h (by omega), load8_congr h (by omega),
    load8_congr h (by omega)]

theorem ValueAt.congr {fin start t vo nxt : Nat} {v : Bytes} (hf : fin ≤ n)
    (hv : ValueAt p fin start t v vo nxt) : ValueAt q fin start t v vo nxt := by
  cases hv with
  | text ht hvo hin hn hv hnul =>
    refine .text ht hvo hin ?_ ?_ ?_
    · rw [load32_congr h (by omega), hn]
    · rw [loadN_congr h (by omega), hv]
    · rw [load8_congr h (by omega), hnul]
  | signature hin hn hv hnul =>
    refine .signature hin ?_ ?_ ?_
    · rw [load8_congr h (by omega), hn]
    · rw [loadN_congr h (by omega), hv]
    · rw [load8_congr h (by omega), hnul]
  | fixed ht hvo hin hv => exact .fixed ht hvo hin (by rw [loadN_congr h (by omega), hv])

theorem FieldAt.congr {fin pos vo nxt : Nat} {f : Field} (hf : fin ≤ n)
    (hv : FieldAt p fin pos f vo nxt) : FieldAt q fin pos f vo nxt where
  head := hv.head
  code := by
    have := hv.head
    rw [load8_congr h (by omega), hv.code]
  valid := hv.valid
  one := by
    have := hv.head
    rw [load8_congr h (by omega), hv.one]
  type := by
    have := hv.head
    rw [load8_congr h (by omega), hv.type]
  nul := by
    have := hv.head
    rw [load8_congr h (by omega), hv.nul]
  defined := hv.defined
  value := hv.value.congr h hf
  clean := hv.clean

theorem Fields.congr {fin at_ : Nat} {fs : List Field} (hf : fin ≤ n) (hv : Fields p fin at_ fs) :
    Fields q fin at_ fs := by
  induction hv with
  | nil hg => exact .nil hg
  | cons hfield _ ih => exact .cons (hfield.congr h hf) ih

theorem WellFormed.congr {fs : List Field} (wf : WellFormed n p fs) : WellFormed n q fs := by
  have hdr := wf.header
  have len : dbusUnmarshalFieldsLen q = dbusUnmarshalFieldsLen p := load32_congr h (by omega)
  refine ⟨hdr, ?_, ?_, wf.once⟩
  · rw [len]
    exact wf.inside
  · rw [len]
    exact wf.fields.congr h wf.inside

end

/-! ## What a call makes of a message -/

theorem hasPrefix_congr {p q : Bytes} {n : Nat} (s : String) (h : loadN q 0 n = loadN p 0 n) :
    dbsHasPrefix q n s = dbsHasPrefix p n s := by
  unfold dbsHasPrefix
  by_cases hl : (lit s).length ≤ n
  · rw [loadN_congr (n := n) h (by omega)]
  · have hl' : ¬ ((lit s).length : Int) ≤ n := by omega
    simp [hl']

theorem row_congr {p q : Bytes} {n : Nat} (table : List (String × Int))
    (h : loadN q 0 n = loadN p 0 n) : dbsRow table q n = dbsRow table p n := by
  unfold dbsRow dbsNameIs
  simp only [hasPrefix_congr _ h]

/-- The errno of a name depends on its bytes only. -/
theorem mapError_congr {p q : Bytes} {n : Nat} (h : loadN q 0 n = loadN p 0 n) :
    dbusSessionMapError q n = dbusSessionMapError p n := by
  unfold dbusSessionMapError
  rw [hasPrefix_congr _ h, row_congr _ h]
  split
  · next hp =>
    -- the rest of the name, after the thirteen bytes of the prefix
    have h13 : 13 ≤ n := by
      simp only [dbsHasPrefix, Bool.and_eq_true, decide_eq_true_eq] at hp
      have : (lit "System.Error.").length = 13 := by decide
      omega
    have rest : loadN (q.drop 13) 0 (n - 13) = loadN (p.drop 13) 0 (n - 13) := by
      rw [loadN_drop, loadN_drop]
      exact loadN_congr h (by omega)
    have e : (n : Int) - 13 = (n - 13 : Nat) := by omega
    rw [e, dbsErrnoNamed, dbsErrnoNamed, row_congr _ rest]
  · rfl

/-- The verdict on a message of this type whose first field of each code is `look`'s. -/
def fieldsVerdict (uniq : Bytes) (serial : Nat) (stale : Bool) (mtype : Nat)
    (look : Nat → Option Field) : Verdict :=
  let answers := (look dbusMarshalFReplyser).any fun f => load32 f.value 0 == serial
  let addressed := uniq == [] || (look dbusMarshalFDest).all fun f => f.value == uniq
  if answers && !stale && addressed then
    if mtype = dbusMarshalTypeReturn then .success
    else if mtype = dbusMarshalTypeError then
      .failure (match look dbusMarshalFErrname with
        | none => -5
        | some f => dbusSessionMapError f.value f.value.length)
    else .other
  else .other

section
variable {limit : Nat} {p : Bytes} {fs : List Field} (wf : WellFormed limit p fs)
include wf

theorem WellFormed.destOk (uniq : Bytes) : dbusSessionDestOk uniq limit p =
    (uniq == [] || (firstField fs dbusMarshalFDest).all fun f => f.value == uniq) := by
  unfold dbusSessionDestOk
  by_cases hu : uniq = []
  · simp [hu]
  have look := wf.lookup dbusMarshalFDest
  have hu' : (uniq == []) = false := by simpa using hu
  rw [if_neg hu, hu', Bool.false_or]
  cases hf : firstField fs dbusMarshalFDest with
  | none =>
    rw [hf] at look
    simp only at look
    rw [look]
    rfl
  | some f =>
    rw [hf] at look
    obtain ⟨vo, hfind, held⟩ := look
    have ht : f.type = 115 := wf.typed (by decide) hf
    rw [HeldAt, if_pos (by rw [ht]; decide)] at held
    simp only [hfind, held.1, held.2.1, Option.all_some]

/-- The four filters, on the fields. -/
theorem WellFormed.mine (uniq : Bytes) (serial wm pos : Nat) : dbusSessionMine uniq serial
    wm pos limit p =
    ((firstField fs dbusMarshalFReplyser).any (fun f => load32 f.value 0 == serial) &&
    !decide (pos < wm) &&
      (uniq == [] || (firstField fs dbusMarshalFDest).all fun f => f.value == uniq)) := by
  have look := wf.lookup dbusMarshalFReplyser
  unfold dbusSessionMine
  rw [(validate_iff_wellFormed limit p).mpr ⟨fs, wf⟩, wf.destOk uniq, Bool.true_and]
  congr 2
  cases hf : firstField fs dbusMarshalFReplyser with
  | none =>
    rw [hf] at look
    simp only at look
    rw [look]
    rfl
  | some f =>
    rw [hf] at look
    obtain ⟨vo, hfind, held⟩ := look
    have ht : f.type = 117 := wf.typed (by decide) hf
    rw [HeldAt, if_neg (by rw [ht]; decide), if_neg (by rw [ht]; decide), ht] at held
    have e : load32 f.value 0 = load32 p vo := by
      rw [← held]
      exact load32_loadN (by decide)
    simp only [hfind, Option.any_some, e]

theorem WellFormed.errorOf : dbusSessionErrorOf limit p = match firstField fs
    dbusMarshalFErrname with
    | none => -5
    | some f => dbusSessionMapError f.value f.value.length := by
  have look := wf.lookup dbusMarshalFErrname
  unfold dbusSessionErrorOf
  cases hf : firstField fs dbusMarshalFErrname with
  | none =>
    rw [hf] at look
    simp only at look
    rw [look]
  | some f =>
    rw [hf] at look
    obtain ⟨vo, hfind, held⟩ := look
    have ht : f.type = 115 := wf.typed (by decide) hf
    rw [HeldAt, if_pos (by rw [ht]; decide)] at held
    simp only [hfind, held.1]
    apply mapError_congr
    rw [loadN_drop, held.2.1, loadN_self]

/-- **What a call makes of a well-formed message** depends on its type and the
first field of three codes. -/
theorem WellFormed.verdict (uniq : Bytes) (serial wm pos : Nat) : dbusSessionVerdict uniq serial
    wm pos limit p = fieldsVerdict uniq serial (decide (pos < wm)) (dbusUnmarshalType p)
    (firstField fs) := by
  unfold dbusSessionVerdict fieldsVerdict
  rw [wf.mine, wf.errorOf]

end

/-! ## Another order -/

/-- A code that occurs at most once has the same first field in any order. -/
theorem firstField_perm {fs fs' : List Field} {c : Nat} (h : fs.Perm fs')
    (hc : (fs.map Field.code).count c ≤ 1) : firstField fs c = firstField fs' c := by
  have count : (fs.filter (·.code == c)).length ≤ 1 := by
    rw [← List.countP_eq_length_filter]
    rw [List.count, List.countP_map] at hc
    exact hc
  have perm := h.filter (·.code == c)
  rw [firstField, firstField, ← List.head?_filter, ← List.head?_filter]
  match hl : fs.filter (·.code == c) with
  | [] =>
    rw [hl] at perm
    rw [hl, ← perm.nil_eq]
  | [f] =>
    rw [hl] at perm
    rw [hl, List.perm_singleton.mp perm.symm]
  | f :: g :: rest =>
    rw [hl] at count
    simp at count

/-- A defined code leads to its one field. -/
theorem WellFormed.first {n : Nat} {p : Bytes} {fs : List Field} (wf : WellFormed n p fs)
    {f : Field} {t : Nat} (hf : f ∈ fs) (hc : (f.code, t) ∈ definedTypes) :
    firstField fs f.code = some f := by
  rw [firstField_perm (List.perm_cons_erase hf) (wf.once _ _ hc)]
  exact List.find?_cons_of_pos (beq_self_eq_true f.code)

/-- The same fields in another order get the same verdict. -/
theorem verdict_perm {limit limit' : Nat} {p p' : Bytes} {fs fs' : List Field}
    (wf : WellFormed limit p fs)
    (wf' : WellFormed limit' p' fs') (h : fs.Perm fs')
    (ht : dbusUnmarshalType p = dbusUnmarshalType p') (uniq : Bytes) (serial wm pos : Nat) :
    dbusSessionVerdict uniq serial wm pos limit p = dbusSessionVerdict uniq serial wm pos
    limit' p' := by
  have same {c t : Nat} (hc : (c, t) ∈ definedTypes) : firstField fs c = firstField fs' c :=
    firstField_perm h (wf.once c t hc)
  have serialField : firstField fs dbusMarshalFReplyser = firstField fs' dbusMarshalFReplyser :=
    same (t := 117) (by decide)
  have destField : firstField fs dbusMarshalFDest = firstField fs' dbusMarshalFDest :=
    same (t := 115) (by decide)
  have nameField : firstField fs dbusMarshalFErrname = firstField fs' dbusMarshalFErrname :=
    same (t := 115) (by decide)
  rw [wf.verdict, wf'.verdict, ht]
  unfold fieldsVerdict
  rw [serialField, destField, nameField]

/-- What the inner loop of a call does with the message at the head is decided by the verdict on
it. -/
theorem scanRound_verdict {w : World} {r : Nat} (h : AtRest w.fr (.msg r)) (serial wm : Nat) :
    ∃ w', dbsScanRound serial wm () w = .done
      (match dbusSessionVerdict w.dbs.uniq serial wm (dbusFramePos w.fr) r (dbusFrameBase w.fr) with
        | .success => .inr (.answered 0)
        | .failure rc => .inr (.answered rc)
        | .other => .inl ()) w' := by
  have next : frameNext w = .done (.msg r) ({ w with fr := w.fr }.emit [.next (.msg r) w.fr]) := by
    simp only [frameNext, Prog.modifyGet, h.next, List.map_nil, List.nil_append]
  obtain ⟨d, read⟩ :=
    decode_run (fun w' d => Decode.verdict_eq w'.dbs.uniq serial wm (dbusFramePos w'.fr) r
    (dbusFrameBase w'.fr) d) ({ w with fr := w.fr }.emit [.next (.msg r) w.fr])
  rw [dbsScanRound, Prog.bind_done next]
  dsimp only
  rw [Prog.bind_done read]
  simp only [Prog.bind_run, Prog.gets_run, World.emit]
  cases dbusSessionVerdict w.dbs.uniq serial wm (dbusFramePos w.fr) r (dbusFrameBase w.fr) with
  | success => exact ⟨_, rfl⟩
  | failure rc => exact ⟨_, rfl⟩
  | other => exact ⟨_, rfl⟩

/-- **The finder agrees with the validator, and field order does not matter.**
On a message the validator accepts, a lookup never fails: it answers the first
field of its code, or that there is none. Two accepted messages of one type
with the same fields in different orders give the same lookups of every
defined code, and a call that has either at its head, at the same position,
decides the same. -/
theorem field_order_irrelevant :
    (∀ (limit : Nat) (p : Bytes), dbusUnmarshalValidate limit p = true → ∃ fs,
    WellFormed limit p fs ∧ ∀ code,
      Located p (16 + dbusUnmarshalFieldsLen p) 16 code fs (dbusUnmarshalFindField limit p code) ∧
      ∀ f, firstField fs code = some f →
        ∃ vo, dbusUnmarshalFindField limit p code = .ok (vo, f.type) ∧ HeldAt limit p vo f) ∧
    ∀ (limit limit' : Nat) (p p' : Bytes) (fs fs' : List Field), WellFormed limit p fs →
    WellFormed limit' p' fs' →
      fs.Perm fs' → dbusUnmarshalType p = dbusUnmarshalType p' →
      (∀ c t, (c, t) ∈ definedTypes → lookupValue limit p c = lookupValue limit' p' c) ∧
      ∀ (w w' : World) (serial wm : Nat), AtRest w.fr (.msg limit) → AtRest w'.fr (.msg limit') →
        dbusFrameBase w.fr = p → dbusFrameBase w'.fr = p' → dbusFramePos w.fr = dbusFramePos w'.fr →
        w.dbs.uniq = w'.dbs.uniq →
        ∃ decision v v', dbsScanRound serial wm () w = .done decision v ∧ dbsScanRound serial wm ()
        w' = .done decision v' := by
  constructor
  · intro limit p valid
    obtain ⟨fs, wf⟩ := (validate_iff_wellFormed limit p).mp valid
    refine ⟨fs, wf, fun code => ⟨wf.located code, fun f hf => ?_⟩⟩
    have look := wf.lookup code
    rw [hf] at look
    exact look
  · intro limit limit' p p' fs fs' wf wf' perm ht
    constructor
    · intro c t hc
      rw [wf.lookupValue, wf'.lookupValue, firstField_perm perm (wf.once c t hc)]
    · rintro w w' serial wm hw hw' rfl rfl hpos huniq
      obtain ⟨v, hv⟩ := scanRound_verdict hw serial wm
      obtain ⟨v', hv'⟩ := scanRound_verdict hw' serial wm
      rw [← hpos, ← huniq, ← verdict_perm wf wf' perm ht] at hv'
      exact ⟨_, v, v', hv, hv'⟩

/-- A reply with its serial ahead of a field of an unknown code, and behind it. -/
def serialFirst : Bytes :=
  [108, 2, 1, 1, 0, 0, 0, 0, 1, 0, 0, 0, 13, 0, 0, 0, 5, 1, 117, 0, 7, 0, 0, 0, 200, 1,
    121, 0, 1, 0, 0, 0]

def serialLast : Bytes :=
  [108, 2, 1, 1, 0, 0, 0, 0, 1, 0, 0, 0, 16, 0, 0, 0, 200, 1, 121, 0, 1, 0, 0, 0, 5, 1,
    117, 0, 7, 0, 0, 0]

theorem serial_value : ((117, 4) : Nat × Nat) ∈ fixedTypes ∧ ((121, 1) : Nat × Nat) ∈
    fixedTypes := by decide

theorem serialFirst_wellFormed :
    WellFormed 32 serialFirst [⟨5, 117, [7, 0, 0, 0]⟩, ⟨200, 121, [1]⟩] where
  header := by decide
  inside := by decide
  fields := by
    refine .cons
      ⟨by decide, rfl, by decide, rfl, rfl, rfl, ?_, .fixed serial_value.1 rfl (by decide) rfl, ?_⟩
      (.cons ⟨by
      decide, rfl, by decide, rfl, rfl, rfl, ?_, .fixed serial_value.2 rfl (by decide) rfl, ?_⟩
        (.nil (by decide)))
    all_goals simp [definedTypes, CleanText]
  once := (definedCodes_nodup _).mp (by decide)

theorem serialLast_wellFormed :
    WellFormed 32 serialLast [⟨200, 121, [1]⟩, ⟨5, 117, [7, 0, 0, 0]⟩] where
  header := by decide
  inside := by decide
  fields := by
    refine .cons
      ⟨by decide, rfl, by decide, rfl, rfl, rfl, ?_, .fixed serial_value.2 rfl (by decide) rfl, ?_⟩
      (.cons ⟨by
      decide, rfl, by decide, rfl, rfl, rfl, ?_, .fixed serial_value.1 rfl (by decide) rfl, ?_⟩
        (.nil (by decide)))
    all_goals simp [definedTypes, CleanText]
  once := (definedCodes_nodup _).mp (by decide)

/-- A session with one message buffered. -/
def holding (p : Bytes) : World where
  fr := { buf := p }

theorem holding_atRest {p : Bytes} (h : messageTotal p = .ok 32) (hp : p.length = 32) :
    AtRest (holding p).fr (.msg 32) :=
  .whole 32 rfl h (by decide) (by simp [holding, dbusFrameHave, hp])

/-- Both orders have the same serial, and a call for it decides the same on both. -/
theorem field_order_irrelevant_two : lookupValue 32 serialFirst 5 = lookupValue 32 serialLast 5 ∧
    ∃ decision v v', dbsScanRound 7 0 () (holding serialFirst) = .done decision v ∧
      dbsScanRound 7 0 () (holding serialLast) = .done decision v' := by
  obtain ⟨lookups, decides⟩ := field_order_irrelevant.2 32 32 serialFirst serialLast _ _
    serialFirst_wellFormed serialLast_wellFormed (List.Perm.swap ..) rfl
  exact ⟨lookups 5 117 (by decide), decides (holding serialFirst) (holding serialLast) 7 0
    (holding_atRest rfl rfl) (holding_atRest rfl rfl) rfl rfl rfl rfl⟩

end Samvada
