import Samvada.DbusDecode
import Samvada.Sending

/- What samvada writes, as tools/dbus_decode.py reads it: any requests that samvada
   can send, one after another, are read as the method calls they make. The encoder
   and the decoder were written apart; what joins them is the grammar of a message. -/
namespace Samvada.DbusDecode
open Octets Framing

/-! ## Whole messages -/

/-- `p` is one whole message, little-endian, with fields the decoder knows. -/
structure Legible (p : Bytes) : Prop where
  total : messageTotal p = .ok p.length
  little : load8 p 0 = 108
  readable : ∃ fs, WellFormed p.length p fs ∧ ∀ f ∈ fs, Readable f

theorem shownInfo_append {p q : Bytes} {fs : List Field} (wf : WellFormed p.length p fs)
    (total : p.length = dbusUnmarshalBodyOff p + dbusUnmarshalBodyLen p) :
    shownInfo (p ++ q) fs = shownInfo p fs := by
  have header := wf.header
  have byte {i : Nat} (hi : i < 16) : load8 (p ++ q) i = load8 p i := load8_append_left (by omega)
  have word {i : Nat} (hi : i + 4 ≤ 16) : load32 (p ++ q) i = load32 p i :=
    load32_append_left (by omega)
  have body : ((p ++ q).drop (dbusUnmarshalBodyOff p)).take (dbusUnmarshalBodyLen p) =
    (p.drop (dbusUnmarshalBodyOff p)).take (dbusUnmarshalBodyLen p) := by
    rw [List.drop_append_of_le_length (by omega), List.take_append_of_le_length
      (by rw [List.length_drop]; omega)]
  have bodyLen : dbusUnmarshalBodyLen (p ++ q) = dbusUnmarshalBodyLen p := word (by decide)
  have fieldsLen : dbusUnmarshalFieldsLen (p ++ q) = dbusUnmarshalFieldsLen p := word (by decide)
  have bodyOff : dbusUnmarshalBodyOff (p ++ q) = dbusUnmarshalBodyOff p := by
    rw [dbusUnmarshalBodyOff, fieldsLen, dbusUnmarshalBodyOff]
  have type : dbusUnmarshalType (p ++ q) = dbusUnmarshalType p := byte (by decide)
  unfold shownInfo
  rw [bodyLen, fieldsLen, bodyOff, type, body, byte (by decide), byte (by decide), byte (by decide),
    word (by decide)]

/-- A message, whatever stands before it and after it. -/
theorem Legible.shown {p : Bytes} (h : Legible p) (A q : Bytes) :
    ∃ m, decodeOne (A ++ (p ++ q)) A.length = .ok (.message m, A.length + p.length) ∧
    Shows p p.length m := by
  obtain ⟨fs, wf, hr⟩ := h.readable
  have header := wf.header
  have total := total_little h.little h.total
  have rest : (A ++ (p ++ q)).drop A.length = p ++ q := List.drop_left
  have little : load8 (p ++ q) 0 = 108 := (load8_append_left (by omega)).trans h.little
  have length : messageTotal (p ++ q) = .ok p.length :=
    (total_append (F := dbusFormat) header q).trans h.total
  have read := decodeOne_fields little length (by simp only [List.length_append]; omega)
    (wf.congr ((loadN_left p q).trans (loadN_self p).symm)) hr
  rw [shownInfo_append wf total] at read
  refine ⟨shownInfo p fs, ?_, shownInfo_shows wf total (Nat.le_refl _)⟩
  rw [decodeOne_shift _ _ (by simp only [List.length_append]; omega), rest, read]
  rfl

/-- Whole messages, one after another; `A` is what was read before them. -/
theorem decodeStreamN_legible (ps : List Bytes) (h : ∀ p ∈ ps, Legible p) : ∀ (n : Nat) (A : Bytes),
    ps.flatten.length ≤ n →
    ∃ ms, decodeStreamN (A ++ ps.flatten) n A.length = .ok (ms.map .message) ∧
    List.Forall₂ (fun p m => Shows p p.length m) ps ms := by
  induction ps with
  | nil =>
    intro n A _
    refine ⟨[], decodeStreamN_end _ n ?_, .nil⟩
    simp
  | cons p ps ih =>
    intro n A hn
    -- the rest is read with `p` among what was read before
    have legible := h p List.mem_cons_self
    have pos : 16 ≤ p.length := messageTotal_ge legible.total
    rw [List.flatten_cons, List.length_append] at hn
    obtain ⟨n, rfl⟩ : ∃ k, n = k + 1 := ⟨n - 1, by omega⟩
    obtain ⟨m, hm, shows⟩ := legible.shown A ps.flatten
    obtain ⟨ms, hms, each⟩ := ih (fun p hp => h p (List.mem_cons_of_mem _ hp)) n (A ++ p) (by omega)
    rw [List.append_assoc, List.length_append] at hms
    refine ⟨m :: ms, ?_, .cons shows each⟩
    rw [List.flatten_cons, decodeStreamN, if_neg (by simp only [List.length_append]; omega), hm]
    show (decodeStreamN (A ++ (p ++ ps.flatten)) n (A.length + p.length) >>= _) = _
    rw [hms]
    rfl

/-- The text of a field. -/
def textOf : HeaderField → Option Bytes
  | .path s _ _ => some s
  | .text _ s _ _ _ => some s
  | .signature s _ _ => some s
  | .word _ _ _ => none

/-- A field found, and its text read. -/
theorem lookup_text {limit off : Nat} {p s : Bytes} {f : HeaderField} (hs : textOf f = some s)
    (hfind : dbusUnmarshalFindField limit p f.code = .ok (off, f.sig))
    (hr : f.ReadsAt limit p off) : lookupValue limit p f.code = .ok (f.sig, s) := by
  unfold lookupValue
  rw [hfind]
  cases f with
  | path t ok hm =>
    cases hs
    show (if (111 : Nat) = 115 ∨ (111 : Nat) = 111 then _ else _) = _
    rw [if_pos (by decide), hr.1]
    exact congrArg (fun v => Except.ok (111, v)) hr.2
  | text c t hc h hm =>
    cases hs
    show (if (115 : Nat) = 115 ∨ (115 : Nat) = 111 then _ else _) = _
    rw [if_pos (by decide), hr.1]
    exact congrArg (fun v => Except.ok (115, v)) hr.2
  | signature t h hl =>
    cases hs
    show (if (103 : Nat) = 115 ∨ (103 : Nat) = 111 then _ else if (103 : Nat) = 103 then _ else _) =
      _
    rw [if_neg (by decide), if_pos rfl, hr.1]
    exact congrArg (fun v => Except.ok (103, v)) hr.2
  | word c v hc => cases hs

/-- A request that samvada can send. -/
structure Sendable (a : Asked) : Prop where
  asks : a.op.asks = true
  accepts : a.op.accepts = true
  fits : a.op.path.length < memMax
  serial : 0 < a.serial ∧ a.serial < 4294967296
  encoded : (a.op.request a.serial).bad = false

namespace Sendable
variable {a : Asked}

def fields (h : Sendable a) : List HeaderField :=
  a.op.fields (BusOp.path_ok h.asks h.accepts) h.fits

theorem bytes (h : Sendable a) : a.bytes = messageBytes dbusMarshalTypeCall 0 a.serial h.fields
    a.op.args ∧ a.bytes.length ≤ 4096 := by
  have built := BusOp.request_build h.asks h.accepts h.fits a.serial
  have whole := h.encoded
  rw [built] at whole
  obtain ⟨finish, -, small⟩ := build_bytes dbusMarshalTypeCall 0 a.serial h.fields a.op.args whole
  have same : a.bytes = messageBytes dbusMarshalTypeCall 0 a.serial h.fields a.op.args := by
    rw [Asked.bytes, built]
    exact congrArg (fun r => r.2.buf) finish
  exact ⟨same, same ▸ small⟩

theorem distinct (h : Sendable a) : (h.fields.map HeaderField.code).Nodup := a.op.fields_codes _ _

/-- What a field of the request holds. -/
theorem lookup (h : Sendable a) {f : HeaderField} {s : Bytes} (hf : f ∈ h.fields)
    (hs : textOf f = some s) : lookupValue a.bytes.length a.bytes f.code = .ok (f.sig, s) := by
  obtain ⟨bytes, small⟩ := h.bytes
  rw [bytes] at small ⊢
  obtain ⟨off, hfind, hr⟩ := (message_find (small.trans (by decide)) h.distinct f.code).1 f hf rfl
  exact lookup_text hs hfind hr

theorem no_lookup (h : Sendable a) {c : Nat} (hc : c ∉ h.fields.map HeaderField.code) :
    lookupValue a.bytes.length a.bytes c = .error .notfound := by
  obtain ⟨bytes, small⟩ := h.bytes
  rw [bytes] at small ⊢
  rw [lookupValue, (message_find (small.trans (by decide)) h.distinct c).2 hc]

theorem signature_strict (op : BusOp) : utf8Strict (lit op.signature) = some
    op.signature.toList := by
  have all : ∀ s ∈ ["u", "b", "uu", ""], utf8Strict (lit s) = some s.toList := by decide
  refine all op.signature ?_
  cases op <;> simp [BusOp.signature]

/-- Every field of a request is one the decoder knows. -/
theorem legible (h : Sendable a) : Legible a.bytes := by
  obtain ⟨bytes, small⟩ := h.bytes
  have valid : dbusUnmarshalValidate a.bytes.length a.bytes = true := by
    rw [bytes] at small ⊢
    exact message_valid (by omega) h.distinct
  obtain ⟨fs, wf⟩ := (validate_iff_wellFormed _ _).mp valid
  refine ⟨?_, ?_, fs, wf, fun f hf => ?_⟩
  · rw [bytes] at small ⊢
    exact message_total (by omega)
  · rw [bytes]
    rfl
  -- a field of the message is one of the request's: no lookup finds another code
  have known : f.code ∈ h.fields.map HeaderField.code := by
    by_contra unknown
    have look := h.no_lookup unknown
    rw [wf.lookupValue] at look
    cases hfirst : firstField fs f.code with
    | none => exact absurd (beq_self_eq_true f.code) (List.find?_eq_none.mp hfirst f hf)
    | some g =>
      rw [hfirst] at look
      cases look
  obtain ⟨g, hg, code⟩ := List.mem_map.mp known
  obtain ⟨gtype, -, -, gpos, -⟩ := g.code_cases
  have defined : (f.code, g.sig) ∈ definedTypes := by
    rw [← code]
    exact (dbuFieldType_iff (by omega)).mp gtype
  have first := wf.first hf defined
  have type := wf.typed defined first
  cases g with
  | path s ok hm => exact .inr (.inl (.inr type))
  | text c s hc hn hm => exact .inr (.inl (.inl type))
  | word c v hc => exact .inl type
  | signature s hn hl =>
    -- the one text that has to be UTF-8
    have text : s = lit a.op.signature := by
      unfold fields BusOp.fields at hg
      split at hg
      · simp at hg
      · simp at hg
        exact hg
    have look := h.lookup hg rfl
    rw [code, wf.lookupValue, first] at look
    have value : f.value = s := congrArg Prod.snd (Except.ok.inj look)
    refine .inr (.inr ⟨type, ?_⟩)
    rw [value, text, signature_strict]
    rfl

end Sendable

/-- Values of four bytes need no padding between them. -/
theorem layout_words (vs : List BodyValue) : (∀ v ∈ vs, v.value.length = 4) → ∀ n, n % 4 = 0 →
    layout (fun v => v.bytes) n vs = vs.flatMap BodyValue.value := by
  induction vs with
  | nil => exact fun _ _ _ => rfl
  | cons v vs ih =>
    intro h n hn
    have bytes : v.bytes n = v.value := by
      rw [BodyValue.bytes, padBytes_four hn]
      rfl
    have four := h v List.mem_cons_self
    rw [layout, List.flatMap_cons, bytes, four, ih (fun x hx => h x (List.mem_cons_of_mem v hx))
      (n + 4) (by omega)]

theorem args_words (op : BusOp) : ∀ v ∈ op.args, v.value.length = 4 := by
  cases op <;> simp [BusOp.args, BodyValue.value]

/-- `m` shows the method call that a request makes. -/
structure ShowsCall (a : Asked) (m : Info) : Prop where
  type : m.type = nameOf MSG_TYPE dbusMarshalTypeCall
  serial : m.serial = a.serial
  path : m.fields.get (nameOf FIELD dbusMarshalFPath) = some (.str (utf8Replace a.op.path))
  member : m.fields.get (nameOf FIELD dbusMarshalFMember) = some
    (.str (utf8Replace (lit a.op.member)))
  interface : m.fields.get (nameOf FIELD dbusMarshalFInterface) = some
    (.str (utf8Replace (lit a.op.interface)))
  destination : m.fields.get (nameOf FIELD dbusMarshalFDest) = some
    (.str (utf8Replace (lit a.op.destination)))
  signature : m.fields.get (nameOf FIELD dbusMarshalFSignature) = if a.op.signature = "" then none
  else some (.str a.op.signature.toList)
  body : m.body = a.op.args.flatMap BodyValue.value

theorem Sendable.shows {a : Asked} {m : Info} (h : Sendable a)
    (hm : Shows a.bytes a.bytes.length m) : ShowsCall a m := by
  obtain ⟨bytes, small⟩ := h.bytes
  have field {f : HeaderField} {s : Bytes} {t : Nat} (hf : f ∈ h.fields) (hs : textOf f = some s)
    (hc : (f.code, t) ∈ definedTypes) :
      m.fields.get (nameOf FIELD f.code) = some (DbusDecode.shown ⟨f.code, f.sig, s⟩) := by
    rw [hm.fields _ t hc, h.lookup hf hs]
    rfl
  have text {c : Nat} {s : Bytes} {hc hn hs} (hf : HeaderField.text c s hc hn hs ∈ h.fields)
    (hd : (c, 115) ∈ definedTypes) :
      m.fields.get (nameOf FIELD c) = some (.str (utf8Replace s)) := field hf rfl hd
  refine ⟨?_, ?_, ?_, ?_, ?_, ?_, ?_, ?_⟩
  · rw [hm.type, bytes]
    rfl
  · have words : load32 (messageBytes dbusMarshalTypeCall 0 a.serial h.fields a.op.args)
      8 = ((a.serial : Int) % 4294967296).toNat :=
      (message_words (bytes ▸ small.trans (by decide))).2.1
    have serial := h.serial
    rw [hm.serial, bytes, words]
    omega
  · exact field (t := 111) (List.mem_append_left _ List.mem_cons_self) rfl
      (by decide : (1, 111) ∈ definedTypes)
  · exact text (List.mem_append_left _ (List.mem_cons_of_mem _ List.mem_cons_self)) (by decide)
  · exact text
      (List.mem_append_left _ (List.mem_cons_of_mem _ (List.mem_cons_of_mem _ List.mem_cons_self)))
      (by decide)
  · exact text
      (List.mem_append_left _
      (List.mem_cons_of_mem _ (List.mem_cons_of_mem _ (List.mem_cons_of_mem _ List.mem_cons_self))))
      (by decide)
  · by_cases plain : a.op.signature = ""
    · have absent : dbusMarshalFSignature ∉ h.fields.map HeaderField.code := by
        show dbusMarshalFSignature ∉ (a.op.fields _ _).map HeaderField.code
        rw [BusOp.fields, if_pos plain]
        exact (by decide : 8 ∉ [1, 3, 2, 6])
      rw [if_pos plain, hm.fields _ 103 (by decide), h.no_lookup absent]
      rfl
    · have present : HeaderField.signature (lit a.op.signature) a.op.signature_ne.1
        a.op.signature_ne.2 ∈ h.fields := by
        show _ ∈ a.op.fields _ _
        rw [BusOp.fields, if_neg plain]
        exact List.mem_append_right _ List.mem_cons_self
      have shown := field present rfl (by decide : (8, 103) ∈ definedTypes)
      rw [if_neg plain]
      refine shown.trans (congrArg (fun s => some (Obj.str s)) ?_)
      show (utf8Strict (lit a.op.signature)).getD [] = _
      rw [Sendable.signature_strict, Option.getD_some]
  · obtain ⟨H, hH, split⟩ := message_head dbusMarshalTypeCall 0 a.serial h.fields a.op.args
    have words :=
      message_words
      (bytes ▸ small.trans (by decide) : (messageBytes dbusMarshalTypeCall 0 a.serial h.fields
      a.op.args).length ≤ 8192)
    have pad := length_padBytes (n := 16 + (fieldsBytes h.fields).length) (show 0 < 8 by decide)
    have bodyOff :
      dbusUnmarshalBodyOff
      a.bytes =
      (H ++ (fieldsBytes h.fields ++ padBytes (16 + (fieldsBytes h.fields).length) 8)).length +
      0 := by
      rw [dbusUnmarshalBodyOff, dbusUnmarshalFieldsLen, bytes, words.2.2]
      simp only [List.length_append, hH]
      omega
    have bodyLen : dbusUnmarshalBodyLen a.bytes = (bodyBytes h.fields a.op.args).length := by
      rw [dbusUnmarshalBodyLen, bytes, words.1]
    have parts :
      a.bytes = (H ++ (fieldsBytes h.fields ++ padBytes (16 + (fieldsBytes h.fields).length) 8)) ++
      bodyBytes h.fields a.op.args := by
      rw [bytes, split]
      simp only [List.append_assoc]
    -- the body starts at a multiple of eight, where no word needs padding
    rw [hm.body, bodyOff, bodyLen]
    nth_rewrite 1 [parts]
    rw [loadN_add, loadN_self]
    exact layout_words _ (args_words a.op) _
      (by have := align8_mod (16 + (fieldsBytes h.fields).length); omega)

/-- **What samvada sends, the tool reads.** Any requests that samvada can send, one after another,
are shown each as the method call it
makes: under its serial, on its object, with its interface, member, destination and arguments. -/
theorem requests_decode (asked : List Asked) (h : ∀ a ∈ asked, Sendable a) :
    ∃ ms, decodeStream (asked.flatMap Asked.bytes) = .ok (ms.map .message) ∧
    List.Forall₂ ShowsCall asked ms := by
  have legible : ∀ p ∈ asked.map Asked.bytes, Legible p := by
    intro p hp
    obtain ⟨a, ha, rfl⟩ := List.mem_map.mp hp
    exact (h a ha).legible
  obtain ⟨ms, hms, each⟩ :=
    decodeStreamN_legible (asked.map Asked.bytes) legible _ [] (Nat.le_refl _)
  refine ⟨ms, hms, ?_⟩
  rw [List.forall₂_map_left_iff] at each
  clear hms legible
  induction each with
  | nil => exact .nil
  | cons shows _ ih =>
    exact .cons ((h _ List.mem_cons_self).shows shows)
      (ih fun a ha => h a (List.mem_cons_of_mem _ ha))

/-- Hello, then a device. -/
theorem requests_decode_two : ∃ ms : List Info,
    decodeStream ([⟨.hello, 1⟩, ⟨.takeDevice (some (lit "/s")) 226 0, 2⟩].flatMap Asked.bytes) = .ok
    (ms.map .message) ∧ ms.length = 2 := by
  have sendable : ∀ a ∈ ([⟨.hello, 1⟩, ⟨.takeDevice (some (lit "/s")) 226 0, 2⟩] : List Asked),
    Sendable a := by
    intro a ha
    rcases List.mem_cons.mp ha with rfl | ha
    · exact ⟨rfl, rfl, by decide, by decide, by decide +kernel⟩
    · cases List.mem_singleton.mp ha
      exact ⟨rfl, by decide, by decide, by decide, by decide +kernel⟩
  obtain ⟨ms, hms, each⟩ := requests_decode _ sendable
  exact ⟨ms, hms, each.length_eq.symm⟩

end Samvada.DbusDecode
