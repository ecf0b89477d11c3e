import Samvada.Requests
import Samvada.TakeDevice

/- GetSessionByPID, from the reply it accepts to the caller's buffer, and from the
   buffer to the calls made with what it holds. -/
namespace Samvada
open Octets Framing Resumable Resumable.Prog Relation

/-! ## What the reply says -/

/-- The string the body starts with, if the message holds it and its NUL. -/
def bodyText (r : Nat) (p : Bytes) : Option Bytes :=
  let at_ := dbusUnmarshalBodyOff p
  if at_ + 4 + load32 p at_ + 1 ≤ min (at_ + dbusUnmarshalBodyLen p) r then
    some (loadN p (at_ + 4) (load32 p at_)) else none

theorem bodyText_some {r : Nat} {p s : Bytes} (h : bodyText r p = some s) :
    dbusUnmarshalBodyOff p + 4 + s.length + 1 ≤ r ∧ loadN p (dbusUnmarshalBodyOff p + 4)
    s.length = s := by
  dsimp only [bodyText] at h
  split_ifs at h with hin
  rw [← Option.some.inj h, loadN_length]
  exact ⟨by omega, rfl⟩

/-- Reading a string where the cursor is. -/
theorem nextStr_at {c : BodyCursor} (h : c.at_ % 4 = 0) : (dbusUnmarshalNextStr c).1 =
    if c.fin < c.at_ + 4 ∨ c.fin < c.at_ + 4 + load32 c.p c.at_ + 1 then .error .malformed
    else .ok (c.at_ + 4, load32 c.p c.at_) := by
  rw [dbusUnmarshalNextStr, align_of_mod (by decide) h]
  dsimp only
  by_cases word : c.fin < c.at_ + 4
  · rw [if_pos word, if_pos (.inl word)]
  · rw [if_neg word]
    by_cases text : c.fin < c.at_ + 4 + load32 c.p c.at_ + 1
    · rw [if_pos text, if_pos (.inr text)]
    · rw [if_neg text, if_neg (not_or.mpr ⟨word, text⟩)]

theorem nextStr_short {c : BodyCursor} (h : c.fin < align c.at_ 4 + 4) :
    (dbusUnmarshalNextStr c).1 = .error .malformed := by
  rw [dbusUnmarshalNextStr]
  exact congrArg Prod.fst (if_pos h)

theorem nextStr_read {r : Nat} (p : Bytes) (hr : 0 < r) :
    (dbusUnmarshalNextStr (dbusUnmarshalBodyBegin r p)).1 =
    (bodyText r p).elim (.error .malformed) fun s =>
    .ok (dbusUnmarshalBodyOff p + 4, s.length) := by
  have hmod := bodyOff_mod p
  rw [dbusUnmarshalBodyBegin, if_neg (by omega), bodyText]
  generalize dbusUnmarshalBodyOff p = off at hmod
  generalize hend : min (off + dbusUnmarshalBodyLen p) r = fin
  simp only [hend]
  by_cases inside : off ≤ r
  · have hat : min off r = off := by omega
    rw [hat, nextStr_at (by exact hmod)]
    dsimp only
    by_cases text : off + 4 + load32 p off + 1 ≤ fin
    · rw [if_neg (by omega), if_pos text, Option.elim, loadN_length]
    · rw [if_pos (by omega), if_neg text]
      rfl
  · -- the fields run to the end, and no word is left after the cursor
    have hpast := le_align (min off r) (show 0 < 4 by decide)
    have short : fin < align (min off r) 4 + 4 := by omega
    rw [nextStr_short (by exact short), if_neg (by omega)]
    rfl

theorem WellFormed.bodySigIs {r : Nat} {p : Bytes} {fs : List Field} (wf : WellFormed r p fs)
    {s : String} (hs : lit s ≠ []) : dbsBodySigIs r p s = decide
    (bodySignature fs = some (lit s)) := by
  have look := wf.lookup dbusMarshalFSignature
  unfold dbsBodySigIs bodySignature
  cases hf : firstField fs dbusMarshalFSignature with
  | none =>
    rw [hf] at look
    simp only at look
    simp [look, hs]
  | some f =>
    rw [hf] at look
    obtain ⟨vo, hfind, held⟩ := look
    have ht : f.type = 103 := wf.typed (by decide) hf
    rw [HeldAt, ht, if_neg (by decide), if_pos rfl] at held
    have text : loadN (p.drop (vo + 1)) 0 f.value.length = f.value :=
      (loadN_drop p _ _).trans held.2.1
    simp only [hfind, held.1, nameIs_eq text, Option.map_some, Option.some.injEq]

/-- The reply of `r` bytes at `p` names the session `path`: its body is one
object path. -/
structure Names (r : Nat) (p : Bytes) (fs : List Field) (path : Bytes) : Prop where
  signature : bodySignature fs = some (lit "o")
  text : bodyText r p = some path
  path : ObjectPath path

theorem Names.unique {r : Nat} {p : Bytes} {fs : List Field} {path path' : Bytes}
    (h : Names r p fs path) (h' : Names r p fs path') : path = path' :=
    Option.some.inj (h.text.symm.trans h'.text)

theorem Names.length_lt {r : Nat} {p : Bytes} {fs : List Field} {path : Bytes}
    (h : Names r p fs path) : path.length < r := by
  have hin := (bodyText_some h.text).1
  omega

/-- **What GetSessionByPID makes of a reply**: the path it names, if it names one. -/
theorem WellFormed.sessionPath {r : Nat} {p : Bytes} {fs : List Field} (wf : WellFormed r p fs) :
    (∃ q path, dbsSessionPath r p = some (q, path.length) ∧ loadN q 0 path.length = path ∧
    Names r p fs path) ∨
      dbsSessionPath r p = none ∧ ∀ path, ¬ Names r p fs path := by
  have sig := wf.bodySigIs (show lit "o" ≠ [] by decide)
  have read := nextStr_read p (show 0 < r by have := wf.header; omega)
  cases ht : bodyText r p with
  | none =>
    rw [ht] at read
    refine .inr ⟨?_, fun path h => ?_⟩
    · rw [dbsSessionPath, read]
      rfl
    · cases ht.symm.trans h.text
  | some s =>
    rw [ht] at read
    have value := (bodyText_some ht).2
    have ok := dbusUnmarshalPathOk_iff (p.drop (dbusUnmarshalBodyOff p + 4)) s.length
    rw [loadN_drop, value] at ok
    have e :
      dbsSessionPath r
      p = if (dbsBodySigIs r p "o" && dbusUnmarshalPathOk (p.drop (dbusUnmarshalBodyOff p + 4))
      s.length)
        then some (p.drop (dbusUnmarshalBodyOff p + 4), s.length) else none := by
      rw [dbsSessionPath, read]
      rfl
    have passes :
      (dbsBodySigIs r p "o" && dbusUnmarshalPathOk (p.drop (dbusUnmarshalBodyOff p + 4)) s.length) =
      true ↔
        bodySignature fs = some (lit "o") ∧ ObjectPath s := by
      rw [Bool.and_eq_true, ok, sig, decide_eq_true_eq]
    by_cases named : bodySignature fs = some (lit "o") ∧ ObjectPath s
    · rw [if_pos (passes.mpr named)] at e
      exact .inl ⟨_, s, e, (loadN_drop p _ _).trans value, named.1, ht, named.2⟩
    · rw [if_neg (mt passes.mp named)] at e
      refine .inr ⟨e, fun path h => named ?_⟩
      cases ht.symm.trans h.text
      exact ⟨h.signature, h.path⟩

/-! ## What follows the reply -/

/-- Its part after the call. -/
def sessionPathTail (outLen : Int) : M (Int × Option Bytes) := do
  let p ← Prog.gets (dbusFrameBase ·.fr)
  let limit := (← frameNext).len
  match ← decode fun _ => Decode.dbsSessionPath limit p with
  | none => do
    dbusSessionDone
    pure (-71, none)
  | some (path, n) =>
    if outLen < n + 1 then do
      dbusSessionDone
      pure (-105, none)
    else do
      dbusSessionDone
      pure (0, some (loadN path 0 n ++ [0]))

/-- What the caller gets of the reply of `r` bytes at `p`: the path it names, if
there is one and it fits with its NUL, or an error. -/
inductive PathGot (r : Nat) (p : Bytes) (fs : List Field) (outLen : Int) :
    Int × Option Bytes → Prop where
  | stored (path : Bytes) (h : Names r p fs path) (fits : path.length + 1 ≤ outLen) :
      PathGot r p fs outLen (0, some (path ++ [0]))
  | unnamed (h : ∀ path, ¬ Names r p fs path) : PathGot r p fs outLen (-71, none)
  | long (path : Bytes) (h : Names r p fs path) (cut : outLen < path.length + 1) :
      PathGot r p fs outLen (-105, none)

/-- Moving on in the trace, with the framer as it was. -/
theorem TakeEnd.before {w w₁ w' : World} {r : Nat} {closed : List Int} {es : List Event}
    (hfr : w₁.fr = w.fr)
    (ht : w₁.trace = w.trace ++ es) (hes : closesOf es = []) (h : TakeEnd w₁ r closed w') :
    TakeEnd w r closed w' := by
  obtain ⟨es', ht', perm⟩ := h.trace
  refine ⟨hfr ▸ h.frame, es ++ es', by rw [ht', ht, List.append_assoc], ?_⟩
  rw [closesOf_append, hes]
  exact perm

/-- Consuming the reply at the head closes every descriptor that came with it. -/
theorem sessionDone_run {w : World} {r : Nat} (hg : w.fr.Good) (rest : AtRest w.fr (.msg r)) :
    ∃ w', dbusSessionDone w = .done () w' ∧ TakeEnd w r w.fr.fdq w' := by
  have start : dbusSessionDone w = frameAdvance r (w.emit [.next (.msg r) w.fr]) :=
    bind_done (frameNext_rest rest)
  have advance : frameAdvance r (w.emit [.next (.msg r) w.fr]) = .done ()
      ({ w.emit [.next (.msg r) w.fr] with fr := (dbusFrameAdvance w.fr r).1 }.emit
      (advanceEvents w.fr r)) := rfl
  refine ⟨_, start.trans advance, rfl, [.next (.msg r) w.fr] ++ advanceEvents w.fr r, ?_, ?_⟩
  · exact List.append_assoc _ _ _
  · rw [closesOf_append, advance_closesOf hg rest]
    exact List.Perm.refl _

/-- **What GetSessionByPID does with a reply**: it is consumed, whatever it says. -/
theorem sessionPathTail_run {w : World} {r : Nat} {fs : List Field} (outLen : Int) (hg : w.fr.Good)
    (rest : AtRest w.fr (.msg r)) (wf : WellFormed r (dbusFrameBase w.fr) fs) :
    ∃ res w', sessionPathTail outLen w = .done res w' ∧
      PathGot r (dbusFrameBase w.fr) fs outLen res ∧ TakeEnd w r w.fr.fdq w' := by
  obtain ⟨d, read⟩ := decode_run (fun _ => Decode.sessionPath_eq r (dbusFrameBase w.fr))
    (w.emit [.next (.msg r) w.fr])
  generalize hw₁ : { w.emit [.next (.msg r) w.fr] with dbu := d } = w₁ at read
  have hfr : w₁.fr = w.fr := by rw [← hw₁]; rfl
  have ht : w₁.trace = w.trace ++ [.next (.msg r) w.fr] := by rw [← hw₁]; rfl
  obtain ⟨w', done, hend⟩ := sessionDone_run (hfr.symm ▸ hg) (hfr.symm ▸ rest)
  have hend : TakeEnd w r w.fr.fdq w' := (hfr ▸ hend : TakeEnd w₁ r w.fr.fdq w').before hfr ht rfl
  have finish (res : Int × Option Bytes) : (do
      dbusSessionDone
      pure res : M (Int × Option Bytes)) w₁ = .done res w' := bind_done done
  have start : sessionPathTail outLen w = (match dbsSessionPath r (dbusFrameBase w.fr) with
      | none => do
        dbusSessionDone
        pure (-71, none)
      | some (path, n) =>
        if outLen < n + 1 then do
          dbusSessionDone
          pure (-105, none)
        else do
          dbusSessionDone
          pure (0, some (loadN path 0 n ++ [0])) : M (Int × Option Bytes)) w₁ := by
    unfold sessionPathTail
    rw [bind_done (gets_run _ _), bind_done (frameNext_rest rest)]
    exact bind_done read
  rw [start]
  rcases wf.sessionPath with ⟨q, path, found, value, named⟩ | ⟨none, unnamed⟩
  · rw [found]
    dsimp only
    by_cases long : outLen < path.length + 1
    · rw [if_pos long]
      exact ⟨_, w', finish _, .long path named long, hend⟩
    · rw [if_neg long, value]
      exact ⟨_, w', finish _, .stored path named (by omega), hend⟩
  · rw [none]
    exact ⟨_, w', finish _, .unnamed unnamed, hend⟩

/-- The call, and what follows it. -/
theorem getSessionPath_run (bus pid outLen : Int) (h0 : 0 < outLen) (w : World) :
    let op : BusOp := .sessionPath pid (some outLen)
    dbusNativeGetSessionPath bus pid (some outLen) w =
      (do
        let rc ← dbusSessionCall bus (op.serial w)
        if rc < 0 then pure (rc, none) else sessionPathTail outLen : M (Int × Option Bytes))
        (w.asking (op.serial w) (op.request (op.serial w))) := by
  intro op
  refine (congrFun (if_neg (show ¬ outLen ≤ 0 by omega)) w).trans ?_
  exact asks_run (fun s => dbsSessionPathCall pid s) (fun s => do
    let rc ← dbusSessionCall bus s
    if rc < 0 then pure (rc, none) else sessionPathTail outLen) w

/-! ## The caller's buffer -/

/-- The caller's buffer, which held `old`, with what the call wrote at its start. -/
def bufferAfter (old : Bytes) : Option Bytes → Bytes
  | none => old
  | some out => out ++ old.drop out.length

/-- `new` is `old` with the C string `path` at its start, a session the other
operations take. -/
structure Stored (old new path : Bytes) : Prop where
  text : new.take path.length = path
  nul : new[path.length]? = some 0
  beyond : ∀ i, path.length < i → new[i]? = old[i]?
  cstr : cstr new = path
  accepted : dbusSessionSessOk (some new) = true

theorem ObjectPath.no_nul {path : Bytes} (h : ObjectPath path) : ∀ c ∈ path, c ≠ 0 := by
  cases h with
  | root => simp
  | segments ws _ hw => exact (segments_shape hw).1

theorem strlen_nul {s rest : Bytes} (h : ∀ c ∈ s, c ≠ 0) : strlen (s ++ 0 :: rest) = s.length := by
  have text : ∀ c ∈ s, (c != 0) = true := fun c hc => by simpa using h c hc
  rw [strlen, List.takeWhile_append_of_pos text]
  simp

theorem stored_path {path : Bytes} (h : ObjectPath path) (old : Bytes) :
    Stored old (bufferAfter old (some (path ++ [0]))) path := by
  have e : bufferAfter old (some (path ++ [0])) = path ++ 0 :: old.drop (path.length + 1) := by
    rw [bufferAfter, List.append_assoc, List.length_append, List.length_singleton]
    rfl
  have hlen : strlen (path ++ 0 :: old.drop (path.length + 1)) = path.length := strlen_nul h.no_nul
  rw [e]
  refine ⟨List.take_left, ?_, fun i hi => ?_, ?_, ?_⟩
  · rw [List.getElem?_append_right (Nat.le_refl _), Nat.sub_self]
    rfl
  · obtain ⟨j, rfl⟩ := Nat.exists_eq_add_of_lt hi
    have hj : path.length + j + 1 - path.length = j + 1 := by omega
    rw [List.getElem?_append_right (by omega), hj, List.getElem?_cons_succ, List.getElem?_drop]
    congr 1
    omega
  · rw [cstr, hlen, List.take_left]
  · show dbusUnmarshalPathOk _ _ = true
    rw [hlen, pathOk_append, dbusUnmarshalPathOk_iff, loadN_self]
    exact h

/-! ## What is sent of it -/

/-- The string an operation is given as its session. -/
def BusOp.sess : BusOp → Option Bytes
  | takeControl sess => sess
  | releaseControl sess => sess
  | takeDevice sess _ _ => sess
  | releaseDevice sess _ _ => sess
  | _ => none

/-- The bytes of a session's request past the word its path ends in. -/
def BusOp.rest : BusOp → Nat
  | takeControl _ => 108
  | releaseControl _ => 96
  | _ => 112

theorem sess_asks {op : BusOp} {p : Bytes} (h : op.sess = some p) : op.asks = true ∧
    op.path = cstr p := by
  cases op with
  | takeControl sess =>
    cases h
    exact ⟨rfl, rfl⟩
  | releaseControl sess =>
    cases h
    exact ⟨rfl, rfl⟩
  | takeDevice sess major minor =>
    cases h
    exact ⟨rfl, rfl⟩
  | releaseDevice sess major minor =>
    cases h
    exact ⟨rfl, rfl⟩
  | _ => cases h

theorem session_size {op : BusOp} {p : Bytes} (hsess : op.sess = some p) (ha : op.asks = true)
    (h : op.accepts = true)
    (hm : op.path.length < memMax) (s : Nat) : BusOp.size ha h hm s = align (25 + op.path.length)
    8 + op.rest := by
  obtain ⟨tc, rc, td, rd, i, d, b, uu⟩ : (lit "TakeControl").length = 11 ∧
    (lit "ReleaseControl").length = 14 ∧
      (lit "TakeDevice").length = 10 ∧ (lit "ReleaseDevice").length = 13 ∧
      (lit "org.freedesktop.login1.Session").length = 30 ∧
      (lit "org.freedesktop.login1").length = 22 ∧ (lit "b").length = 1 ∧
      (lit "uu").length = 2 := by decide
  obtain ⟨hb, huu⟩ : ¬ "b" = "" ∧ ¬ "uu" = "" := by decide
  rw [BusOp.size, messageBytes_length]
  cases op with
  | hello => cases hsess
  | sessionPath pid out => cases hsess
  | call m s => cases hsess
  | done => cases hsess
  | pump => cases hsess
  | _ =>
    -- the lengths of the fields, each from the word the one before it ends in
    simp only [fieldsBytes, bodyBytes, BusOp.fields, BusOp.args, BusOp.signature, BusOp.member,
      BusOp.interface,
      BusOp.destination, BusOp.rest, BusOp.path, hb, huu, if_true, if_false, List.cons_append,
      List.nil_append,
      List.append_nil, layout, HeaderField.bytes, HeaderField.value, BodyValue.bytes,
      BodyValue.value, fieldBytes,
      List.length_append, List.length_cons, List.length_nil, le32_length, padBytes_length, tc, rc,
      td, rd, i, d, b, uu, align8_eq, align4_eq]
    omega

/-- A request about a session fits in the encoder's buffer. -/
def BusOp.fits (op : BusOp) : Prop := align (25 + op.path.length) 8 + op.rest ≤ 4096

theorem session_bad {op : BusOp} {p : Bytes} (hsess : op.sess = some p) (h : op.accepts = true)
    (hm : op.path.length < memMax) (s : Nat) : (op.request s).bad = false ↔ op.fits := by
  obtain ⟨ha, -⟩ := sess_asks hsess
  rw [request_bad ha h hm, session_size hsess, decide_eq_false_iff_not, Nat.not_lt, BusOp.fits]

/-- In the state `u`, an operation given the string `new` as its session asks about
`path`: its request carries `path` whole if it fits, and it sends the beginning of
that request or nothing. -/
def Carried (new path : Bytes) (u : World) : Prop := ∀ op, op.sess = some new → op.path = path ∧
  (op.accepts = true → op.fits → Whole op (op.serial u) (op.request (op.serial u)).buf) ∧
  ∀ bus, ∃ es, (op.run bus u).state.trace = u.trace ++ es ∧
    (wire es = [] ∨ op.accepts = true ∧ op.fits ∧ wire es <+: (op.request (op.serial u)).buf)

theorem good_account : Account fun _ _ => True where
  step h _ := h.wire.imp fun _ he => ⟨he.1, trivial⟩
  offers _ _ := trivial

theorem runOps_good {bus : Int} {ops : List BusOp} {rcs : List Int} {w u : World}
    (hrun : runOps bus ops w = .done rcs u) (hused : stillUsed ops rcs) (hg : w.fr.Good) :
    u.fr.Good :=
  (@Account.upTo _ good_account bus ops rcs w u [] hrun hused hg trivial).1

theorem stored_carried {old new path : Bytes} (h : Stored old new path)
    (hl : path.length < memMax) {u : World} (hu : u.fr.Good) : Carried new path u := by
  intro op hsess
  obtain ⟨ha, e⟩ := sess_asks hsess
  have e : op.path = path := e.trans h.cstr
  have hm : op.path.length < memMax := e.symm ▸ hl
  have serial : op.serial u = dbusSessionWrapSerial (u.dbs.serial + 1) := by
    cases op with
    | call m s => cases ha
    | _ => rfl
  obtain ⟨h0, hlt⟩ := wrapSerial_range (u.dbs.serial + 1)
  rw [← serial] at h0 hlt
  refine ⟨e, fun ok hfit => ?_, fun bus => ?_⟩
  · exact request_whole ha ok hm h0 hlt ((session_bad hsess ok hm _).mpr hfit)
  · obtain ⟨es, ht, sent⟩ := op_sends op bus hu
    refine ⟨es, ht, sent.imp id fun ⟨accepts, clean, out⟩ => ?_⟩
    exact ⟨accepts ha, (session_bad hsess (accepts ha) hm _).mp clean, out⟩

theorem call_result {bus : Int} {s : Nat} {m : Marshal} {w w' : World} {rc : Int} (hg : w.fr.Good)
    (hcall : dbusSessionCall bus s (w.asking s m) = .done rc w') : w'.fr.Good ∧
    (rc < 0 ∨ rc = 0) := by
  have calling := dbusSessionCall_calling bus s m (w.asking s m) ⟨hg, rfl⟩
  rw [hcall] at calling
  exact ⟨calling.2.1, calling.2.2.imp id And.left⟩

/-- A call that succeeds leaves a METHOD_RETURN at the head. -/
theorem call_replied {bus : Int} {s : Nat} {m : Marshal} {w w' : World} (hg : w.fr.Good)
    (hcall : dbusSessionCall bus s (w.asking s m) = .done 0 w') : ∃ r fs, AtRest w'.fr (.msg r) ∧
      dbusUnmarshalType (dbusFrameBase w'.fr) = dbusMarshalTypeReturn ∧
      WellFormed r (dbusFrameBase w'.fr) fs := by
  have good : (w.asking s m).fr.Good := hg
  obtain ⟨r, wm, rest, hv⟩ := (call_accepted bus s).of_done good hcall rfl
  obtain ⟨fs, wf⟩ := (validate_iff_wellFormed _ _).mp (validate_of_success hv)
  exact ⟨r, fs, rest, type_of_success hv, wf⟩

/-- The call accepted a METHOD_RETURN that names the session `path`. -/
def Replied (call : Outcome World Int) (path : Bytes) : Prop :=
  ∃ w r fs, call = .done 0 w ∧ AtRest w.fr (.msg r) ∧
  WellFormed r (dbusFrameBase w.fr) fs ∧ Names r (dbusFrameBase w.fr) fs path

/-- What follows an accepted reply, which is consumed. -/
theorem sessionPath_replied {bus : Int} (outLen : Int) {s : Nat} {m : Marshal} {w w₃ : World}
    (hg : w.fr.Good)
    (hcall : dbusSessionCall bus s (w.asking s m) = .done 0 w₃) : ∃ r fs res w',
    AtRest w₃.fr (.msg r) ∧
      dbusUnmarshalType (dbusFrameBase w₃.fr) = dbusMarshalTypeReturn ∧
      WellFormed r (dbusFrameBase w₃.fr) fs ∧ (do
        let rc ← dbusSessionCall bus s
        if rc < 0 then pure (rc, none)
        else sessionPathTail outLen : M (Int × Option Bytes)) (w.asking s m) = .done res w' ∧
      PathGot r (dbusFrameBase w₃.fr) fs outLen res ∧ TakeEnd w₃ r w₃.fr.fdq w' := by
  obtain ⟨r, fs, rest, ret, wf⟩ := call_replied hg hcall
  obtain ⟨res, w', tail, got, hend⟩ := sessionPathTail_run outLen (call_result hg hcall).1 rest wf
  refine ⟨r, fs, res, w', rest, ret, wf, ?_, got, hend⟩
  rw [bind_done hcall, if_neg (by decide)]
  exact tail

/-- What the call made of its reply: nothing, or the path it names. -/
theorem sessionPath_ended {bus outLen : Int} {s : Nat} {m : Marshal} {w : World} (hg : w.fr.Good)
    {res : Int × Option Bytes} {w' : World} (run : (do
        let rc ← dbusSessionCall bus s
        if rc < 0 then pure (rc, none)
        else sessionPathTail outLen : M (Int × Option Bytes)) (w.asking s m) = .done res w') :
    res.1 < 0 ∧ res.2 = none ∨ ∃ path, res = (0, some (path ++ [0])) ∧ path.length + 1 ≤ outLen ∧
    ObjectPath path ∧
      path.length < memMax ∧ Replied (dbusSessionCall bus s (w.asking s m)) path ∧ w'.fr.Good := by
  cases hcall : dbusSessionCall bus s (w.asking s m) with
  | waiting w₃ =>
    rw [bind_waiting hcall] at run
    cases run
  | done rc w₃ =>
    obtain ⟨good, failed | rfl⟩ := call_result hg hcall
    · rw [bind_done hcall, if_pos failed] at run
      cases run
      exact .inl ⟨failed, rfl⟩
    · obtain ⟨r, fs, res', w'', rest, -, wf, ran, got, hend⟩ := sessionPath_replied outLen hg hcall
      cases ran.symm.trans run
      cases got with
      | unnamed h => exact .inl ⟨by decide, rfl⟩
      | long path h cut => exact .inl ⟨by decide, rfl⟩
      | stored path named fits =>
        have small : path.length < memMax := by
          have hlt := named.length_lt
          obtain ⟨-, -, cap, -⟩ := rest.whole_inv
          unfold memMax
          omega
        exact .inr ⟨path, rfl, fits, named.path, small, ⟨w₃, r, fs, rfl, rest, wf, named⟩,
          hend.frame ▸ rest.advance_good good⟩

/-- **GetSessionByPID is all or nothing.** After any operations on a connection it
fails and leaves the caller's buffer alone, or it returns 0 and stores, with a NUL
and within `outLen`, the object path that is the body of the METHOD_RETURN its call
accepted; the other operations take what it stored, and whatever they send is of a
request that carries it whole. An accepted METHOD_RETURN is consumed, and its
descriptors closed, whatever it says. -/
theorem get_session_path_stored (f₀ : Frame) (fd bus rc : Int) (w w₀ : World)
    (hinit : w.fr = (dbusFrameInit f₀).1) (hsasl : dbusSessionSasl fd w = .done rc w₀)
    (ops : List BusOp) (rcs : List Int) (w₁ : World)
    (hrun : runOps bus ops w₀ = .done rcs w₁) (hused : stillUsed ops rcs) (pid : Int)
    (out : Option Int) :
    let op : BusOp := .sessionPath pid out
    let call :=
      dbusSessionCall bus (op.serial w₁) (w₁.asking (op.serial w₁) (op.request (op.serial w₁)))
    (∀ res w', dbusNativeGetSessionPath bus pid out w₁ = .done res w' →
      (res.1 < 0 ∧ ∀ old, bufferAfter old res.2 = old) ∨
      ∃ outLen path, out = some outLen ∧ res.1 = 0 ∧ path.length + 1 ≤ outLen ∧ ObjectPath path ∧
      Replied call path ∧
        ∀ old, Stored old (bufferAfter old res.2) path ∧ ∀ bus' later rcs' u, runOps bus' later
        w' = .done rcs' u →
          stillUsed later rcs' → Carried (bufferAfter old res.2) path u) ∧
    ∀ outLen w₃, out = some outLen → 0 < outLen → call = .done 0 w₃ → ∃ r fs res w',
      AtRest w₃.fr (.msg r) ∧
      dbusUnmarshalType (dbusFrameBase w₃.fr) = dbusMarshalTypeReturn ∧
      WellFormed r (dbusFrameBase w₃.fr) fs ∧
      dbusNativeGetSessionPath bus pid out w₁ = .done res w' ∧ PathGot r (dbusFrameBase w₃.fr)
      fs outLen res ∧ TakeEnd w₃ r w₃.fr.fdq w' := by
  intro op call
  have hidle : Idle w₀.fr := by
    have start : Exchanging w w := .start (hinit ▸ init_idle f₀)
    exact ((sasl_exchanging fd w).of_done start hsasl).idle
  have good₁ : w₁.fr.Good := runOps_good hrun hused hidle.good
  refine ⟨fun res w' run => ?_, fun outLen w₃ ho h0 hcall => ?_⟩
  · cases out with
    | none =>
      cases run
      exact .inl ⟨by decide, fun _ => rfl⟩
    | some outLen =>
      by_cases h0 : 0 < outLen
      · have asked := (getSessionPath_run bus pid outLen h0 w₁).symm.trans run
        rcases sessionPath_ended good₁ asked with ⟨hneg, hnone⟩ | ⟨path, rfl, fits, hpath, small,
          replied, good'⟩
        · exact .inl ⟨hneg, fun _ => hnone ▸ rfl⟩
        · refine .inr ⟨outLen, path, rfl, rfl, fits, hpath, replied, fun old => ?_⟩
          have stored := stored_path hpath old
          exact ⟨stored, fun bus' later rcs' u hlater hstill => stored_carried stored small
            (runOps_good hlater hstill good')⟩
      · have refused : dbusNativeGetSessionPath bus pid (some outLen) w₁ = .done (-22, none) w₁ :=
          congrFun (if_pos (show outLen ≤ 0 by omega)) w₁
        cases refused.symm.trans run
        exact .inl ⟨by decide, fun _ => rfl⟩
  · subst ho
    obtain ⟨r, fs, res, w', rest, ret, wf, ran, got, hend⟩ := sessionPath_replied outLen good₁ hcall
    exact ⟨r, fs, res, w', rest, ret, wf, (getSessionPath_run bus pid outLen h0 w₁).trans
      ran, got, hend⟩

/-- The reply to the first call of a connection, of a session path. -/
def firstPathReply : Marshal :=
  let m := dbusMarshalFieldU32 (dbusMarshalBegin 2 0 1) dbusMarshalFReplyser 1
  let m := dbusMarshalFieldSig m dbusMarshalFSignature (lit "o") 1
  (dbusMarshalFinish (dbusMarshalBodyStr (dbusMarshalEndFields m) (lit "/s") 2)).2

/-- A connection about to exchange, and the reply after it. -/
def onePath (reply : Bytes) : World where
  k := {
    alloc := [true, true]
    clock := List.replicate 6 {}
    send := [48, 4096]
    poll := List.replicate 4 1
    recv := [{ ret := 58 }, { ret := 4096 }, { ret := 4096 }]
    inbox := lit "DATA\r\nOK 0123456789abcdef0123456789abcdef\r\nAGREE_UNIX_FD\r\n" ++ reply }

/-- `/s` is stored in a buffer of four bytes, its last one left alone, and
goes out again. -/
theorem get_session_path_stored_one :
    let w₀ := (dbusSessionSasl 5 (onePath firstPathReply.buf)).state
    let new := bufferAfter (lit "abcd") (some (lit "/s" ++ [0]))
    ∃ w' w₃ r, dbusNativeGetSessionPath 5 7 (some 4) w₀ = .done (0, some (lit "/s" ++ [0])) w' ∧
      Stored (lit "abcd") new (lit "/s") ∧ Carried new (lit "/s") w' ∧
      TakeEnd w₃ r w₃.fr.fdq w' := by
  intro w₀ new
  have value : (dbusNativeGetSessionPath 5 7 (some 4) w₀).value = some
    (0, some (lit "/s" ++ [0])) := by decide +kernel
  have run := Outcome.eq_done value
  obtain ⟨ended, consumed⟩ :=
    get_session_path_stored {} 5 5 0 (onePath firstPathReply.buf) w₀ rfl (by rfl) [] [] w₀ rfl
    (by rintro x ⟨⟩) 7 (some 4)
  rcases ended _ _ run with ⟨hneg, -⟩ | ⟨outLen, path, -, -, -, -, ⟨w₃, -, -, hcall, -⟩, kept⟩
  · exact absurd hneg (by decide)
  · obtain ⟨stored, later⟩ := kept (lit "abcd")
    have hpath : path = lit "/s" := stored.cstr.symm.trans (by decide)
    subst hpath
    obtain ⟨r, -, res, w', -, -, -, run', -, hend⟩ := consumed 4 w₃ rfl (by decide) hcall
    cases run'.symm.trans run
    exact ⟨_, w₃, r, run, stored, later 5 [] [] _ rfl (by rintro x ⟨⟩), hend⟩

/-- A path of 4000 bytes. -/
def longPath : Bytes := 47 :: List.replicate 3999 97

/-- The reply that names it. -/
def longReply : Bytes :=
  [108, 2, 0, 1, 165, 15, 0, 0, 1, 0, 0, 0, 15, 0, 0, 0, 5, 1, 117, 0, 1, 0, 0, 0, 8, 1, 103, 0, 1,
    111, 0, 0, 160, 15, 0, 0] ++ (longPath ++ [0])

theorem longPath_length : longPath.length = 4000 := by
  rw [longPath, List.length_cons, List.length_replicate]

theorem longPath_path : ObjectPath longPath := by
  have e : longPath = [List.replicate 3999 97].flatMap (47 :: ·) := by
    rw [longPath, List.flatMap_cons, List.flatMap_nil, List.append_nil]
  rw [e]
  refine .segments [List.replicate 3999 97] (List.cons_ne_nil _ _) fun w hw => ?_
  rw [List.mem_singleton.mp hw]
  have some : 97 ∈ List.replicate 3999 (97 : UInt8) := List.mem_replicate.mpr ⟨by decide, rfl⟩
  refine ⟨List.ne_nil_of_mem some, fun c hc => ?_⟩
  rw [List.eq_of_mem_replicate hc]
  rfl

theorem longReply_text : bodyText 4037 longReply = some longPath := by
  have text := loadN_left longPath [0]
  rw [longPath_length] at text
  have off : dbusUnmarshalBodyOff longReply = 32 ∧
    dbusUnmarshalBodyLen longReply = 4005 := by decide +kernel
  have len : load32 longReply 32 = 4000 := by decide +kernel
  simp only [bodyText, off, len, Nat.reduceAdd, Nat.reduceLeDiff, Nat.min_self, if_true]
  exact congrArg some ((loadN_add _ (longPath ++ [0]) 0 4000).trans text)

/-- A path that is stored, and accepted, and too long for any request to carry. -/
theorem long_session_path : let w₀ := (dbusSessionSasl 5 (onePath longReply)).state
    (∃ w', dbusNativeGetSessionPath 5 7 (some 5000) w₀ = .done (0, some (longPath ++ [0])) w') ∧
      dbusSessionSessOk (some (longPath ++ [0])) = true ∧ ∀ op : BusOp,
      op.sess = some (longPath ++ [0]) →
        ∀ (bus : Int) (u : World), u.fr.Good → ∃ es, (op.run bus u).state.trace = u.trace ++ es ∧
        wire es = [] := by
  intro w₀
  let op : BusOp := .sessionPath 7 (some 5000)
  have answered :
    (dbusSessionCall 5 (op.serial w₀) (w₀.asking (op.serial w₀) (op.request (op.serial w₀)))).value
    = some 0 := by
    decide +kernel
  have good : w₀.fr.Good := by
    have start : Exchanging (onePath longReply) (onePath longReply) := .start (init_idle {})
    have done : dbusSessionSasl 5 (onePath longReply) = .done 0 w₀ := by rfl
    exact ((sasl_exchanging 5 _).of_done start done).idle.good
  have base : dbusFrameBase (dbusSessionCall 5 (op.serial w₀)
      (w₀.asking (op.serial w₀) (op.request (op.serial w₀)))).state.fr = longReply := by
      decide +kernel
  obtain ⟨r, fs, res, w', rest, -, wf, run, got, -⟩ :=
    sessionPath_replied 5000 good (Outcome.eq_done answered)
  rw [base] at wf got
  have total := rest.whole_inv.2.1
  rw [base] at total
  have whole : messageTotal longReply = .ok 4037 := by decide +kernel
  cases whole.symm.trans total
  have signature : dbsBodySigIs 4037 longReply "o" = true := by decide +kernel
  rw [wf.bodySigIs (by decide), decide_eq_true_eq] at signature
  have named : Names 4037 longReply fs longPath := ⟨signature, longReply_text, longPath_path⟩
  have stored := stored_path longPath_path []
  rw [bufferAfter, List.drop_nil, List.append_nil] at stored
  refine ⟨⟨w', (getSessionPath_run 5 7 5000 (by decide) w₀).trans ?_⟩, stored.accepted,
    fun op hsess bus u hu => ?_⟩
  · cases got with
    | stored path h fits =>
      cases h.unique named
      exact run
    | unnamed h => exact absurd named (h longPath)
    | long path h cut =>
      cases h.unique named
      rw [longPath_length] at cut
      omega
  · have small : longPath.length < memMax := by
      rw [longPath_length]
      decide
    obtain ⟨hpath, -, sends⟩ := stored_carried stored small hu op hsess
    obtain ⟨es, ht, none | ⟨-, fits, -⟩⟩ := sends bus
    · exact ⟨es, ht, none⟩
    · rw [BusOp.fits, hpath, longPath_length] at fits
      have past : 96 ≤ op.rest := by
        unfold BusOp.rest
        split <;> omega
      have : align (25 + 4000) 8 = 4032 := by decide
      omega

end Samvada
