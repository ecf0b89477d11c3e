import Samvada.RoundTrip
import Samvada.Runs

/- What samvada puts on the wire. Every request is a message the encoder built
   from a path, four more fields and words, so it decodes to what it was built
   from; over a run, what the kernel accepted is whole requests and at most one
   torn one, after which the connection is closed. -/
namespace Samvada
open Octets Framing Resumable Resumable.Prog Relation

/-! ## What a request says -/

/-- The C string at `p`. -/
def cstr (p : Bytes) : Bytes := p.take (strlen p)

/-- The low 32 bits of an integer. -/
def low32 (v : Int) : UInt32 := UInt32.ofNat (v % 4294967296).toNat

namespace BusOp

/-- A native operation that asks something of the bus or of logind. -/
def asks : BusOp → Bool
  | call _ _ => false
  | done => false
  | pump => false
  | _ => true

def path : BusOp → Bytes
  | hello => lit "/org/freedesktop/DBus"
  | sessionPath _ _ => lit "/org/freedesktop/login1"
  | takeControl sess => cstr (sess.getD [])
  | releaseControl sess => cstr (sess.getD [])
  | takeDevice sess _ _ => cstr (sess.getD [])
  | releaseDevice sess _ _ => cstr (sess.getD [])
  | _ => []

def member : BusOp → String
  | hello => "Hello"
  | sessionPath _ _ => "GetSessionByPID"
  | takeControl _ => "TakeControl"
  | releaseControl _ => "ReleaseControl"
  | takeDevice _ _ _ => "TakeDevice"
  | releaseDevice _ _ _ => "ReleaseDevice"
  | _ => ""

def interface : BusOp → String
  | hello => "org.freedesktop.DBus"
  | sessionPath _ _ => "org.freedesktop.login1.Manager"
  | _ => "org.freedesktop.login1.Session"

def destination : BusOp → String
  | hello => "org.freedesktop.DBus"
  | _ => "org.freedesktop.login1"

/-- The body's signature; a request without arguments carries none. -/
def signature : BusOp → String
  | sessionPath _ _ => "u"
  | takeControl _ => "b"
  | takeDevice _ _ _ => "uu"
  | releaseDevice _ _ _ => "uu"
  | _ => ""

/-- The arguments: a pid and a device number go as words, `force` as false. -/
def args : BusOp → List BodyValue
  | sessionPath pid _ => [.word (low32 pid)]
  | takeControl _ => [.bool 0]
  | takeDevice _ major minor => [.word (low32 major), .word (low32 minor)]
  | releaseDevice _ major minor => [.word (low32 major), .word (low32 minor)]
  | _ => []

end BusOp

theorem low8_congr {a b : Int} (h : a % 256 = b % 256) : low8 a = low8 b := by
  unfold low8
  rw [h]

theorem low32_toNat (v : Int) : ((low32 v).toNat : Int) = v % 4294967296 := by
  simp only [low32, UInt32.toNat_ofNat']
  omega

theorem le32_low32 (v : Int) : le32 (low32 v).toNat = le32 v := by
  rw [low32_toNat]
  unfold le32
  rw [low8_congr (show v % 4294967296 % 256 = v % 256 by omega),
    low8_congr (show v % 4294967296 / 256 % 256 = v / 256 % 256 by omega),
    low8_congr (show v % 4294967296 / 65536 % 256 = v / 65536 % 256 by omega),
    low8_congr (show v % 4294967296 / 16777216 % 256 = v / 16777216 % 256 by omega)]

theorem bodyU32_low32 (m : Marshal) (v : Int) :
    dbusMarshalBodyU32 m (low32 v).toNat = dbusMarshalBodyU32 m v := by
  unfold dbusMarshalBodyU32 dbmU32
  rw [le32_low32]

theorem cstr_length (p : Bytes) : (cstr p).length = strlen p := by
  rw [cstr, List.length_take]
  exact Nat.min_eq_left (strlen_le p)

theorem fieldStr_cstr (m : Marshal) (code sigch : Int) (p : Bytes) :
    dbusMarshalFieldStr m code sigch (cstr p) (cstr p).length = dbusMarshalFieldStr m code sigch p
    (strlen p) := by
  have e : loadN (cstr p) 0 (strlen p) = loadN p 0 (strlen p) := by
    have h := loadN_left (cstr p) (p.drop (strlen p))
    have h' := loadN_self (cstr p)
    rw [cstr_length] at h h'
    rw [h', ← h, cstr, List.take_append_drop]
  unfold dbusMarshalFieldStr dbmBytes
  rw [cstr_length, Int.toNat_natCast, e]

/-- A session path that is accepted is a path. -/
theorem sessOk_path {sess : Option Bytes} (h : dbusSessionSessOk sess = true) :
    dbusUnmarshalPathOk (cstr (sess.getD [])) (cstr (sess.getD [])).length = true := by
  cases sess with
  | none => cases h
  | some p =>
    have h' : dbusUnmarshalPathOk p (strlen p) = true := h
    have e := pathOk_append (cstr p) (p.drop (strlen p))
    rw [cstr_length, cstr, List.take_append_drop] at e
    show dbusUnmarshalPathOk (cstr p) (cstr p).length = true
    rw [cstr_length, cstr, ← e]
    exact h'

namespace BusOp

/-- What is asked is asked of a path. -/
theorem path_ok {op : BusOp} (ha : op.asks = true) (h : op.accepts = true) :
    dbusUnmarshalPathOk op.path op.path.length = true := by
  cases op with
  | hello => rfl
  | sessionPath pid out => rfl
  | takeControl sess => exact sessOk_path h
  | releaseControl sess => exact sessOk_path h
  | takeDevice sess major minor =>
    simp only [accepts, Bool.and_eq_true] at h
    exact sessOk_path h.1.1
  | releaseDevice sess major minor =>
    simp only [accepts, Bool.and_eq_true] at h
    exact sessOk_path h.1.1
  | call m s => cases ha
  | done => cases ha
  | pump => cases ha

theorem member_ne (op : BusOp) : ∀ b ∈ lit op.member, b ≠ 0 := by
  cases op <;> simp [member, lit]

theorem interface_ne (op : BusOp) : ∀ b ∈ lit op.interface, b ≠ 0 := by
  cases op <;> simp [interface, lit]

theorem destination_ne (op : BusOp) : ∀ b ∈ lit op.destination, b ≠ 0 := by
  cases op <;> simp [destination, lit]

theorem member_fits (op : BusOp) : (lit op.member).length < memMax := by
  cases op <;> simp [member, lit, memMax]

theorem interface_fits (op : BusOp) : (lit op.interface).length < memMax := by
  cases op <;> simp [interface, lit, memMax]

theorem destination_fits (op : BusOp) : (lit op.destination).length < memMax := by
  cases op <;> simp [destination, lit, memMax]

/-- Is the session string one that memory can hold? -/
def inMemory : BusOp → Bool
  | takeControl sess => (sess.getD []).length < memMax
  | releaseControl sess => (sess.getD []).length < memMax
  | takeDevice sess _ _ => (sess.getD []).length < memMax
  | releaseDevice sess _ _ => (sess.getD []).length < memMax
  | _ => true

theorem path_fits {op : BusOp} (h : op.inMemory = true) : op.path.length < memMax := by
  have text {sess : Option Bytes} (h : decide ((sess.getD []).length < memMax) = true) :
      (cstr (sess.getD [])).length < memMax := by
    have hl := strlen_le (sess.getD [])
    rw [cstr_length]
    exact lt_of_le_of_lt hl (of_decide_eq_true h)
  cases op with
  | takeControl sess => exact text h
  | releaseControl sess => exact text h
  | takeDevice sess major minor => exact text h
  | releaseDevice sess major minor => exact text h
  | _ => simp [path, lit, memMax]

theorem signature_ne (op : BusOp) : (∀ b ∈ lit op.signature, b ≠ 0) ∧
    (lit op.signature).length ≤ 255 := by
  cases op <;> simp [signature, lit]

/-- The header fields of a request, in order. -/
def fields (op : BusOp) (h : dbusUnmarshalPathOk op.path op.path.length = true)
    (hm : op.path.length < memMax) : List HeaderField :=
  [.path op.path h hm, .text dbusMarshalFMember (lit op.member) (by decide) op.member_ne
    op.member_fits, .text dbusMarshalFInterface (lit op.interface) (by decide) op.interface_ne
    op.interface_fits,
    .text dbusMarshalFDest (lit op.destination) (by decide) op.destination_ne op.destination_fits]
    ++
  if op.signature = "" then []
  else [.signature (lit op.signature) op.signature_ne.1 op.signature_ne.2]

theorem fields_codes (op : BusOp) (h : dbusUnmarshalPathOk op.path op.path.length = true)
    (hm : op.path.length < memMax) : ((op.fields h hm).map HeaderField.code).Nodup := by
  unfold fields
  split
  · exact (by decide : [1, 3, 2, 6].Nodup)
  · exact (by decide : [1, 3, 2, 6, 8].Nodup)

/-- **A request is its fields and its arguments**, encoded. -/
theorem request_build {op : BusOp} (ha : op.asks = true) (h : op.accepts = true)
    (hm : op.path.length < memMax) (s : Nat) :
    op.request s = (dbusMarshalFinish (dbusMarshalBuild dbusMarshalTypeCall 0 s
      (op.fields (path_ok ha h) hm) op.args)).2 := by
  obtain ⟨hu, hb, huu⟩ : ¬ "u" = "" ∧ ¬ "b" = "" ∧ ¬ "uu" = "" := by decide
  obtain ⟨lu, lb, luu⟩ : ((lit "u").length : Int) = 1 ∧ ((lit "b").length : Int) = 1 ∧
    ((lit "uu").length : Int) = 2 := by
    decide
  cases op with
  | call m s => cases ha
  | done => cases ha
  | pump => cases ha
  | _ =>
    -- by lemmas, not by evaluation: both sides are programs
    simp -implicitDefEqProofs only [request, dbsHelloCall, dbsSessionPathCall, dbsTakeControlCall,
      dbsReleaseControlCall, dbsDeviceCall,
      dbusSessionBeginCall, dbusMarshalBuild, fields, args, path, member, interface, destination,
      signature, hu, hb, huu,
      if_true, if_false, List.append_nil, List.cons_append, List.nil_append, List.foldl_cons,
      List.foldl_nil, HeaderField.write, BodyValue.write, fieldStr_cstr, bodyU32_low32, lu, lb, luu,
      Bool.false_eq_true]

end BusOp

/-- The length a request's message would have. -/
def BusOp.size {op : BusOp} (ha : op.asks = true) (h : op.accepts = true)
    (hm : op.path.length < memMax) (s : Nat) : Nat :=
  (messageBytes dbusMarshalTypeCall 0 s (op.fields (BusOp.path_ok ha h) hm) op.args).length

/-- A request is poisoned exactly if it would be longer than the buffer. -/
theorem request_bad {op : BusOp} {s : Nat} (ha : op.asks = true) (h : op.accepts = true)
    (hm : op.path.length < memMax) : (op.request s).bad = decide (4096 < BusOp.size ha h hm s) := by
  rw [BusOp.request_build ha h hm s]
  exact build_bad dbusMarshalTypeCall 0 s _ _

/-- The message at `buf` has the string `v` in its field `code`. -/
def Carries (buf : Bytes) (code : Nat) (v : Bytes) : Prop :=
  ∃ off sig at_, dbusUnmarshalFindField buf.length buf code = .ok (off, sig) ∧
    dbusUnmarshalStrAt buf.length buf off = .ok (at_, v.length) ∧ loadN buf at_ v.length = v

/-- The values a request's body carries: a pid's low 32 bits, `force` as false, a device's numbers.
-/
def BusOp.values : BusOp → List Datum
  | .sessionPath pid _ => [.word (pid % 4294967296).toNat]
  | .takeControl _ => [.word 0]
  | .takeDevice _ major minor => [.word major.toNat, .word minor.toNat]
  | .releaseDevice _ major minor => [.word major.toNat, .word minor.toNat]
  | _ => []

/-- `buf` is the one whole message that asks for `op` under the serial `s`. -/
structure Whole (op : BusOp) (s : Nat) (buf : Bytes) : Prop where
  total : dbusFrameTotal buf buf.length = .msg buf.length
  small : buf.length ≤ 4096
  valid : dbusUnmarshalValidate buf.length buf = true
  call : dbusUnmarshalType buf = dbusMarshalTypeCall
  serial : load32 buf 8 = s ∧ s ≠ 0
  path : Carries buf dbusMarshalFPath op.path
  member : Carries buf dbusMarshalFMember (lit op.member)
  args : (readBody op.args (dbusUnmarshalBodyBegin buf.length buf)).1 = op.values.map .ok ∧
    dbusUnmarshalBodyRemaining (readBody op.args (dbusUnmarshalBodyBegin buf.length buf)).2 = 0

theorem low32_devnum {v : Int} (h : dbusSessionDevnumOk v = true) : (low32 v).toNat = v.toNat := by
  have e := low32_toNat v
  simp only [dbusSessionDevnumOk, Bool.and_eq_true, decide_eq_true_eq] at h
  omega

theorem args_values {op : BusOp} (h : op.accepts = true) :
    op.args.map BodyValue.datum = op.values := by
  cases op with
  | sessionPath pid out =>
    have e := low32_toNat pid
    simp only [BusOp.args, BusOp.values, List.map_cons, List.map_nil, BodyValue.datum]
    congr 2
    omega
  | takeDevice sess major minor =>
    simp only [BusOp.accepts, Bool.and_eq_true] at h
    simp only [BusOp.args, BusOp.values, List.map_cons, List.map_nil, BodyValue.datum,
      low32_devnum h.1.2, low32_devnum h.2]
  | releaseDevice sess major minor =>
    simp only [BusOp.accepts, Bool.and_eq_true] at h
    simp only [BusOp.args, BusOp.values, List.map_cons, List.map_nil, BodyValue.datum,
      low32_devnum h.1.2, low32_devnum h.2]
  | _ => rfl

/-- **Every request is whole**, unless it was poisoned. -/
theorem request_whole {op : BusOp} {s : Nat} (ha : op.asks = true) (h : op.accepts = true)
    (hm : op.path.length < memMax) (h0 : 0 < s) (hs : s < 4294967296)
    (hb : (op.request s).bad = false) : Whole op s (op.request s).buf := by
  have e := BusOp.request_build ha h hm s
  rw [e] at hb ⊢
  obtain ⟨hfin, -, hl⟩ :=
    build_bytes dbusMarshalTypeCall 0 s (op.fields (BusOp.path_ok ha h) hm) op.args hb
  rw [hfin]
  have hsmall :
    (messageBytes dbusMarshalTypeCall 0 s (op.fields (BusOp.path_ok ha h) hm) op.args).length ≤
    8192 := by
    omega
  have hd := op.fields_codes (BusOp.path_ok ha h) hm
  refine ⟨?_, hl, message_valid hsmall hd, rfl, ⟨?_, by omega⟩, ?_, ?_, ?_⟩
  · exact (dbusFrameTotal_ok (messageTotal_ge (message_total hsmall)) (message_total hsmall)).1
  · rw [(message_words hsmall).2.1]
    omega
  · obtain ⟨off, hfind, hread, htext⟩ :=
      (message_find hsmall hd dbusMarshalFPath).1 (.path op.path (BusOp.path_ok ha h) hm)
      (by simp [BusOp.fields]) rfl
    exact ⟨off, _, off + 4, hfind, hread, htext⟩
  · obtain ⟨off, hfind, hread, htext⟩ := (message_find hsmall hd dbusMarshalFMember).1
      (.text dbusMarshalFMember (lit op.member) (by decide) op.member_ne op.member_fits)
      (by simp [BusOp.fields]) rfl
    exact ⟨off, _, off + 4, hfind, hread, htext⟩
  · obtain ⟨hread, hend⟩ := message_body hsmall
    refine ⟨?_, hend⟩
    rw [hread, ← args_values h, List.map_map]
    rfl

/-! ## What goes out -/

theorem wire_pushEvents (f : Frame) (fd : Int) : wire (pushEvents f fd) = [] := by
  rw [pushEvents, wire_append, wire_closes, List.append_nil]
  split
  · rfl
  · rfl

theorem Queued.wire {f g : Frame} {fds moved : List Int} {es : List Event}
    (h : Queued f fds moved es g) : wire es = [] := by
  induction h with
  | nil => rfl
  | @keep f g fd rest moved es hfd hq ih => rw [wire_append, wire_pushEvents, ih, List.append_nil]
  | @move f g fd nfd rest moved es hfd hq ih =>
    rw [wire_append, wire_append, wire_pushEvents, ih]
    rfl

theorem wire_advance (f : Frame) (r : Nat) : wire (advanceEvents f r) = [] := by
  rw [advanceEvents, wire_cons, wire_closes]
  rfl

/-- A move sends nothing. -/
theorem Step.wire {s : Nat} {w w' : World} (h : Step s w w') : ∃ es, w'.trace = w.trace ++ es ∧
    wire es = [] := by
  cases h with
  | quiet hq => exact ⟨_, hq.trace, wire_quiet hq.quiet⟩
  | lost => exact ⟨[], (List.append_nil _).symm, rfl⟩
  | next rest pass => exact ⟨_, rfl, by rw [wire_append, wire_closes]; rfl⟩
  | advance rest => exact ⟨_, rfl, wire_advance _ _⟩
  | answered rest hv => exact ⟨_, rfl, rfl⟩
  | prepare hp => exact ⟨[], (List.append_nil _).symm, rfl⟩
  | eof => exact ⟨[], (List.append_nil _).symm, rfl⟩
  | recvNone anc trunc hn hfr hdbm hdbs hin ht =>
    refine ⟨_, ht, ?_⟩
    rw [wire_cons]
    split
    · exact wire_closes _
    · rfl
  | receive fd want flags trunc rest hd hwithin hroom hin hq hfr hdbm hdbs ht =>
    refine ⟨_, ht, ?_⟩
    rw [wire_cons, wire_append, wire_append, wire_closes, hq.wire]
    rfl
  | @take w₁ w' r i fd g qs ok rest hc h0 hq he =>
    refine ⟨_, take_trace hq he, ?_⟩
    rw [wire_append, wire_append, wire_quiet hq.quiet]
    cases ok with
    | true => exact (wire_append _ _).trans (by rw [wire_advance]; rfl)
    | false => exact (wire_cons _ _).trans (by rw [wire_advance]; rfl)

theorem moves_wire {s : Nat} {w w' : World} (h : ReflTransGen (Step s) w w') :
    ∃ es, w'.trace = w.trace ++ es ∧ wire es = [] := by
  induction h with
  | refl => exact ⟨[], (List.append_nil _).symm, rfl⟩
  | tail _ last ih =>
    obtain ⟨es, ht, hw⟩ := ih
    obtain ⟨es', ht', hw'⟩ := last.wire
    exact ⟨es ++ es', by rw [ht', ht, List.append_assoc], by rw [wire_append, hw, hw',
      List.append_nil]⟩

/-- Between `w` and `w'` nothing was sent, or a beginning of the request `m`, which is not
poisoned. -/
def SentOf (m : Marshal) (w w' : World) : Prop :=
  ∃ es, w'.trace = w.trace ++ es ∧ (wire es = [] ∨ m.bad = false ∧ wire es <+: m.buf)

theorem SentOf.before {m : Marshal} {w w₁ w' : World} {es : List Event}
    (ht : w₁.trace = w.trace ++ es) (hes : wire es = []) (h : SentOf m w₁ w') : SentOf m w w' := by
  obtain ⟨es', ht', h⟩ := h
  refine ⟨es ++ es', by rw [ht', ht, List.append_assoc], ?_⟩
  rw [wire_append, hes]
  exact h

theorem SentOf.after {m : Marshal} {w w₁ w' : World} {es : List Event} (h : SentOf m w w₁)
    (ht : w'.trace = w₁.trace ++ es) (hes : wire es = []) : SentOf m w w' := by
  obtain ⟨es', ht', h⟩ := h
  refine ⟨es' ++ es, by rw [ht, ht', List.append_assoc], ?_⟩
  rw [wire_append, hes, List.append_nil]
  exact h

theorem Sent.sentOf {m : Marshal} {n : Nat} {w w' : World} {es : List Event}
    (h : Sent m.buf n w w' es) (hb : m.bad = false) : SentOf m w w' :=
    ⟨es, h.trace, .inr ⟨hb, h.wire ▸ List.take_prefix _ _⟩⟩

theorem Calls.sentOf {s : Nat} {m : Marshal} {w w' : World} (h : Calls s m w w') :
    SentOf m w w' := by
  cases h with
  | unsent h =>
    obtain ⟨es, ht, hw⟩ := moves_wire h
    exact ⟨es, ht, .inl hw⟩
  | sent before hbad hopen hw after =>
    obtain ⟨es, ht, hes⟩ := moves_wire before
    obtain ⟨es', ht', hes'⟩ := moves_wire after
    refine (SentOf.before ht hes ?_).after ht' hes'
    cases hw with
    | all h => exact h.sentOf hbad
    | stopped h _ => exact h.sentOf hbad

theorem CallsPart.sentOf {s : Nat} {m : Marshal} {w w' : World} (h : CallsPart s m w w') :
    SentOf m w w' := by
  cases h with
  | between h => exact h.sentOf
  | sending before hbad hopen h hlt =>
    obtain ⟨es, ht, hes⟩ := moves_wire before
    exact (h.sentOf hbad).before ht hes

/-- **An operation sends its own request**, or a beginning of it, or nothing; nothing if
it refuses its arguments. -/
theorem op_sends (op : BusOp) (bus : Int) {w : World} (hg : w.fr.Good) :
    ∃ es, (op.run bus w).state.trace = w.trace ++ es ∧
    (wire es = [] ∨ (op.asks = true → op.accepts = true) ∧
      (op.request (op.serial w)).bad = false ∧ wire es <+: (op.request (op.serial w)).buf) := by
  have still {w' : World} (h : ReflTransGen (Step (op.serial w)) w w') :
    ∃ es, w'.trace = w.trace ++ es ∧
      (wire es = [] ∨ (op.asks = true → op.accepts = true) ∧
        (op.request (op.serial w)).bad = false ∧ wire es <+: (op.request (op.serial w)).buf) := by
    obtain ⟨es, ht, hw⟩ := moves_wire h
    exact ⟨es, ht, .inl hw⟩
  have sent {w' : World} (ok : op.asks = true → op.accepts = true)
    (h : SentOf (op.request (op.serial w)) w w') :
      ∃ es, w'.trace = w.trace ++ es ∧ (wire es = [] ∨ (op.asks = true → op.accepts = true) ∧
        (op.request (op.serial w)).bad = false ∧ wire es <+: (op.request (op.serial w)).buf) := by
    obtain ⟨es, ht, h⟩ := h
    exact ⟨es, ht, h.imp id fun out => ⟨ok, out⟩⟩
  have given {m : Marshal} (hop : op = .call m (op.serial w)) :
    (op.asks = true → op.accepts = true) ∧
      op.request (op.serial w) = m := by
    rw [hop]
    exact ⟨fun h => (nomatch h), rfl⟩
  have ran := (body_running op bus (op.serial w)).ends w ⟨hg, rfl⟩
  generalize ho : op.body bus w = o at ran
  cases ran with
  | waiting hp =>
    rw [run_waiting ho]
    cases hp with
    | moved h => exact still h
    | asked ok hq hc =>
      exact sent (fun _ => ok) (SentOf.before hq.trace (wire_quiet hq.quiet) hc.sentOf)
    | @called m hop hc =>
      obtain ⟨ok, request⟩ := given hop
      exact sent ok (request ▸ hc.sentOf)
  | @done rc w₁ hr hg₁ =>
    obtain ⟨es, ht, hw⟩ : ∃ es, w₁.trace = w.trace ++ es ∧
      (wire es = [] ∨ (op.asks = true → op.accepts = true) ∧
        (op.request (op.serial w)).bad = false ∧ wire es <+: (op.request (op.serial w)).buf) := by
      cases hr with
      | moved h => exact still h
      | asked ok hq hc =>
        exact sent (fun _ => ok) (SentOf.before hq.trace (wire_quiet hq.quiet) hc.sentOf)
      | @called m hop hc =>
        obtain ⟨ok, request⟩ := given hop
        exact sent ok (request ▸ hc.sentOf)
    rw [run_done ho, Outcome.state_done]
    split
    · -- a failed Hello closes what was queued
      refine ⟨es ++ (dbusFrameCloseFds w₁.fr).2.map Event.close, ?_, ?_⟩
      · show w₁.trace ++ _ = _
        rw [ht, List.append_assoc]
      · rw [wire_append, wire_closes, List.append_nil]
        exact hw
    · exact ⟨es, ht, hw⟩

end Samvada
