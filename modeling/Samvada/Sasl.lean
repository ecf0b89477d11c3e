import Samvada.Counting
import Samvada.Lib.Lines

/- What the SASL exchange reads. The server's stream is its lines and the unfinished
   one after them; the reader goes through the lines in order whatever pieces they
   arrive in, so what it answers, and where it stops, is a function of the stream. -/
namespace Samvada
open Octets Resumable Resumable.Prog Lines

/-- The CRLF-terminated lines of `s`, and what follows the last of them. -/
abbrev LinesOf (s : Bytes) (ls : List Bytes) (rest : Bytes) : Prop :=
  Split (13 : UInt8) 10 s ls rest

theorem cr_ne_lf : (13 : UInt8) ≠ 10 := by decide

theorem findCrlf_eq : ∀ s : Bytes, dbusAuthFindCrlf s = firstBreak 13 10 s
  | [] => rfl
  | [_] => rfl
  | a :: b :: s => by
    rw [dbusAuthFindCrlf, firstBreak, findCrlf_eq (b :: s)]

/-! ## The reader, line by line -/

/-- The reader on complete lines: what it answers, the lines after that, and its flags. -/
def readLines : List Bytes → Auth → AuthStatus × List Bytes × Auth
  | [], a => (.needMore, [], a)
  | l :: ls, a => match dbusAuthLineKind l with
    | .rejected => (.rejected, ls, a)
    | .error => (.error, ls, a)
    | .ok => readLines ls { a with sawOk := true }
    | .agreeUnixFd => if a.sawOk then (.ok, ls, { a with sawAgree := true }) else (.error, ls, a)
    | .data => readLines ls a
    | .other => readLines ls a

/-- The bytes of complete lines. -/
def unlines (ls : List Bytes) : Bytes := ls.flatMap (· ++ [13, 10])

/-- What is at the base after the first line has been consumed. -/
theorem consume_line {f : Frame} {l t : Bytes} (hoff : f.off ≤ f.buf.length)
    (hb : dbusFrameBase f = l ++ 13 :: 10 :: t) :
    dbusFrameBase (dbusFrameConsume f (l.length + 2)) = t ∧
      (dbusFrameConsume f (l.length + 2)).off ≤ (dbusFrameConsume f (l.length + 2)).buf.length ∧
      f.off ≤ (dbusFrameConsume f (l.length + 2)).off := by
  have len := congrArg List.length hb
  simp only [dbusFrameBase, List.length_drop, List.length_append, List.length_cons] at len
  have off : (dbusFrameConsume f (l.length + 2)).off = f.off + (l.length + 2) :=
    Nat.min_eq_left (by omega)
  refine ⟨?_, Nat.min_le_right _ _, by omega⟩
  unfold dbusFrameBase at hb ⊢
  rw [off, ← List.drop_drop]
  show List.drop (l.length + 2) (f.buf.drop f.off) = t
  rw [hb]
  simp

/-- Where a run of the reader leaves the framer: further on in it, the base at `left`. -/
structure ReadTo (f g : Frame) (left : Bytes) : Prop where
  frame : g = { f with off := g.off }
  on : f.off ≤ g.off
  off : g.off ≤ g.buf.length
  base : dbusFrameBase g = left

theorem ReadTo.buf {f g : Frame} {left : Bytes} (h : ReadTo f g left) : g.buf = f.buf := by
  rw [h.frame]

/-- The run consumed, and did nothing else. -/
theorem ReadTo.consume {f g : Frame} {left : Bytes} (h : ReadTo f g left) :
    g = dbusFrameConsume f (g.off - f.off) := by
  have size : f.buf.length = g.buf.length := by rw [h.buf]
  have there : min (f.off + (g.off - f.off)) f.buf.length = g.off := by
    have on := h.on
    have off := h.off
    omega
  rw [dbusFrameConsume, there]
  exact h.frame

theorem drainN_lines {ls : List Bytes} : ∀ {n : Nat} {f : Frame} {a : Auth} {rest : Bytes},
    ls.length < n → f.off ≤ f.buf.length → LinesOf (dbusFrameBase f) ls rest →
    (dbusAuthDrainN n f a).1 = (readLines ls a).1 ∧
    (dbusAuthDrainN n f a).2.2 = (readLines ls a).2.2 ∧
      ReadTo f (dbusAuthDrainN n f a).2.1 (unlines (readLines ls a).2.1 ++ rest) := by
  induction ls with
  | nil =>
    intro n f a rest hn hoff h
    obtain ⟨n, rfl⟩ : ∃ m, n = m + 1 := ⟨n - 1, by simp only [List.length_nil] at hn; omega⟩
    have none : dbusAuthFindCrlf (dbusFrameBase f) = none := by
      rw [findCrlf_eq, h.text]
      exact firstBreak_none.mpr h.rest
    rw [dbusAuthDrainN, none]
    exact ⟨rfl, rfl, rfl, Nat.le_refl _, hoff, h.text⟩
  | cons l ls ih =>
    intro n f a rest hn hoff h
    rw [List.length_cons] at hn
    obtain ⟨n, rfl⟩ : ∃ m, n = m + 1 := ⟨n - 1, by omega⟩
    obtain ⟨t, hb, hl, later⟩ := h.tail
    have first : dbusAuthFindCrlf (dbusFrameBase f) = some l.length := by
      rw [findCrlf_eq, hb]
      exact firstBreak_line cr_ne_lf hl t
    have line : (dbusFrameBase f).take l.length = l := by rw [hb, List.take_left]
    obtain ⟨base, off, on⟩ := consume_line hoff hb
    have ended : ReadTo f (dbusFrameConsume f (l.length + 2)) (unlines ls ++ rest) :=
      ⟨rfl, on, off, base.trans later.text⟩
    have goes (a : Auth) : (dbusAuthDrainN n (dbusFrameConsume f (l.length + 2)) a).1 =
      (readLines ls a).1 ∧
        (dbusAuthDrainN n (dbusFrameConsume f (l.length + 2)) a).2.2 = (readLines ls a).2.2 ∧
        ReadTo f (dbusAuthDrainN n (dbusFrameConsume f (l.length + 2)) a).2.1
        (unlines (readLines ls a).2.1 ++ rest) := by
      obtain ⟨status, flags, left⟩ :=
        ih (a := a) (show ls.length < n by omega) off (base.symm ▸ later)
      exact ⟨status, flags, left.frame, on.trans left.on, left.off, left.base⟩
    simp only [dbusAuthDrainN, first, line, readLines]
    cases dbusAuthLineKind l with
    | rejected => exact ⟨rfl, rfl, ended⟩
    | error => exact ⟨rfl, rfl, ended⟩
    | agreeUnixFd =>
      by_cases ok : a.sawOk
      · simpa [ok] using ended
      · simpa [ok] using ended
    | ok => exact goes _
    | data => exact goes _
    | other => exact goes _

/-- The reader in the framer's buffer is the reader on its lines. -/
theorem drain_lines {f : Frame} {a : Auth} {ls : List Bytes} {rest : Bytes}
    (hoff : f.off ≤ f.buf.length) (h : LinesOf (dbusFrameBase f) ls rest) :
    (dbusAuthDrainLines f a).1 = (readLines ls a).1 ∧
    (dbusAuthDrainLines f a).2.2 = (readLines ls a).2.2 ∧
      ReadTo f (dbusAuthDrainLines f a).2.1 (unlines (readLines ls a).2.1 ++ rest) := by
  refine drainN_lines ?_ hoff h
  have count := h.count
  simp only [dbusFrameBase, List.length_drop] at count
  unfold dbusFrameHave
  omega

/-! ## Lines in pieces -/

theorem readLines_more {ls : List Bytes} {a : Auth} (h : (readLines ls a).1 = .needMore) :
    (readLines ls a).2.1 = [] := by
  induction ls generalizing a with
  | nil => rfl
  | cons l ls ih =>
    revert h
    rw [readLines]
    cases dbusAuthLineKind l with
    | ok => exact ih
    | data => exact ih
    | other => exact ih
    | rejected => exact fun h => nomatch h
    | error => exact fun h => nomatch h
    | agreeUnixFd =>
      by_cases ok : a.sawOk
      · simp [ok]
      · simp [ok]

/-- Lines that end nothing only set flags for the lines after them. -/
theorem readLines_append {ls : List Bytes} {a : Auth} (h : (readLines ls a).1 = .needMore)
    (ls' : List Bytes) : readLines (ls ++ ls') a = readLines ls' (readLines ls a).2.2 := by
  induction ls generalizing a with
  | nil => rfl
  | cons l ls ih =>
    revert h
    simp only [List.cons_append, readLines]
    cases dbusAuthLineKind l with
    | ok => exact ih
    | data => exact ih
    | other => exact ih
    | rejected => exact fun h => nomatch h
    | error => exact fun h => nomatch h
    | agreeUnixFd =>
      by_cases ok : a.sawOk
      · simp [ok]
      · simp [ok]

/-- Once the exchange has ended, later lines change nothing. -/
theorem readLines_ended {ls : List Bytes} {a : Auth} (h : (readLines ls a).1 ≠ .needMore)
    (ls' : List Bytes) :
    (readLines (ls ++ ls') a).1 = (readLines ls a).1 ∧
    (readLines (ls ++ ls') a).2.1 = (readLines ls a).2.1 ++ ls' := by
  induction ls generalizing a with
  | nil => exact absurd rfl h
  | cons l ls ih =>
    revert h
    simp only [List.cons_append, readLines]
    cases dbusAuthLineKind l with
    | ok => exact ih
    | data => exact ih
    | other => exact ih
    | rejected => exact fun _ => ⟨rfl, rfl⟩
    | error => exact fun _ => ⟨rfl, rfl⟩
    | agreeUnixFd =>
      by_cases ok : a.sawOk
      · simp [ok]
      · simp [ok]

/-! ## What a line says -/

/-- `OK ` and exactly 32 hexadecimal digits. -/
def OkLine (l : Bytes) : Prop :=
  ∃ guid : Bytes, l = lit "OK " ++ guid ∧ guid.length = 32 ∧ ∀ c ∈ guid, isHexDigit c = true

/-- A REJECTED or ERROR line, or an `OK ` line that is malformed. -/
def Refuses (l : Bytes) : Prop :=
  lit "REJECTED" <+: l ∨ lit "ERROR" <+: l ∨ (lit "OK " <+: l ∧ ¬ OkLine l)

theorem starts_iff {l : Bytes} {s : String} : dbusAuthStarts l s = true ↔ lit s <+: l :=
  List.isPrefixOf_iff_prefix

/-- Two words, neither of them the start of the other, do not both start a line. -/
theorem starts_apart {l : Bytes} {s t : String} (hs : lit s <+: l)
    (h : ¬ lit s <+: lit t ∧ ¬ lit t <+: lit s) : ¬ lit t <+: l := by
  intro ht
  obtain first | second := List.prefix_or_prefix_of_prefix hs ht
  · exact h.1 first
  · exact h.2 second

theorem isOk_iff {l : Bytes} : dbusAuthIsOk l = true ↔ OkLine l := by
  simp only [dbusAuthIsOk, Bool.and_eq_true, beq_iff_eq, starts_iff, List.all_eq_true]
  constructor
  · rintro ⟨⟨len, guid, rfl⟩, hex⟩
    refine ⟨guid, rfl, ?_, hex⟩
    rw [List.length_append] at len
    have prefix_ : (lit "OK ").length = 3 := by decide
    omega
  · rintro ⟨guid, rfl, len, hex⟩
    refine ⟨⟨?_, List.prefix_append _ _⟩, hex⟩
    rw [List.length_append, len]
    rfl

theorem OkLine.starts {l : Bytes} (h : OkLine l) : lit "OK " <+: l := by
  obtain ⟨guid, rfl, -⟩ := h
  exact List.prefix_append _ _

theorem kind_ok {l : Bytes} : dbusAuthLineKind l = .ok ↔ OkLine l := by
  constructor
  · intro h
    unfold dbusAuthLineKind at h
    split_ifs at h with _ _ ok
    exact isOk_iff.mp ok
  · intro h
    have data : ¬ dbusAuthStarts l "DATA" = true := by
      rw [starts_iff]
      exact starts_apart h.starts (by decide)
    rw [dbusAuthLineKind, if_neg data, if_pos (starts_iff.mpr h.starts), if_pos (isOk_iff.mpr h)]

theorem kind_agree {l : Bytes} : dbusAuthLineKind l = .agreeUnixFd ↔ lit "AGREE_UNIX_FD" <+: l := by
  constructor
  · intro h
    unfold dbusAuthLineKind at h
    split_ifs at h with _ _ _ agree
    exact starts_iff.mp agree
  · intro h
    have other (s : String)
      (hs : ¬ lit "AGREE_UNIX_FD" <+: lit s ∧ ¬ lit s <+: lit "AGREE_UNIX_FD") :
        ¬ dbusAuthStarts l s = true := by
      rw [starts_iff]
      exact starts_apart h hs
    rw [dbusAuthLineKind, if_neg (other "DATA" (by decide)), if_neg (other "OK " (by decide)),
      if_pos (starts_iff.mpr h)]

theorem kind_refuses {l : Bytes} : (dbusAuthLineKind l = .rejected ∨ dbusAuthLineKind l = .error) ↔
    Refuses l := by
  constructor
  · intro h
    unfold dbusAuthLineKind at h
    split_ifs at h with _ ok bad _ rejected error
    · simp at h
    · simp at h
    · exact .inr (.inr ⟨starts_iff.mp ok, fun good => bad (isOk_iff.mpr good)⟩)
    · simp at h
    · exact .inl (starts_iff.mp rejected)
    · exact .inr (.inl (starts_iff.mp error))
    · simp at h
  · intro h
    have other {t : String} (ht : lit t <+: l) (s : String)
      (hs : ¬ lit t <+: lit s ∧ ¬ lit s <+: lit t) :
        ¬ dbusAuthStarts l s = true := by
      rw [starts_iff]
      exact starts_apart ht hs
    obtain h | h | ⟨h, bad⟩ := h
    · rw [dbusAuthLineKind, if_neg (other h "DATA" (by decide)), if_neg (other h "OK " (by decide)),
        if_neg (other h "AGREE_UNIX_FD" (by decide)), if_pos (starts_iff.mpr h)]
      exact .inl rfl
    · rw [dbusAuthLineKind, if_neg (other h "DATA" (by decide)), if_neg (other h "OK " (by decide)),
        if_neg (other h "AGREE_UNIX_FD" (by decide)), if_neg (other h "REJECTED" (by decide)),
        if_pos (starts_iff.mpr h)]
      exact .inr rfl
    · rw [dbusAuthLineKind, if_neg (other h "DATA" (by decide)), if_pos (starts_iff.mpr h),
        if_neg (fun ok => bad (isOk_iff.mp ok))]
      exact .inr rfl

/-- A line the exchange goes on after. -/
def Passes (l : Bytes) : Prop := ¬ Refuses l ∧ ¬ lit "AGREE_UNIX_FD" <+: l

/-- The first line that begins AGREE_UNIX_FD, and what it takes to get there. -/
structure Agreed (ls pre : List Bytes) (ok : Bytes) (mid : List Bytes) (last : Bytes)
    (post : List Bytes) : Prop where
  lines : ls = pre ++ ok :: (mid ++ last :: post)
  authenticated : OkLine ok
  passes : ∀ l ∈ pre ++ mid, Passes l
  agrees : lit "AGREE_UNIX_FD" <+: last

theorem OkLine.passes {l : Bytes} (h : OkLine l) : Passes l := by
  refine ⟨?_, starts_apart h.starts (by decide)⟩
  intro hr
  obtain rejected | error | malformed := hr
  · exact starts_apart h.starts (by decide) rejected
  · exact starts_apart h.starts (by decide) error
  · exact malformed.2 h

/-- The reader after a line it goes on after. -/
theorem readLines_passes {l : Bytes} (h : Passes l) (ls : List Bytes) (a : Auth) :
    ∃ a', readLines (l :: ls) a = readLines ls a' ∧
    (a'.sawOk = true ↔ a.sawOk = true ∨ OkLine l) := by
  have refuses := mt kind_refuses.mp h.1
  have agrees := mt kind_agree.mp h.2
  have ok := kind_ok (l := l)
  rw [readLines]
  cases hk : dbusAuthLineKind l with
  | rejected => exact absurd (.inl hk) refuses
  | error => exact absurd (.inr hk) refuses
  | agreeUnixFd => exact absurd hk agrees
  | ok => exact ⟨_, rfl, by simp [ok.mp hk]⟩
  | data =>
    rw [hk] at ok
    exact ⟨_, rfl, by simp [← ok]⟩
  | other =>
    rw [hk] at ok
    exact ⟨_, rfl, by simp [← ok]⟩

theorem readLines_pass {pre : List Bytes} (h : ∀ l ∈ pre, Passes l) (ls : List Bytes) (a : Auth) :
    ∃ a', readLines (pre ++ ls) a = readLines ls a' ∧
    (a'.sawOk = true ↔ a.sawOk = true ∨ ∃ l ∈ pre, OkLine l) := by
  induction pre generalizing a with
  | nil => exact ⟨a, rfl, by simp⟩
  | cons l pre ih =>
    obtain ⟨a₁, first, flag⟩ := readLines_passes (h l List.mem_cons_self) (pre ++ ls) a
    obtain ⟨a₂, later, flags⟩ := ih (fun k hk => h k (List.mem_cons_of_mem _ hk)) a₁
    refine ⟨a₂, first.trans later, ?_⟩
    rw [flags, flag]
    simp [or_assoc]

theorem readLines_agree {l : Bytes} (h : lit "AGREE_UNIX_FD" <+: l) (ls : List Bytes) {a : Auth}
    (ha : a.sawOk = true) : (readLines (l :: ls) a).1 = .ok ∧ (readLines (l :: ls) a).2.1 = ls := by
  rw [readLines, kind_agree.mpr h]
  simp [ha]

theorem Agreed.read {ls pre mid post : List Bytes} {ok last : Bytes}
    (h : Agreed ls pre ok mid last post) : (readLines ls {}).1 = .ok ∧
    (readLines ls {}).2.1 = post := by
  have passes : ∀ l ∈ pre ++ ok :: mid, Passes l := by
    intro l hl
    obtain hl | hl := List.mem_append.mp hl
    · exact h.passes l (List.mem_append_left _ hl)
    · obtain rfl | hl := List.mem_cons.mp hl
      · exact h.authenticated.passes
      · exact h.passes l (List.mem_append_right _ hl)
  obtain ⟨a, run, flag⟩ := readLines_pass passes (last :: post) {}
  have all : ls = (pre ++ ok :: mid) ++ last :: post := by simp [h.lines]
  rw [all, run]
  exact readLines_agree h.agrees post (flag.mpr (.inr ⟨ok, by simp, h.authenticated⟩))

/-- Success means an agreement was reached. -/
theorem readLines_agreed {ls : List Bytes} {a : Auth} (h : (readLines ls a).1 = .ok) :
    ∃ pre last post, ls = pre ++ last :: post ∧ (∀ l ∈ pre, Passes l) ∧
    lit "AGREE_UNIX_FD" <+: last ∧
      (a.sawOk = true ∨ ∃ l ∈ pre, OkLine l) := by
  induction ls generalizing a with
  | nil => cases h
  | cons l ls ih =>
    by_cases refuses : Refuses l
    · -- the exchange is over
      rw [readLines] at h
      obtain hk | hk := kind_refuses.mpr refuses
      · rw [hk] at h
        cases h
      · rw [hk] at h
        cases h
    by_cases agrees : lit "AGREE_UNIX_FD" <+: l
    · refine ⟨[], l, ls, rfl, by simp, agrees, .inl ?_⟩
      rw [readLines, kind_agree.mpr agrees] at h
      by_contra unset
      simp [unset] at h
    · obtain ⟨a', run, flag⟩ := readLines_passes ⟨refuses, agrees⟩ ls a
      rw [run] at h
      obtain ⟨pre, last, post, rfl, passes, hlast, hok⟩ := ih h
      refine ⟨l :: pre, last, post, rfl, ?_, hlast, ?_⟩
      · intro k hk
        obtain rfl | hk := List.mem_cons.mp hk
        · exact ⟨refuses, agrees⟩
        · exact passes k hk
      · rw [flag] at hok
        simpa [or_assoc] using hok

theorem agreed_iff {ls : List Bytes} : (readLines ls {}).1 = .ok ↔ ∃ pre ok mid last post,
    Agreed ls pre ok mid last post := by
  constructor
  · intro h
    obtain ⟨before, last, post, rfl, passes, agrees, unset | ⟨ok, hmem, hok⟩⟩ := readLines_agreed h
    · cases unset
    · obtain ⟨pre, mid, rfl⟩ := List.append_of_mem hmem
      refine ⟨pre, ok, mid, last, post, by simp, hok, ?_, agrees⟩
      intro l hl
      apply passes
      obtain hl | hl := List.mem_append.mp hl
      · exact List.mem_append_left _ hl
      · exact List.mem_append_right _ (List.mem_cons_of_mem _ hl)
  · rintro ⟨pre, ok, mid, last, post, h⟩
    exact h.read.1

/-- It is the first line that begins so. -/
theorem Agreed.first {ls pre mid post : List Bytes} {ok last : Bytes}
    (h : Agreed ls pre ok mid last post) :
    ls.find? (dbusAuthStarts · "AGREE_UNIX_FD") = some last := by
  have skip {l : Bytes} (hl : Passes l) : dbusAuthStarts l "AGREE_UNIX_FD" = false :=
    Bool.eq_false_iff.mpr fun hs => hl.2 (starts_iff.mp hs)
  have none {ks : List Bytes} (hks : ∀ l ∈ ks, Passes l) :
    ks.find? (dbusAuthStarts · "AGREE_UNIX_FD") = none :=
    List.find?_eq_none.mpr fun l hl => by simp [skip (hks l hl)]
  have found : (last :: post).find? (dbusAuthStarts · "AGREE_UNIX_FD") = some last := by
    simp [starts_iff.mpr h.agrees]
  have later : (ok :: (mid ++ last :: post)).find? (dbusAuthStarts · "AGREE_UNIX_FD") =
    some last := by
    rw [List.find?_cons, skip h.authenticated.passes, List.find?_append, none fun l hl =>
      h.passes l (List.mem_append_right _ hl), found]
    rfl
  rw [h.lines, List.find?_append, none fun l hl => h.passes l (List.mem_append_left _ hl), later]
  rfl

/-- The server has authenticated us and agreed to pass descriptors: a line that is
exactly OK and a GUID, and later the first that begins AGREE_UNIX_FD, which is
exactly that; and nothing refused before it. -/
def Authenticated (ls : List Bytes) : Prop :=
  ∃ pre ok mid post, Agreed ls pre ok mid (lit "AGREE_UNIX_FD") post

/-- The first line that begins AGREE_UNIX_FD, reached in the same way, goes on after it. -/
def Padded (ls : List Bytes) : Prop :=
  ∃ pre ok mid last post, Agreed ls pre ok mid last post ∧ last ≠ lit "AGREE_UNIX_FD"

theorem authenticated_iff (ls : List Bytes) : ((readLines ls {}).1 = .ok → Authenticated ls) ↔
    ¬ Padded ls := by
  constructor
  · rintro h ⟨pre, ok, mid, last, post, agreed, padded⟩
    obtain ⟨pre', ok', mid', post', exact_⟩ := h agreed.read.1
    exact padded (Option.some.inj (agreed.first.symm.trans exact_.first))
  · intro h success
    obtain ⟨pre, ok, mid, last, post, agreed⟩ := agreed_iff.mp success
    by_cases padded : last = lit "AGREE_UNIX_FD"
    · subst padded
      exact ⟨pre, ok, mid, post, agreed⟩
    · exact absurd ⟨pre, ok, mid, last, post, agreed, padded⟩ h

/-! ## A stream received in pieces -/

/-- The reader fed pieces of the stream, until it ends the exchange. -/
def feed : List Bytes → Frame → Auth → AuthStatus × Frame × Auth
  | [], f, a => (.needMore, f, a)
  | d :: ds, f, a =>
    let r := dbusAuthDrainLines (dbusFrameCommit f d) a
    if r.1 = .needMore then feed ds r.2.1 r.2.2 else r

/-- In the middle of the exchange: what is buffered is all that came, and the lines
of it have ended nothing. -/
structure Reading (f : Frame) (a : Auth) : Prop where
  abs0 : f.abs0 = 0
  moved : f.moved = 0
  off : f.off ≤ f.buf.length
  lines : ∃ ls, LinesOf f.buf ls (dbusFrameBase f) ∧ (readLines ls {}).1 = .needMore ∧
    (readLines ls {}).2.2 = a

theorem init_reading (f : Frame) : Reading (dbusFrameInit f).1 {} :=
  ⟨rfl, rfl, Nat.le_refl _, [], .nil unended_nil, rfl, rfl⟩

/-- **One receive**: the reader has gone through the lines of all that came. -/
theorem Reading.receive {f : Frame} {a : Auth} (h : Reading f a) (d : Bytes) :
    ∃ ls rest, LinesOf (f.buf ++ d) ls rest ∧ (dbusAuthDrainLines (dbusFrameCommit f d) a).1 =
    (readLines ls {}).1 ∧
      ReadTo (dbusFrameCommit f d) (dbusAuthDrainLines (dbusFrameCommit f d) a).2.1
      (unlines (readLines ls {}).2.1 ++ rest) ∧ ((readLines ls {}).1 = .needMore →
        Reading (dbusAuthDrainLines (dbusFrameCommit f d) a).2.1
        (dbusAuthDrainLines (dbusFrameCommit f d) a).2.2) := by
  obtain ⟨before, split, more, rfl⟩ := h.lines
  have base : dbusFrameBase (dbusFrameCommit f d) = dbusFrameBase f ++ d :=
    List.drop_append_of_le_length h.off
  have off : (dbusFrameCommit f d).off ≤ (dbusFrameCommit f d).buf.length := by
    show f.off ≤ (f.buf ++ d).length
    rw [List.length_append]
    exact Nat.le_add_right_of_le h.off
  obtain ⟨ls, rest, new⟩ := Split.exist (13 : UInt8) 10 (dbusFrameBase f ++ d)
  have whole := split.append new
  obtain ⟨status, flags, left⟩ := drain_lines (a := (readLines before {}).2.2) off (base.symm ▸ new)
  have all := readLines_append more ls
  rw [← all] at status flags left
  refine ⟨before ++ ls, rest, whole, status, left, fun needMore =>
    ⟨?_, ?_, left.off, before ++ ls, ?_, needMore, flags.symm⟩⟩
  · rw [left.frame]
    exact h.abs0
  · rw [left.frame]
    exact h.moved
  rw [readLines_more needMore] at left
  rw [left.buf, left.base]
  exact whole

theorem feed_lines {ds : List Bytes} {f : Frame} {a : Auth} (h : Reading f a)
    {ls : List Bytes} {rest : Bytes} (hs : LinesOf (f.buf ++ ds.flatten) ls rest) :
    (feed ds f a).1 = (readLines ls {}).1 := by
  induction ds generalizing f a with
  | nil =>
    obtain ⟨before, split, more, -⟩ := h.lines
    rw [List.flatten_nil, List.append_nil] at hs
    obtain ⟨rfl, -⟩ := split.unique cr_ne_lf hs
    exact more.symm
  | cons d ds ih =>
    obtain ⟨before, left, split, status, read, go⟩ := h.receive d
    rw [List.flatten_cons, ← List.append_assoc] at hs
    by_cases more : (readLines before {}).1 = .needMore
    · have later : LinesOf ((dbusAuthDrainLines (dbusFrameCommit f d) a).2.1.buf ++ ds.flatten) ls
        rest := by
        rw [read.buf]
        exact hs
      rw [← ih (go more) later, feed, if_pos (status.trans more)]
    · -- what comes after the end changes nothing
      obtain ⟨after, rest', new⟩ := Split.exist (13 : UInt8) 10 (left ++ ds.flatten)
      obtain ⟨rfl, -⟩ := (split.append new).unique cr_ne_lf hs
      rw [(readLines_ended more after).1, ← status]
      exact congrArg Prod.fst (if_neg (status ▸ more))

/-! ## The exchange on a socket -/

/-- A receive answered 0: the peer has closed. -/
def Event.isClose : Event → Bool
  | .recv _ _ _ n _ _ _ => n == 0
  | _ => false

/-- The exchange's one deadline: its first clock reading and the timeout. -/
def saslDeadline (w : World) : Int := int64 ((w.k.clock.headD {}).ms + w.dbs.timeoutMs)

/-- What the kernel answers while a delivery is prompt: the clock is short of the
deadline, and no call fails but with EINTR or EAGAIN. -/
structure Prompt (deadline : Int) (k : Kernel) : Prop where
  clock : ∀ a ∈ k.clock, 0 ≤ a.ms ∧ a.ms < deadline
  poll : ∀ r ∈ k.poll, 0 < r ∨ r = -4
  send : ∀ n ∈ k.send, 0 < n ∨ n = -4 ∨ n = -11
  recv : ∀ a ∈ k.recv, 0 ≤ a.ret ∨ a.ret = -4 ∨ a.ret = -11

/-- The framers that come after `f₀` in an exchange, with the bytes received: they are
committed and consumed, and nothing else is done with them. -/
inductive Gathered (f₀ : Frame) : Bytes → Frame → Prop where
  | start : Gathered f₀ [] f₀
  | commit {f : Frame} {R d : Bytes} (h : Gathered f₀ R f) (room : d.length ≤ dbusFrameSpace f) :
    Gathered f₀ (R ++ d) (dbusFrameCommit f d)
  | consume {f : Frame} {R : Bytes} (h : Gathered f₀ R f) (n : Nat) :
      Gathered f₀ R (dbusFrameConsume f n)

/-- In the middle of the exchange on the stream `S`, begun in `w₀`: what is buffered,
what was just received, and what is yet to come. `P` says the delivery is prompt. -/
structure Going (w₀ : World) (S : Bytes) (P : Prop) (d : Bytes) (w : World) : Prop where
  reading : Reading w.fr w.auth
  stream : S = w.fr.buf ++ (d ++ w.k.inbox)
  cap : w.fr.buf.length ≤ 8192
  trace : ∃ es, w.trace = w₀.trace ++ es ∧ inbound es = w.fr.buf ++ d
  gathered : Gathered w₀.fr w.fr.buf w.fr
  timeout : w.dbs.timeoutMs = w₀.dbs.timeoutMs
  prompt : P → w.dbs.clockFail = 0 ∧ Prompt (saslDeadline w₀) w.k

/-- The peer has closed since `w₀`. -/
def HungUp (w₀ w : World) : Prop := ∃ e ∈ w.trace.drop w₀.trace.length, e.isClose = true

/-- All that came of the stream `S` since `w₀` is in the buffer, as it came. -/
structure Received (w₀ : World) (S : Bytes) (w : World) : Prop where
  abs0 : w.fr.abs0 = 0
  moved : w.fr.moved = 0
  off : w.fr.off ≤ w.fr.buf.length
  cap : w.fr.buf.length ≤ 8192
  stream : S = w.fr.buf ++ w.k.inbox
  trace : ∃ es, w.trace = w₀.trace ++ es ∧ inbound es = w.fr.buf
  gathered : Gathered w₀.fr w.fr.buf w.fr

/-- How the exchange ends. -/
inductive Concluded (w₀ : World) (S : Bytes) (P : Prop) : Int → World → Prop where
  | agreed {w : World} {ls : List Bytes} {rest : Bytes} (lines : LinesOf w.fr.buf ls rest)
      (status : (readLines ls {}).1 = .ok)
    (base : dbusFrameBase w.fr = unlines (readLines ls {}).2.1 ++ rest) (h : Received w₀ S w) :
    Concluded w₀ S P 0 w
  | refused {w : World} {ls : List Bytes} {rest : Bytes} (lines : LinesOf w.fr.buf ls rest)
    (status : (readLines ls {}).1 = .rejected ∨ (readLines ls {}).1 = .error)
    (h : Received w₀ S w) : Concluded w₀ S P (-13) w
  | full {w : World} (h : Going w₀ S P [] w) (full : w.fr.buf.length = 8192) :
      Concluded w₀ S P (-71) w
  | closed {w : World} (h : Going w₀ S P [] w) (room : w.fr.buf.length < 8192)
    (close : HungUp w₀ w) : Concluded w₀ S P (-104) w
  | failed {w : World} {rc : Int} (h : Going w₀ S P [] w) (neg : rc < 0) (late : ¬ P) :
      Concluded w₀ S P rc w

section
variable {w₀ : World} {S d : Bytes} {P : Prop}

theorem Going.received {w : World} (h : Going w₀ S P [] w) : Received w₀ S w :=
  ⟨h.reading.abs0, h.reading.moved, h.reading.off, h.cap, h.stream, by
    simpa using h.trace, h.gathered⟩

theorem Going.before {w : World} (h : Going w₀ S P d w) : w₀.trace <+: w.trace := by
  obtain ⟨es, ht, -⟩ := h.trace
  exact ⟨es, ht.symm⟩

/-- A step that leaves the framer, the reader and the stream alone. -/
theorem Going.same {w w' : World} (h : Going w₀ S P d w) (hfr : w'.fr = w.fr)
    (hauth : w'.auth = w.auth)
    (hin : w'.k.inbox = w.k.inbox) (hto : w'.dbs.timeoutMs = w.dbs.timeoutMs) {es : List Event}
    (ht : w'.trace = w.trace ++ es) (hes : inbound es = [])
    (hp : P → w.dbs.clockFail = 0 → Prompt (saslDeadline w₀) w.k → w'.dbs.clockFail = 0 ∧
    Prompt (saslDeadline w₀) w'.k) : Going w₀ S P d w' where
  reading := by
    rw [hfr, hauth]
    exact h.reading
  stream := by
    rw [hfr, hin]
    exact h.stream
  cap := by
    rw [hfr]
    exact h.cap
  trace := by
    obtain ⟨es₀, before, came⟩ := h.trace
    exact ⟨es₀ ++ es, by rw [ht, before, List.append_assoc], by rw [inbound_append, came, hes,
      List.append_nil, hfr]⟩
  gathered := by
    rw [hfr]
    exact h.gathered
  timeout := hto.trans h.timeout
  prompt := by
    intro p
    obtain ⟨clock, prompt⟩ := h.prompt p
    exact hp p clock prompt

theorem sysClock_going (c : List ClockAnswer) :
    Spec (fun w => Going w₀ S P d w ∧ w.k.clock = c) sysClock
    (fun ms w => Going w₀ S P d w ∧ (P → 0 ≤ ms ∧ ms < saslDeadline w₀ ∧ ms = (c.headD {}).ms))
    (Going w₀ S P d) := by
  refine Spec.query (fun w ms w' h ha => ?_) fun _ h _ => h.1
  obtain ⟨h, hk⟩ := h
  cases c with
  | nil => simp [hk] at ha
  | cons a rest =>
    simp only [hk, Option.some.injEq, Prod.mk.injEq] at ha
    obtain ⟨rfl, rfl⟩ := ha
    refine ⟨h.same rfl rfl rfl rfl rfl rfl fun _ hc hp =>
      ⟨hc, fun x hx => ?_, hp.poll, hp.send, hp.recv⟩, fun p => ?_⟩
    · exact hp.clock x (hk ▸ List.mem_cons_of_mem _ hx)
    · obtain ⟨h0, early⟩ := (h.prompt p).2.clock a (hk ▸ List.mem_cons_self)
      exact ⟨h0, early, rfl⟩

theorem nowMs_going (c : List ClockAnswer) : Spec (fun w => Going w₀ S P d w ∧ w.k.clock = c)
    dbusSessionNowMs
    (fun ms w => Going w₀ S P d w ∧ (P → 0 ≤ ms ∧ ms < saslDeadline w₀ ∧ ms = (c.headD {}).ms))
    (Going w₀ S P d) := by
  refine Spec.gets_bind fun fail =>
    Spec.ite (fun failed => Spec.pure fun w h => ⟨h.1.1, fun p => ?_⟩) fun _ => ?_
  · -- a clock made to fail is not a prompt one
    have armed := (h.1.1.prompt p).1
    rw [h.2, failed] at armed
    cases armed
  · refine Spec.bind (Q := fun _ w => Going w₀ S P d w ∧ w.k.clock = c)
      (Spec.modify fun w h => ⟨?_, h.1.2⟩) fun _ => sysClock_going c
    refine h.1.1.same rfl rfl rfl rfl (List.append_nil _).symm rfl fun _ hc hp => ⟨?_, hp⟩
    have zero : fail = 0 := h.2.symm.trans hc
    subst zero
    rfl

theorem clock_going : Spec (Going w₀ S P d) dbusSessionNowMs
    (fun ms w => Going w₀ S P d w ∧ (P → 0 ≤ ms ∧ ms < saslDeadline w₀)) (Going w₀ S P d) :=
  Spec.fix fun c =>
    (nowMs_going c).mono (fun _ h => h) (fun _ _ h => ⟨h.1, fun p => ⟨(h.2 p).1, (h.2 p).2.1⟩⟩)
    fun _ h => h

theorem sysPoll_going (fd : Int) (forWrite : Bool) (ms : Int) :
    Spec (Going w₀ S P d) (sysPoll fd forWrite ms)
    (fun r w => Going w₀ S P d w ∧ (P → 0 < r ∨ r = -4)) (Going w₀ S P d) := by
  refine Spec.query (fun w r w' h ha => ?_) fun _ h _ => h
  cases hk : w.k.poll with
  | nil => simp [hk] at ha
  | cons a rest =>
    simp only [hk, Option.some.injEq, Prod.mk.injEq] at ha
    obtain ⟨rfl, rfl⟩ := ha
    refine ⟨h.same rfl rfl rfl rfl rfl rfl fun _ hc hp =>
      ⟨hc, hp.clock, fun x hx => ?_, hp.send, hp.recv⟩, fun p => ?_⟩
    · exact hp.poll x (hk ▸ List.mem_cons_of_mem _ hx)
    · exact (h.prompt p).2.poll a (hk ▸ List.mem_cons_self)

theorem sysSendto_going (fd : Int) {offered : Bytes} (ho : 0 < offered.length) (flags : Nat) :
    Spec (Going w₀ S P d) (sysSendto fd offered flags)
      (fun n w => Going w₀ S P d w ∧ (P → 0 < n ∨ n = -4 ∨ n = -11)) (Going w₀ S P d) := by
  refine Spec.query (fun w n w' h ha => ?_) fun _ h _ => h
  cases hk : w.k.send with
  | nil => simp [hk] at ha
  | cons a rest =>
    simp only [hk, Option.some.injEq, Prod.mk.injEq] at ha
    obtain ⟨rfl, rfl⟩ := ha
    refine ⟨h.same rfl rfl rfl rfl rfl rfl fun _ hc hp =>
      ⟨hc, hp.clock, hp.poll, fun x hx => ?_, hp.recv⟩, fun p => ?_⟩
    · exact hp.send x (hk ▸ List.mem_cons_of_mem _ hx)
    · have := (h.prompt p).2.send a (hk ▸ List.mem_cons_self)
      omega

/-- The wait for input: prompt, it ends in time. -/
theorem waitReadable_going (fd : Int) {deadline : Int} (hd : P → deadline = saslDeadline w₀) :
    Spec (Going w₀ S P d) (dbsWaitReadable fd deadline)
    (fun r w => Going w₀ S P d w ∧ (P → r = .ready ∨ r = .again) ∧ ∀ e, r = .failed e → e < 0)
    (Going w₀ S P d) := by
  refine Spec.bind clock_going fun now =>
    Spec.ite (fun neg => Spec.pure fun w h => ⟨h.1, fun p => ?_, by simp⟩) fun _ =>
    Spec.ite (fun late => Spec.pure fun w h => ⟨h.1, fun p => ?_, by simp⟩) fun _ => ?_
  · have := h.2 p
    omega
  · have := h.2 p
    have := hd p
    omega
  · refine Spec.bind ((sysPoll_going fd false _).mono (fun _ h => h.1) (fun _ _ h => h) fun _ h =>
      h) fun ready => ?_
    refine Spec.ite (fun h0 => Spec.pure fun w h => ⟨h.1, fun p => ?_, by simp⟩) fun _ =>
      Spec.ite (fun again => Spec.pure fun w h => ⟨h.1, fun _ => .inr rfl, by simp⟩) fun hagain =>
      Spec.ite (fun neg => Spec.pure fun w h => ⟨h.1, fun p => ?_, fun e he => ?_⟩) fun _ =>
      Spec.pure fun w h => ⟨h.1, fun _ => .inl rfl, by simp⟩
    · have := h.2 p
      omega
    · have := h.2 p
      omega
    · obtain rfl := Wait.failed.inj he
      exact neg

/-! ## The client's write -/

theorem cut_going (sent : Nat) (err : Int) : Spec (Going w₀ S P d) (dbsCut sent err)
    (fun n w => Going w₀ S P d w ∧ n = err) (Going w₀ S P d) :=
  Spec.bind (Q := fun _ => Going w₀ S P d)
    (Spec.modify fun _ h => h.same rfl rfl rfl rfl (List.append_nil _).symm rfl fun _ hc hp =>
    ⟨hc, hp⟩) fun _ =>
    Spec.pure fun _ h => ⟨h, rfl⟩

theorem writeFull_going (fd : Int) {deadline : Int}
    (hd : P → deadline = saslDeadline w₀ ∧ 0 < deadline) :
    Spec (Going w₀ S P d) (dbsWriteFull fd deadline)
    (fun stop w => Going w₀ S P d w ∧ (P → stop = 0)) (Going w₀ S P d) := by
  refine Spec.ite (fun unarmed => Spec.pure fun w h => ⟨h, fun p => ?_⟩) fun _ =>
    Spec.bind clock_going fun now => ?_
  · have := hd p
    omega
  refine Spec.ite (fun neg => Spec.pure fun w h => ⟨h.1, fun p => ?_⟩) fun _ =>
    Spec.ite (fun late => Spec.pure fun w h => ⟨h.1, fun p => ?_⟩) fun _ => ?_
  · have := h.2 p
    omega
  · have := h.2 p
    have := hd p
    omega
  refine Spec.bind ((sysPoll_going fd true _).mono (fun _ h => h.1) (fun _ _ h => h) fun _ h => h)
    fun ready => ?_
  refine Spec.ite (fun h0 => Spec.pure fun w h => ⟨h.1, fun p => ?_⟩) fun _ =>
    Spec.ite (fun failed => Spec.pure fun w h => ⟨h.1, fun p => ?_⟩) fun _ => Spec.pure fun w h =>
      ⟨h.1, fun _ => rfl⟩
  · have := h.2 p
    omega
  · have := h.2 p
    omega

/-- A round of a write goes on, or ends with what was written. -/
def WriteWent (w₀ : World) (S : Bytes) (P : Prop) (d : Bytes) : Nat ⊕ Int → World → Prop
  | .inl _, w => Going w₀ S P d w
  | .inr n, w => Going w₀ S P d w ∧ (P → 0 ≤ n)

theorem write_going (fd : Int) (buf : Bytes) {deadline : Int}
    (hd : P → deadline = saslDeadline w₀ ∧ 0 < deadline) :
    Spec (Going w₀ S P d) (dbsWrite fd buf deadline) (fun n w => Going w₀ S P d w ∧ (P → 0 ≤ n))
    (Going w₀ S P d) := by
  refine Spec.loop (I := fun _ => Going w₀ S P d) (dbsWrite_lowers fd buf deadline)
    (fun sent => ?_) 0
  have stop {n : Int} (hn : P → 0 ≤ n) :
    Spec (Going w₀ S P d) (.inr <$> dbsCut sent n : M (Nat ⊕ Int))
      (WriteWent w₀ S P d) (Going w₀ S P d) :=
    Spec.map ((cut_going sent n).mono (fun _ h => h) (fun _ _ h => ⟨h.1, h.2 ▸ hn⟩) fun _ h => h)
  refine Spec.ite (fun _ => Spec.pure fun _ h => ⟨h, fun _ => by omega⟩) fun more => ?_
  have some_left : 0 < (buf.drop sent).length := by
    rw [List.length_drop]
    omega
  refine Spec.bind (sysSendto_going fd some_left _) fun n => Spec.known fun prompt => ?_
  refine Spec.ite (fun _ => Spec.pure fun _ h => h) fun intr => Spec.ite (fun _ => ?_) fun full =>
    Spec.ite (fun neg => stop fun p => ?_) fun _ => Spec.ite (fun zero => stop fun p => ?_) fun _ =>
      Spec.pure fun _ h => h
  · refine Spec.bind (writeFull_going fd hd) fun e => Spec.known fun prompt => ?_
    refine Spec.ite (fun _ => Spec.pure fun _ h => h) fun he => stop fun p => ?_
    exact absurd (prompt p) he
  · have := prompt p
    unfold dbusSessionEagain at full
    omega
  · have := prompt p
    omega

/-! ## One receive of the exchange -/

theorem HungUp.more {w w' : World} {es : List Event} (h : HungUp w₀ w)
    (ht : w'.trace = w.trace ++ es) : HungUp w₀ w' := by
  obtain ⟨e, he, close⟩ := h
  refine ⟨e, ?_, close⟩
  rw [ht, List.drop_append]
  exact List.mem_append_left _ he

theorem HungUp.now {w w' : World} {e : Event} (h : w₀.trace <+: w.trace)
    (ht : w'.trace = w.trace ++ [e]) (he : e.isClose = true) : HungUp w₀ w' := by
  have room := h.length_le
  refine ⟨e, ?_, he⟩
  rw [ht, List.drop_append_of_le_length room]
  exact List.mem_append_right _ (List.mem_singleton_self e)

/-- What a receive brought, `n` its answer. -/
structure Came (w₀ : World) (P : Prop) (space : Nat) (n : Int) (d : Bytes) (w : World) : Prop where
  nothing : n ≤ 0 → d = []
  something : 0 < n → 0 < d.length
  fits : d.length ≤ space
  prompt : P → 0 ≤ n ∨ n = -4 ∨ n = -11
  close : n = 0 → HungUp w₀ w

theorem Came.more {space : Nat} {n : Int} {w w' : World} {es : List Event}
    (h : Came w₀ P space n d w) (ht : w'.trace = w.trace ++ es) : Came w₀ P space n d w' :=
  ⟨h.nothing, h.something, h.fits, h.prompt, fun h0 => (h.close h0).more ht⟩

theorem recvmsg_going (fd : Int) {space : Nat} (hs : 0 < space) (flags : Nat) :
    Spec (fun w => Going w₀ S P [] w ∧ dbusFrameSpace w.fr = space) (sysRecvmsg fd space flags)
      (fun r w => (Going w₀ S P r.2.1 w ∧ dbusFrameSpace w.fr = space) ∧ Came w₀ P space r.1 r.2.1
      w) (Going w₀ S P []) := by
  refine Spec.query (fun w r w' h ha => ?_) fun _ h _ => h.1
  obtain ⟨h, room⟩ := h
  cases hk : w.k.recv with
  | nil => simp [hk] at ha
  | cons a rest =>
    have later : P → w.dbs.clockFail = 0 → Prompt (saslDeadline w₀) w.k → ∀ x ∈ rest, 0 ≤ x.ret ∨
      x.ret = -4 ∨ x.ret = -11 :=
      fun _ _ hp x hx => hp.recv x (hk ▸ List.mem_cons_of_mem _ hx)
    have now : P → 0 ≤ a.ret ∨ a.ret = -4 ∨ a.ret = -11 :=
      fun p => (h.prompt p).2.recv a (hk ▸ List.mem_cons_self)
    simp only [hk] at ha
    by_cases none : a.ret ≤ 0
    · rw [if_pos none] at ha
      obtain ⟨rfl, rfl⟩ := Prod.mk.inj (Option.some.inj ha)
      refine ⟨⟨?_, room⟩, fun _ => rfl, fun pos => absurd pos (by omega), Nat.zero_le _,
        now, fun h0 => ?_⟩
      · exact h.same rfl rfl rfl rfl rfl rfl fun p hc hp =>
          ⟨hc, hp.clock, hp.poll, hp.send, later p hc hp⟩
      · exact .now h.before rfl (beq_iff_eq.mpr h0)
    · rw [if_neg none] at ha
      by_cases empty : w.k.inbox = []
      · simp [empty] at ha
      · rw [if_neg empty] at ha
        obtain ⟨rfl, rfl⟩ := Prod.mk.inj (Option.some.inj ha)
        have pos := List.length_pos_iff.mpr empty
        have len : (w.k.inbox.take (min a.ret.toNat space)).length = min (min a.ret.toNat space)
          w.k.inbox.length :=
          List.length_take
        refine ⟨⟨⟨h.reading, ?_, h.cap, ?_, h.gathered, h.timeout, fun p => ?_⟩, room⟩, ?_,
          ?_, ?_, ?_, ?_⟩
        · show S = w.fr.buf ++ (w.k.inbox.take _ ++ w.k.inbox.drop _)
          rw [List.take_append_drop]
          exact h.stream
        · obtain ⟨es, before, came⟩ := h.trace
          refine ⟨es ++ [_], by rw [emit_trace, before, List.append_assoc], ?_⟩
          rw [inbound_append, came, List.append_assoc]
          exact congrArg (w.fr.buf ++ ·) (List.append_nil (w.k.inbox.take (min a.ret.toNat space)))
        · obtain ⟨hc, hp⟩ := h.prompt p
          exact ⟨hc, hp.clock, hp.poll, hp.send, later p hc hp⟩
        all_goals dsimp only
        · intro h0
          omega
        · intro _
          omega
        · omega
        · intro _
          exact .inl (Int.natCast_nonneg _)
        · intro h0
          omega

theorem sysRecv_going (fd : Int) {space : Nat} (hs : 0 < space) (flags : Nat) :
    Spec (fun w => Going w₀ S P [] w ∧ dbusFrameSpace w.fr = space) (dbusSysRecv fd space flags)
      (fun r w => (Going w₀ S P r.2 w ∧ dbusFrameSpace w.fr = space) ∧ Came w₀ P space r.1 r.2 w)
      (Going w₀ S P []) := by
  refine Spec.bind (Q := fun _ w => Going w₀ S P [] w ∧ dbusFrameSpace w.fr = space)
    (Spec.modify fun w h => ⟨?_, h.2⟩) fun _ =>
    Spec.bind (recvmsg_going fd hs flags) fun r =>
      Spec.ite (fun _ => Spec.pure fun _ h => h) fun _ => ?_
  · exact h.1.same rfl rfl rfl rfl (List.append_nil _).symm rfl fun _ hc hp => ⟨hc, hp⟩
  · refine Spec.bind (Q := fun _ w => (Going w₀ S P r.2.1 w ∧ dbusFrameSpace w.fr = space) ∧ Came w₀
      P space r.1 r.2.1 w) (Spec.modify fun w h => ⟨⟨?_, h.1.2⟩, h.2.more rfl⟩) fun _ =>
      Spec.pure fun _ h => h
    exact h.1.1.same rfl rfl rfl rfl rfl (inbound_silent (closes_silent _)) fun _ hc hp => ⟨hc, hp⟩

/-- The lines of what came: the exchange goes on, or it has concluded. -/
theorem drain_going : Spec (fun w => ∃ v, Going w₀ S P d v ∧ v.fr.buf.length + d.length ≤ 8192 ∧
      w = { v with fr := dbusFrameCommit v.fr d }) frameDrainLines
    (fun s w => (s = .needMore → Going w₀ S P [] w) ∧ (s = .ok → Concluded w₀ S P 0 w) ∧
      (s = .rejected ∨ s = .error → Concluded w₀ S P (-13) w)) (Going w₀ S P []) := by
  refine Spec.modifyGet fun w hw => ?_
  obtain ⟨v, h, room, rfl⟩ := hw
  obtain ⟨ls, rest, lines, status, read, go⟩ := h.reading.receive d
  have buf : (dbusAuthDrainLines (dbusFrameCommit v.fr d) v.auth).2.1.buf = v.fr.buf ++ d :=
    read.buf
  rw [← buf] at lines
  -- everything that came is in the buffer, whatever the lines say
  have received : Received w₀ S { v with
      fr := (dbusAuthDrainLines (dbusFrameCommit v.fr d) v.auth).2.1
      auth := (dbusAuthDrainLines (dbusFrameCommit v.fr d) v.auth).2.2 } := by
    obtain ⟨es, before, came⟩ := h.trace
    refine ⟨?_, ?_, read.off, ?_, ?_, ⟨es, before, came.trans buf.symm⟩, ?_⟩
    · rw [read.frame]
      exact h.reading.abs0
    · rw [read.frame]
      exact h.reading.moved
    · show (dbusAuthDrainLines (dbusFrameCommit v.fr d) v.auth).2.1.buf.length ≤ 8192
      rw [buf, List.length_append]
      exact room
    · show S = (dbusAuthDrainLines (dbusFrameCommit v.fr d) v.auth).2.1.buf ++ v.k.inbox
      rw [buf, List.append_assoc]
      exact h.stream
    · show Gathered w₀.fr (dbusAuthDrainLines (dbusFrameCommit v.fr d) v.auth).2.1.buf _
      rw [buf, read.consume]
      refine (h.gathered.commit ?_).consume _
      simp only [dbusFrameSpace, dbusFrameCap]
      omega
  refine ⟨fun more =>
    ⟨go (status.symm.trans more), received.stream, received.cap, ?_, received.gathered,
    h.timeout, h.prompt⟩,
    fun ok => .agreed lines (status.symm.trans ok) read.base received, fun refused =>
      .refused lines ?_ received⟩
  · rw [List.append_nil]
    exact received.trace
  · rwa [← status]

/-- How a round of the exchange ends: it goes on, or it has concluded. -/
def Went (w₀ : World) (S : Bytes) (P : Prop) : Nat ⊕ Int → World → Prop
  | .inl _, w => Going w₀ S P [] w
  | .inr rc, w => Concluded w₀ S P rc w

theorem receive_going (fd : Int) {space : Nat} (hs : 0 < space) (flags : Nat) {deadline : Int}
    (hd : P → 0 < deadline) (reads : Nat) :
    Spec (fun w => Going w₀ S P [] w ∧ dbusFrameSpace w.fr = space)
    (dbsSaslReceive fd space flags deadline reads)
      (Went w₀ S P) (Going w₀ S P []) := by
  refine Spec.bind (sysRecv_going fd hs flags) fun r => ?_
  refine Spec.bind (Q := fun _ w => (Going w₀ S P r.2 w ∧ dbusFrameSpace w.fr = space) ∧ Came w₀ P
    space r.1 r.2 w) (Spec.gets_bind fun rx => Spec.modify fun w h =>
    ⟨⟨?_, h.1.1.2⟩, h.1.2.more rfl⟩) fun _ => ?_
  · exact h.1.1.1.same rfl rfl rfl rfl rfl (inbound_silent (closes_silent _)) fun _ hc hp =>
      ⟨hc, hp⟩
  have goes {n : Nat} (hn : r.1 ≤ 0) :
    Spec (fun w => (Going w₀ S P r.2 w ∧ dbusFrameSpace w.fr = space) ∧
      Came w₀ P space r.1 r.2 w) (pure (.inl n) : M (Nat ⊕ Int)) (Went w₀ S P)
      (Going w₀ S P []) := by
    refine Spec.pure fun w h => ?_
    have going := h.1.1
    rw [h.2.nothing hn] at going
    exact going
  have fails {rc : Int} (hn : r.1 ≤ 0) (neg : rc < 0)
    (late : (P → 0 ≤ r.1 ∨ r.1 = -4 ∨ r.1 = -11) → ¬ P) :
      Spec (fun w => (Going w₀ S P r.2 w ∧ dbusFrameSpace w.fr = space) ∧ Came w₀ P space r.1 r.2 w)
        (pure (.inr rc) : M (Nat ⊕ Int)) (Went w₀ S P) (Going w₀ S P []) := by
    refine Spec.pure fun w h => ?_
    have going := h.1.1
    rw [h.2.nothing hn] at going
    exact .failed going neg (late h.2.prompt)
  refine Spec.ite (fun intr => goes (by omega)) fun hintr => Spec.ite (fun full => ?_) fun hfull =>
    Spec.ite (fun neg => fails (by omega) neg fun prompt p => ?_) fun hneg =>
      Spec.ite (fun zero => Spec.pure fun w h => ?_) fun hzero => ?_
  · unfold dbusSessionEagain at full
    exact Spec.ite (fun _ => goes (by omega)) fun unarmed => fails (by omega) (by omega) fun _ p =>
      unarmed (hd p)
  · have := prompt p
    unfold dbusSessionEagain at hfull
    omega
  · -- the peer has closed, and there was room for more
    have going := h.1.1
    have room := h.1.2
    rw [h.2.nothing (by omega)] at going
    simp only [dbusFrameSpace, dbusFrameCap] at room
    exact .closed going (by omega) (h.2.close zero)
  · refine Spec.bind (Q := fun _ w => ∃ v, Going w₀ S P r.2 v ∧ v.fr.buf.length +
      r.2.length ≤ 8192 ∧
      w = { v with fr := dbusFrameCommit v.fr r.2 }) (Spec.modify fun w h => ⟨w, h.1.1, ?_, rfl⟩)
      fun _ => Spec.bind drain_going fun s => ?_
    · have room := h.1.2
      have fits := h.2.fits
      simp only [dbusFrameSpace, dbusFrameCap] at room
      omega
    · cases s with
      | ok => exact Spec.pure fun _ h => h.2.1 rfl
      | needMore => exact Spec.pure fun _ h => h.1 rfl
      | rejected => exact Spec.pure fun _ h => h.2.2 (.inl rfl)
      | error => exact Spec.pure fun _ h => h.2.2 (.inr rfl)

theorem round_going (fd : Int) {deadline : Int} (hd : P → deadline = saslDeadline w₀ ∧ 0 < deadline)
    (reads : Nat) :
    Spec (Going w₀ S P []) (dbsSaslRound fd deadline reads) (Went w₀ S P) (Going w₀ S P []) := by
  refine Spec.gets_bind fun space => Spec.ite (fun full => Spec.pure fun w h => ?_) fun hs => ?_
  · have room := h.2
    have cap := h.1.cap
    simp only [dbusFrameSpace, dbusFrameCap] at room
    exact .full h.1 (by omega)
  refine Spec.ite (fun _ => ?_) fun unarmed => ?_
  · refine Spec.bind (Q := fun r w => (Going w₀ S P [] w ∧ dbusFrameSpace w.fr = space) ∧
      ((P → r = .ready ∨ r = .again) ∧ ∀ e, r = .failed e → e < 0)) ?_ fun r =>
      Spec.known fun end_ => ?_
    · -- the wait leaves the buffer alone
      intro w h
      have wait := waitReadable_going fd (fun p => (hd p).1) w h.1
      obtain ⟨es, still⟩ := dbsWaitReadable_rests fd deadline w
      cases run : dbsWaitReadable fd deadline w with
      | waiting w' =>
        rw [run] at wait
        exact wait
      | done r w' =>
        rw [run] at wait still
        exact ⟨⟨wait.1, still.fr ▸ h.2⟩, wait.2⟩
    · have late {rc : Int} (neg : rc < 0) (hr : ¬ (r = .ready ∨ r = .again)) :
        Spec (fun w => Going w₀ S P [] w ∧ dbusFrameSpace w.fr = space)
          (pure (.inr rc) : M (Nat ⊕ Int)) (Went w₀ S P) (Going w₀ S P []) :=
        Spec.pure fun _ h => .failed h.1 neg fun p => hr (end_.1 p)
      cases r with
      | ready => exact receive_going fd (by omega) _ (fun p => (hd p).2) reads
      | again => exact Spec.pure fun _ h => h.1
      | timedOut => exact late (by decide) (by simp)
      | failed e => exact late (end_.2 e rfl) (by simp)
  · have late : ¬ P := fun p => unarmed (hd p).2
    exact Spec.ite (fun _ => Spec.pure fun _ h => .failed h.1 (by decide) late) fun _ =>
      receive_going fd (by omega) 0 (fun p => absurd p late) (reads + 1)

/-- **The exchange**, from a fresh framer and reader. -/
theorem sasl_going (fd : Int)
    (hp : P → (Scratch.blob ∈ w₀.scratch ∨ w₀.k.alloc.headD false = true)) :
    Spec (fun w => Going w₀ S P [] w ∧ w = w₀) (dbusSessionSasl fd) (Concluded w₀ S P)
      (Going w₀ S P []) := by
  refine Spec.bind (Q := fun ok w => (Going w₀ S P [] w ∧ w.k.clock = w₀.k.clock) ∧ (P → ok = true))
    ?_ fun ok => Spec.known fun hok => ?_
  · refine Spec.modifyGet fun w h => ?_
    obtain ⟨h, rfl⟩ := h
    by_cases there : Scratch.blob ∈ w.scratch
    · rw [if_pos there]
      exact ⟨⟨h, rfl⟩, fun _ => rfl⟩
    rw [if_neg there]
    by_cases given : w.k.alloc.headD false = true
    · rw [if_pos given]
      exact ⟨⟨h.same rfl rfl rfl rfl (List.append_nil _).symm rfl fun _ hc hp =>
        ⟨hc, hp.clock, hp.poll, hp.send, hp.recv⟩, rfl⟩, fun _ => rfl⟩
    · rw [if_neg given]
      exact ⟨⟨h.same rfl rfl rfl rfl (List.append_nil _).symm rfl fun _ hc hp =>
        ⟨hc, hp.clock, hp.poll, hp.send, hp.recv⟩, rfl⟩,
        fun p => absurd (hp p) (not_or.mpr ⟨there, given⟩)⟩
  refine Spec.ite (fun _ => ?_) fun refused => Spec.pure fun w h => .failed h.1 (by decide) fun p =>
    refused (hok p)
  refine Spec.bind (nowMs_going w₀.k.clock) fun t0 => Spec.known fun first =>
    Spec.gets_bind fun timeout => ?_
  by_cases armed : timeout = w₀.dbs.timeoutMs
  · have hd : P → (if 0 ≤ t0 then int64 (t0 + timeout) else 0) = saslDeadline w₀ ∧
      0 < if 0 ≤ t0 then int64 (t0 + timeout) else 0 := by
      intro p
      obtain ⟨h0, early, head⟩ := first p
      have deadline : (if 0 ≤ t0 then int64 (t0 + timeout) else 0) = saslDeadline w₀ := by
        rw [if_pos h0, armed, head]
        rfl
      rw [deadline]
      omega
    refine Spec.bind ((write_going fd dbusAuthBlob hd).mono (fun _ h => h.1) (fun _ _ h => h)
      fun _ h => h) fun n => Spec.known fun prompt => ?_
    refine Spec.ite (fun neg => Spec.pure fun w h => .failed h neg fun p =>
      absurd (prompt p) (by omega)) fun _ => ?_
    exact Spec.loop (I := fun _ => Going w₀ S P []) (dbsSasl_lowers fd _) (fun reads =>
      (round_going fd hd reads).mono (fun _ h => h) (fun r _ h => by cases r <;> exact h) fun _ h =>
        h) 0
  · exact fun w h => absurd (h.2.symm.trans h.1.timeout) armed

end

/-! ## What the stream decides -/

/-- Where the exchange starts: the framer and the reader reset, the stream to come. -/
theorem start_going {w : World} {P : Prop} (hfr : w.fr = (dbusFrameInit w.fr).1)
    (hauth : w.auth = {}) (hp : P → w.dbs.clockFail = 0 ∧ Prompt (saslDeadline w) w.k) :
    Going w w.k.inbox P [] w := by
  have empty : w.fr.buf = [] := congrArg Frame.buf hfr
  have reading : Reading w.fr w.auth := by
    rw [hfr, hauth]
    exact init_reading _
  refine ⟨reading, ?_, ?_, ⟨[], (List.append_nil _).symm, ?_⟩, ?_, rfl, hp⟩
  · rw [empty]
    rfl
  · rw [empty]
    exact Nat.zero_le _
  · rw [empty]
    rfl
  · rw [empty]
    exact .start

/-- Wherever the exchange is observed, all that came is in the buffer. -/
theorem sasl_received (fd : Int) {w : World} (hfr : w.fr = (dbusFrameInit w.fr).1)
    (hauth : w.auth = {}) : Received w w.k.inbox (dbusSessionSasl fd w).state := by
  have start := start_going (P := False) hfr hauth False.elim
  have run := sasl_going fd False.elim w ⟨start, rfl⟩
  cases out : dbusSessionSasl fd w with
  | waiting w' =>
    rw [out] at run
    exact run.received
  | done rc w' =>
    rw [out] at run
    cases run with
    | agreed _ _ _ all => exact all
    | refused _ _ all => exact all
    | full h _ => exact h.received
    | closed h _ _ => exact h.received
    | failed h _ _ => exact h.received

/-- What is received decides whether the exchange succeeds. -/
theorem sasl_status (fd : Int) {w : World} (hfr : w.fr = (dbusFrameInit w.fr).1)
    (hauth : w.auth = {}) {R rest : Bytes}
    {ls : List Bytes} (hR : w.k.inbox = R ++ (dbusSessionSasl fd w).state.k.inbox)
    (lines : LinesOf R ls rest) : (dbusSessionSasl fd w).value = some 0 ↔
    (readLines ls {}).1 = .ok := by
  have start := start_going (P := False) hfr hauth False.elim
  have run := sasl_going fd False.elim w ⟨start, rfl⟩
  have going {w' : World} (h : Going w w.k.inbox False [] w') (hin : w.k.inbox = R ++ w'.k.inbox) :
    (readLines ls {}).1 = .needMore := by
    obtain ⟨ls', split, more, -⟩ := h.reading.lines
    have same : w'.fr.buf = R := List.append_cancel_right (h.stream.symm.trans hin)
    rw [same] at split
    obtain ⟨rfl, -⟩ := split.unique cr_ne_lf lines
    exact more
  have ended {w' : World} {ls' : List Bytes} {rest' : Bytes} (h : LinesOf w'.fr.buf ls' rest')
    (hs : w.k.inbox = w'.fr.buf ++ w'.k.inbox)
      (hin : w.k.inbox = R ++ w'.k.inbox) : ls' = ls := by
    rw [List.append_cancel_right (hs.symm.trans hin)] at h
    exact (h.unique cr_ne_lf lines).1
  -- an errno is no success, and the reader has met no agreement
  have fails {rc : Int} (neg : rc < 0) (h : (readLines ls {}).1 ≠ .ok) : some rc = some 0 ↔
    (readLines ls {}).1 = .ok := by
    constructor
    · intro h0
      have := Option.some.inj h0
      omega
    · intro ok
      exact absurd ok h
  have unmet {w' : World} (h : Going w w.k.inbox False [] w') (hin : w.k.inbox = R ++ w'.k.inbox) :
    (readLines ls {}).1 ≠ .ok := by
    rw [going h hin]
    exact fun h => nomatch h
  cases out : dbusSessionSasl fd w with
  | waiting w' =>
    rw [out] at run hR
    exact ⟨fun h => (nomatch h), fun ok => absurd ok (unmet run hR)⟩
  | done rc w' =>
    rw [out] at run hR
    show some rc = some 0 ↔ _
    cases run with
    | agreed h status _ all =>
      rw [ended h all.stream hR] at status
      exact ⟨fun _ => status, fun _ => rfl⟩
    | refused h status all =>
      rw [ended h all.stream hR] at status
      refine fails (by decide) fun ok => ?_
      simp [ok] at status
    | full h _ => exact fails (by decide) (unmet h hR)
    | closed h _ _ => exact fails (by decide) (unmet h hR)
    | failed h neg _ => exact fails neg (unmet h hR)

/-- **When success means authenticated**: exactly when the first line that begins
AGREE_UNIX_FD, if the exchange gets to it, is that and nothing more. Whatever the
stream and its delivery, and so of the exchange on a socket, whatever the kernel does. -/
theorem sasl_success_iff (ls : List Bytes) (rest : Bytes) :
    (∀ (f : Frame) (ds : List Bytes), LinesOf ds.flatten ls rest →
      (((feed ds (dbusFrameInit f).1 {}).1 = .ok → Authenticated ls) ↔ ¬ Padded ls)) ∧
    (∀ (fd : Int) (w : World) (R : Bytes), w.fr = (dbusFrameInit w.fr).1 → w.auth = {} →
      w.k.inbox = R ++ (dbusSessionSasl fd w).state.k.inbox → LinesOf R ls rest →
      (((dbusSessionSasl fd w).value = some 0 → Authenticated ls) ↔ ¬ Padded ls)) := by
  constructor
  · intro f ds lines
    rw [feed_lines (init_reading f) lines]
    exact authenticated_iff ls
  · intro fd w R hfr hauth hR lines
    rw [sasl_status fd hfr hauth hR lines]
    exact authenticated_iff ls

/-- A good OK line, and the agreement with one byte more. -/
def paddedReply : Bytes := lit "OK 0123456789abcdef0123456789abcdef\r\nAGREE_UNIX_FDx\r\n"

theorem paddedReply_lines :
    LinesOf paddedReply [lit "OK 0123456789abcdef0123456789abcdef", lit "AGREE_UNIX_FDx"] [] where
  text := by decide
  line := by
    intro l hl
    simp only [List.mem_cons, List.not_mem_nil, or_false] at hl
    obtain rfl | rfl := hl
    · exact firstBreak_none.mp (by decide)
    · exact firstBreak_none.mp (by decide)
  rest := unended_nil

/-- It is success, and no line of it is AGREE_UNIX_FD. -/
theorem padded_agreement_accepted :
    (feed [paddedReply] (dbusFrameInit {}).1 {}).1 = .ok ∧ ¬ ∃ ls rest, LinesOf paddedReply ls
    rest ∧ Authenticated ls := by
  refine ⟨by decide +kernel, ?_⟩
  rintro ⟨ls, rest, lines, pre, ok, mid, post, agreed⟩
  obtain ⟨rfl, -⟩ := lines.unique cr_ne_lf paddedReply_lines
  have first := agreed.first
  revert first
  decide

theorem sasl_success_iff_padded :
    ((feed [paddedReply] (dbusFrameInit {}).1 {}).1 = .ok →
      Authenticated [lit "OK 0123456789abcdef0123456789abcdef", lit "AGREE_UNIX_FDx"]) ↔
    ¬ Padded [lit "OK 0123456789abcdef0123456789abcdef", lit "AGREE_UNIX_FDx"] :=
  (sasl_success_iff _ []).1 {} [paddedReply] paddedReply_lines

/-- The result of an exchange on `S`, of whose first 8192 bytes the reader says this. -/
def saslResult (S : Bytes) : AuthStatus → Int
  | .ok => 0
  | .needMore => if 8192 ≤ S.length then -71 else -104
  | .rejected => -13
  | .error => -13

/-- A prompt delivery of the stream `S`, from the framer and the reader reset: the
clock is short of the deadline, no call fails but with EINTR or EAGAIN, and the peer
closes, if it does, after the last byte. -/
structure Delivers (S : Bytes) (fd : Int) (w : World) (rc : Int) (w' : World) : Prop where
  framer : w.fr = (dbusFrameInit w.fr).1
  reader : w.auth = {}
  stream : w.k.inbox = S
  blob : Scratch.blob ∈ w.scratch ∨ w.k.alloc.headD false = true
  clock : w.dbs.clockFail = 0
  prompt : Prompt (saslDeadline w) w.k
  run : dbusSessionSasl fd w = .done rc w'
  close : HungUp w w' → w'.k.inbox = []

theorem Delivers.concluded {S : Bytes} {fd rc : Int} {w w' : World} (h : Delivers S fd w rc w') :
    Concluded w S True rc w' := by
  have start := start_going (P := True) h.framer h.reader fun _ => ⟨h.clock, h.prompt⟩
  have run := sasl_going fd (fun _ => h.blob) w ⟨start, rfl⟩
  rw [h.run, h.stream] at run
  exact run

/-- The result is the stream's. -/
theorem Delivers.result {S : Bytes} {fd rc : Int} {w w' : World} (h : Delivers S fd w rc w')
    {ls : List Bytes} {rest : Bytes} (lines : LinesOf (S.take 8192) ls rest) :
    rc = saslResult S (readLines ls {}).1 := by
  -- what came is the start of the stream, and its lines are the first
  have extends_ {ls' : List Bytes} {rest' : Bytes} (hl : LinesOf w'.fr.buf ls' rest')
    (hs : S = w'.fr.buf ++ w'.k.inbox)
      (cap : w'.fr.buf.length ≤ 8192) : ∃ more, ls = ls' ++ more := by
    obtain ⟨more, rest'', new⟩ :=
      Split.exist (13 : UInt8) 10 (rest' ++ w'.k.inbox.take (8192 - w'.fr.buf.length))
    have all := hl.append new
    rw [hs, List.take_append, List.take_of_length_le cap] at lines
    exact ⟨more, (lines.unique cr_ne_lf all).1⟩
  have going (hg : Going w S True [] w') (all : S.take 8192 = w'.fr.buf) :
    (readLines ls {}).1 = .needMore := by
    obtain ⟨ls', split, more, -⟩ := hg.reading.lines
    rw [all] at lines
    obtain ⟨rfl, -⟩ := split.unique cr_ne_lf lines
    exact more
  cases h.concluded with
  | agreed hl status base all =>
    obtain ⟨more, rfl⟩ := extends_ hl all.stream all.cap
    rw [(readLines_ended (by simp [status]) more).1, status]
    rfl
  | refused hl status all =>
    obtain ⟨more, rfl⟩ := extends_ hl all.stream all.cap
    obtain status | status := status
    · rw [(readLines_ended (by simp [status]) more).1, status]
      rfl
    · rw [(readLines_ended (by simp [status]) more).1, status]
      rfl
  | full hg full =>
    have stream := hg.stream
    rw [going hg
      (by rw [stream, List.take_append_of_le_length (by omega), List.take_of_length_le (by omega)]),
      saslResult, if_pos (by
      rw [stream, List.length_append]
      omega)]
  | closed hg room close =>
    have stream : S = w'.fr.buf := by
      rw [hg.stream, h.close close]
      simp
    rw [going hg (by rw [stream, List.take_of_length_le (by omega)]), saslResult,
      if_neg (by rw [stream]; omega)]
  | failed _ _ late => exact absurd trivial late

/-- On success what is left is the stream after the line that agreed. -/
theorem Delivers.left {S : Bytes} {fd : Int} {w w' : World} (h : Delivers S fd w 0 w')
    {ls : List Bytes} {rest : Bytes} (lines : LinesOf S ls rest) : ∃ pre ok mid last post,
    Agreed ls pre ok mid last post ∧
      dbusFrameBase w'.fr ++ w'.k.inbox = unlines post ++ rest := by
  cases h.concluded with
  | @agreed _ ls' rest' hl status base received =>
    obtain ⟨more, rest'', new⟩ := Split.exist (13 : UInt8) 10 (rest' ++ w'.k.inbox)
    have all := hl.append new
    rw [received.stream] at lines
    obtain ⟨rfl, rfl⟩ := lines.unique cr_ne_lf all
    obtain ⟨pre, ok, mid, last, post, agreed⟩ := agreed_iff.mp status
    refine ⟨pre, ok, mid, last, post ++ more,
      ⟨?_, agreed.authenticated, agreed.passes, agreed.agrees⟩, ?_⟩
    · rw [agreed.lines]
      simp
    · rw [base, agreed.read.2, List.append_assoc, new.text, unlines, unlines, List.flatMap_append,
        List.append_assoc]
  | failed _ neg _ => omega

end Samvada
