import Mathlib.Data.List.Basic

/- Streams cut into messages by a length each message's header declares. A
   message longer than `cap` is passed over whole; a header that cannot be read
   ends the stream. `parse` is the whole stream at once. A reader that sees the
   stream a piece at a time is a cursor: the stream position of its head, how
   much of an over-cap message it has still to pass, and the symbols it holds.
   `ahead` is what such a reader has yet to yield, whatever comes later, and
   the lemmas of the last section say how its moves change it: passing part of
   an over-cap message leaves `ahead` alone, consuming a message takes off its
   first. -/
namespace Framing

variable {α ε : Type}

/-- How a stream is cut: the header's length, the length a header declares (or
why it cannot be read), and the longest message to yield. -/
structure Format (α ε : Type) where
  hdr : Nat
  total : List α → Except ε Nat
  cap : Nat
  hdr_pos : 0 < hdr
  hdr_le_cap : hdr ≤ cap
  total_take : ∀ p, total (p.take hdr) = total p
  hdr_le_total : ∀ p n, total p = .ok n → hdr ≤ n

/-- Where a stream stops being messages: at a boundary, inside a message, or
at a header that cannot be read. -/
inductive Stop (ε : Type) where
  | boundary
  | inside
  | bad (e : ε)
  deriving DecidableEq, Repr

/-- The messages of a stream with their positions, and where it stops. -/
structure Parsed (α ε : Type) where
  msgs : List (Nat × List α)
  stop : Stop ε

/-- A message in front. -/
def Parsed.cons (pos : Nat) (m : List α) (r : Parsed α ε) : Parsed α ε :=
  { r with msgs := (pos, m) :: r.msgs }

variable (F : Format α ε)

def parseN : Nat → Nat → List α → Parsed α ε
  | 0, _, _ => ⟨[], .boundary⟩
  | n + 1, pos, S =>
    if S.isEmpty then ⟨[], .boundary⟩
    else if S.length < F.hdr then ⟨[], .inside⟩
    else match F.total S with
      | .error e => ⟨[], .bad e⟩
      | .ok t =>
        if S.length < t then ⟨[], .inside⟩
        else if t ≤ F.cap then (parseN n (pos + t) (S.drop t)).cons pos (S.take t)
        else parseN n (pos + t) (S.drop t)

/-- The stream `S`, whose first symbol has position `pos`. -/
def parse (pos : Nat) (S : List α) : Parsed α ε := parseN F (S.length + 1) pos S

/-- What is left after `k` more symbols of an over-cap message. -/
def parseFrom (pos k : Nat) (S : List α) : Parsed α ε :=
  if S.length < k then ⟨[], .inside⟩ else parse F (pos + k) (S.drop k)

variable {F}

theorem parseN_enough : ∀ (n m pos : Nat) (S : List α), S.length < n → S.length < m →
    parseN F n pos S = parseN F m pos S
  | 0, _, _, _, hn, _ => absurd hn (Nat.not_lt_zero _)
  | _ + 1, 0, _, _, _, hm => absurd hm (Nat.not_lt_zero _)
  | n + 1, m + 1, pos, S, hn, hm => by
    simp only [parseN]
    split
    · rfl
    · split
      · rfl
      · split
        · rfl
        · next t ht =>
          have hp := F.hdr_pos
          have hle := F.hdr_le_total S t ht
          split
          · rfl
          · have hd : (S.drop t).length < n ∧ (S.drop t).length < m := by
              simp only [List.length_drop]
              omega
            rw [parseN_enough n m (pos + t) (S.drop t) hd.1 hd.2]

theorem parse_nil (pos : Nat) : parse F pos [] = ⟨[], .boundary⟩ := rfl

theorem parse_short {pos : Nat} {S : List α} (h0 : S ≠ []) (h : S.length < F.hdr) :
    parse F pos S = ⟨[], .inside⟩ := by
  unfold parse
  simp [parseN, h0, h]

theorem parse_bad {pos : Nat} {S : List α} {e : ε} (h : F.hdr ≤ S.length)
    (ht : F.total S = .error e) : parse F pos S = ⟨[], .bad e⟩ := by
  have hp := F.hdr_pos
  have h0 : S ≠ [] := by
    rintro rfl
    simp only [List.length_nil] at h
    omega
  have hh : ¬ S.length < F.hdr := by omega
  unfold parse
  simp [parseN, h0, hh, ht]

theorem parse_part {pos t : Nat} {S : List α} (h : F.hdr ≤ S.length) (ht : F.total S = .ok t)
    (hl : S.length < t) : parse F pos S = ⟨[], .inside⟩ := by
  have hp := F.hdr_pos
  have h0 : S ≠ [] := by
    rintro rfl
    simp only [List.length_nil] at h
    omega
  have hh : ¬ S.length < F.hdr := by omega
  unfold parse
  simp [parseN, h0, hh, ht, hl]

/-- A stream that holds a whole message: the message if it is in cap, and the rest. -/
theorem parse_whole {pos t : Nat} {S : List α} (ht : F.total S = .ok t) (hl : t ≤ S.length) :
    parse F pos S = if t ≤ F.cap then (parse F (pos + t) (S.drop t)).cons pos (S.take t)
      else parse F (pos + t) (S.drop t) := by
  have hp := F.hdr_pos
  have hle := F.hdr_le_total S t ht
  have h0 : S ≠ [] := by
    rintro rfl
    simp only [List.length_nil] at hl
    omega
  have hh : ¬ S.length < F.hdr := by omega
  have hn : ¬ S.length < t := by omega
  have e : parseN F S.length (pos + t) (S.drop t) = parse F (pos + t) (S.drop t) :=
    parseN_enough _ _ _ _ (by simp only [List.length_drop]; omega) (by omega)
  unfold parse at e ⊢
  simp only [parseN, List.isEmpty_iff, h0, hh, ht, hn, if_false, e]

/-- A message yielded is a piece of the stream, as long as its own header declares
and no longer than the cap. -/
theorem parse_piece (n : Nat) : ∀ (pos : Nat) (S : List α), S.length ≤ n →
    ∀ m ∈ (parse F pos S).msgs, m.1 + m.2.length ≤ pos + S.length ∧
      F.total m.2 = .ok m.2.length ∧ m.2.length ≤ F.cap := by
  induction n with
  | zero =>
    intro pos S hS m hm
    rw [List.eq_nil_of_length_eq_zero (Nat.le_zero.mp hS), parse_nil] at hm
    cases hm
  | succ n ih =>
    intro pos S hS m hm
    by_cases h0 : S = []
    · rw [h0, parse_nil] at hm
      cases hm
    by_cases hh : S.length < F.hdr
    · rw [parse_short h0 hh] at hm
      cases hm
    cases ht : F.total S with
    | error e =>
      rw [parse_bad (by omega) ht] at hm
      cases hm
    | ok t =>
      by_cases hl : S.length < t
      · rw [parse_part (by omega) ht hl] at hm
        cases hm
      have hp := F.hdr_pos
      have hle := F.hdr_le_total S t ht
      have hd : (S.drop t).length = S.length - t := List.length_drop
      have later (hm : m ∈ (parse F (pos + t) (S.drop t)).msgs) :
          m.1 + m.2.length ≤ pos + S.length ∧
            F.total m.2 = .ok m.2.length ∧ m.2.length ≤ F.cap := by
        obtain ⟨inside, declared⟩ := ih (pos + t) (S.drop t) (by omega) m hm
        exact ⟨by omega, declared⟩
      rw [parse_whole ht (by omega)] at hm
      split at hm
      · rename_i fits
        rcases List.mem_cons.mp hm with rfl | hm
        · have htake : (S.take t).length = t := List.length_take_of_le (by omega)
          refine ⟨?_, ?_, ?_⟩
          · show pos + (S.take t).length ≤ _
            omega
          · show F.total (S.take t) = .ok (S.take t).length
            rw [htake, ← F.total_take, List.take_take, Nat.min_eq_left hle, F.total_take, ht]
          · show (S.take t).length ≤ _
            omega
        · exact later hm
      · exact later hm

/-! ## A wider cap -/

/-- The same cut, with the messages of up to `c` symbols yielded. -/
def Format.upTo (F : Format α ε) {c : Nat} (h : F.cap ≤ c) : Format α ε :=
  { F with cap := c, hdr_le_cap := Nat.le_trans F.hdr_le_cap h }

/-- What the narrow cap yields is what the wide one does, less the messages too long for it. -/
theorem parse_upTo {c : Nat} (h : F.cap ≤ c) (n : Nat) : ∀ (pos : Nat) (S : List α), S.length ≤ n →
    (parse F pos S).msgs = (parse (F.upTo h) pos S).msgs.filter (·.2.length ≤ F.cap) ∧
    (parse F pos S).stop = (parse (F.upTo h) pos S).stop := by
  induction n with
  | zero =>
    intro pos S hS
    rw [List.eq_nil_of_length_eq_zero (Nat.le_zero.mp hS)]
    exact ⟨rfl, rfl⟩
  | succ n ih =>
    intro pos S hS
    by_cases h0 : S = []
    · rw [h0]
      exact ⟨rfl, rfl⟩
    by_cases hh : S.length < F.hdr
    · rw [parse_short h0 hh, parse_short (F := F.upTo h) h0 hh]
      exact ⟨rfl, rfl⟩
    have hh := Nat.le_of_not_lt hh
    cases ht : F.total S with
    | error e =>
      rw [parse_bad hh ht, parse_bad (F := F.upTo h) hh ht]
      exact ⟨rfl, rfl⟩
    | ok t =>
      by_cases hl : S.length < t
      · rw [parse_part hh ht hl, parse_part (F := F.upTo h) hh ht hl]
        exact ⟨rfl, rfl⟩
      have hl := Nat.le_of_not_lt hl
      have hp := F.hdr_pos
      have hle := F.hdr_le_total S t ht
      have htake : (S.take t).length = t := List.length_take_of_le hl
      obtain ⟨msgs, stop⟩ := ih (pos + t) (S.drop t) (by rw [List.length_drop]; omega)
      rw [parse_whole ht hl, parse_whole (F := F.upTo h) ht hl]
      by_cases narrow : t ≤ F.cap
      · have wide : t ≤ (F.upTo h).cap := Nat.le_trans narrow h
        rw [if_pos narrow, if_pos wide]
        refine ⟨?_, stop⟩
        show (pos, S.take t) :: (parse F (pos + t) (S.drop t)).msgs = List.filter _
          ((pos, S.take t) :: _)
        rw [List.filter_cons_of_pos (by simpa only [htake, decide_eq_true_eq] using narrow), msgs]
      · rw [if_neg narrow]
        by_cases wide : t ≤ (F.upTo h).cap
        · rw [if_pos wide]
          refine ⟨?_, stop⟩
          show _ = List.filter _ ((pos, S.take t) :: (parse (F.upTo h) (pos + t) (S.drop t)).msgs)
          rw [List.filter_cons_of_neg (by simpa only [htake, decide_eq_true_eq] using narrow), msgs]
        · rw [if_neg wide]
          exact ⟨msgs, stop⟩

/-! ## A reader's moves -/

/-- A reader: the position of its head, what it has still to pass, what it holds. -/
structure Cursor (α : Type) where
  pos : Nat
  skip : Nat
  held : List α

/-- What a reader has yet to yield if `T` follows what it holds. -/
def Cursor.ahead (F : Format α ε) (c : Cursor α) (T : List α) : Parsed α ε :=
  parseFrom F c.pos c.skip (c.held ++ T)

theorem parseFrom_zero (pos : Nat) (S : List α) : parseFrom F pos 0 S = parse F pos S := by
  simp [parseFrom]

/-- Receiving moves symbols from what follows into what is held. -/
theorem Cursor.ahead_receive (c : Cursor α) (d T : List α) :
    Cursor.ahead F { c with held := c.held ++ d } T = c.ahead F (d ++ T) := by
  simp [Cursor.ahead]

/-- Passing symbols of an over-cap message leaves what is ahead alone. -/
theorem Cursor.ahead_pass (c : Cursor α) {d : Nat} (hd : d ≤ c.skip)
    (hl : d ≤ c.held.length) (T : List α) : Cursor.ahead F ⟨c.pos + d, c.skip - d, c.held.drop d⟩
    T = c.ahead F T := by
  have hdrop : c.held.drop d ++ T = (c.held ++ T).drop d := (List.drop_append_of_le_length hl).symm
  unfold Cursor.ahead parseFrom
  simp only [hdrop, List.length_drop, List.drop_drop, List.length_append]
  have hsum : d + (c.skip - d) = c.skip := by omega
  have hpos : c.pos + d + (c.skip - d) = c.pos + c.skip := by omega
  rw [hsum, hpos]
  by_cases h : c.held.length + T.length < c.skip
  · rw [if_pos h, if_pos (by omega)]
  · rw [if_neg h, if_neg (by omega)]

theorem total_append {p : List α} (h : F.hdr ≤ p.length) (T : List α) :
    F.total (p ++ T) = F.total p := by
  rw [← F.total_take, List.take_append_of_le_length h, F.total_take]

/-- Starting to pass an over-cap message leaves what is ahead alone. -/
theorem Cursor.ahead_start (pos : Nat) {t : Nat} {held : List α} (h : F.hdr ≤ held.length)
    (ht : F.total held = .ok t) (hc : F.cap < t) (T : List α) :
    Cursor.ahead F ⟨pos, t, held⟩ T = Cursor.ahead F ⟨pos, 0, held⟩ T := by
  have htt := (total_append h T).trans ht
  unfold Cursor.ahead
  rw [parseFrom_zero]
  unfold parseFrom
  by_cases hl : (held ++ T).length < t
  · rw [if_pos hl, parse_part (by simp only [List.length_append]; omega) htt hl]
  · rw [if_neg hl, parse_whole htt (by omega), if_neg (by omega)]

/-- Consuming the head message takes off the first of what is ahead. -/
theorem Cursor.ahead_consume (pos : Nat) {t : Nat} {held : List α} (ht : F.total held = .ok t)
    (hc : t ≤ F.cap) (hl : t ≤ held.length) (T : List α) :
    Cursor.ahead F ⟨pos, 0, held⟩ T =
      (Cursor.ahead F ⟨pos + t, 0, held.drop t⟩ T).cons pos (held.take t) := by
  have hle := F.hdr_le_total held t ht
  have htt := (total_append (by omega) T).trans ht
  unfold Cursor.ahead
  rw [parseFrom_zero, parseFrom_zero, parse_whole htt (by simp only [List.length_append]; omega),
    if_pos hc, List.drop_append_of_le_length hl, List.take_append_of_le_length hl]

/-- At a header that cannot be read nothing is ahead. -/
theorem Cursor.ahead_bad {pos : Nat} {held : List α} {e : ε} (h : F.hdr ≤ held.length)
    (ht : F.total held = .error e) (T : List α) : Cursor.ahead F ⟨pos, 0, held⟩
    T = ⟨[], .bad e⟩ := by
  unfold Cursor.ahead
  rw [parseFrom_zero]
  exact parse_bad (by simp only [List.length_append]; omega) ((total_append h T).trans ht)

/-- A reader has come to a stop when what it holds yields nothing more: it is
passing an over-cap message, or its head is not whole. -/
def Cursor.Waits (F : Format α ε) (c : Cursor α) : Prop :=
  (0 < c.skip ∧ c.held = []) ∨ (c.skip = 0 ∧ c.held.length < F.hdr) ∨
    (c.skip = 0 ∧ F.hdr ≤ c.held.length ∧ ∃ t, F.total c.held = .ok t ∧ c.held.length < t)

/-- If the stream ends where a reader waits, it ends at a boundary exactly when
the reader holds nothing and passes nothing. -/
theorem Cursor.Waits.ahead_nil {c : Cursor α} (h : c.Waits F) :
    c.ahead F [] = ⟨[], if c.skip = 0 ∧ c.held = [] then .boundary else .inside⟩ := by
  unfold Cursor.ahead
  rw [List.append_nil]
  rcases h with ⟨hs, hh⟩ | ⟨hs, hh⟩ | ⟨hs, hh, t, ht, hl⟩
  · have : c.skip ≠ 0 := by omega
    simp [parseFrom, hh, hs, this]
  · rw [hs, parseFrom_zero]
    by_cases h0 : c.held = []
    · rw [h0, parse_nil]; simp
    · rw [parse_short h0 hh]; simp [h0]
  · have hp := F.hdr_pos
    have h0 : c.held ≠ [] := by
      intro h0
      rw [h0] at hh
      simp only [List.length_nil] at hh
      omega
    rw [hs, parseFrom_zero, parse_part hh ht hl]
    simp [h0]

/-- What a reader yields from what it holds lies inside it. -/
theorem Cursor.ahead_inside (c : Cursor α) {m : Nat × List α} (hm : m ∈ (c.ahead F []).msgs) :
    m.1 + m.2.length ≤ c.pos + c.held.length := by
  unfold Cursor.ahead parseFrom at hm
  rw [List.append_nil] at hm
  split at hm
  · cases hm
  · have hd : (c.held.drop c.skip).length = c.held.length - c.skip := List.length_drop
    have := (parse_piece _ _ _ (Nat.le_refl _) m hm).1
    omega

/-- What a reader yields is as long as its own header declares. -/
theorem Cursor.ahead_declared (c : Cursor α) {T : List α} {m : Nat × List α}
    (hm : m ∈ (c.ahead F T).msgs) : F.total m.2 = .ok m.2.length ∧ m.2.length ≤ F.cap := by
  unfold Cursor.ahead parseFrom at hm
  split at hm
  · cases hm
  · exact (parse_piece _ _ _ (Nat.le_refl _) m hm).2

end Framing
