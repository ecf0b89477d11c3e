import Samvada.Kernel
import Samvada.Lib.Probe

/- The descriptors of a control buffer. `dbus_sys_parse_rights` is written out once
   more with its loops and its reads recorded; it computes what the receive's model
   of it does, reads nothing past the length reported, and what it walks is the
   maximal chain of headers that fit. -/
namespace Samvada
open Octets

/-- An int32 as a word holds it. -/
def sign32 (v : Nat) : Int := if 2147483648 ≤ v then (v : Int) - 4294967296 else v

namespace Recorded
open Probe

/-- What has been collected, and what closed. -/
abbrev Rx := List Int × List Int

def read64 (p : Bytes) (i : Nat) : Probe Nat := do
  let lo ← read32 p i
  let hi ← read32 p (i + 4)
  pure (lo + 4294967296 * hi)

/-- The values of one payload that ends at `fin`, from `off` on; `n` bounds them. -/
def rxValues (p : Bytes) (rights : Bool) (fin : Nat) : Nat → Nat → Rx → Probe Rx
  | 0, _, s => pure s
  | n + 1, off, s =>
    if fin < off + 4 then pure s
    else do
      let v ← read32 p off
      rxValues p rights fin n (off + 4) (if 0 ≤ sign32 v then dbusRxAdd s (rights, sign32 v) else s)

/-- The payload of the header at `at_`, of `clen` bytes with it. -/
def rxPayload (p : Bytes) (at_ clen level ctype : Nat) (s : Rx) : Probe Rx :=
  if level = dbusSysSolSocket ∧ ctype = dbusSysScmRights then
    rxValues p true (at_ + clen) clen (at_ + 16) s
  else if level = dbusSysSolSocket ∧ ctype = dbusSysScmPidfd then
    rxValues p false (at_ + clen) clen (at_ + 16) s
  else pure s

/-- The walk over the headers, from `at_` on; `n` bounds them. -/
def rxWalk (p : Bytes) (ctrllen : Nat) : Nat → Nat → Rx → Probe Rx
  | 0, _, s => pure s
  | n + 1, at_, s =>
    if ctrllen < at_ + dbusSysCmsghdrSize then pure s
    else do
      let clen ← read64 p at_
      if clen < dbusSysCmsghdrSize ∨ ctrllen - at_ < clen then pure s
      else do
        let level ← read32 p (at_ + 8)
        let ctype ← read32 p (at_ + 12)
        let s ← rxPayload p at_ clen level ctype s
        rxWalk p ctrllen n (at_ + align clen 8) s

/-- The count, the receive array and what was closed. -/
def dbusSysParseRights (p : Bytes) (ctrllen : Nat) : Probe (Nat × Rx) := do
  let s ← rxWalk p ctrllen (ctrllen + 1) 0 ([], [])
  pure (s.1.length, s)

/-! ## Its reads are bounded -/

theorem read64_within {p : Bytes} {b i : Nat} (h : i + 8 ≤ b) : Within b (read64 p i) :=
  .bind (.read32 (by omega)) (.bind (.read32 (by omega)) (.pure _))

theorem rxValues_within {p : Bytes} {b fin : Nat} (rights : Bool) (h : fin ≤ b) :
    ∀ n off s, Within b (rxValues p rights fin n off s)
  | 0, _, _ => .pure _
  | n + 1, off, s =>
    .ite (fun _ => .pure _) fun room => .bind (.read32 (by omega)) (rxValues_within rights h n _ _)

theorem rxPayload_within {p : Bytes} {b at_ clen level ctype : Nat} {s : Rx} (h : at_ + clen ≤ b) :
    Within b (rxPayload p at_ clen level ctype s) :=
  .ite (fun _ => rxValues_within true h _ _ _) fun _ =>
    .ite (fun _ => rxValues_within false h _ _ _) fun _ => .pure _

theorem rxWalk_within (p : Bytes) (ctrllen : Nat) :
    ∀ n at_ s, Within ctrllen (rxWalk p ctrllen n at_ s)
  | 0, _, _ => .pure _
  | n + 1, at_, s => by
    refine .ite (fun _ => .pure _) fun room => ?_
    simp only [dbusSysCmsghdrSize] at room
    refine .bind (read64_within (by omega)) (.ite (fun _ => .pure _) fun fits => ?_)
    simp only [dbusSysCmsghdrSize, not_or] at fits
    refine .bind (.read32 (by omega))
      (.bind (.read32 (by omega)) (.bind ?_ (rxWalk_within p ctrllen n _ _)))
    exact rxPayload_within (by omega)

/-! ## What it computes -/

/-- The `n` words at `off`. -/
def wordsAt (p : Bytes) (off n : Nat) : List Nat :=
  (List.range n).map fun i => load32 p (off + 4 * i)

theorem wordsAt_succ (p : Bytes) (off n : Nat) : wordsAt p off (n + 1) = load32 p off :: wordsAt p
    (off + 4) n := by
  simp only [wordsAt, List.range_succ_eq_map, List.map_cons, List.map_map,
    Nat.mul_zero, Nat.add_zero]
  congr 1
  apply List.map_congr_left
  intro i _
  simp only [Function.comp_apply]
  congr 1
  omega

/-- The non-negative values among words. -/
def fdsOf (ws : List Nat) : List Int := (ws.map sign32).filter (0 ≤ ·)

theorem fdsOf_cons (w : Nat) (ws : List Nat) : fdsOf (w :: ws) = if 0 ≤ sign32 w then
    sign32 w :: fdsOf ws else fdsOf ws := by
  by_cases h : 0 ≤ sign32 w
  · rw [if_pos h, fdsOf, List.map_cons, List.filter_cons_of_pos (by simpa using h)]
    rfl
  · rw [if_neg h, fdsOf, List.map_cons, List.filter_cons_of_neg (by simpa using h)]
    rfl

theorem rxValues_val (p : Bytes) (rights : Bool) (fin : Nat) : ∀ n off s, (fin - off) / 4 ≤ n →
    (rxValues p rights fin n off s).val = ((fdsOf (wordsAt p off ((fin - off) / 4))).map
    (rights, ·)).foldl dbusRxAdd s
  | 0, off, s, h => by
    have none : (fin - off) / 4 = 0 := by omega
    rw [none]
    rfl
  | n + 1, off, s, h => by
    rw [rxValues, ite_val]
    by_cases short : fin < off + 4
    · have none : (fin - off) / 4 = 0 := by omega
      rw [if_pos short, none]
      rfl
    · have more : (fin - off) / 4 = (fin - (off + 4)) / 4 + 1 := by omega
      rw [if_neg short, bind_val, read32_val, rxValues_val p rights fin n _ _ (by omega), more,
        wordsAt_succ, fdsOf_cons]
      by_cases h0 : 0 ≤ sign32 (load32 p off)
      · rw [if_pos h0, if_pos h0]
        rfl
      · rw [if_neg h0, if_neg h0]

/-- The model of the receive sees the same values. -/
theorem fdsOf_eq (ws : List Nat) (h : ∀ w ∈ ws, w < 4294967296) :
    fdsOf ws = (ws.filter (· < 2147483648)).map Int.ofNat := by
  induction ws with
  | nil => rfl
  | cons w ws ih =>
    have rest := ih fun v hv => h v (List.mem_cons_of_mem _ hv)
    have hw := h w List.mem_cons_self
    unfold fdsOf at rest ⊢
    by_cases hs : w < 2147483648
    · have val : sign32 w = w := if_neg (by omega)
      rw [List.map_cons, List.filter_cons_of_pos (by rw [val]; simp), List.filter_cons_of_pos
        (by simpa using hs), rest, val]
      rfl
    · have val : sign32 w = (w : Int) - 4294967296 := if_pos (by omega)
      rw [List.map_cons, List.filter_cons_of_neg (by rw [val]; simp; omega), List.filter_cons_of_neg
        (by simpa using hs), rest]

theorem wordsAt_lt (p : Bytes) (off n : Nat) : ∀ w ∈ wordsAt p off n, w < 4294967296 := by
  intro w hw
  obtain ⟨i, -, rfl⟩ := List.mem_map.mp hw
  exact load32_lt p _

/-- What one header's payload holds: each value with whether it is to be collected. -/
def entriesAt (p : Bytes) (at_ : Nat) : List (Bool × Int) :=
  let values := fdsOf (wordsAt p (at_ + 16) ((load64 p at_ - 16) / 4))
  if load32 p (at_ + 8) = dbusSysSolSocket ∧ load32 p (at_ + 12) = dbusSysScmRights then
    values.map (true, ·)
  else if load32 p (at_ + 8) = dbusSysSolSocket ∧ load32 p (at_ + 12) = dbusSysScmPidfd then
    values.map (false, ·)
  else []

theorem payload_val (p : Bytes) (at_ : Nat) (s : Rx) :
    (rxPayload p at_ (load64 p at_) (load32 p (at_ + 8)) (load32 p (at_ + 12)) s).val =
    (entriesAt p at_).foldl dbusRxAdd s := by
  have count : (at_ + load64 p at_ - (at_ + 16)) / 4 = (load64 p at_ - 16) / 4 := by omega
  have values (rights : Bool) :
    (rxValues p rights (at_ + load64 p at_) (load64 p at_) (at_ + 16) s).val =
      ((fdsOf (wordsAt p (at_ + 16) ((load64 p at_ - 16) / 4))).map (rights, ·)).foldl
      dbusRxAdd s := by
    rw [rxValues_val _ _ _ _ _ _ (by omega), count]
  rw [rxPayload, ite_val, ite_val, values, values, entriesAt]
  by_cases rights : load32 p (at_ + 8) = dbusSysSolSocket ∧ load32 p (at_ + 12) = dbusSysScmRights
  · rw [if_pos rights, if_pos rights]
  rw [if_neg rights, if_neg rights]
  by_cases pidfd : load32 p (at_ + 8) = dbusSysSolSocket ∧ load32 p (at_ + 12) = dbusSysScmPidfd
  · rw [if_pos pidfd, if_pos pidfd]
  · rw [if_neg pidfd, if_neg pidfd]
    rfl

/-- One step of the walk. -/
theorem rxWalk_step (p : Bytes) (ctrllen n at_ : Nat) (s : Rx) :
    (rxWalk p ctrllen (n + 1) at_ s).val =
    if at_ + 16 ≤ ctrllen ∧ 16 ≤ load64 p at_ ∧ load64 p at_ ≤ ctrllen - at_ then
      (rxWalk p ctrllen n (at_ + align (load64 p at_) 8) ((entriesAt p at_).foldl dbusRxAdd s)).val
    else s := by
  have length : (read64 p at_).val = load64 p at_ := rfl
  have size : dbusSysCmsghdrSize = 16 := rfl
  rw [rxWalk, ite_val]
  by_cases room : ctrllen < at_ + dbusSysCmsghdrSize
  · rw [if_pos room, if_neg (by omega)]
    rfl
  rw [if_neg room, bind_val, ite_val, length]
  by_cases bad : load64 p at_ < dbusSysCmsghdrSize ∨ ctrllen - at_ < load64 p at_
  · rw [if_pos bad, if_neg (by omega)]
    rfl
  rw [if_neg bad, if_pos (by omega), ← payload_val]
  rfl

end Recorded

/-! ## The chain of headers -/

/-- A header that fits in the `n` bytes reported: its length covers itself and is
covered by the bytes left. -/
def HeaderAt (p : Bytes) (n at_ : Nat) : Prop :=
  at_ + 16 ≤ n ∧ 16 ≤ load64 p at_ ∧ load64 p at_ ≤ n - at_

/-- The maximal chain of headers from `at_` on, each where the one before it ends. -/
inductive Headers (p : Bytes) (n : Nat) : Nat → List Nat → Prop where
  | stop {at_ : Nat} (h : ¬ HeaderAt p n at_) : Headers p n at_ []
  | cons {at_ : Nat} {hs : List Nat} (h : HeaderAt p n at_)
      (rest : Headers p n (at_ + align (load64 p at_) 8) hs) :
    Headers p n at_ (at_ :: hs)

namespace Headers
variable {p : Bytes} {n : Nat}

theorem unique {at_ : Nat} {hs hs' : List Nat} (h : Headers p n at_ hs) (h' : Headers p n at_ hs') :
    hs = hs' := by
  induction h generalizing hs' with
  | stop hn =>
    cases h' with
    | stop _ => rfl
    | cons hy _ => exact absurd hy hn
  | cons hy _ ih =>
    cases h' with
    | stop hn => exact absurd hy hn
    | cons _ rest => rw [ih rest]

/-- There is one, and no longer than the room for headers. -/
theorem exist (p : Bytes) (n at_ : Nat) : ∃ hs, Headers p n at_ hs ∧ 16 * hs.length ≤ n - at_ := by
  generalize hroom : n - at_ = room
  induction room using Nat.strongRecOn generalizing at_ with
  | ind room ih =>
    by_cases h : HeaderAt p n at_
    · obtain ⟨fits, low, high⟩ := h
      have step := le_align (load64 p at_) (a := 8) (by decide)
      obtain ⟨hs, chain, short⟩ := ih (n - (at_ + align (load64 p at_) 8)) (by omega) _ rfl
      exact ⟨at_ :: hs, .cons ⟨fits, low, high⟩ chain, by rw [List.length_cons]; omega⟩
    · exact ⟨[], .stop h, Nat.zero_le _⟩

theorem aligned {at_ : Nat} {hs : List Nat} (h : Headers p n at_ hs) (h0 : at_ % 8 = 0) :
    ∀ i ∈ hs, i % 8 = 0 := by
  induction h with
  | stop _ =>
    intro i hi
    cases hi
  | @cons at_ hs here _ ih =>
    have next : (at_ + align (load64 p at_) 8) % 8 = 0 := by
      unfold align
      omega
    intro i hi
    obtain rfl | hi := List.mem_cons.mp hi
    · exact h0
    · exact ih next i hi

/-- The walk visits the chain. -/
theorem walk {at_ : Nat} {hs : List Nat} (h : Headers p n at_ hs) : ∀ (k : Nat) (s : Recorded.Rx),
    hs.length < k → (Recorded.rxWalk p n k at_ s).val = (hs.flatMap (Recorded.entriesAt p)).foldl
    dbusRxAdd s := by
  induction h with
  | @stop at_ hn =>
    intro k s hl
    obtain ⟨k, rfl⟩ : ∃ m, k = m + 1 := ⟨k - 1, by simp only [List.length_nil] at hl; omega⟩
    rw [Recorded.rxWalk_step]
    exact if_neg hn
  | @cons at_ hs here _ ih =>
    intro k s hl
    rw [List.length_cons] at hl
    obtain ⟨k, rfl⟩ : ∃ m, k = m + 1 := ⟨k - 1, by omega⟩
    rw [Recorded.rxWalk_step, List.flatMap_cons, List.foldl_append]
    exact (if_pos here).trans (ih k _ (by omega))

/-- So does the receive's model of it. -/
theorem cmsgs {at_ : Nat} {hs : List Nat} (h : Headers p p.length at_ hs) :
    ∀ k : Nat, hs.length < k → dbusSysCmsgs p k at_ = hs.flatMap (Recorded.entriesAt p) := by
  have size : dbusSysCmsghdrSize = 16 := rfl
  induction h with
  | @stop at_ hn =>
    intro k hl
    obtain ⟨k, rfl⟩ : ∃ m, k = m + 1 := ⟨k - 1, by simp only [List.length_nil] at hl; omega⟩
    unfold HeaderAt at hn
    rw [dbusSysCmsgs]
    by_cases room : p.length < at_ + dbusSysCmsghdrSize
    · exact if_pos room
    · rw [if_neg room]
      exact if_pos (by omega)
  | @cons at_ hs here _ ih =>
    intro k hl
    rw [List.length_cons] at hl
    obtain ⟨k, rfl⟩ : ∃ m, k = m + 1 := ⟨k - 1, by omega⟩
    have fits : ¬ p.length < at_ + dbusSysCmsghdrSize ∧
      ¬ (load64 p at_ < dbusSysCmsghdrSize ∨ p.length - at_ < load64 p at_) := by
      unfold HeaderAt at here
      omega
    have payload := Recorded.fdsOf_eq _ (Recorded.wordsAt_lt p (at_ + 16) ((load64 p at_ - 16) / 4))
    rw [dbusSysCmsgs, if_neg fits.1, List.flatMap_cons, ← ih k (by omega)]
    simp only [if_neg fits.2, Recorded.entriesAt, payload]
    rfl

end Headers

/-! ## What is held and what is closed -/

/-- The descriptors of an SCM_RIGHTS payload among `es`. -/
def rightsOf (es : List (Bool × Int)) : List Int := (es.filter (·.1)).map (·.2)

/-- The pidfds among `es`. -/
def pidfdsOf (es : List (Bool × Int)) : List Int := (es.filter (!·.1)).map (·.2)

/-- The receive array holds the first 253; the rest, and every pidfd, is closed. -/
theorem rxAdd_fold (es : List (Bool × Int)) : ∀ (s : Recorded.Rx), s.1.length ≤ 253 →
    (es.foldl dbusRxAdd s).1 = (s.1 ++ rightsOf es).take 253 ∧
      (es.foldl dbusRxAdd s).2.Perm (s.2 ++ ((s.1 ++ rightsOf es).drop 253 ++ pidfdsOf es)) := by
  induction es with
  | nil =>
    intro s hs
    simp [rightsOf, pidfdsOf, List.take_of_length_le hs, List.drop_of_length_le hs]
  | cons e es ih =>
    intro s hs
    obtain ⟨rights, fd⟩ := e
    rw [List.foldl_cons]
    cases rights with
    | false =>
      -- a pidfd is closed
      have step : dbusRxAdd s (false, fd) = (s.1, s.2 ++ [fd]) := rfl
      obtain ⟨held, closed⟩ := ih (s.1, s.2 ++ [fd]) hs
      rw [step]
      refine ⟨held, closed.trans ?_⟩
      show (s.2 ++ [fd] ++ ((s.1 ++ rightsOf es).drop 253 ++ pidfdsOf es)).Perm
        (s.2 ++ ((s.1 ++ rightsOf es).drop 253 ++ fd :: pidfdsOf es))
      rw [List.append_assoc, List.singleton_append]
      exact List.Perm.append_left _ List.perm_middle.symm
    | true =>
      have all : rightsOf ((true, fd) :: es) = fd :: rightsOf es := rfl
      rw [all]
      by_cases room : s.1.length < 253
      · have step : dbusRxAdd s (true, fd) = (s.1 ++ [fd], s.2) := if_pos ⟨rfl, room⟩
        obtain ⟨held, closed⟩ := ih (s.1 ++ [fd], s.2) (by simp; omega)
        simp only [List.append_assoc, List.cons_append, List.nil_append] at held closed
        rw [step]
        exact ⟨held, closed⟩
      · -- the array is full, so a further one is closed
        have full : s.1.length = 253 := by omega
        have step : dbusRxAdd s (true, fd) = (s.1, s.2 ++ [fd]) := if_neg fun h => room h.2
        have drop (l : List Int) : (s.1 ++ l).drop 253 = l := by rw [← full, List.drop_left]
        have take (l : List Int) : (s.1 ++ l).take 253 = s.1 := by rw [← full, List.take_left]
        obtain ⟨held, closed⟩ := ih (s.1, s.2 ++ [fd]) hs
        rw [step]
        simp only [take, drop] at held closed ⊢
        exact ⟨held, closed.trans (by rw [List.append_assoc]; exact List.Perm.refl _)⟩

/-- **The control buffer is parsed exactly, inside the length reported.** What is
walked is the maximal chain of headers; the receive array holds the first 253 of the
descriptors of its SCM_RIGHTS payloads, in order, and the rest of them and the pidfds
are what is closed. -/
theorem parse_rights_exact (p : Bytes) (n : Nat) : ∃ hs : List Nat, Headers p n 0 hs ∧
    (∀ hs', Headers p n 0 hs' → hs' = hs) ∧ (∀ at_ ∈ hs, at_ % 8 = 0) ∧
    Probe.Within n (Recorded.dbusSysParseRights p n) ∧
    (Recorded.dbusSysParseRights p n).val.2.1 = (rightsOf (hs.flatMap (Recorded.entriesAt p))).take
    253 ∧ (Recorded.dbusSysParseRights p n).val.2.2.Perm
      ((rightsOf (hs.flatMap (Recorded.entriesAt p))).drop 253 ++ pidfdsOf
      (hs.flatMap (Recorded.entriesAt p))) ∧
    (Recorded.dbusSysParseRights p n).val.1 = (Recorded.dbusSysParseRights p n).val.2.1.length ∧
    (n = p.length → (Recorded.dbusSysParseRights p n).val.2 = dbusSysParseRights p) := by
  obtain ⟨hs, chain, short⟩ := Headers.exist p n 0
  have run : (Recorded.dbusSysParseRights p n).val.2 = (hs.flatMap (Recorded.entriesAt p)).foldl
    dbusRxAdd ([], []) :=
    chain.walk (n + 1) ([], []) (by omega)
  obtain ⟨held, closed⟩ := rxAdd_fold (hs.flatMap (Recorded.entriesAt p)) ([], []) (Nat.zero_le _)
  refine ⟨hs, chain, fun hs' h => h.unique chain, chain.aligned rfl, ?_, ?_, ?_, rfl, ?_⟩
  · exact .bind (Recorded.rxWalk_within p n _ _ _) (.pure _)
  · rw [run, held, List.nil_append]
  · rw [run]
    exact closed
  · rintro rfl
    rw [run, dbusSysParseRights, chain.cmsgs _ (by omega)]

/-- Two headers: a right and a value that is no descriptor, then a pidfd. -/
def rightAndPidfd : Bytes :=
  le32 24 ++ le32 0 ++ le32 1 ++ le32 1 ++ le32 5 ++ le32 4294967295 ++
    (le32 20 ++ le32 0 ++ le32 1 ++ le32 4 ++ le32 9 ++ le32 0)

theorem parse_rights_exact_pidfd :
    (Recorded.dbusSysParseRights rightAndPidfd 48).val.2 = dbusSysParseRights rightAndPidfd ∧
    (Recorded.dbusSysParseRights rightAndPidfd 48).val = (1, [5], [9]) := by
  obtain ⟨_, -, -, -, -, -, -, -, same⟩ := parse_rights_exact rightAndPidfd 48
  exact ⟨same (by decide), by decide +kernel⟩

end Samvada
