import Mathlib.Data.List.Infix
import Mathlib.Data.List.Basic

/- A text as lines that each end with a terminator of two symbols, `a` then `b`,
   and an unfinished one after them. Every text is so in one way (`Split.exist`,
   `Split.unique`), and a text received in pieces has the lines of its pieces: a
   piece joined to what was unfinished before it gives the next ones
   (`Split.append`). -/
namespace Lines
variable {α : Type} {a b : α}

/-- A text without the terminator. -/
def Unended (a b : α) (l : List α) : Prop := ¬ [a, b] <:+: l

/-- Where the first terminator is. -/
def firstBreak [DecidableEq α] (a b : α) : List α → Option Nat
  | x :: y :: l => if x = a ∧ y = b then some 0 else (firstBreak a b (y :: l)).map (· + 1)
  | _ => none

/-- The terminated lines of `s` are `ls`, and `rest` is unfinished. -/
structure Split (a b : α) (s : List α) (ls : List (List α)) (rest : List α) : Prop where
  text : s = ls.flatMap (· ++ [a, b]) ++ rest
  line : ∀ l ∈ ls, Unended a b l
  rest : Unended a b rest

/-! ## The first terminator -/

theorem unended_nil : Unended a b ([] : List α) := by
  intro h
  have short := List.IsInfix.length_le h
  exact absurd short (by simp)

theorem unended_cons {c : α} {l : List α} : Unended a b (c :: l) ↔ ¬ (c = a ∧ l.head? = some b) ∧
    Unended a b l := by
  have start : [a, b] <+: c :: l ↔ c = a ∧ l.head? = some b := by
    cases l with
    | nil => simp [List.cons_prefix_cons]
    | cons d l => simp [List.cons_prefix_cons, eq_comm]
  unfold Unended
  rw [List.infix_cons_iff, start, not_or]

section
variable [DecidableEq α]

theorem firstBreak_cons {c : α} {l : List α} (h : ¬ (c = a ∧ l.head? = some b)) :
    firstBreak a b (c :: l) = (firstBreak a b l).map (· + 1) := by
  cases l with
  | nil => rfl
  | cons d l => exact if_neg fun hc => h ⟨hc.1, congrArg some hc.2⟩

theorem firstBreak_none {l : List α} : firstBreak a b l = none ↔ Unended a b l := by
  induction l with
  | nil => exact ⟨fun _ => unended_nil, fun _ => rfl⟩
  | cons c l ih =>
    rw [unended_cons]
    by_cases h : c = a ∧ l.head? = some b
    · obtain ⟨rfl, hb⟩ := h
      cases l with
      | nil => cases hb
      | cons d l =>
        obtain rfl := Option.some.inj hb
        simp [firstBreak]
    · rw [firstBreak_cons h, Option.map_eq_none_iff, ih]
      exact ⟨fun hl => ⟨h, hl⟩, fun hl => hl.2⟩

/-- The first terminator ends a line. -/
theorem firstBreak_line (hne : a ≠ b) {l : List α} (h : Unended a b l) (t : List α) :
    firstBreak a b (l ++ a :: b :: t) = some l.length := by
  induction l with
  | nil => simp [firstBreak]
  | cons c l ih =>
    obtain ⟨here, later⟩ := unended_cons.mp h
    have apart : ¬ (c = a ∧ (l ++ a :: b :: t).head? = some b) := by
      intro hc
      cases l with
      | nil => exact hne (Option.some.inj hc.2)
      | cons d l => exact here hc
    rw [List.cons_append, firstBreak_cons apart, ih later]
    rfl

theorem firstBreak_some {l : List α} {i : Nat} (h : firstBreak a b l = some i) :
    ∃ x y, l = x ++ a :: b :: y ∧ x.length = i ∧ Unended a b x := by
  induction l generalizing i with
  | nil => cases h
  | cons c l ih =>
    by_cases here : c = a ∧ l.head? = some b
    · obtain ⟨rfl, hb⟩ := here
      cases l with
      | nil => cases hb
      | cons d l =>
        obtain rfl := Option.some.inj hb
        have zero : i = 0 := by simpa [firstBreak, eq_comm] using h
        exact ⟨[], l, rfl, zero.symm, unended_nil⟩
    · rw [firstBreak_cons here] at h
      obtain ⟨j, hj, rfl⟩ := Option.map_eq_some_iff.mp h
      obtain ⟨x, y, rfl, rfl, hx⟩ := ih hj
      refine ⟨c :: x, y, rfl, rfl, unended_cons.mpr ⟨?_, hx⟩⟩
      intro hc
      cases x with
      | nil => cases hc.2
      | cons d x => exact here hc

end

/-! ## Lines -/

namespace Split
variable {s rest : List α} {ls : List (List α)}

theorem nil (h : Unended a b s) : Split a b s [] s := ⟨rfl, fun _ hl => (nomatch hl), h⟩

theorem cons {l : List α} (hl : Unended a b l) (h : Split a b s ls rest) :
    Split a b (l ++ a :: b :: s) (l :: ls) rest where
  text := by simp [h.text]
  line := by
    intro k hk
    obtain rfl | hk := List.mem_cons.mp hk
    · exact hl
    · exact h.line k hk
  rest := h.rest

/-- What follows the first line has the other lines. -/
theorem tail {l : List α} (h : Split a b s (l :: ls) rest) :
    ∃ t, s = l ++ a :: b :: t ∧ Unended a b l ∧ Split a b t ls rest :=
  ⟨ls.flatMap (· ++ [a, b]) ++ rest, by simp [h.text], h.line l List.mem_cons_self, rfl,
    fun k hk => h.line k (List.mem_cons_of_mem _ hk), h.rest⟩

theorem exist [DecidableEq α] (a b : α) (s : List α) : ∃ ls rest, Split a b s ls rest := by
  generalize hn : s.length = n
  induction n using Nat.strongRecOn generalizing s with
  | ind n ih =>
    cases hf : firstBreak a b s with
    | none => exact ⟨[], s, .nil (firstBreak_none.mp hf)⟩
    | some i =>
      obtain ⟨x, y, rfl, -, hx⟩ := firstBreak_some hf
      obtain ⟨ls, rest, h⟩ := ih y.length (by simp at hn; omega) y rfl
      exact ⟨x :: ls, rest, h.cons hx⟩

theorem unique [DecidableEq α] (hne : a ≠ b) {rest' : List α} {ls' : List (List α)}
    (h : Split a b s ls rest) (h' : Split a b s ls' rest') : ls = ls' ∧ rest = rest' := by
  induction ls generalizing s ls' with
  | nil =>
    obtain rfl : s = rest := h.text
    cases ls' with
    | nil => exact ⟨rfl, h'.text⟩
    | cons l ls' =>
      -- no text is both unended and begun by a line
      obtain ⟨t, ht, hl, -⟩ := h'.tail
      have whole := firstBreak_line hne hl t
      rw [← ht, firstBreak_none.mpr h.rest] at whole
      cases whole
  | cons k ls ih =>
    obtain ⟨t, ht, hk, hrest⟩ := h.tail
    have first := firstBreak_line hne hk t
    cases ls' with
    | nil =>
      obtain rfl : s = rest' := h'.text
      rw [← ht, firstBreak_none.mpr h'.rest] at first
      cases first
    | cons l ls' =>
      obtain ⟨t', ht', hl, hrest'⟩ := h'.tail
      have first' := firstBreak_line hne hl t'
      rw [← ht] at first
      rw [← ht', first] at first'
      have same := List.append_inj (ht.symm.trans ht') (Option.some.inj first')
      obtain rfl := same.1
      obtain rfl : t = t' := by simpa using same.2
      obtain ⟨rfl, rfl⟩ := ih hrest hrest'
      exact ⟨rfl, rfl⟩

/-- A line takes two symbols at least. -/
theorem count (h : Split a b s ls rest) : 2 * ls.length ≤ s.length := by
  induction ls generalizing s with
  | nil => exact Nat.zero_le _
  | cons l ls ih =>
    obtain ⟨t, rfl, -, later⟩ := h.tail
    have := ih later
    simp only [List.length_append, List.length_cons]
    omega

/-- **A text received in pieces**: the unfinished line and the next piece give the next lines. -/
theorem append {d rest' : List α} {ls' : List (List α)} (h : Split a b s ls rest)
    (h' : Split a b (rest ++ d) ls' rest') : Split a b (s ++ d) (ls ++ ls') rest' where
  text := by rw [h.text, List.append_assoc, h'.text, List.flatMap_append, List.append_assoc]
  line := by
    intro l hl
    obtain hl | hl := List.mem_append.mp hl
    · exact h.line l hl
    · exact h'.line l hl
  rest := h'.rest

end Split

end Lines
