import Mathlib.Data.List.Basic
import Mathlib.Data.List.Infix
import Mathlib.Data.List.TakeWhile
import Mathlib.Data.List.Range

/- Regular expressions as a backtracking engine reads them: alternatives are tried
   in order, repetition takes as much as it can, and a search takes the first match
   at the leftmost place. A run answers every way to match at a place, the preferred
   one first; the engine takes the head. -/
namespace Patterns
variable {α : Type}

/-! ## Where a text stands -/

/-- `s` stands in `t` from `i` up to `j`. -/
def Stands (t : List α) (i : Nat) (s : List α) (j : Nat) : Prop :=
  t.drop i = s ++ t.drop j ∧ j = i + s.length

theorem Stands.nil (t : List α) (i : Nat) : Stands t i [] i := ⟨rfl, rfl⟩

theorem Stands.append {t s s' : List α} {i j k : Nat} (h : Stands t i s j) (h' : Stands t j s' k) :
    Stands t i (s ++ s') k := by
  refine ⟨?_, ?_⟩
  · rw [h.1, h'.1, List.append_assoc]
  · rw [h'.2, h.2, List.length_append, Nat.add_assoc]

theorem stands_iff {t s : List α} {i j : Nat} : Stands t i s j ↔ s <+: t.drop i ∧
    j = i + s.length := by
  constructor
  · intro h
    exact ⟨⟨t.drop j, h.1.symm⟩, h.2⟩
  · rintro ⟨⟨rest, h⟩, rfl⟩
    refine ⟨?_, rfl⟩
    rw [← List.drop_drop, ← h, List.drop_left]

/-- The first of a text that stands at `i`. -/
theorem Stands.head {t s : List α} {c : α} {i j : Nat} (h : Stands t i (c :: s) j) :
    t[i]? = some c := by
  have first := congrArg List.head? h.1
  rwa [List.head?_drop] at first

theorem Stands.tail {t s : List α} {c : α} {i j : Nat} (h : Stands t i (c :: s) j) :
    Stands t (i + 1) s j := by
  refine ⟨?_, ?_⟩
  · rw [← List.tail_drop, h.1]
    rfl
  · rw [h.2, List.length_cons]
    omega

theorem Stands.left {t s s' : List α} {i j : Nat} (h : Stands t i (s ++ s') j) :
    Stands t i s (i + s.length) ∧ Stands t (i + s.length) s' j := by
  obtain ⟨hd, rfl⟩ := h
  rw [List.append_assoc] at hd
  have mid : t.drop (i + s.length) = s' ++ t.drop (i + (s ++ s').length) := by
    rw [← List.drop_drop, hd, List.drop_left]
  refine ⟨⟨?_, rfl⟩, mid, ?_⟩
  · rw [hd, mid]
  · rw [List.length_append, Nat.add_assoc]

/-- The member of a text that stands at `i`. -/
theorem Stands.get {t s : List α} {i j k : Nat} (h : Stands t i s j) (hk : k < s.length) :
    t[i + k]? = s[k]? := by
  rw [← List.getElem?_drop, h.1, List.getElem?_append_left hk]

/-- What stands just before `i`. -/
def before (t : List α) (i : Nat) : Option α := if i = 0 then none else t[i - 1]?

theorem Stands.before {t s : List α} {c : α} {i j : Nat} (h : Stands t i (s ++ [c]) j) :
    before t j = some c := by
  have last := h.get (k := s.length) (by simp)
  have hj := h.2
  rw [List.length_append, List.length_singleton] at hj
  have at_ : j - 1 = i + s.length := by omega
  rw [Patterns.before, if_neg (by omega), at_, last, List.getElem?_concat_length]

theorem length_takeWhile_ge {s l : List α} {p : α → Bool} (hs : s <+: l)
    (hp : ∀ c ∈ s, p c = true) : s.length ≤ (l.takeWhile p).length := by
  obtain ⟨rest, rfl⟩ := hs
  rw [List.takeWhile_append_of_pos hp, List.length_append]
  omega

/-! ## Patterns -/

/-- A regular expression. The classes are predicates; `notAfter` is a negative
look-behind of one character, `notBefore` a negative look-ahead. -/
inductive Pattern (α : Type) where
  | text (s : List α)
  | one (p : α → Bool)
  | many (p : α → Bool)
  | seq (r s : Pattern α)
  | alt (r s : Pattern α)
  | opt (r : Pattern α)
  | group (n : Nat) (r : Pattern α)
  | notAfter (p : α → Bool)
  | notBefore (p : α → Bool)

/-- What the groups captured: number, start, end, the latest first. -/
abbrev Groups := List (Nat × Nat × Nat)

/-- A match. -/
structure Found where
  start : Nat
  stop : Nat
  groups : Groups
  deriving DecidableEq, Repr

/-- Where group `n` matched. -/
def Found.span (m : Found) (n : Nat) : Option (Nat × Nat) := m.groups.lookup n

/-- What group `n` matched. -/
def Found.group (m : Found) (t : List α) (n : Nat) : Option (List α) :=
  (m.span n).map fun s => (t.drop s.1).take (s.2 - s.1)

namespace Pattern
variable [DecidableEq α]

/-- Every way to match at `i`: the end and the groups, the preferred one first. -/
def run (t : List α) : Pattern α → Nat → List (Nat × Groups)
  | text s, i => if s <+: t.drop i then [(i + s.length, [])] else []
  | one p, i => if (t[i]?).any p then [(i + 1, [])] else []
  | many p, i =>
    ((List.range (((t.drop i).takeWhile p).length + 1)).reverse).map fun k => (i + k, [])
  | seq r s, i => (run t r i).flatMap fun (k, g) => (run t s k).map fun (j, g') => (j, g' ++ g)
  | alt r s, i => run t r i ++ run t s i
  | opt r, i => run t r i ++ [(i, [])]
  | group n r, i => (run t r i).map fun (j, g) => (j, (n, i, j) :: g)
  | notAfter p, i => if (before t i).any p then [] else [(i, [])]
  | notBefore p, i => if (t[i]?).any p then [] else [(i, [])]

/-- The match at `i`. -/
def found (r : Pattern α) (t : List α) (i : Nat) : Option Found :=
  (run t r i).head?.map fun (j, g) => ⟨i, j, g⟩

/-- The matches at these places, each from where the one before it ended. -/
def pick (r : Pattern α) (t : List α) : Nat → List Nat → List Found
  | _, [] => []
  | next, i :: is =>
    if i < next then pick r t next is
    else match r.found t i with
      | some m => m :: pick r t m.stop is
      | none => pick r t next is

/-- The matches in `t` from the left, none inside another. -/
def finditer (r : Pattern α) (t : List α) : List Found := pick r t 0 (List.range (t.length + 1))

/-! ## What matches -/

variable {t : List α} {i j : Nat} {g : Groups}

theorem mem_text {s : List α} : (j, g) ∈ run t (text s) i ↔ Stands t i s j ∧ g = [] := by
  show (j, g) ∈ (if s <+: t.drop i then [(i + s.length, [])] else []) ↔ _
  rw [stands_iff]
  split_ifs with h
  · simp [h]
  · simp [h]

theorem mem_one {p : α → Bool} : (j, g) ∈ run t (one p) i ↔ ∃ c, p c = true ∧
    Stands t i [c] j ∧ g = [] := by
  have start (c : α) : [c] <+: t.drop i ↔ t[i]? = some c := by
    rw [← List.head?_drop]
    cases t.drop i <;> simp [eq_comm]
  show (j, g) ∈ (if (t[i]?).any p then [(i + 1, [])] else []) ↔ _
  cases ht : t[i]? with
  | none => simp [stands_iff, start, ht]
  | some c =>
    cases hp : p c with
    | false =>
      simp only [Option.any_some, hp, Bool.false_eq_true, if_false, List.not_mem_nil, false_iff]
      rintro ⟨c', hc', h, -⟩
      cases h.head.symm.trans ht
      rw [hp] at hc'
      cases hc'
    | true =>
      simp only [Option.any_some, hp, if_true, List.mem_singleton, Prod.mk.injEq]
      constructor
      · rintro ⟨rfl, rfl⟩
        exact ⟨c, hp, stands_iff.mpr ⟨(start c).mpr ht, rfl⟩, rfl⟩
      · rintro ⟨c', -, h, rfl⟩
        exact ⟨h.2, rfl⟩

theorem mem_many {p : α → Bool} : (j, g) ∈ run t (many p) i ↔ ∃ s, (∀ c ∈ s, p c = true) ∧
    Stands t i s j ∧ g = [] := by
  show (j, g) ∈ ((List.range (((t.drop i).takeWhile p).length + 1)).reverse).map
    (fun k => (i + k, [])) ↔ _
  simp only [List.mem_map, List.mem_reverse, List.mem_range, Prod.mk.injEq]
  constructor
  · rintro ⟨k, hk, rfl, rfl⟩
    have within : ((t.drop i).takeWhile p).take k <+: t.drop i :=
      (List.take_prefix _ _).trans (List.takeWhile_prefix p)
    refine ⟨((t.drop i).takeWhile p).take k, fun c hc => List.mem_takeWhile_imp
      (List.mem_of_mem_take hc), ?_, rfl⟩
    refine stands_iff.mpr ⟨within, ?_⟩
    rw [List.length_take]
    omega
  · rintro ⟨s, hs, h, rfl⟩
    obtain ⟨within, rfl⟩ := stands_iff.mp h
    have := length_takeWhile_ge within hs
    exact ⟨s.length, by omega, rfl, rfl⟩

theorem mem_seq {r s : Pattern α} : (j, g) ∈ run t (seq r s) i ↔
    ∃ k g₁ g₂, (k, g₁) ∈ run t r i ∧ (j, g₂) ∈ run t s k ∧ g = g₂ ++ g₁ := by
  show (j, g) ∈ (run t r i).flatMap (fun x => (run t s x.1).map fun y => (y.1, y.2 ++ x.2)) ↔ _
  simp only [List.mem_flatMap, List.mem_map, Prod.mk.injEq, Prod.exists]
  constructor
  · rintro ⟨k, g₁, h₁, j', g₂, h₂, rfl, rfl⟩
    exact ⟨k, g₁, g₂, h₁, h₂, rfl⟩
  · rintro ⟨k, g₁, g₂, h₁, h₂, rfl⟩
    exact ⟨k, g₁, h₁, j, g₂, h₂, rfl, rfl⟩

theorem mem_alt {r s : Pattern α} : (j, g) ∈ run t (alt r s) i ↔ (j, g) ∈ run t r i ∨
    (j, g) ∈ run t s i := List.mem_append

theorem mem_opt {r : Pattern α} : (j, g) ∈ run t (opt r) i ↔ (j, g) ∈ run t r i ∨
    j = i ∧ g = [] := by
  show (j, g) ∈ run t r i ++ [(i, [])] ↔ _
  simp

theorem mem_group {n : Nat} {r : Pattern α} : (j, g) ∈ run t (group n r) i ↔ ∃ g', (j, g') ∈ run t r
    i ∧ g = (n, i, j) :: g' := by
  show (j, g) ∈ (run t r i).map (fun x => (x.1, (n, i, x.1) :: x.2)) ↔ _
  simp only [List.mem_map, Prod.mk.injEq, Prod.exists]
  constructor
  · rintro ⟨j', g', h, rfl, rfl⟩
    exact ⟨g', h, rfl⟩
  · rintro ⟨g', h, rfl⟩
    exact ⟨j, g', h, rfl, rfl⟩

theorem mem_notAfter {p : α → Bool} : (j, g) ∈ run t (notAfter p) i ↔ (before t i).any p = false ∧
    j = i ∧ g = [] := by
  show (j, g) ∈ (if (before t i).any p then [] else [(i, [])]) ↔ _
  split_ifs with h
  · simp [h]
  · simp [Bool.eq_false_iff.mpr h]

theorem mem_notBefore {p : α → Bool} : (j, g) ∈ run t (notBefore p) i ↔ (t[i]?).any p = false ∧
    j = i ∧ g = [] := by
  show (j, g) ∈ (if (t[i]?).any p then [] else [(i, [])]) ↔ _
  split_ifs with h
  · simp [h]
  · simp [Bool.eq_false_iff.mpr h]

/-- A match ends no earlier than it starts. -/
theorem run_le (r : Pattern α) (h : (j, g) ∈ run t r i) : i ≤ j := by
  induction r generalizing i j g with
  | text s =>
    have := (mem_text.mp h).1.2
    omega
  | one p =>
    obtain ⟨c, -, hs, -⟩ := mem_one.mp h
    have := hs.2
    omega
  | many p =>
    obtain ⟨s, -, hs, -⟩ := mem_many.mp h
    have := hs.2
    omega
  | seq r s hr hs =>
    obtain ⟨k, g₁, g₂, h₁, h₂, -⟩ := mem_seq.mp h
    exact (hr h₁).trans (hs h₂)
  | alt r s hr hs => exact (mem_alt.mp h).elim hr hs
  | opt r hr =>
    rcases mem_opt.mp h with h | ⟨rfl, -⟩
    · exact hr h
    · exact Nat.le_refl _
  | group n r hr =>
    obtain ⟨g', h', -⟩ := mem_group.mp h
    exact hr h'
  | notAfter p => exact (mem_notAfter.mp h).2.1.ge
  | notBefore p => exact (mem_notBefore.mp h).2.1.ge

/-- What is found at `i` starts there and is one of the ways to match. -/
theorem found_some {r : Pattern α} {m : Found} (h : r.found t i = some m) : m.start = i ∧
    (m.stop, m.groups) ∈ run t r i := by
  obtain ⟨⟨j, g⟩, hh, rfl⟩ := Option.map_eq_some_iff.mp h
  exact ⟨rfl, List.mem_of_head? hh⟩

theorem found_le {r : Pattern α} {m : Found} (h : r.found t i = some m) : i ≤ m.stop :=
  run_le r (found_some h).2

/-- Something is found exactly if there is a way to match. -/
theorem found_isSome {r : Pattern α} : (r.found t i).isSome = true ↔ ∃ j g, (j, g) ∈ run t r i := by
  rw [found, Option.isSome_map]
  cases h : run t r i with
  | nil => simp
  | cons x rest => exact ⟨fun _ => ⟨x.1, x.2, List.mem_cons_self⟩, fun _ => rfl⟩

/-! ## Searching -/

/-- What is picked is found at one of the places, and not before `next`. -/
theorem mem_pick {r : Pattern α} {m : Found} {next : Nat} {is : List Nat}
    (h : m ∈ pick r t next is) : m.start ∈ is ∧ next ≤ m.start ∧ r.found t m.start = some m := by
  induction is generalizing next with
  | nil => cases h
  | cons i is ih =>
    rw [pick] at h
    split_ifs at h with early
    · obtain ⟨hm, hn, hf⟩ := ih h
      exact ⟨List.mem_cons_of_mem _ hm, hn, hf⟩
    · cases hfound : r.found t i with
      | none =>
        rw [hfound] at h
        obtain ⟨hm, hn, hf⟩ := ih h
        exact ⟨List.mem_cons_of_mem _ hm, hn, hf⟩
      | some m' =>
        rw [hfound] at h
        rcases List.mem_cons.mp h with rfl | h
        · have hs := (found_some hfound).1
          exact ⟨hs ▸ List.mem_cons_self, by omega, hs ▸ hfound⟩
        · obtain ⟨hm, hn, hf⟩ := ih h
          have := found_le hfound
          exact ⟨List.mem_cons_of_mem _ hm, by omega, hf⟩

/-- No match is inside another, and each is after those before it. -/
theorem pick_apart (r : Pattern α) (next : Nat) (is : List Nat) :
    (pick r t next is).Pairwise fun m m' => m.stop ≤ m'.start := by
  induction is generalizing next with
  | nil => exact List.Pairwise.nil
  | cons i is ih =>
    rw [pick]
    split_ifs with early
    · exact ih next
    · cases hfound : r.found t i with
      | none => exact ih next
      | some m => exact List.Pairwise.cons (fun m' hm' => (mem_pick hm').2.1) (ih m.stop)

/-- Where matches never overlap, a search finds them all. -/
theorem pick_all {r : Pattern α}
    (apart : ∀ i j m, r.found t i = some m → i < j → (r.found t j).isSome = true → m.stop ≤ j)
    {next : Nat} {is : List Nat} (sorted : is.Pairwise (· < ·))
    (past : ∀ j ∈ is, (r.found t j).isSome = true → next ≤ j) :
    (pick r t next is).map Found.start = is.filter fun i => (r.found t i).isSome := by
  induction is generalizing next with
  | nil => rfl
  | cons i is ih =>
    obtain ⟨hlt, sorted⟩ := List.pairwise_cons.mp sorted
    have later : ∀ j ∈ is, (r.found t j).isSome = true → next ≤ j :=
      fun j hj => past j (List.mem_cons_of_mem _ hj)
    rw [pick]
    cases hfound : r.found t i with
    | none =>
      rw [List.filter_cons_of_neg (by simp [hfound]), ← ih sorted later]
      split_ifs <;> rfl
    | some m =>
      have here : next ≤ i := past i List.mem_cons_self (by simp [hfound])
      rw [if_neg (by omega), List.filter_cons_of_pos (by simp [hfound]), List.map_cons,
        (found_some hfound).1]
      exact congrArg (i :: ·) (ih sorted fun j hj hf => apart i j m hfound (hlt j hj) hf)

theorem mem_finditer {r : Pattern α} {m : Found} (h : m ∈ r.finditer t) :
    (m.stop, m.groups) ∈ run t r m.start :=
  (found_some (mem_pick h).2.2).2

theorem finditer_apart (r : Pattern α) (t : List α) : (r.finditer t).Pairwise fun m m' =>
    m.stop ≤ m'.start := pick_apart r 0 _

/-- The places where a search finds a pattern whose matches never overlap. -/
theorem finditer_all {r : Pattern α}
    (apart : ∀ i j m, r.found t i = some m → i < j → (r.found t j).isSome = true → m.stop ≤ j) :
    (r.finditer t).map Found.start = (List.range (t.length + 1)).filter fun i =>
    (r.found t i).isSome :=
  pick_all apart List.pairwise_lt_range fun _ _ _ => Nat.zero_le _

end Pattern
end Patterns
