import Mathlib.Data.List.Basic

/- Balanced text. A scan that counts an opening bracket up and a closing one down
   reads, up to where the count is gone, balanced texts with a closing bracket
   between each two (`Closes`); the balanced text before a closing bracket is unique. -/
namespace Brackets
variable {α : Type} {o c : α}

/-- Every bracket is closed, and none is closed that was not opened. -/
inductive Balanced (o c : α) : List α → Prop where
  | nil : Balanced o c []
  | other {x : α} {s : List α} (ho : x ≠ o) (hc : x ≠ c) (h : Balanced o c s) :
      Balanced o c (x :: s)
  | group {s s' : List α} (h : Balanced o c s) (h' : Balanced o c s') :
      Balanced o c (o :: s ++ c :: s')

/-- Balanced but for `d` closing brackets. -/
inductive Closes (o c : α) : Nat → List α → Prop where
  | last {s : List α} (h : Balanced o c s) : Closes o c 0 s
  | step {d : Nat} {s s' : List α} (h : Balanced o c s) (h' : Closes o c d s') :
      Closes o c (d + 1) (s ++ c :: s')

namespace Closes
variable {d : Nat} {s : List α}

theorem close (h : Closes o c d s) : Closes o c (d + 1) (c :: s) := .step .nil h

theorem other {x : α} (ho : x ≠ o) (hc : x ≠ c) (h : Closes o c d s) : Closes o c d (x :: s) := by
  cases h with
  | last h => exact .last (.other ho hc h)
  | step h h' => exact .step (.other ho hc h) h'

theorem open_ (h : Closes o c (d + 1) s) : Closes o c d (o :: s) := by
  cases h with
  | step first rest =>
    cases rest with
    | last h => exact .last (.group first h)
    | @step d s s' h h' =>
      have e : ∀ l : List α, o :: (l ++ c :: (s ++ c :: s')) = (o :: l ++ c :: s) ++ c :: s' :=
        fun l => by simp
      rw [e]
      exact .step (.group first h) h'

theorem balanced (h : Closes o c 0 s) : Balanced o c s := by
  cases h with
  | last h => exact h

end Closes

/-- The balanced text before a closing bracket is one only. -/
theorem Balanced.unique (hne : o ≠ c) {s s' r r' : List α} (h : Balanced o c s)
    (h' : Balanced o c s') (e : s ++ c :: r = s' ++ c :: r') : s = s' ∧ r = r' := by
  induction h generalizing s' r r' with
  | nil =>
    cases h' with
    | nil =>
      cases e
      exact ⟨rfl, rfl⟩
    | other ho hc _ => exact absurd (List.cons.inj e).1.symm hc
    | group _ _ => exact absurd (List.cons.inj e).1.symm hne
  | other ho hc _ ih =>
    cases h' with
    | nil => exact absurd (List.cons.inj e).1 hc
    | other _ _ h' =>
      simp only [List.cons_append, List.cons.injEq] at e
      obtain ⟨rfl, e⟩ := e
      obtain ⟨rfl, rfl⟩ := ih h' e
      exact ⟨rfl, rfl⟩
    | group _ _ => exact absurd (List.cons.inj e).1 ho
  | group _ _ ih₁ ih₂ =>
    cases h' with
    | nil => exact absurd (List.cons.inj e).1 hne
    | other ho _ _ => exact absurd (List.cons.inj e).1.symm ho
    | group h₁ h₂ =>
      simp only [List.append_assoc, List.cons_append, List.cons.injEq, true_and] at e
      obtain ⟨rfl, rest⟩ := ih₁ h₁ e
      obtain ⟨rfl, rfl⟩ := ih₂ h₂ rest
      exact ⟨rfl, rfl⟩

end Brackets
