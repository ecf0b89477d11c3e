import Mathlib.Algebra.GroupWithZero.Nat
import Mathlib.Order.Lattice
import Mathlib.Order.Nat
import Mathlib.Data.List.Pairwise
import Mathlib.Algebra.BigOperators.Group.List.Basic
import Mathlib.Tactic.Common

/- Half-open spans, one after the other on a line. Spans in order cover no point
   twice (`InOrder.once`), and those that start at `0` or later and end by `N` are
   no longer than `N` together (`InOrder.total_le`). -/
namespace Spans
variable {α : Type} [LinearOrder α]

/-- Is `p` in the span `m`? -/
def covers (p : α) (m : α × α) : Bool := decide (m.1 ≤ p) && decide (p < m.2)

/-- No span is reversed, and each ends before those after it start. -/
structure InOrder (ms : List (α × α)) : Prop where
  forward : ∀ m ∈ ms, m.1 ≤ m.2
  apart : ms.Pairwise fun m n => m.2 ≤ n.1

theorem InOrder.nil : InOrder ([] : List (α × α)) := ⟨fun _ h => (nomatch h), List.Pairwise.nil⟩

/-- A span that starts where the others have ended. -/
theorem InOrder.snoc {ms : List (α × α)} {m : α × α} (h : InOrder ms) (hm : m.1 ≤ m.2)
    (after : ∀ k ∈ ms, k.2 ≤ m.1) : InOrder (ms ++ [m]) where
  forward := by
    intro k hk
    obtain hk | hk := List.mem_append.mp hk
    · exact h.forward k hk
    · obtain rfl := List.mem_singleton.mp hk
      exact hm
  apart := by
    refine List.pairwise_append.mpr ⟨h.apart, List.pairwise_singleton _ _, fun k hk n hn => ?_⟩
    obtain rfl := List.mem_singleton.mp hn
    exact after k hk

theorem InOrder.tail {m : α × α} {ms : List (α × α)} (h : InOrder (m :: ms)) : InOrder ms :=
  ⟨fun k hk => h.forward k (List.mem_cons_of_mem _ hk), (List.pairwise_cons.mp h.apart).2⟩

/-- **No point is covered twice.** -/
theorem InOrder.once {ms : List (α × α)} (h : InOrder ms) (p : α) :
    (ms.filter (covers p)).length ≤ 1 := by
  induction ms with
  | nil => exact Nat.zero_le _
  | cons m ms ih =>
    by_cases hm : covers p m
    · -- the spans after `m` start past `p`
      have past : ms.filter (covers p) = [] := by
        refine List.filter_eq_nil_iff.mpr fun n hn hcov => ?_
        have gap := (List.pairwise_cons.mp h.apart).1 n hn
        simp only [covers, Bool.and_eq_true, decide_eq_true_eq] at hm hcov
        exact absurd (hm.2.trans_le (gap.trans hcov.1)) (lt_irrefl p)
      rw [List.filter_cons_of_pos hm, past]
      exact Nat.le_refl 1
    · rw [List.filter_cons_of_neg hm]
      exact ih h.tail

/-- How long spans are together. -/
def total (ms : List (Nat × Nat)) : Nat := (ms.map fun m => m.2 - m.1).sum

theorem total_concat (ms ns : List (Nat × Nat)) : total (ms ++ ns) = total ms + total ns := by
  simp [total]

theorem InOrder.total_add_le {ms : List (Nat × Nat)} (h : InOrder ms) {a N : Nat}
    (from_ : ∀ m ∈ ms, a ≤ m.1) (upTo : ∀ m ∈ ms, m.2 ≤ N) (ha : a ≤ N) : a + total ms ≤ N := by
  induction ms generalizing a with
  | nil => exact ha
  | cons m ms ih =>
    have gap := (List.pairwise_cons.mp h.apart).1
    have rest :=
      ih h.tail gap (fun n hn => upTo n (List.mem_cons_of_mem _ hn)) (upTo m List.mem_cons_self)
    have start := from_ m List.mem_cons_self
    have fwd := h.forward m List.mem_cons_self
    have head : total (m :: ms) = (m.2 - m.1) + total ms := by simp [total]
    omega

/-- **Spans in order that end by `N` are no longer than `N` together.** -/
theorem InOrder.total_le {ms : List (Nat × Nat)} (h : InOrder ms) {N : Nat}
    (upTo : ∀ m ∈ ms, m.2 ≤ N) : total ms ≤ N := by
  have all := h.total_add_le (fun m _ => Nat.zero_le m.1) upTo (Nat.zero_le N)
  omega

end Spans
