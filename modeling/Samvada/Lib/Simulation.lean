import Samvada.Lib.Resumable

/- Simulation between programs over two kinds of state. Where the one ends, the other
   ends from a related state, with a related result and in a related state; what the
   one does where it waits is left open. -/
namespace Resumable

variable {σ τ α β γ δ : Type}

open Prog

/-- `y` follows `x`: from related states, where `x` ends `y` ends, with results in `S`. -/
def Follows (R : σ → τ → Prop) (x : Prog σ α) (S : α → β → Prop) (y : Prog τ β) : Prop :=
  ∀ s t, R s t → ∀ a s', x s = .done a s' → ∃ b t', y t = .done b t' ∧ R s' t' ∧ S a b

namespace Follows
variable {R : σ → τ → Prop} {S : α → β → Prop}

theorem pure {a : α} {b : β} (h : S a b) : Follows R (Pure.pure a) S (Pure.pure b) := by
  intro s t hr a' s' run
  cases run
  exact ⟨b, t, rfl, hr, h⟩

theorem gets {f : σ → α} {g : τ → β} (h : ∀ s t, R s t → S (f s) (g t)) :
    Follows R (Prog.gets f) S (Prog.gets g) := by
  intro s t hr a s' run
  cases run
  exact ⟨g t, t, rfl, hr, h s t hr⟩

theorem modifyGet {f : σ → α × σ} {g : τ → β × τ}
    (h : ∀ s t, R s t → R (f s).2 (g t).2 ∧ S (f s).1 (g t).1) :
    Follows R (Prog.modifyGet f) S (Prog.modifyGet g) := by
  intro s t hr a s' run
  cases run
  exact ⟨(g t).1, (g t).2, rfl, h s t hr⟩

theorem modify {f : σ → σ} {g : τ → τ} {S : Unit → Unit → Prop} (hs : S () ())
    (h : ∀ s t, R s t → R (f s) (g t)) : Follows R (Prog.modify f) S (Prog.modify g) := by
  intro s t hr a s' run
  cases run
  exact ⟨(), g t, rfl, h s t hr, hs⟩

theorem bind {x : Prog σ α} {y : Prog τ β} {f : α → Prog σ γ} {g : β → Prog τ δ}
    {T : γ → δ → Prop} (hx : Follows R x S y)
    (hf : ∀ a b, S a b → Follows R (f a) T (g b)) : Follows R (x >>= f) T (y >>= g) := by
  intro s t hr c s'' run
  rw [bind_run] at run
  cases hxs : x s with
  | waiting s' =>
    rw [hxs] at run
    cases run
  | done a s' =>
    rw [hxs] at run
    obtain ⟨b, t', hy, hr', hs⟩ := hx s t hr a s' hxs
    obtain ⟨d, t'', hg, post⟩ := hf a b hs s' t' hr' c s'' run
    refine ⟨d, t'', ?_, post⟩
    rw [bind_done hy]
    exact hg

theorem ite {c d : Prop} [Decidable c] [Decidable d] {x x' : Prog σ α} {y y' : Prog τ β}
    (same : c ↔ d) (hx : c → d → Follows R x S y) (hy : ¬c → ¬d → Follows R x' S y') :
    Follows R (if c then x else x') S (if d then y else y') := by
  by_cases h : c
  · rw [if_pos h, if_pos (same.mp h)]
    exact hx h (same.mp h)
  · rw [if_neg h, if_neg fun hd => h (same.mpr hd)]
    exact hy h fun hd => h (same.mpr hd)

theorem post {x : Prog σ α} {y : Prog τ β} {S' : α → β → Prop} (h : Follows R x S y)
    (hs : ∀ a b, S a b → S' a b) : Follows R x S' y := by
  intro s t hr a s' run
  obtain ⟨b, t', hy, hr', hs'⟩ := h s t hr a s' run
  exact ⟨b, t', hy, hr', hs a b hs'⟩

/-- What follows `x` ends where `x` ends. -/
theorem of_done {x : Prog σ α} {y : Prog τ β} (h : Follows R x S y) {s s' : σ} {t t' : τ} {a : α}
    {b : β} (hr : R s t) (hx : x s = .done a s') (hy : y t = .done b t') : R s' t' ∧ S a b := by
  obtain ⟨b', t'', hy', post⟩ := h s t hr a s' hx
  rw [hy] at hy'
  cases hy'
  exact post

end Follows

end Resumable
