import Mathlib.Logic.Relation

/- Programs run against an environment that answers them. A program either
   ends with a result or is left `waiting` for an answer the environment has
   not given yet, so a finite script of answers is a finite run, and every
   point at which a run can be observed is the end of the run of some shorter
   script. Ways of reasoning about such programs:

   * `Spec P x Q W`: from a state in `P`, `x` ends in `Q` or waits in `W`;
   * `Twin P x Q W`: the same of two runs of `x` at once, which end alike;
   * `Replaces P x y Q`: from a state in `P`, `y` runs as `x` does;
   * `Walk step cut P x Q`: `x` moves by `step`s only, and where it waits the
     last move is a `cut` (a step the run has not finished);
   * `loop_eq`: a loop whose rounds each use up part of a finite measure is its
     own unfolding, so the bound that makes it structural is never met. -/
namespace Resumable

/-- How a run ends: with a result, or waiting for an answer. -/
inductive Outcome (σ α : Type) where
  | done (a : α) (s : σ)
  | waiting (s : σ)

variable {σ α β : Type}

/-- The state a run is left in. -/
def Outcome.state : Outcome σ α → σ
  | .done _ s => s
  | .waiting s => s

@[simp] theorem Outcome.state_done (a : α) (s : σ) : (Outcome.done a s).state = s := rfl
@[simp] theorem Outcome.state_waiting (s : σ) : (Outcome.waiting s : Outcome σ α).state = s := rfl

/-- The result, if it has ended. -/
def Outcome.value : Outcome σ α → Option α
  | .done a _ => some a
  | .waiting _ => none

theorem Outcome.eq_done {o : Outcome σ α} {a : α} (h : o.value = some a) : o = .done a o.state := by
  cases o with
  | done b s =>
    cases h
    rfl
  | waiting s => cases h

/-- A program over the state `σ`. -/
def Prog (σ α : Type) := σ → Outcome σ α

namespace Prog

def ret (a : α) : Prog σ α := fun s => .done a s

def bind (x : Prog σ α) (f : α → Prog σ β) : Prog σ β := fun s =>
  match x s with
  | .done a s' => f a s'
  | .waiting s' => .waiting s'

instance : Monad (Prog σ) where
  pure := ret
  bind := bind

/-- Read part of the state. -/
def gets (f : σ → α) : Prog σ α := fun s => .done (f s) s

/-- Change the state. -/
def modify (f : σ → σ) : Prog σ Unit := fun s => .done () (f s)

/-- Change the state and return a value computed from the old one. -/
def modifyGet (f : σ → α × σ) : Prog σ α := fun s => .done (f s).1 (f s).2

/-- Ask the environment: `ask` takes the answer out of the state, or there is none. -/
def query (ask : σ → Option (α × σ)) : Prog σ α := fun s =>
  match ask s with
  | some (a, s') => .done a s'
  | none => .waiting s

theorem bind_run (x : Prog σ α) (f : α → Prog σ β) (s : σ) :
    (x >>= f) s = match x s with
      | .done a s' => f a s'
      | .waiting s' => .waiting s' := rfl

theorem bind_done {x : Prog σ α} {f : α → Prog σ β} {s s' : σ} {a : α} (h : x s = .done a s') :
    (x >>= f) s = f a s' := by
  rw [bind_run, h]

theorem bind_waiting {x : Prog σ α} {f : α → Prog σ β} {s s' : σ} (h : x s = .waiting s') :
    (x >>= f) s = .waiting s' := by
  rw [bind_run, h]

@[simp] theorem gets_run (f : σ → α) (s : σ) : gets f s = .done (f s) s := rfl
@[simp] theorem modify_run (f : σ → σ) (s : σ) : modify f s = .done () (f s) := rfl
@[simp] theorem modifyGet_run (f : σ → α × σ) (s : σ) : modifyGet f s = .done (f s).1 (f s).2 := rfl

/-- `x` waits for nothing. -/
def Ends (x : Prog σ α) : Prop := ∀ s, ∃ a s', x s = .done a s'

namespace Ends

theorem pure (a : α) : Ends (Pure.pure a : Prog σ α) := fun s => ⟨a, s, rfl⟩
theorem gets {f : σ → α} : Ends (Prog.gets f) := fun s => ⟨f s, s, rfl⟩
theorem modify {f : σ → σ} : Ends (Prog.modify f) := fun s => ⟨(), f s, rfl⟩
theorem modifyGet {f : σ → α × σ} : Ends (Prog.modifyGet f) := fun s => ⟨(f s).1, (f s).2, rfl⟩

theorem bind {x : Prog σ α} {f : α → Prog σ β} (hx : Ends x) (hf : ∀ a, Ends (f a)) :
    Ends (x >>= f) := by
  intro s
  obtain ⟨a, s', h⟩ := hx s
  obtain ⟨b, s'', h'⟩ := hf a s'
  exact ⟨b, s'', (bind_done h).trans h'⟩

theorem ite {c : Prop} [Decidable c] {x y : Prog σ α} (hx : Ends x) (hy : Ends y) :
    Ends (if c then x else y) := by
  split
  · exact hx
  · exact hy

end Ends

/-! ## Loops -/

/-- At most `n` rounds of `body`; a round answers `inr` to stop. -/
def rounds (body : β → Prog σ (β ⊕ α)) : Nat → β → Prog σ α
  | 0, _ => fun s => .waiting s
  | n + 1, b => body b >>= fun
    | .inl b' => rounds body n b'
    | .inr a => pure a

/-- `while (1)`: rounds of `body` until one stops, bounded by a measure of the
state that every continuing round must lower (`Lowers`). -/
def loop (μ : σ → Nat) (body : β → Prog σ (β ⊕ α)) (b : β) : Prog σ α := fun s =>
  rounds body (μ s + 1) b s

/-- A round that continues lowers the measure. -/
def Lowers (μ : σ → Nat) (body : β → Prog σ (β ⊕ α)) : Prop :=
  ∀ b s b' s', body b s = .done (.inl b') s' → μ s' < μ s

theorem rounds_enough {μ : σ → Nat} {body : β → Prog σ (β ⊕ α)} (h : Lowers μ body) :
    ∀ (n m : Nat) (b : β) (s : σ), μ s < n → μ s < m → rounds body n b s = rounds body m b s
  | 0, _, _, _, hn, _ => absurd hn (Nat.not_lt_zero _)
  | _ + 1, 0, _, _, _, hm => absurd hm (Nat.not_lt_zero _)
  | n + 1, m + 1, b, s, hn, hm => by
    simp only [rounds, bind_run]
    cases hb : body b s with
    | waiting s' => rfl
    | done r s' =>
      cases r with
      | inr a => rfl
      | inl b' =>
        have lower := h b s b' s' hb
        exact rounds_enough h n m b' s' (by omega) (by omega)

/-- **The bound is never met**: the loop is its own unfolding. -/
theorem loop_eq {μ : σ → Nat} {body : β → Prog σ (β ⊕ α)} (h : Lowers μ body) (b : β) :
    loop μ body b = body b >>= fun
      | .inl b' => loop μ body b'
      | .inr a => pure a := by
  funext s
  simp only [loop, rounds, bind_run]
  cases hb : body b s with
  | waiting s' => rfl
  | done r s' =>
    cases r with
    | inr a => rfl
    | inl b' =>
      have lower := h b s b' s' hb
      exact rounds_enough h _ _ b' s' (by omega) (by omega)

/-- A round that goes on. -/
theorem loop_next {μ : σ → Nat} {body : β → Prog σ (β ⊕ α)} (h : Lowers μ body) {b b' : β}
    {s s' : σ} (run : body b s = .done (.inl b') s') : loop μ body b s = loop μ body b' s' := by
  rw [loop_eq h, bind_done run]

/-- The last round. -/
theorem loop_stops {μ : σ → Nat} {body : β → Prog σ (β ⊕ α)} (h : Lowers μ body) {b : β} {a : α}
    {s s' : σ} (run : body b s = .done (.inr a) s') : loop μ body b s = .done a s' := by
  rw [loop_eq h, bind_done run]
  rfl

theorem loop_waits {μ : σ → Nat} {body : β → Prog σ (β ⊕ α)} (h : Lowers μ body) {b : β}
    {s s' : σ} (run : body b s = .waiting s') : loop μ body b s = .waiting s' := by
  rw [loop_eq h, bind_waiting run]

end Prog

/-! ## Pre- and postconditions -/

open Prog

/-- From a state in `P`, `x` ends in `Q` or waits in `W`. -/
def Spec (P : σ → Prop) (x : Prog σ α) (Q : α → σ → Prop) (W : σ → Prop) : Prop :=
  ∀ s, P s → match x s with
    | .done a s' => Q a s'
    | .waiting s' => W s'

namespace Spec
variable {P : σ → Prop} {Q : α → σ → Prop} {W : σ → Prop}

theorem of_done {x : Prog σ α} (h : Spec P x Q W) {s s' : σ} {a : α} (hp : P s)
    (hx : x s = .done a s') : Q a s' := by
  have := h s hp
  rwa [hx] at this

/-- A program that never waits ends. -/
theorem total {x : Prog σ α} (h : Spec P x Q fun _ => False) {s : σ} (hp : P s) :
    ∃ a s', x s = .done a s' ∧ Q a s' := by
  have run := h s hp
  cases hx : x s with
  | done a s' =>
    rw [hx] at run
    exact ⟨a, s', rfl, run⟩
  | waiting s' =>
    rw [hx] at run
    exact run.elim

theorem pure {a : α} (h : ∀ s, P s → Q a s) : Spec P (Pure.pure a) Q W := h

theorem gets {f : σ → α} (h : ∀ s, P s → Q (f s) s) : Spec P (Prog.gets f) Q W := h

theorem modify {f : σ → σ} {Q : Unit → σ → Prop} (h : ∀ s, P s → Q () (f s)) :
    Spec P (Prog.modify f) Q W := h

theorem modifyGet {f : σ → α × σ} (h : ∀ s, P s → Q (f s).1 (f s).2) :
    Spec P (Prog.modifyGet f) Q W := h

theorem query {ask : σ → Option (α × σ)} (hs : ∀ s a s', P s → ask s = some (a, s') → Q a s')
    (hw : ∀ s, P s → ask s = none → W s) : Spec P (Prog.query ask) Q W := by
  intro s hp
  unfold Prog.query
  cases ha : ask s with
  | none => exact hw s hp ha
  | some r => exact hs s r.1 r.2 hp ha

theorem bind {x : Prog σ α} {f : α → Prog σ β} {R : β → σ → Prop} (hx : Spec P x Q W)
    (hf : ∀ a, Spec (Q a) (f a) R W) : Spec P (x >>= f) R W := by
  intro s hp
  have h := hx s hp
  rw [bind_run]
  cases hxs : x s with
  | done a s' =>
    rw [hxs] at h
    exact hf a s' h
  | waiting s' =>
    rw [hxs] at h
    exact h

theorem any {x : Prog σ α} : Spec P x (fun _ _ => True) fun _ => True := by
  intro s _
  cases x s with
  | done a s' => trivial
  | waiting s' => trivial

/-- A program that never waits. -/
theorem ends {x : Prog σ α} (h : Ends x) : Spec P x (fun _ _ => True) W := by
  intro s _
  obtain ⟨a, s', run⟩ := h s
  rw [run]
  trivial

theorem and {x : Prog σ α} {R : α → σ → Prop} {V : σ → Prop} (hq : Spec P x Q W)
    (hr : Spec P x R V) : Spec P x (fun a s => Q a s ∧ R a s) W := by
  intro s hp
  have left := hq s hp
  have right := hr s hp
  cases hx : x s with
  | done a s' =>
    rw [hx] at left right
    exact ⟨left, right⟩
  | waiting s' =>
    rw [hx] at left
    exact left

/-- Name what a part of the state holds at the start. -/
theorem fix {γ : Type} {g : σ → γ} {x : Prog σ α} (h : ∀ c, Spec (fun s => P s ∧ g s = c) x Q W) :
    Spec P x Q W :=
  fun s hp => h (g s) s ⟨hp, rfl⟩

/-- A part of the precondition that is not about the state. -/
theorem known {φ : Prop} {x : Prog σ α} (h : φ → Spec P x Q W) : Spec (fun s => P s ∧ φ) x Q W :=
  fun s hp => h hp.2 s hp.1

/-- A read: what follows knows the value read. -/
theorem gets_bind {f : σ → α} {k : α → Prog σ β} {R : β → σ → Prop}
    (h : ∀ a, Spec (fun s => P s ∧ f s = a) (k a) R W) : Spec P (Prog.gets f >>= k) R W :=
  bind (Q := fun a s => P s ∧ f s = a) (fun _ hs => ⟨hs, rfl⟩) h

theorem map {x : Prog σ α} {f : α → β} {R : β → σ → Prop} (h : Spec P x (fun a => R (f a)) W) :
    Spec P (f <$> x) R W :=
  bind h fun _ _ hs => hs

theorem ite {c : Prop} [Decidable c] {x y : Prog σ α} (hx : c → Spec P x Q W)
    (hy : ¬c → Spec P y Q W) : Spec P (if c then x else y) Q W := by
  by_cases h : c
  · rw [if_pos h]; exact hx h
  · rw [if_neg h]; exact hy h

theorem mono {x : Prog σ α} {A : σ → Prop} {B : α → σ → Prop} {C : σ → Prop} (h : Spec A x B C)
    (hp : ∀ s, P s → A s) (hq : ∀ a s, B a s → Q a s) (hw : ∀ s, C s → W s) : Spec P x Q W := by
  intro s hs
  have := h s (hp s hs)
  cases hx : x s with
  | done a s' => rw [hx] at this; exact hq a s' this
  | waiting s' => rw [hx] at this; exact hw s' this

/-- A stronger precondition. -/
theorem pre {x : Prog σ α} {A : σ → Prop} (h : Spec A x Q W) (hp : ∀ s, P s → A s) : Spec P x Q W :=
  fun s hs => h s (hp s hs)

/-- A weaker postcondition. -/
theorem post {x : Prog σ α} {B : α → σ → Prop} (h : Spec P x B W) (hq : ∀ a s, B a s → Q a s) :
    Spec P x Q W :=
  h.mono (fun _ hs => hs) hq fun _ hs => hs

/-- A weaker condition where it waits. -/
theorem waits {x : Prog σ α} {C : σ → Prop} (h : Spec P x Q C) (hw : ∀ s, C s → W s) :
    Spec P x Q W :=
  h.mono (fun _ hs => hs) (fun _ _ hs => hs) hw

/-- Two contracts of one program, the first saying where it waits. -/
theorem both {x : Prog σ α} {A V : σ → Prop} {R : α → σ → Prop} (hq : Spec P x Q W)
    (hr : Spec A x R V) : Spec (fun s => P s ∧ A s) x (fun a s => Q a s ∧ R a s) W :=
  (hq.pre fun _ hs => hs.1).and (hr.pre fun _ hs => hs.2)

/-- The invariant rule for a loop whose rounds lower `μ`. -/
theorem loop {μ : σ → Nat} {body : β → Prog σ (β ⊕ α)} {I : β → σ → Prop} (hl : Lowers μ body)
    (h : ∀ b, Spec (I b) (body b) (fun r s => match r with
      | .inl b' => I b' s
      | .inr a => Q a s) W) (b : β) : Spec (I b) (Prog.loop μ body b) Q W := by
  intro s hs
  generalize hn : μ s = n
  induction n using Nat.strongRecOn generalizing b s with
  | ind n ih =>
    rw [loop_eq hl, bind_run]
    have step := h b s hs
    cases hb : body b s with
    | waiting s' => rw [hb] at step; exact step
    | done r s' =>
      rw [hb] at step
      cases r with
      | inr a => exact step
      | inl b' =>
        have lower := hl b s b' s' hb
        exact ih (μ s') (by omega) b' s' step rfl

end Spec

/-! ## Frames: what a program leaves alone -/

/-- `x` leaves the part `g` of the state alone, where it ends and where it waits. -/
def Fixes {γ : Type} (g : σ → γ) (x : Prog σ α) : Prop := ∀ s, g (x s).state = g s

namespace Fixes
variable {γ : Type} {g : σ → γ}

theorem pure (a : α) : Fixes g (Pure.pure a : Prog σ α) := fun _ => rfl
theorem gets {f : σ → α} : Fixes g (Prog.gets f) := fun _ => rfl
theorem modify {f : σ → σ} (h : ∀ s, g (f s) = g s) : Fixes g (Prog.modify f) := h
theorem modifyGet {f : σ → α × σ} (h : ∀ s, g (f s).2 = g s) : Fixes g (Prog.modifyGet f) := h

theorem query {ask : σ → Option (α × σ)} (h : ∀ s a s', ask s = some (a, s') → g s' = g s) :
    Fixes g (Prog.query ask) := by
  intro s
  unfold Prog.query
  cases ha : ask s with
  | none => rfl
  | some r => exact h s r.1 r.2 ha

theorem bind {x : Prog σ α} {f : α → Prog σ β} (hx : Fixes g x) (hf : ∀ a, Fixes g (f a)) :
    Fixes g (x >>= f) := by
  intro s
  have h := hx s
  rw [bind_run]
  cases hxs : x s with
  | waiting s' =>
    rw [hxs] at h
    exact h
  | done a s' =>
    rw [hxs] at h
    exact (hf a s').trans h

theorem map {x : Prog σ α} {f : α → β} (h : Fixes g x) : Fixes g (f <$> x) := bind h fun _ => pure _

theorem ite {c : Prop} [Decidable c] {x y : Prog σ α} (hx : Fixes g x) (hy : Fixes g y) :
    Fixes g (if c then x else y) := by
  split
  · exact hx
  · exact hy

theorem loop {μ : σ → Nat} {body : β → Prog σ (β ⊕ α)} (h : ∀ b, Fixes g (body b)) (b : β) :
    Fixes g (Prog.loop μ body b) := by
  have all : ∀ n b, Fixes g (rounds body n b) := by
    intro n
    induction n with
    | zero => exact fun _ _ => rfl
    | succ n ih =>
      intro b
      refine bind (h b) fun r => ?_
      cases r with
      | inl b' => exact ih b'
      | inr a => exact pure a
  exact fun s => all _ b s

/-- What leaves a part alone leaves a part of it alone. -/
theorem part {δ : Type} (f : γ → δ) {x : Prog σ α} (h : Fixes g x) : Fixes (fun s => f (g s)) x :=
  fun s => congrArg f (h s)

theorem of_done {x : Prog σ α} (h : Fixes g x) {s s' : σ} {a : α} (hx : x s = .done a s') :
    g s' = g s := by
  have := h s
  rwa [hx] at this

/-- What depends on the part left alone is an invariant. -/
theorem keeps {x : Prog σ α} {B : σ → Prop} (hg : Fixes g x)
    (hB : ∀ s s', g s' = g s → B s → B s') : Spec B x (fun _ => B) B := by
  intro s hs
  have same := hg s
  cases hx : x s with
  | done a s' =>
    rw [hx] at same
    exact hB s s' same hs
  | waiting s' =>
    rw [hx] at same
    exact hB s s' same hs

/-- The frame rule: what holds of the part left alone still holds after. -/
theorem frame {P W : σ → Prop} {Q : α → σ → Prop} {x : Prog σ α} (hg : Fixes g x) (h : Spec P x Q W)
    (B : γ → Prop) : Spec (fun s => P s ∧ B (g s)) x (fun a s => Q a s ∧ B (g s)) W := by
  intro s hs
  have run := h s hs.1
  have same := hg s
  cases hx : x s with
  | waiting s' =>
    rw [hx] at run
    exact run
  | done a s' =>
    rw [hx] at run same
    exact ⟨run, same ▸ hs.2⟩

end Fixes

/-! ## Two runs side by side -/

/-- Two runs that end alike: both with one result and their states in `Q`, or
both waiting, in `W`. -/
inductive Outcome.Alike (Q W : σ → σ → Prop) : Outcome σ α → Outcome σ α → Prop where
  | done (a : α) {s t : σ} (h : Q s t) : Outcome.Alike Q W (.done a s) (.done a t)
  | waiting {s t : σ} (h : W s t) : Outcome.Alike Q W (.waiting s) (.waiting t)

/-- From states related by `P`, two runs of `x` end alike. -/
def Twin (P : σ → σ → Prop) (x : Prog σ α) (Q W : σ → σ → Prop) : Prop :=
  ∀ s t, P s t → Outcome.Alike Q W (x s) (x t)

namespace Twin
variable {P Q R W : σ → σ → Prop}

theorem pure {a : α} (h : ∀ s t, P s t → Q s t) : Twin P (Pure.pure a) Q W :=
  fun s t hp => .done a (h s t hp)

theorem modifyGet {f : σ → α × σ} (h : ∀ s t, P s t → (f s).1 = (f t).1 ∧ Q (f s).2 (f t).2) :
    Twin P (Prog.modifyGet f) Q W := by
  intro s t hp
  obtain ⟨ha, hq⟩ := h s t hp
  show Outcome.Alike Q W (.done (f s).1 _) (.done (f t).1 _)
  rw [ha]
  exact .done _ hq

theorem gets {f : σ → α} (hf : ∀ s t, P s t → f s = f t) (h : ∀ s t, P s t → Q s t) :
    Twin P (Prog.gets f) Q W :=
  modifyGet (f := fun s => (f s, s)) fun s t hp => ⟨hf s t hp, h s t hp⟩

theorem modify {f : σ → σ} (h : ∀ s t, P s t → Q (f s) (f t)) : Twin P (Prog.modify f) Q W :=
  fun s t hp => .done () (h s t hp)

/-- A question both runs get the same answer to, or neither gets one. -/
theorem query {ask : σ → Option (α × σ)} (hw : ∀ s t, P s t → W s t)
    (h : ∀ s t, P s t → (ask s = none ∧ ask t = none) ∨ ∃ a s' t', ask s = some (a, s') ∧
    ask t = some (a, t') ∧ Q s' t') : Twin P (Prog.query ask) Q W := by
  intro s t hp
  unfold Prog.query
  obtain ⟨hs, ht⟩ | ⟨a, s', t', hs, ht, hq⟩ := h s t hp
  · rw [hs, ht]
    exact .waiting (hw s t hp)
  · rw [hs, ht]
    exact .done a hq

theorem bind {x : Prog σ α} {f : α → Prog σ β} (hx : Twin P x Q W) (hf : ∀ a, Twin Q (f a) R W) :
    Twin P (x >>= f) R W := by
  intro s t hp
  have h := hx s t hp
  rw [bind_run, bind_run]
  generalize x s = o, x t = o' at h
  cases h with
  | done a hq => exact hf a _ _ hq
  | waiting hw => exact .waiting hw

theorem map {x : Prog σ α} {f : α → β} (h : Twin P x Q W) : Twin P (f <$> x) Q W :=
  bind h fun _ => pure fun _ _ hq => hq

theorem ite {c : Prop} [Decidable c] {x y : Prog σ α} (hx : Twin P x Q W) (hy : Twin P y Q W) :
    Twin P (if c then x else y) Q W := by
  split
  · exact hx
  · exact hy

theorem mono {x : Prog σ α} {A B : σ → σ → Prop} (h : Twin A x B W) (hp : ∀ s t, P s t → A s t)
    (hq : ∀ s t, B s t → Q s t) : Twin P x Q W := by
  intro s t hs
  have run := h s t (hp s t hs)
  generalize x s = o, x t = o' at run
  cases run with
  | done a hb => exact .done a (hq _ _ hb)
  | waiting hw => exact .waiting hw

/-- What `x` leaves alone in both, they still agree on. -/
theorem frame {γ : Type} {g : σ → γ} {x : Prog σ α} (h : Twin P x Q W) (hg : Fixes g x) :
    Twin (fun s t => P s t ∧ g s = g t) x (fun s t => Q s t ∧ g s = g t) W := by
  intro s t hp
  have run := h s t hp.1
  have hs := hg s
  have ht := hg t
  generalize x s = o, x t = o' at run hs ht
  cases run with
  | done a hq => exact .done a ⟨hq, hs.trans (hp.2.trans ht.symm)⟩
  | waiting hw => exact .waiting hw

/-- A loop whose measure the two states agree on goes round as often in both. -/
theorem loop {μ : σ → Nat} {body : β → Prog σ (β ⊕ α)} (hμ : ∀ s t, P s t → μ s = μ t)
    (hw : ∀ s t, P s t → W s t) (h : ∀ b, Twin P (body b) P W) (b : β) :
    Twin P (Prog.loop μ body b) P W := by
  have all : ∀ n b, Twin P (rounds body n b) P W := by
    intro n
    induction n with
    | zero => exact fun _ s t hp => .waiting (hw s t hp)
    | succ n ih =>
      intro b
      refine bind (h b) fun r => ?_
      cases r with
      | inl b' => exact ih b'
      | inr a => exact pure fun _ _ hp => hp
  intro s t hp
  have run := all (μ s + 1) b s t hp
  unfold Prog.loop
  rw [← hμ s t hp]
  exact run

theorem value {x : Prog σ α} (h : Twin P x Q Q) {s t : σ} (hp : P s t) :
    (x s).value = (x t).value ∧ Q (x s).state (x t).state := by
  have run := h s t hp
  generalize x s = o, x t = o' at run
  cases run with
  | done a hq => exact ⟨rfl, hq⟩
  | waiting hq => exact ⟨rfl, hq⟩

end Twin

/-! ## One program for another -/

/-- From a state in `P`, `y` may replace `x`: they run alike, and end in `Q`. -/
def Replaces (P : σ → Prop) (x y : Prog σ α) (Q : α → σ → Prop) : Prop :=
  ∀ s, P s → x s = y s ∧ ∀ a s', x s = .done a s' → Q a s'

namespace Replaces
variable {P : σ → Prop} {Q : α → σ → Prop} {W : σ → Prop}

theorem refl {x : Prog σ α} (h : Spec P x Q W) : Replaces P x x Q :=
  fun _ hp => ⟨rfl, fun _ _ hx => h.of_done hp hx⟩

theorem bind {x y : Prog σ α} {f g : α → Prog σ β} {R : β → σ → Prop} (hx : Replaces P x y Q)
    (hf : ∀ a, Replaces (Q a) (f a) (g a) R) : Replaces P (x >>= f) (y >>= g) R := by
  intro s hp
  obtain ⟨same, post⟩ := hx s hp
  rw [bind_run, bind_run, ← same]
  cases hxs : x s with
  | waiting s' => exact ⟨rfl, fun _ _ h => (nomatch h)⟩
  | done a s' => exact hf a s' (post a s' hxs)

theorem ite {c : Prop} [Decidable c] {x y x' y' : Prog σ α} (hx : c → Replaces P x x' Q)
    (hy : ¬ c → Replaces P y y' Q) : Replaces P (if c then x else y) (if c then x' else y') Q := by
  by_cases h : c
  · rw [if_pos h, if_pos h]
    exact hx h
  · rw [if_neg h, if_neg h]
    exact hy h

theorem mono {x y : Prog σ α} {A : σ → Prop} {B : α → σ → Prop} (h : Replaces A x y B)
    (hp : ∀ s, P s → A s) (hq : ∀ a s, B a s → Q a s) : Replaces P x y Q := fun s hs =>
  ⟨(h s (hp s hs)).1, fun a s' hx => hq a s' ((h s (hp s hs)).2 a s' hx)⟩

/-- What `x` ends in may be shown of `x` alone. -/
theorem ends {x y : Prog σ α} {B : α → σ → Prop} (h : Replaces P x y B) (hs : Spec P x Q W) :
    Replaces P x y Q :=
  fun s hp => ⟨(h s hp).1, fun _ _ hx => hs.of_done hp hx⟩

/-- Loops whose rounds run alike. -/
theorem loop {μ : σ → Nat} {body body' : β → Prog σ (β ⊕ α)} {I : β → σ → Prop}
    (h : ∀ b, Replaces (I b) (body b) (body' b) (fun r s => match r with
      | .inl b' => I b' s
      | .inr a =>
        Q a s)) (b : β) : Replaces (I b) (Prog.loop μ body b) (Prog.loop μ body' b) Q := by
  have all : ∀ n b, Replaces (I b) (rounds body n b) (rounds body' n b) Q := by
    intro n
    induction n with
    | zero => exact fun _ _ _ => ⟨rfl, fun _ _ h => (nomatch h)⟩
    | succ n ih =>
      intro b
      refine bind (h b) fun r => ?_
      cases r with
      | inl b' => exact ih b'
      | inr a => exact refl (W := fun _ => True) (Spec.pure fun _ hs => hs)
  exact fun s => all _ b s

end Replaces

/-! ## Walks: what a program does, one move at a time -/

open Relation

/-- `x` moves by `step`s only and ends in `Q`; where it waits, the last move is a `cut`. -/
def Walk (step cut : σ → σ → Prop) (P : σ → Prop) (x : Prog σ α) (Q : α → σ → Prop) : Prop :=
  ∀ s, P s → match x s with
    | .done a s' => ReflTransGen step s s' ∧ Q a s'
    | .waiting s' => ∃ m, ReflTransGen step s m ∧ cut m s'

namespace Walk
variable {step cut : σ → σ → Prop} {P : σ → Prop} {Q : α → σ → Prop}

theorem pure {a : α} (h : ∀ s, P s → Q a s) : Walk step cut P (Pure.pure a) Q :=
  fun s hp => ⟨.refl, h s hp⟩

theorem gets {f : σ → α} (h : ∀ s, P s → Q (f s) s) : Walk step cut P (Prog.gets f) Q :=
  fun s hp => ⟨.refl, h s hp⟩

theorem modify {f : σ → σ} {Q : Unit → σ → Prop} (hs : ∀ s, P s → step s (f s))
    (h : ∀ s, P s → Q () (f s)) : Walk step cut P (Prog.modify f) Q :=
  fun s hp => ⟨.single (hs s hp), h s hp⟩

theorem modifyGet {f : σ → α × σ} (hs : ∀ s, P s → step s (f s).2)
    (h : ∀ s, P s → Q (f s).1 (f s).2) : Walk step cut P (Prog.modifyGet f) Q :=
  fun s hp => ⟨.single (hs s hp), h s hp⟩

theorem query {ask : σ → Option (α × σ)}
    (hs : ∀ s a s', P s → ask s = some (a, s') → step s s' ∧ Q a s') (hw : ∀ s, P s → cut s s) :
    Walk step cut P (Prog.query ask) Q := by
  intro s hp
  unfold Prog.query
  cases ha : ask s with
  | none => exact ⟨s, .refl, hw s hp⟩
  | some r =>
    obtain ⟨h1, h2⟩ := hs s r.1 r.2 hp ha
    exact ⟨.single h1, h2⟩

theorem bind {x : Prog σ α} {f : α → Prog σ β} {R : β → σ → Prop} (hx : Walk step cut P x Q)
    (hf : ∀ a, Walk step cut (Q a) (f a) R) : Walk step cut P (x >>= f) R := by
  intro s hp
  have h := hx s hp
  rw [bind_run]
  cases hxs : x s with
  | waiting s' => rw [hxs] at h; exact h
  | done a s' =>
    rw [hxs] at h
    have h' := hf a s' h.2
    cases hfs : f a s' with
    | done b t =>
      rw [hfs] at h'
      simp only [hfs]
      exact ⟨h.1.trans h'.1, h'.2⟩
    | waiting t =>
      rw [hfs] at h'
      obtain ⟨m, hm, hc⟩ := h'
      simp only [hfs]
      exact ⟨m, h.1.trans hm, hc⟩

/-- A value the precondition only says there is. -/
theorem exists_pre {ι : Sort*} {P : ι → σ → Prop} {x : Prog σ α}
    (h : ∀ i, Walk step cut (P i) x Q) : Walk step cut (fun s => ∃ i, P i s) x Q :=
  fun s ⟨i, hp⟩ => h i s hp

/-- A read: what follows knows the value read. -/
theorem gets_bind {f : σ → α} {k : α → Prog σ β} {R : β → σ → Prop}
    (h : ∀ a, Walk step cut (fun s => P s ∧ f s = a) (k a) R) :
    Walk step cut P (Prog.gets f >>= k) R :=
  bind (Q := fun a s => P s ∧ f s = a) (fun _ hs => ⟨.refl, hs, rfl⟩) h

theorem map {x : Prog σ α} {f : α → β} {R : β → σ → Prop} (h : Walk step cut P x fun a => R (f a)) :
    Walk step cut P (f <$> x) R :=
  bind h fun _ _ hs => ⟨.refl, hs⟩

theorem ite {c : Prop} [Decidable c] {x y : Prog σ α} (hx : c → Walk step cut P x Q)
    (hy : ¬c → Walk step cut P y Q) : Walk step cut P (if c then x else y) Q := by
  by_cases h : c
  · rw [if_pos h]; exact hx h
  · rw [if_neg h]; exact hy h

theorem mono {x : Prog σ α} {A : σ → Prop} {B : α → σ → Prop} (h : Walk step cut A x B)
    (hp : ∀ s, P s → A s) (hq : ∀ a s, B a s → Q a s) : Walk step cut P x Q := by
  intro s hs
  have := h s (hp s hs)
  cases hx : x s with
  | done a s' => rw [hx] at this; exact ⟨this.1, hq a s' this.2⟩
  | waiting s' => rw [hx] at this; exact this

theorem loop {μ : σ → Nat} {body : β → Prog σ (β ⊕ α)} {I : β → σ → Prop} (hl : Lowers μ body)
    (h : ∀ b, Walk step cut (I b) (body b) (fun r s => match r with
      | .inl b' => I b' s
      | .inr a => Q a s)) (b : β) : Walk step cut (I b) (Prog.loop μ body b) Q := by
  intro s hs
  generalize hn : μ s = n
  induction n using Nat.strongRecOn generalizing b s with
  | ind n ih =>
    rw [loop_eq hl, bind_run]
    have first := h b s hs
    cases hb : body b s with
    | waiting s' => rw [hb] at first; exact first
    | done r s' =>
      rw [hb] at first
      obtain ⟨hw, hq⟩ := first
      cases r with
      | inr a => exact ⟨hw, hq⟩
      | inl b' =>
        have lower := hl b s b' s' hb
        have rest := ih (μ s') (by omega) b' s' hq rfl
        cases hr : Prog.loop μ body b' s' with
        | done a t => rw [hr] at rest; simp only [hr]; exact ⟨hw.trans rest.1, rest.2⟩
        | waiting t =>
          rw [hr] at rest
          obtain ⟨m, hm, hc⟩ := rest
          simp only [hr]
          exact ⟨m, hw.trans hm, hc⟩

theorem spec {x : Prog σ α} (h : Walk step cut P x Q) : Spec P x Q fun _ => True := by
  intro s hp
  have := h s hp
  cases hx : x s with
  | done a s' =>
    rw [hx] at this
    exact this.2
  | waiting s' => trivial

/-- What every step keeps, a run of steps keeps. -/
theorem keeps {I : σ → Prop} (h : ∀ s s', step s s' → I s → I s') {s s' : σ}
    (hw : ReflTransGen step s s') (hi : I s) : I s' := by
  induction hw with
  | refl => exact hi
  | tail _ hlast ih => exact h _ _ hlast ih

/-- **The invariant rule**: what every step keeps holds at the end of a program
that walks, and a cut turns it into what holds where the program waits. -/
theorem inv {x : Prog σ α} {I J : σ → Prop} (hw : Walk step cut P x Q)
    (hstep : ∀ s s', step s s' → I s → I s') (hcut : ∀ s s', cut s s' → I s → J s') :
    Spec (fun s => P s ∧ I s) x (fun a s => Q a s ∧ I s) J := by
  intro s ⟨hp, hi⟩
  have h := hw s hp
  cases hx : x s with
  | done a s' => rw [hx] at h; exact ⟨h.2, keeps hstep h.1 hi⟩
  | waiting s' =>
    rw [hx] at h
    obtain ⟨m, hm, hc⟩ := h
    exact hcut m s' hc (keeps hstep hm hi)

end Walk

end Resumable
