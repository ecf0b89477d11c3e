import Samvada.Lib.Resumable

/- Programs over a large state that touch one part of it through commands only. A
   command runs on the part in a mode, what is open say, and ends in the next mode;
   `execs` is commands one after the other. `Drives P x Q`: whatever `x` does to the
   part is a run of legal commands, so what every run of commands keeps of the part,
   `x` keeps too. -/
namespace Resumable
open Prog

section
variable {σ τ κ δ α β : Type}

/-- Commands one after the other, each in the mode the one before it left. -/
def execs (exec : κ → δ → Prog τ δ) : δ → List κ → Prog τ δ
  | d, [] => pure d
  | d, c :: cs => do
    let d' ← exec c d
    execs exec d' cs

variable {exec : κ → δ → Prog τ δ}

theorem execs_append (cs cs' : List κ) : ∀ d, execs exec d (cs ++ cs') = execs exec d
    cs >>= fun d' => execs exec d' cs' := by
  induction cs with
  | nil => exact fun _ => rfl
  | cons c cs ih =>
    intro d
    funext t
    show (exec c d >>= fun d' => execs exec d' (cs ++ cs'))
      t = ((exec c d >>= fun d' => execs exec d' cs) >>= fun d' => execs exec d' cs') t
    rw [bind_run, bind_run, bind_run]
    cases exec c d t with
    | waiting t' => rfl
    | done d' t' => exact congrFun (ih d') t'

theorem execs_one (c : κ) (d : δ) : execs exec d [c] = exec c d := by
  funext t
  show (exec c d >>= fun d' => pure d') t = exec c d t
  rw [bind_run]
  cases exec c d t with
  | waiting t' => rfl
  | done d' t' => rfl

/-- A result nobody reads may be any function of it. -/
theorem map_forget (x : Prog τ α) (f : α → β) (y : Prog τ δ) :
    ((f <$> x) >>= fun _ => y) = x >>= fun _ => y := by
  funext t
  have hf : (f <$> x) t = (x >>= fun a => pure (f a)) t := rfl
  rw [bind_run, bind_run, hf, bind_run]
  cases x t with
  | waiting t' => rfl
  | done a t' => rfl

/-- What a run over the large state did to the part `back`, in the mode `d`: it ran
legal commands, as far as it came. -/
inductive Driven (back : σ → τ) (exec : κ → δ → Prog τ δ) (legal : κ → Prop) (d : δ) (t : τ)
    (Q : α → δ → σ → Prop) : Outcome σ α → Prop where
  | done {a : α} {s : σ} {d' : δ} (cs : List κ) (hl : ∀ c ∈ cs, legal c)
      (run : execs exec d cs t = .done d' (back s)) (hq : Q a d' s) :
    Driven back exec legal d t Q (.done a s)
  | waiting {s : σ} (cs : List κ) (hl : ∀ c ∈ cs, legal c)
      (run : execs exec d cs t = .waiting (back s)) : Driven back exec legal d t Q (.waiting s)

/-- From a state in `P`, `x` runs legal commands and ends in `Q`. -/
structure Drives (back : σ → τ) (exec : κ → δ → Prog τ δ) (legal : κ → Prop) (P : δ → σ → Prop)
    (x : Prog σ α) (Q : α → δ → σ → Prop) : Prop where
  ends : ∀ d s, P d s → Driven back exec legal d (back s) Q (x s)

namespace Drives
variable {back : σ → τ} {legal : κ → Prop} {P : δ → σ → Prop} {Q : α → δ → σ → Prop}
    {R : β → δ → σ → Prop} {x y : Prog σ α}

theorem pure {a : α} (h : ∀ d s, P d s → Q a d s) : Drives back exec legal P (Pure.pure a) Q where
  ends d s hp := .done [] (fun _ hc => absurd hc List.not_mem_nil) rfl (h d s hp)

/-- A change of the state that leaves the part alone. -/
theorem modify {f : σ → σ} {Q : Unit → δ → σ → Prop} (hf : ∀ s, back (f s) = back s)
    (h : ∀ d s, P d s → Q () d (f s)) : Drives back exec legal P (Prog.modify f) Q where
  ends d s hp := .done [] (fun _ hc => absurd hc List.not_mem_nil)
    (congrArg (Outcome.done d) (hf s).symm) (h d s hp)

theorem modifyGet {f : σ → α × σ} (hf : ∀ s, back (f s).2 = back s)
    (h : ∀ d s, P d s → Q (f s).1 d (f s).2) : Drives back exec legal P (Prog.modifyGet f) Q where
  ends d s hp := .done [] (fun _ hc => absurd hc List.not_mem_nil)
    (congrArg (Outcome.done d) (hf s).symm) (h d s hp)

theorem bind {f : α → Prog σ β} (hx : Drives back exec legal P x Q)
    (hf : ∀ a, Drives back exec legal (Q a) (f a) R) : Drives back exec legal P (x >>= f) R where
  ends d s hp := by
    have first := hx.ends d s hp
    rw [bind_run]
    generalize x s = o at first
    cases first with
    | waiting cs hl run => exact .waiting cs hl run
    | @done a s' d' cs hl run hq =>
      have next := (hf a).ends d' s' hq
      show Driven back exec legal d (back s) R (f a s')
      generalize f a s' = o' at next
      -- the commands of both, in a row
      have both {cs' : List κ} (hl' : ∀ c ∈ cs', legal c) : ∀ c ∈ cs ++ cs', legal c := by
        intro c hc
        exact (List.mem_append.mp hc).elim (hl c) (hl' c)
      have runs (cs' : List κ) : execs exec d (cs ++ cs') (back s) = execs exec d' cs'
        (back s') := by
        rw [execs_append, bind_done run]
      cases next with
      | waiting cs' hl' run' => exact .waiting (cs ++ cs') (both hl') ((runs cs').trans run')
      | done cs' hl' run' hr => exact .done (cs ++ cs') (both hl') ((runs cs').trans run') hr

/-- A read: what follows knows the value read. -/
theorem gets_bind {f : σ → α} {k : α → Prog σ β}
    (h : ∀ a, Drives back exec legal (fun d s => P d s ∧ f s = a) (k a) R) :
    Drives back exec legal P (Prog.gets f >>= k) R where
  ends d s hp := (h (f s)).ends d s ⟨hp, rfl⟩

theorem ite {c : Prop} [Decidable c] (hx : c → Drives back exec legal P x Q)
    (hy : ¬ c → Drives back exec legal P y Q) :
    Drives back exec legal P (if c then x else y) Q := by
  by_cases h : c
  · rw [if_pos h]
    exact hx h
  · rw [if_neg h]
    exact hy h

theorem mono {A : δ → σ → Prop} {B : α → δ → σ → Prop} (h : Drives back exec legal A x B)
    (hp : ∀ d s, P d s → A d s) (hq : ∀ a d s, B a d s → Q a d s) :
    Drives back exec legal P x Q where
  ends d s hs := by
    have run := h.ends d s (hp d s hs)
    generalize x s = o at run
    cases run with
    | waiting cs hl run => exact .waiting cs hl run
    | done cs hl run hb => exact .done cs hl run (hq _ _ _ hb)

/-- A part of the precondition that is not about the state. -/
theorem known {φ : Prop} (h : φ → Drives back exec legal P x Q) :
    Drives back exec legal (fun d s => P d s ∧ φ) x Q where
  ends d s hp := (h hp.2).ends d s hp.1

end Drives

end

end Resumable
