import Samvada.Lib.Octets

/- Computations over a block of octets with the offsets they read recorded, in
   order. `Within b x` says that every read of `x` is below `b`; it composes
   along the computation, the later part knowing what the earlier one read. -/
namespace Octets

/-- A value, and the offsets read to compute it. -/
structure Probe (α : Type) where
  val : α
  reads : List Nat := []

namespace Probe
variable {α β : Type}

def ret (a : α) : Probe α := { val := a }
def bind (x : Probe α) (f : α → Probe β) : Probe β :=
  { val := (f x.val).val, reads := x.reads ++ (f x.val).reads }

instance : Monad Probe where
  pure := ret
  bind := bind

/-- The octet at `i`, recorded. -/
@[reducible] def read8 (p : Bytes) (i : Nat) : Probe Nat := { val := load8 p i, reads := [i] }

/-- The little-endian word at `i`, recorded. -/
@[reducible] def read32 (p : Bytes) (i : Nat) : Probe Nat :=
  { val := load32 p i, reads := [i, i + 1, i + 2, i + 3] }

@[simp] theorem pure_val (a : α) : (pure a : Probe α).val = a := rfl
@[simp] theorem pure_reads (a : α) : (pure a : Probe α).reads = [] := rfl
@[simp] theorem bind_val (x : Probe α) (f : α → Probe β) : (x >>= f).val = (f x.val).val := rfl
@[simp] theorem bind_reads (x : Probe α) (f : α → Probe β) : (x >>= f).reads = x.reads ++
    (f x.val).reads := rfl
@[simp] theorem read8_val (p : Bytes) (i : Nat) : (read8 p i).val = load8 p i := rfl
@[simp] theorem read32_val (p : Bytes) (i : Nat) : (read32 p i).val = load32 p i := rfl

theorem ite_val {c : Prop} [Decidable c] (x y : Probe α) : (if c then x else y).val = if c then
    x.val else y.val :=
  apply_ite val c x y

/-- Every read is below `b`. -/
def Within (b : Nat) (x : Probe α) : Prop := ∀ i ∈ x.reads, i < b

namespace Within
variable {b : Nat}

theorem pure (a : α) : Within b (Pure.pure a : Probe α) := fun _ h => by cases h

theorem bind {x : Probe α} {f : α → Probe β} (hx : Within b x) (hf : Within b (f x.val)) :
    Within b (x >>= f) := by
  intro i hi
  rcases List.mem_append.mp hi with hi | hi
  · exact hx i hi
  · exact hf i hi

theorem ite {c : Prop} [Decidable c] {x y : Probe α} (hx : c → Within b x) (hy : ¬c → Within b y) :
    Within b (if c then x else y) := by
  by_cases h : c
  · rw [if_pos h]
    exact hx h
  · rw [if_neg h]
    exact hy h

theorem read8 {p : Bytes} {i : Nat} (h : i < b) : Within b (Probe.read8 p i) := by
  intro j hj
  rw [List.mem_singleton.mp hj]
  exact h

theorem read32 {p : Bytes} {i : Nat} (h : i + 4 ≤ b) : Within b (Probe.read32 p i) := by
  intro j hj
  simp only [List.mem_cons, List.not_mem_nil, or_false] at hj
  omega

theorem mono {b' : Nat} {x : Probe α} (h : Within b x) (hb : b ≤ b') : Within b' x :=
  fun i hi => lt_of_lt_of_le (h i hi) hb

end Within

end Probe

end Octets
