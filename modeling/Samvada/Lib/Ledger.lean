import Mathlib.Data.List.Induction
import Mathlib.Data.Multiset.UnionInter

/- A ledger of resources: every resource acquired is held, or was given away, or
   was closed, and each leaves once. A move the ledger cannot book (closing or
   giving what is not held) has no replay, so a history that replays closes
   nothing twice and nothing it has given away. `After` follows what is held
   along a history. -/
namespace Ledger

/-- What happens to a resource. `returned` is the other side's: it closes what it
was given. -/
inductive Move (α : Type) where
  | acquire (x : α)
  | close (x : α)
  | give (x : α)
  | returned (x : α)
  deriving DecidableEq, Repr

/-- Where every resource ever acquired is now. -/
structure Books (α : Type) where
  held : Multiset α := 0
  given : Multiset α := 0
  closed : Multiset α := 0
  returned : Multiset α := 0

variable {α : Type} [DecidableEq α]

/-- One move booked, unless it names what is not there. -/
def Books.book (b : Books α) : Move α → Option (Books α)
  | .acquire x => some { b with held := x ::ₘ b.held }
  | .close x =>
    if x ∈ b.held then some { b with held := b.held.erase x, closed := x ::ₘ b.closed } else none
  | .give x =>
    if x ∈ b.held then some { b with held := b.held.erase x, given := x ::ₘ b.given } else none
  | .returned x =>
    if x ∈ b.given then some { b with given := b.given.erase x, returned := x ::ₘ b.returned }
    else none

/-- The books after a history. -/
def Books.replay (b : Books α) : List (Move α) → Option (Books α)
  | [] => some b
  | m :: ms => (b.book m).bind fun b' => b'.replay ms

theorem replay_append (b : Books α) (ms ms' : List (Move α)) :
    b.replay (ms ++ ms') = (b.replay ms).bind fun b' => b'.replay ms' := by
  induction ms generalizing b with
  | nil => rfl
  | cons m ms ih =>
    simp only [List.cons_append, Books.replay]
    cases b.book m with
    | none => rfl
    | some b' => exact ih b'

theorem replay_snoc {b b' : Books α} {ms : List (Move α)} (h : b.replay ms = some b') (m : Move α) :
    b.replay (ms ++ [m]) = b'.book m := by
  rw [replay_append, h]
  exact Option.bind_fun_some _

/-- What replays, replays up to any point. -/
theorem replay_prefix {b b' : Books α} {ms ms' : List (Move α)}
    (h : b.replay (ms ++ ms') = some b') : ∃ b₁, b.replay ms = some b₁ ∧
    b₁.replay ms' = some b' := by
  rw [replay_append] at h
  exact Option.bind_eq_some_iff.mp h

/-! ## Conservation -/

def Move.acquired : Move α → Multiset α
  | .acquire x => {x}
  | _ => 0

/-- Everything a history acquires. -/
def acquired (ms : List (Move α)) : Multiset α := (ms.map Move.acquired).sum

/-- Everything the books know of. -/
def Books.all (b : Books α) : Multiset α := b.held + b.given + b.closed + b.returned

/-- A move changes what the books know of by what it acquires. -/
theorem book_all {b b' : Books α} {m : Move α} (h : b.book m = some b') :
    b'.all = m.acquired + b.all := by
  unfold Books.book at h
  cases m with
  | acquire x =>
    cases h
    simp only [Books.all, Move.acquired, Multiset.singleton_add, Multiset.cons_add]
  | close x =>
    obtain ⟨hx, hb⟩ := Option.ite_none_right_eq_some.mp h
    obtain ⟨t, ht⟩ := Multiset.exists_cons_of_mem hx
    cases hb
    simp only [Books.all, Move.acquired, ht, Multiset.erase_cons_head, Multiset.cons_add,
      Multiset.add_cons, Multiset.zero_add]
  | give x =>
    obtain ⟨hx, hb⟩ := Option.ite_none_right_eq_some.mp h
    obtain ⟨t, ht⟩ := Multiset.exists_cons_of_mem hx
    cases hb
    simp only [Books.all, Move.acquired, ht, Multiset.erase_cons_head, Multiset.cons_add,
      Multiset.add_cons, Multiset.zero_add]
  | returned x =>
    obtain ⟨hx, hb⟩ := Option.ite_none_right_eq_some.mp h
    obtain ⟨t, ht⟩ := Multiset.exists_cons_of_mem hx
    cases hb
    simp only [Books.all, Move.acquired, ht, Multiset.erase_cons_head, Multiset.cons_add,
      Multiset.add_cons, Multiset.zero_add]

/-- **Conservation**: what a history acquires is all the books know of, each thing
in one place. -/
theorem replay_all {b b' : Books α} {ms : List (Move α)} (h : b.replay ms = some b') :
    b'.all = acquired ms + b.all := by
  induction ms generalizing b with
  | nil =>
    cases h
    exact (Multiset.zero_add _).symm
  | cons m ms ih =>
    obtain ⟨b₁, h₁, h₂⟩ := Option.bind_eq_some_iff.mp h
    calc b'.all = acquired ms + b₁.all := ih h₂
      _ = acquired ms + (m.acquired + b.all) := by rw [book_all h₁]
      _ = m.acquired + acquired ms + b.all := by
        rw [← Multiset.add_assoc, Multiset.add_comm (acquired ms)]
      _ = acquired (m :: ms) + b.all := by rw [acquired, acquired, List.map_cons, List.sum_cons]

/-! ## What is given -/

def Move.gives : Move α → Multiset α
  | .give x => {x}
  | _ => 0

/-- Everything a history gives away. -/
def given (ms : List (Move α)) : Multiset α := (ms.map Move.gives).sum

omit [DecidableEq α] in
theorem given_append (ms ms' : List (Move α)) : given (ms ++ ms') = given ms + given ms' := by
  induction ms with
  | nil => exact (Multiset.zero_add _).symm
  | cons m ms ih =>
    calc given (m :: ms ++ ms') = m.gives + given (ms ++ ms') := List.sum_cons
      _ = m.gives + (given ms + given ms') := by rw [ih]
      _ = given (m :: ms) + given ms' := (Multiset.add_assoc ..).symm

omit [DecidableEq α] in
theorem given_acquires (xs : List α) : given (xs.map Move.acquire) = 0 := by
  induction xs with
  | nil => rfl
  | cons x xs ih => exact (Multiset.zero_add _).trans ih

/-- What was given away stays given, or is returned. -/
theorem book_given {b b' : Books α} {m : Move α} (h : b.book m = some b') :
    b'.given + b'.returned = m.gives + (b.given + b.returned) := by
  unfold Books.book at h
  cases m with
  | acquire x =>
    cases h
    exact (Multiset.zero_add _).symm
  | close x =>
    obtain ⟨-, hb⟩ := Option.ite_none_right_eq_some.mp h
    cases hb
    exact (Multiset.zero_add _).symm
  | give x =>
    obtain ⟨-, hb⟩ := Option.ite_none_right_eq_some.mp h
    cases hb
    simp only [Move.gives, Multiset.singleton_add, Multiset.cons_add]
  | returned x =>
    obtain ⟨hx, hb⟩ := Option.ite_none_right_eq_some.mp h
    obtain ⟨t, ht⟩ := Multiset.exists_cons_of_mem hx
    cases hb
    simp only [Move.gives, ht, Multiset.erase_cons_head, Multiset.cons_add, Multiset.add_cons,
      Multiset.zero_add]

/-- **What a history gives away** is with the other side, or came back from it. -/
theorem replay_given {b b' : Books α} {ms : List (Move α)} (h : b.replay ms = some b') :
    b'.given + b'.returned = given ms + (b.given + b.returned) := by
  induction ms generalizing b with
  | nil =>
    cases h
    exact (Multiset.zero_add _).symm
  | cons m ms ih =>
    obtain ⟨b₁, h₁, h₂⟩ := Option.bind_eq_some_iff.mp h
    calc b'.given + b'.returned = given ms + (b₁.given + b₁.returned) := ih h₂
      _ = given ms + (m.gives + (b.given + b.returned)) := by rw [book_given h₁]
      _ = m.gives + given ms + (b.given + b.returned) := by
        rw [← Multiset.add_assoc, Multiset.add_comm (given ms)]
      _ = given (m :: ms) + (b.given + b.returned) := by
        rw [given, given, List.map_cons, List.sum_cons]

omit [DecidableEq α] in
theorem mem_acquired {ms : List (Move α)} {x : α} (h : x ∈ acquired ms) : .acquire x ∈ ms := by
  induction ms with
  | nil => exact absurd h (Multiset.notMem_zero x)
  | cons m ms ih =>
    rw [acquired, List.map_cons, List.sum_cons] at h
    rcases Multiset.mem_add.mp h with h | h
    · cases m with
      | acquire y =>
        rw [Multiset.mem_singleton.mp h]
        exact List.mem_cons_self
      | _ => exact absurd h (Multiset.notMem_zero x)
    · exact List.mem_cons_of_mem m (ih h)

/-- Only what was acquired is given away. -/
theorem given_acquired {b' : Books α} {ms : List (Move α)} (h : Books.replay {} ms = some b')
    {x : α} (hx : x ∈ given ms) : .acquire x ∈ ms := by
  apply mem_acquired
  have all : b'.all = acquired ms := (replay_all h).trans (Multiset.add_zero _)
  have out : b'.given + b'.returned = given ms := (replay_given h).trans (Multiset.add_zero _)
  rw [← out] at hx
  rw [← all, Books.all]
  rcases Multiset.mem_add.mp hx with hx | hx
  · exact Multiset.mem_add.mpr (.inl (Multiset.mem_add.mpr (.inl (Multiset.mem_add.mpr (.inr hx)))))
  · exact Multiset.mem_add.mpr (.inr hx)

/-! ## An honest environment -/

/-- What the environment promises of its moves: nothing acquired is open already,
and nothing is returned that was not given. -/
def Allowed (b : Books α) : Move α → Prop
  | .acquire x => x ∉ b.held + b.given
  | .returned x => x ∈ b.given
  | _ => True

def Honest (ms : List (Move α)) : Prop :=
  ∀ ms₁ m ms₂ b, ms = ms₁ ++ m :: ms₂ → Books.replay {} ms₁ = some b → Allowed b m

instance (b : Books α) (m : Move α) : Decidable (Allowed b m) := by
  cases m <;> unfold Allowed <;> infer_instance

/-- The check that decides `Honest`. -/
def Books.allows (b : Books α) : List (Move α) → Bool
  | [] => true
  | m :: ms => decide (Allowed b m) && match b.book m with
    | some b' => b'.allows ms
    | none => true

theorem allows_iff (ms : List (Move α)) : ∀ b : Books α, b.allows ms = true ↔
    ∀ ms₁ m ms₂ b', ms = ms₁ ++ m :: ms₂ → b.replay ms₁ = some b' → Allowed b' m := by
  induction ms with
  | nil => simp [Books.allows]
  | cons m ms ih =>
    intro b
    unfold Books.allows
    rw [Bool.and_eq_true, decide_eq_true_eq]
    constructor
    · rintro ⟨hm, hrest⟩ ms₁ m' ms₂ b' he hb
      cases ms₁ with
      | nil =>
        cases he
        cases hb
        exact hm
      | cons m₁ ms₁ =>
        cases he
        obtain ⟨b₁, h₁, h₂⟩ := Option.bind_eq_some_iff.mp hb
        rw [h₁] at hrest
        exact (ih b₁).mp hrest ms₁ m' ms₂ b' rfl h₂
    · intro h
      refine ⟨h [] m ms b rfl rfl, ?_⟩
      cases h₁ : b.book m with
      | none => rfl
      | some b₁ =>
        refine (ih b₁).mpr fun ms₁ m' ms₂ b' he hb =>
          h (m :: ms₁) m' ms₂ b' (congrArg (m :: ·) he) ?_
        exact Option.bind_eq_some_iff.mpr ⟨b₁, h₁, hb⟩

instance (ms : List (Move α)) : Decidable (Honest ms) := decidable_of_iff _ (allows_iff ms {})

theorem Honest.left {ms ms' : List (Move α)} (h : Honest (ms ++ ms')) : Honest ms := by
  rintro ms₁ m ms₂ b rfl hb
  exact h ms₁ m (ms₂ ++ ms') b (by simp) hb

theorem Honest.last {ms : List (Move α)} {m : Move α} {b : Books α} (h : Honest (ms ++ [m]))
    (hb : Books.replay {} ms = some b) : Allowed b m :=
  h ms m [] b rfl hb

theorem book_nodup {b b' : Books α} {m : Move α} (h : b.book m = some b') (ha : Allowed b m)
    (hn : (b.held + b.given).Nodup) : (b'.held + b'.given).Nodup := by
  unfold Books.book at h
  cases m with
  | acquire x =>
    cases h
    rw [Multiset.cons_add]
    exact Multiset.nodup_cons.mpr ⟨ha, hn⟩
  | close x =>
    obtain ⟨hx, hb⟩ := Option.ite_none_right_eq_some.mp h
    cases hb
    exact Multiset.nodup_of_le (Multiset.add_le_add_right (Multiset.erase_le x b.held)) hn
  | give x =>
    obtain ⟨hx, hb⟩ := Option.ite_none_right_eq_some.mp h
    obtain ⟨t, ht⟩ := Multiset.exists_cons_of_mem hx
    cases hb
    rw [ht, Multiset.erase_cons_head, Multiset.add_cons, ← Multiset.cons_add, ← ht]
    exact hn
  | returned x =>
    obtain ⟨hx, hb⟩ := Option.ite_none_right_eq_some.mp h
    cases hb
    exact Multiset.nodup_of_le (Multiset.add_le_add_left (Multiset.erase_le x b.given)) hn

/-- **One name, one resource**: what is open is open once. -/
theorem honest_nodup {ms : List (Move α)} {b : Books α} (h : Honest ms)
    (hb : Books.replay {} ms = some b) : (b.held + b.given).Nodup := by
  induction ms using List.reverseRecOn generalizing b with
  | nil =>
    cases hb
    exact Multiset.nodup_zero
  | append_singleton ms m ih =>
    obtain ⟨b₁, h₁, h₂⟩ := replay_prefix hb
    have booked : b₁.book m = some b := h₂ ▸ (Option.bind_fun_some _).symm
    exact book_nodup booked (h.last h₁) (ih h.left h₁)

/-- What is closed was held, and not given away. -/
theorem closed_held {ms ms' : List (Move α)} {x : α} {b b' : Books α}
    (hr : Books.replay {} (ms ++ .close x :: ms') = some b') (hb : Books.replay {} ms = some b)
    (h : Honest ms) : x ∈ b.held ∧ x ∉ b.given := by
  obtain ⟨b₁, h₁, h₂⟩ := replay_prefix hr
  rw [hb] at h₁
  cases h₁
  obtain ⟨b₂, h₃, -⟩ := Option.bind_eq_some_iff.mp h₂
  have hx : x ∈ b.held := (Option.ite_none_right_eq_some.mp h₃).1
  exact ⟨hx, fun hg => Multiset.disjoint_left.mp (Multiset.nodup_add.mp (honest_nodup h hb)).2.2 hx
    hg⟩

/-! ## What is held along a history -/

/-- The history replays, and leaves `xs` held. -/
def After (ms : List (Move α)) (xs : Multiset α) : Prop :=
  ∃ b, Books.replay {} ms = some b ∧ b.held = xs

namespace After
variable {ms : List (Move α)} {xs : Multiset α} {x : α}

theorem nil : After ([] : List (Move α)) 0 := ⟨{}, rfl, rfl⟩

theorem of_eq {ys : Multiset α} (h : After ms xs) (e : xs = ys) : After ms ys := e ▸ h

theorem acquire (h : After ms xs) (x : α) : After (ms ++ [.acquire x]) (x ::ₘ xs) := by
  obtain ⟨b, hb, rfl⟩ := h
  exact ⟨_, replay_snoc hb _, rfl⟩

theorem close (h : After ms (x ::ₘ xs)) : After (ms ++ [.close x]) xs := by
  obtain ⟨b, hb, hx⟩ := h
  refine ⟨_, (replay_snoc hb _).trans (if_pos (hx ▸ Multiset.mem_cons_self x xs)), ?_⟩
  rw [hx]
  exact Multiset.erase_cons_head x xs

theorem give (h : After ms (x ::ₘ xs)) : After (ms ++ [.give x]) xs := by
  obtain ⟨b, hb, hx⟩ := h
  refine ⟨_, (replay_snoc hb _).trans (if_pos (hx ▸ Multiset.mem_cons_self x xs)), ?_⟩
  rw [hx]
  exact Multiset.erase_cons_head x xs

theorem returned (h : After ms xs) (hh : Honest (ms ++ [.returned x])) :
    After (ms ++ [.returned x]) xs := by
  obtain ⟨b, hb, rfl⟩ := h
  exact ⟨_, (replay_snoc hb _).trans (if_pos (hh.last hb)), rfl⟩

theorem acquires (h : After ms xs) (l : List α) : After (ms ++ l.map .acquire)
    (xs + (l : Multiset α)) := by
  induction l generalizing ms xs with
  | nil => simpa using h
  | cons x l ih =>
    have := ih (h.acquire x)
    rwa [List.append_assoc, Multiset.cons_add, ← Multiset.add_cons] at this

theorem closes {l : List α} (h : After ms (xs + (l : Multiset α))) :
    After (ms ++ l.map .close) xs := by
  induction l generalizing ms with
  | nil => simpa using h
  | cons x l ih =>
    rw [← Multiset.cons_coe, Multiset.add_cons] at h
    have := ih h.close
    rwa [List.append_assoc] at this

end After

end Ledger
