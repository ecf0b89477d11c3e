import Mathlib.Data.Finset.Card
import Mathlib.Data.List.Perm.Basic
import Mathlib.Data.Multiset.MapFold

/- An unordered array of keys. It stands for a finite set of whatever the keys are
   the keys of (`Holds`): an entry is added at the end, and one that is removed is
   overwritten with the last entry, which is then cut off (`swapRemove`). Both keep
   the array standing for the set (`Holds.insert`, `Holds.erase`); where the key
   tells the members of the set apart, no key stands in the array twice
   (`Holds.nodup`) and looking a key up decides membership (`Holds.mem_iff`). -/
namespace Slots
variable {α κ : Type}

/-! ## Removing an entry -/

/-- Remove an entry: the last one takes its place. -/
def swapRemove (l : List κ) (i : Nat) : List κ :=
  match l.getLast? with
  | none => []
  | some last => (l.set i last).dropLast

theorem swapRemove_concat (l : List κ) (last : κ) (i : Nat) :
    swapRemove (l ++ [last]) i = ((l ++ [last]).set i last).dropLast := by
  rw [swapRemove, List.getLast?_concat]

/-- What is removed is the entry, once. -/
theorem swapRemove_perm {l : List κ} {i : Nat} (h : i < l.length) :
    (l[i] :: swapRemove l i).Perm l := by
  obtain rfl | ⟨l, last, e⟩ := List.eq_nil_or_concat l
  · cases h
  rw [List.concat_eq_append] at e
  subst e
  rw [swapRemove_concat]
  rw [List.length_append, List.length_singleton] at h
  by_cases hi : i < l.length
  · have front : (l ++ [last]).set i last = l.set i last ++ [last] := List.set_append_left i last hi
    rw [front, List.dropLast_concat, List.getElem_append_left hi]
    calc (l[i] :: l.set i last).Perm (l[i] :: last :: l.eraseIdx i) :=
      (List.set_perm_cons_eraseIdx hi last).cons _
      _ |>.Perm (last :: l[i] :: l.eraseIdx i) := .swap _ _ _
      _ |>.Perm (last :: l) := (List.getElem_cons_eraseIdx_perm hi).cons _
      _ |>.Perm (l ++ [last]) := (List.perm_append_singleton last l).symm
  · -- the entry is the last one
    have : i = l.length := by omega
    subst this
    have same : (l ++ [last]).set l.length last = l ++ [last] := by
      rw [List.set_append_right l.length last (Nat.le_refl _), Nat.sub_self, List.set_cons_zero]
    rw [same, List.dropLast_concat, List.getElem_concat_length rfl]
    exact (List.perm_append_singleton last l).symm

/-! ## The set an array stands for -/

/-- The entries of `l` are the keys of the members of `s`, one each. -/
def Holds (key : α → κ) (l : List κ) (s : Finset α) : Prop := (l : Multiset κ) = s.val.map key

namespace Holds
variable {key : α → κ} {l : List κ} {s : Finset α} {d : α}

theorem nil : Holds key ([] : List κ) ∅ := rfl

theorem length (h : Holds key l s) : l.length = s.card := by
  have := congrArg Multiset.card h
  rwa [Multiset.coe_card, Multiset.card_map, Finset.card_val] at this

theorem eq_nil (h : Holds key l s) : l = [] ↔ s = ∅ := by
  rw [← List.length_eq_zero_iff, h.length, Finset.card_eq_zero]

theorem mem (h : Holds key l s) (hd : d ∈ s) : key d ∈ l := by
  rw [← Multiset.mem_coe, h]
  exact Multiset.mem_map_of_mem key hd

theorem exists_of_mem (h : Holds key l s) {k : κ} (hk : k ∈ l) : ∃ d ∈ s, key d = k := by
  rw [← Multiset.mem_coe, h] at hk
  exact Multiset.mem_map.mp hk

/-- A key that tells `d` from the members finds it. -/
theorem mem_iff (h : Holds key l s) (apart : ∀ e ∈ s, key e = key d → e = d) :
    key d ∈ l ↔ d ∈ s := by
  refine ⟨fun hk => ?_, h.mem⟩
  obtain ⟨e, he, hkey⟩ := h.exists_of_mem hk
  exact apart e he hkey ▸ he

theorem nodup (h : Holds key l s) (apart : ∀ d ∈ s, ∀ e ∈ s, key d = key e → d = e) : l.Nodup := by
  rw [← Multiset.coe_nodup, h]
  exact Multiset.Nodup.map_on apart s.nodup

variable [DecidableEq α]

theorem insert (h : Holds key l s) (new : d ∉ s) : Holds key (l ++ [key d]) (insert d s) := by
  have add : ((l ++ [key d] : List κ) : Multiset κ) = key d ::ₘ (l : Multiset κ) :=
    Multiset.coe_eq_coe.mpr (List.perm_append_singleton (key d) l)
  rw [Holds, add, h, Finset.insert_val_of_notMem new, Multiset.map_cons]

theorem erase (h : Holds key l s) (hd : d ∈ s) {i : Nat} (hi : i < l.length)
    (found : l[i] = key d) : Holds key (swapRemove l i) (s.erase d) := by
  have gone : key d ::ₘ (swapRemove l i : Multiset κ) = l := by
    rw [← found]
    exact Multiset.coe_eq_coe.mpr (swapRemove_perm hi)
  have left : s.val = d ::ₘ (s.erase d).val := by rw [Finset.erase_val, Multiset.cons_erase hd]
  have both : key d ::ₘ (swapRemove l i : Multiset κ) = key d ::ₘ (s.erase d).val.map key := by
    rw [gone, h, left, Multiset.map_cons]
  exact (Multiset.cons_inj_right _).mp both

end Holds
end Slots
