import Mathlib

/-!
# What the parts of a list are worth

The value of a part need not be a field of it: all that is known is a relation between parts
and values, as between a commitment and what it opens to.
-/

variable {α : Type} {opens : α → Nat → Prop} {parts : List α} {n m : Nat}

/-- The values of the parts add up to `n`. -/
def Worth (opens : α → Nat → Prop) (parts : List α) (n : Nat) : Prop :=
  ∃ values, List.Forall₂ opens parts values ∧ values.sum = n

namespace Worth

theorem nil : Worth opens [] 0 := ⟨[], .nil, rfl⟩

@[simp] theorem nil_iff : Worth opens [] n ↔ n = 0 := by
  constructor
  · rintro ⟨values, h, rfl⟩
    rw [List.forall₂_nil_left_iff.mp h, List.sum_nil]
  · rintro rfl
    exact nil

theorem concat {a : α} {v : Nat} (h : Worth opens parts n) (ha : opens a v) :
    Worth opens (parts ++ [a]) (n + v) := by
  obtain ⟨values, hv, rfl⟩ := h
  refine ⟨values ++ [v], List.rel_append hv (.cons ha .nil), ?_⟩
  rw [List.sum_append, List.sum_singleton]

theorem unique (hopens : Relator.RightUnique opens) (hn : Worth opens parts n)
    (hm : Worth opens parts m) : n = m := by
  obtain ⟨vs, hvs, rfl⟩ := hn
  obtain ⟨ws, hws, rfl⟩ := hm
  rw [List.right_unique_forall₂' hopens hvs hws]

end Worth

/-- A running total beside a list: what was moved out of the list before, and what is in it. -/
def Tally (opens : α → Nat → Prop) (total taken : Nat) (parts : List α) : Prop :=
  ∃ n, Worth opens parts n ∧ total = taken + n

namespace Tally

theorem nil : Tally opens n n [] := ⟨0, Worth.nil, rfl⟩

theorem concat {a : α} {v total taken : Nat} (h : Tally opens total taken parts)
    (ha : opens a v) : Tally opens (total + v) taken (parts ++ [a]) := by
  obtain ⟨n, hn, rfl⟩ := h
  exact ⟨n + v, hn.concat ha, Nat.add_assoc taken n v⟩

end Tally
