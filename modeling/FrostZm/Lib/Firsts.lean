import Mathlib.Data.List.Dedup
import Mathlib.Data.List.Induction
import Mathlib.Tactic.Common

/-!
# The first item of each key

A reader that keeps an item if no earlier one has its key, and drops it otherwise.
-/

namespace Firsts

variable {α κ : Type} [DecidableEq κ] (key : α → κ)

def keep (kept : List α) (a : α) : List α := if key a ∈ kept.map key then kept else kept ++ [a]

def firsts (l : List α) : List α := l.foldl (keep key) []

variable {key} {l l' : List α} {a : α} {k : κ}

@[simp] theorem firsts_nil : firsts key [] = [] := rfl

theorem firsts_concat (l : List α) (a : α) : firsts key (l ++ [a]) = keep key (firsts key l) a := by
  rw [firsts, List.foldl_append]
  rfl

theorem mem_map_firsts : k ∈ (firsts key l).map key ↔ k ∈ l.map key := by
  induction l using List.reverseRecOn with
  | nil => rfl
  | append_singleton l a ih =>
    rw [firsts_concat, keep, List.map_append, List.mem_append, ← ih]
    split
    · next hold =>
      simp only [List.map_cons, List.map_nil, List.mem_singleton, iff_self_or]
      rintro rfl
      exact hold
    · simp

theorem nodup_firsts (key : α → κ) (l : List α) : ((firsts key l).map key).Nodup := by
  induction l using List.reverseRecOn with
  | nil => exact List.nodup_nil
  | append_singleton l a ih =>
    rw [firsts_concat, keep]
    split
    · exact ih
    · next hnew =>
      rw [List.map_append, List.nodup_append_comm]
      exact List.nodup_cons.mpr ⟨hnew, ih⟩

theorem mem_firsts_iff :
    a ∈ firsts key l ↔ ∃ before after, l = before ++ a :: after ∧ key a ∉ before.map key := by
  induction l using List.reverseRecOn with
  | nil => simp
  | append_singleton l b ih =>
    rw [firsts_concat, keep]
    constructor
    · intro h
      have hcases : a ∈ firsts key l ∨ a = b ∧ key b ∉ (firsts key l).map key := by
        split at h
        · exact .inl h
        · next hnew =>
          rcases List.mem_append.mp h with h | h
          · exact .inl h
          · exact .inr ⟨List.mem_singleton.mp h, hnew⟩
      rcases hcases with h | ⟨rfl, hnew⟩
      · obtain ⟨before, after, rfl, hfirst⟩ := ih.mp h
        exact ⟨before, after ++ [b], by simp, hfirst⟩
      · exact ⟨l, [], rfl, fun hmem => hnew (mem_map_firsts.mpr hmem)⟩
    · rintro ⟨before, after, heq, hfirst⟩
      rcases List.eq_nil_or_concat after with rfl | ⟨after, c, rfl⟩
      · obtain ⟨rfl, hb⟩ := List.append_inj' heq rfl
        obtain rfl := List.singleton_inj.mp hb
        rw [if_neg fun hmem => hfirst (mem_map_firsts.mp hmem)]
        exact List.mem_append_right _ (List.mem_singleton_self _)
      · rw [List.concat_eq_append, ← List.cons_append, ← List.append_assoc] at heq
        obtain ⟨rfl, -⟩ := List.append_inj' heq rfl
        have hmem := ih.mpr ⟨before, after, rfl, hfirst⟩
        split
        · exact hmem
        · exact List.mem_append_left _ hmem

theorem length_firsts (key : α → κ) (l : List α) :
    (firsts key l).length = (l.map key).dedup.length := by
  rw [← List.length_map key]
  apply List.Perm.length_eq
  rw [List.perm_ext_iff_of_nodup (nodup_firsts key l) (List.nodup_dedup _)]
  intro k
  rw [mem_map_firsts, List.mem_dedup]

end Firsts
