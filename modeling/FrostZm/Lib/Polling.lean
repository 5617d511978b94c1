import Mathlib.Data.List.Nodup
import Mathlib.Data.List.Infix
import Mathlib.Tactic.Common

/-!
# A log that is polled

A reader polls a log that grows. A poll returns a beginning of the log that is not shorter than
the last one, or only what comes behind the last one. The reader skips what it has seen.
-/

namespace Polling

structure Reader (μ κ : Type) where
  /-- How much of the log the polls have returned. -/
  returned : Nat := 0
  /-- The part of the last poll that the reader has not looked at. -/
  rest : List μ := []
  seen : List κ := []
  /-- What it did not skip, in that order. -/
  taken : List μ := []

variable {μ κ : Type} [DecidableEq κ]

namespace Reader

def poll (r : Reader μ κ) (log : List μ) (whole : Bool) (k : Nat) : Option (Reader μ κ) :=
  if r.returned ≤ k ∧ k ≤ log.length then
    some { r with
      returned := k
      rest := if whole then log.take k else (log.take k).drop r.returned }
  else none

/-- Looks at the next item, and takes it unless it was seen. -/
def look (key : μ → κ) (r : Reader μ κ) : Option (Option μ × Reader μ κ) :=
  match r.rest with
  | [] => none
  | m :: rest =>
    if key m ∈ r.seen then some (none, { r with rest })
    else some (some m, { r with rest, seen := key m :: r.seen, taken := r.taken ++ [m] })

theorem look_eq_none_iff {key : μ → κ} {r : Reader μ κ} : r.look key = none ↔ r.rest = [] := by
  unfold look
  cases r.rest with
  | nil => exact iff_of_true rfl rfl
  | cons m rest => simp only [reduceCtorEq, iff_false]; split <;> exact nofun

end Reader

/-- The reader has taken a beginning of the log, and finds what comes behind it in its poll. -/
structure Reads (key : μ → κ) (log : List μ) (r : Reader μ κ) : Prop where
  nodup : (log.map key).Nodup
  returned_le : r.returned ≤ log.length
  seen : ∀ k, k ∈ r.seen ↔ k ∈ r.taken.map key
  split : r.taken ++ r.rest.filter (fun m => key m ∉ r.seen) = log.take r.returned

namespace Reads

variable {key : μ → κ} {log : List μ} {r r' : Reader μ κ} {m : μ}

theorem start (key : μ → κ) : Reads key [] {} := ⟨List.nodup_nil, Nat.le_refl _, fun _ => Iff.rfl, rfl⟩

theorem append (h : Reads key log r) (hnew : key m ∉ log.map key) : Reads key (log ++ [m]) r where
  nodup := by
    rw [List.map_append, List.nodup_append_comm]
    exact List.nodup_cons.mpr ⟨hnew, h.nodup⟩
  returned_le := by
    rw [List.length_append]
    exact Nat.le_add_right_of_le h.returned_le
  seen := h.seen
  split := by rw [h.split, List.take_append_of_le_length h.returned_le]

theorem taken_le (h : Reads key log r) : r.taken <+: log :=
  (List.prefix_append _ _).trans (h.split ▸ List.take_prefix _ _)

theorem taken_eq (h : Reads key log r) (hrest : r.rest = []) : r.taken = log.take r.returned := by
  rw [← h.split, hrest, List.filter_nil, List.append_nil]

theorem poll (h : Reads key log r) (hrest : r.rest = []) {whole : Bool} {k : Nat}
    (hpoll : r.poll log whole k = some r') : Reads key log r' := by
  unfold Reader.poll at hpoll
  split at hpoll
  · next hk =>
    obtain rfl := Option.some.inj hpoll
    refine ⟨h.nodup, hk.2, h.seen, ?_⟩
    have htaken := h.taken_eq hrest
    have htake : (log.take k).take r.returned = log.take r.returned := by
      rw [List.take_take, Nat.min_eq_left hk.1]
    have hsplit : log.take k = r.taken ++ (log.take k).drop r.returned := by
      rw [htaken, ← htake, List.take_append_drop]
    have hnodup : ((log.take k).map key).Nodup := h.nodup.sublist ((List.take_sublist k log).map key)
    rw [hsplit, List.map_append, List.nodup_append] at hnodup
    have hold : r.taken.filter (fun m => key m ∉ r.seen) = [] := by
      apply List.filter_eq_nil_iff.mpr
      intro m hm
      simpa [h.seen] using ⟨m, hm, rfl⟩
    have hnew : ((log.take k).drop r.returned).filter (fun m => key m ∉ r.seen) =
        (log.take k).drop r.returned := by
      apply List.filter_eq_self.mpr
      intro m hm
      rw [decide_eq_true_eq, h.seen]
      exact fun hmem => hnodup.2.2 _ hmem _ (List.mem_map_of_mem hm) rfl
    cases whole with
    | true =>
      simp only [if_true]
      rw [hsplit, List.filter_append, hold, List.nil_append]
      exact congrArg _ hnew
    | false =>
      simp only [Bool.false_eq_true, if_false]
      rw [hnew, ← hsplit]
  · nomatch hpoll

theorem look_none (h : Reads key log r) (hlook : r.look key = some (none, r')) :
    Reads key log r' ∧ r'.taken = r.taken ∧ r'.seen = r.seen := by
  unfold Reader.look at hlook
  split at hlook
  · nomatch hlook
  · next m rest hrest =>
    split at hlook
    · next hold =>
      obtain rfl := (Prod.mk.inj (Option.some.inj hlook)).2
      refine ⟨⟨h.nodup, h.returned_le, h.seen, ?_⟩, rfl, rfl⟩
      rw [← h.split, hrest, List.filter_cons_of_neg (by simpa using hold)]
    · nomatch (Prod.mk.inj (Option.some.inj hlook)).1

theorem look_some (h : Reads key log r) (hlook : r.look key = some (some m, r')) :
    Reads key log r' ∧ r'.taken = r.taken ++ [m] ∧ r'.seen = key m :: r.seen ∧ key m ∉ r.seen ∧
      m ∈ log := by
  unfold Reader.look at hlook
  split at hlook
  · nomatch hlook
  · next m' rest hrest =>
    split at hlook
    · nomatch (Prod.mk.inj (Option.some.inj hlook)).1
    · next hnew =>
      obtain ⟨hm, rfl⟩ := Prod.mk.inj (Option.some.inj hlook)
      obtain rfl := Option.some.inj hm
      have hsplit := h.split
      rw [hrest, List.filter_cons_of_pos (by simpa using hnew)] at hsplit
      have hsub : List.Sublist (log.take r.returned) log := List.take_sublist _ _
      rw [← hsplit] at hsub
      have hnodup := h.nodup.sublist (hsub.map key)
      rw [List.map_append, List.map_cons, List.nodup_append, List.nodup_cons] at hnodup
      refine ⟨⟨h.nodup, h.returned_le, ?_, ?_⟩, rfl, rfl, hnew, ?_⟩
      · intro k
        rw [List.mem_cons, h.seen, List.map_append, List.mem_append, or_comm, List.map_singleton,
          List.mem_singleton]
      · rw [← hsplit, List.append_assoc, List.singleton_append]
        congr 2
        apply List.filter_congr
        intro x hx
        simp only [List.mem_cons, not_or, decide_eq_decide, and_iff_right_iff_imp]
        intro hx' heq
        apply hnodup.2.1.1
        rw [← heq]
        exact List.mem_map_of_mem (List.mem_filter.mpr ⟨hx, decide_eq_true hx'⟩)
      · exact hsub.subset (List.mem_append_right _ List.mem_cons_self)

end Reads

end Polling
