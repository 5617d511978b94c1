import Mathlib.Algebra.BigOperators.Group.List.Basic
import Mathlib.Algebra.Order.BigOperators.Group.List
import Mathlib.Data.List.Perm.Subperm
import Mathlib.Data.UInt
import Mathlib.Tactic.Common
import Mathlib.Tactic.Linarith

/-!
# Choosing items that cover a cost

The items of a choice must be worth what as many items cost. Where the cost grows by the same
rate with each item, the best choice and the best prefix of an ascending list are known.
-/

namespace Selection

variable {α : Type} (value : α → Nat)

/-- What the items of a list are worth together. -/
def total (l : List α) : Nat := (l.map value).sum

/-- The items are worth what as many of them cost. -/
def Covers (cost : Nat → Nat) (l : List α) : Prop := cost l.length ≤ total value l

instance (cost : Nat → Nat) (l : List α) : Decidable (Covers value cost l) :=
  inferInstanceAs (Decidable (_ ≤ _))

variable {value} {cost : Nat → Nat} {l sub : List α} {k : Nat}

@[simp] theorem total_nil : total value [] = 0 := rfl

@[simp] theorem total_cons (a : α) (l : List α) : total value (a :: l) = value a + total value l :=
  List.sum_cons

@[simp] theorem total_append (l l' : List α) :
    total value (l ++ l') = total value l + total value l' := by
  rw [total, List.map_append, List.sum_append]
  rfl

theorem total_perm {l' : List α} (h : l.Perm l') : total value l = total value l' :=
  (h.map value).sum_eq

variable (value) in
theorem total_take_add_drop (k : Nat) (l : List α) :
    total value (l.take k) + total value (l.drop k) = total value l := by
  rw [← total_append, List.take_append_drop]

theorem total_take_le (k : Nat) (l : List α) : total value (l.take k) ≤ total value l := by
  rw [← total_take_add_drop value k l]
  exact Nat.le_add_right _ _

theorem rate_le_total {rate : Nat} (h : ∀ a ∈ l, rate ≤ value a) : rate * l.length ≤ total value l := by
  induction l with
  | nil => exact Nat.le_refl 0
  | cons a l ih =>
    rw [List.forall_mem_cons] at h
    have hl := ih h.2
    rw [total_cons, List.length_cons, Nat.mul_succ]
    omega

theorem toNat_sum_map (f : α → UInt64) (l : List α) :
    (l.map f).sum.toNat = total (fun a => (f a).toNat) l % 2 ^ 64 := by
  induction l with
  | nil => rfl
  | cons a l ih => rw [List.map_cons, List.sum_cons, UInt64.toNat_add, ih, total_cons, Nat.add_mod_mod]

theorem total_le_of_subperm (h : sub.Subperm l) : total value sub ≤ total value l := by
  obtain ⟨s, hperm, hs⟩ := h
  rw [← total_perm hperm]
  exact (hs.map value).sum_le_sum fun _ _ => Nat.zero_le _

theorem total_le_rate {rate : Nat} (h : ∀ a ∈ l, value a ≤ rate) : total value l ≤ rate * l.length := by
  induction l with
  | nil => exact Nat.le_refl 0
  | cons a l ih =>
    rw [List.forall_mem_cons] at h
    have hl := ih h.2
    rw [total_cons, List.length_cons, Nat.mul_succ]
    omega

/-! ## The largest items -/

variable (value) in
/-- The largest items come first. -/
abbrev Descending (l : List α) : Prop := l.Pairwise fun a b => value b ≤ value a

variable (value) in
abbrev Ascending (l : List α) : Prop := l.Pairwise fun a b => value a ≤ value b

variable (value) in
theorem descending_mergeSort {le : α → α → Bool} (hle : ∀ a b, le a b ↔ value b ≤ value a)
    (l : List α) : Descending value (l.mergeSort le) := by
  refine (List.pairwise_mergeSort ?_ ?_ l).imp fun h => (hle _ _).mp h
  · intro a b c hab hbc
    rw [hle] at *
    exact hbc.trans hab
  · intro a b
    rw [Bool.or_eq_true, hle, hle]
    exact Nat.le_total _ _

variable (value) in
theorem ascending_mergeSort {le : α → α → Bool} (hle : ∀ a b, le a b ↔ value a ≤ value b)
    (l : List α) : Ascending value (l.mergeSort le) := by
  refine (List.pairwise_mergeSort ?_ ?_ l).imp fun h => (hle _ _).mp h
  · intro a b c hab hbc
    rw [hle] at *
    exact hab.trans hbc
  · intro a b
    rw [Bool.or_eq_true, hle, hle]
    exact Nat.le_total _ _

theorem total_take_le_cons {a : α} (h : ∀ b ∈ l, value b ≤ value a) (k : Nat) :
    total value (l.take k) ≤ total value ((a :: l).take k) := by
  cases k with
  | zero => exact Nat.le_refl 0
  | succ k =>
    rw [List.take_succ_cons, List.take_add_one, total_append, total_cons, Nat.add_comm]
    refine Nat.add_le_add_right ?_ _
    cases hget : l[k]? with
    | none => exact Nat.zero_le _
    | some b => exact h b (List.mem_of_getElem? hget)

theorem total_le_take (hl : Descending value l) (h : sub.Subperm l) :
    total value sub ≤ total value (l.take sub.length) := by
  obtain ⟨s, hperm, hs⟩ := h
  rw [← total_perm hperm, ← hperm.length_eq]
  clear hperm
  induction hs with
  | slnil => exact Nat.le_refl 0
  | cons a hsub ih =>
    obtain ⟨hfirst, hl⟩ := List.pairwise_cons.mp hl
    exact (ih hl).trans (total_take_le_cons hfirst _)
  | cons_cons a hsub ih =>
    rw [List.length_cons, List.take_succ_cons, total_cons, total_cons]
    exact Nat.add_le_add_left (ih (List.pairwise_cons.mp hl).2) _

theorem covers_take (hl : Descending value l) (h : sub.Subperm l) (hc : Covers value cost sub) :
    Covers value cost (l.take sub.length) := by
  have hlen : (l.take sub.length).length = sub.length := by
    rw [List.length_take, Nat.min_eq_left h.length_le]
  unfold Covers
  rw [hlen]
  exact hc.trans (total_le_take hl h)

/-! ## A cost that grows by a rate -/

/-- The cost of the first `least` items is `base`, and each further one costs `rate`. -/
def linearCost (base rate least k : Nat) : Nat := base + rate * (k - least)

variable (value) in
/-- The `least` largest items, and all others that are worth what they cost. -/
def worthwhile (rate least : Nat) (l : List α) : List α :=
  l.take least ++ (l.drop least).filter fun a => rate ≤ value a

variable {base rate least : Nat}

theorem worthwhile_sublist : (worthwhile value rate least l).Sublist l := by
  have h := (List.Sublist.refl (l.take least)).append
    (List.filter_sublist (l := l.drop least) (p := fun a => rate ≤ value a))
  rwa [List.take_append_drop] at h

variable (value rate) in
theorem total_add_le_filter (h : sub.Sublist l) :
    total value sub + rate * (l.filter fun a => rate ≤ value a).length ≤
      total value (l.filter fun a => rate ≤ value a) + rate * sub.length := by
  induction h with
  | slnil => exact Nat.le_refl _
  | cons a hsub ih =>
    by_cases ha : rate ≤ value a
    · rw [List.filter_cons, if_pos (decide_eq_true ha), List.length_cons, total_cons, Nat.mul_succ]
      omega
    · rw [List.filter_cons_of_neg (by simpa using ha)]
      exact ih
  | cons_cons a hsub ih =>
    by_cases ha : rate ≤ value a
    · rw [List.filter_cons, if_pos (decide_eq_true ha), List.length_cons, List.length_cons,
        total_cons, total_cons, Nat.mul_succ, Nat.mul_succ]
      omega
    · rw [List.filter_cons_of_neg (by simpa using ha), List.length_cons, total_cons, Nat.mul_succ]
      omega

/-- If any choice covers its cost, the worthwhile items do. -/
theorem worthwhile_covers (hl : Descending value l) (h : sub.Subperm l)
    (hc : Covers value (linearCost base rate least) sub) :
    Covers value (linearCost base rate least) (worthwhile value rate least l) := by
  have hk := h.length_le
  have htake := hc.trans (total_le_take hl h)
  have hfilter : rate * ((l.drop least).filter fun a => rate ≤ value a).length ≤
      total value ((l.drop least).filter fun a => rate ≤ value a) :=
    rate_le_total fun a ha => of_decide_eq_true (List.mem_filter.mp ha).2
  have hlen : (worthwhile value rate least l).length - least ≤
      ((l.drop least).filter fun a => rate ≤ value a).length := by
    have := List.length_take_le least l
    rw [worthwhile, List.length_append]
    omega
  have hcost := Nat.mul_le_mul_left rate hlen
  unfold Covers linearCost at htake ⊢
  rw [worthwhile, total_append] at *
  by_cases hle : sub.length ≤ least
  · -- fewer than `least` items: the first ones are worth as much and cost the same
    have hfirst : total value (l.take sub.length) ≤ total value (l.take least) := by
      rw [← Nat.min_eq_left hle, ← List.take_take]
      exact total_take_le _ _
    omega
  · rw [not_le] at hle
    have hsplit : l.take sub.length = l.take least ++ (l.drop least).take (sub.length - least) := by
      rw [← List.take_add, Nat.add_sub_cancel' hle.le]
    have hrest := total_add_le_filter value rate (List.take_sublist (sub.length - least) (l.drop least))
    have hmin : ((l.drop least).take (sub.length - least)).length = sub.length - least := by
      rw [List.length_take, List.length_drop]
      omega
    rw [hsplit, total_append] at htake
    rw [hmin] at hrest
    omega

/-- A prefix of an ascending list that covers its cost is no better than one of the two ends. -/
theorem ends_cover (hl : Ascending value l) (hk : k ≤ l.length)
    (hc : Covers value (linearCost base rate least) (l.take k)) :
    Covers value (linearCost base rate least) (l.take least) ∨
      Covers value (linearCost base rate least) l := by
  unfold Covers linearCost at *
  have hlen : (l.take k).length = k := by rw [List.length_take, Nat.min_eq_left hk]
  have hfirst : (l.take least).length - least = 0 := by
    have := List.length_take_le least l
    omega
  rw [hlen] at hc
  rw [hfirst, Nat.mul_zero, Nat.add_zero]
  by_cases hle : k ≤ least
  · left
    have hsub : total value (l.take k) ≤ total value (l.take least) := by
      rw [← Nat.min_eq_left hle, ← List.take_take]
      exact total_take_le _ _
    omega
  · rw [not_le] at hle
    by_cases hsmall : ∀ a ∈ (l.take k).drop least, value a ≤ rate
    · -- what the prefix has beyond the first items is worth no more than it costs
      left
      have hrest := total_le_rate hsmall
      have htotal := total_take_add_drop value least (l.take k)
      rw [List.take_take, Nat.min_eq_left hle.le] at htotal
      rw [List.length_drop, hlen] at hrest
      omega
    · -- some item of the prefix is worth more, and so is every item behind the prefix
      right
      obtain ⟨a, ha, hlarge⟩ : ∃ a ∈ (l.take k).drop least, rate < value a := by simpa using hsmall
      have hbehind : ∀ b ∈ l.drop k, rate ≤ value b := by
        intro b hb
        have hpair : (l.take k ++ l.drop k).Pairwise fun a b => value a ≤ value b := by
          rwa [List.take_append_drop]
        have hab := (List.pairwise_append.mp hpair).2.2 a (List.mem_of_mem_drop ha) b hb
        omega
      have hrest := rate_le_total hbehind
      have htotal := total_take_add_drop value k l
      rw [List.length_drop] at hrest
      have hcost : rate * (l.length - least) = rate * (l.length - k) + rate * (k - least) := by
        rw [← Nat.mul_add]
        congr 1
        omega
      omega

end Selection
