import Mathlib.Data.Int.Interval
import Mathlib.Data.Set.Finite.Lemmas
import Mathlib.Order.Interval.Set.Infinite
import Mathlib.Tactic.Common

/-!
# Walks of a partial function

A walk goes from each place to the next until there is none. Among finitely many places it ends
unless it comes back to where it has been.
-/

namespace Walks

variable {α : Type} {next : α → Option α} {a b : α} {m n : Nat}

/-- Where so many steps lead, if the walk has not ended. -/
def after (next : α → Option α) : Nat → α → Option α
  | 0, a => some a
  | n + 1, a => (next a).bind (after next n)

def Ends (next : α → Option α) (a : α) : Prop := ∃ n, after next n a = none

/-- The walk passes a place that it comes back to. -/
def Closes (next : α → Option α) (a : α) : Prop :=
  ∃ m b k, after next m a = some b ∧ after next (k + 1) b = some b

theorem after_add (m n : Nat) (a : α) :
    after next (m + n) a = (after next m a).bind (after next n) := by
  induction m generalizing a with
  | zero =>
    rw [Nat.zero_add]
    rfl
  | succ m ih =>
    rw [Nat.succ_add, after, after]
    cases next a with
    | none => rfl
    | some b => exact ih b

theorem after_eq_none_of_le (h : after next m a = none) (hle : m ≤ n) : after next n a = none := by
  obtain ⟨k, rfl⟩ := Nat.exists_eq_add_of_le hle
  rw [after_add, h]
  rfl

theorem forall_after_iff {P : α → Prop} : (∀ n b, after next n a = some b → P b) ↔
    P a ∧ ∀ c, next a = some c → ∀ n b, after next n c = some b → P b := by
  constructor
  · intro h
    refine ⟨h 0 a rfl, fun c hc n b hb => h (n + 1) b ?_⟩
    rw [after, hc]
    exact hb
  · rintro ⟨ha, h⟩ n b hb
    cases n with
    | zero => exact Option.some.inj hb ▸ ha
    | succ n =>
      obtain ⟨c, hc, hb⟩ := Option.bind_eq_some_iff.mp hb
      exact h c hc n b hb

theorem inv_of_after (Inv : α → Prop) (ha : Inv a) (hstep : ∀ a b, Inv a → next a = some b → Inv b)
    (h : after next n a = some b) : Inv b := by
  induction n generalizing a with
  | zero => exact Option.some.inj h ▸ ha
  | succ n ih =>
    obtain ⟨c, hc, h⟩ := Option.bind_eq_some_iff.mp h
    exact ih (hstep a c ha hc) h

theorem not_ends_of_closes (h : Closes next a) : ¬ Ends next a := by
  rintro ⟨n, hn⟩
  obtain ⟨m, b, k, hm, hk⟩ := h
  have hrounds : ∀ j, after next (m + j * (k + 1)) a = some b := by
    intro j
    induction j with
    | zero => rwa [Nat.zero_mul, Nat.add_zero]
    | succ j ih =>
      rw [Nat.succ_mul, ← Nat.add_assoc, after_add, ih]
      exact hk
  have hle : n ≤ m + n * (k + 1) :=
    (Nat.le_mul_of_pos_right n (Nat.succ_pos k)).trans (Nat.le_add_left _ m)
  have hround := hrounds n
  rw [after_eq_none_of_le hn hle] at hround
  cases hround

/-- Among finitely many places a walk that does not end comes back to one of them. -/
theorem closes_of_not_ends (hfin : {b | ∃ n, after next n a = some b}.Finite)
    (h : ¬ Ends next a) : Closes next a := by
  have hplace : ∀ n, ∃ b, after next n a = some b := fun n =>
    Option.ne_none_iff_exists'.mp fun hn => h ⟨n, hn⟩
  choose place hplace using hplace
  have hmaps : Set.MapsTo place Set.univ {b | ∃ n, after next n a = some b} :=
    fun n _ => ⟨n, hplace n⟩
  obtain ⟨m, -, n, -, hlt, heq⟩ := Set.infinite_univ.exists_lt_map_eq_of_mapsTo hmaps hfin
  obtain ⟨k, rfl⟩ := Nat.exists_eq_add_of_lt hlt
  refine ⟨m, place m, k, hplace m, ?_⟩
  have hback := hplace (m + k + 1)
  rw [Nat.add_assoc, after_add, hplace m, Option.bind_some, ← Nat.add_assoc, ← heq] at hback
  exact hback

theorem ends_iff_not_closes (hfin : {b | ∃ n, after next n a = some b}.Finite) :
    Ends next a ↔ ¬ Closes next a :=
  ⟨fun h hcloses => not_ends_of_closes hcloses h, fun h => by_contra fun hn => h (closes_of_not_ends hfin hn)⟩

theorem ends_iff_of_between {next : Int → Option Int} {a lo hi : Int} (ha : lo ≤ a ∧ a ≤ hi)
    (hstep : ∀ a b, lo ≤ a → next a = some b → lo ≤ b ∧ b ≤ hi) :
    Ends next a ↔ ¬ Closes next a := by
  refine ends_iff_not_closes ((Set.finite_Icc lo hi).subset ?_)
  rintro b ⟨n, hn⟩
  exact inv_of_after (fun b => lo ≤ b ∧ b ≤ hi) ha (fun a b ha hab => hstep a b ha.1 hab) hn

end Walks
