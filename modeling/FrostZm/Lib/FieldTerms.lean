import Mathlib.Algebra.CharP.Lemmas
import Mathlib.Algebra.BigOperators.Group.List.Basic
import Mathlib.Algebra.Field.Basic
import Mathlib.Data.Fintype.EquivFin
import Mathlib.Algebra.CharP.Basic

/-!
# Terms over a field

Terms built from variables by addition, multiplication and inversion, and the quantities that
one term gives under every valuation of a family.
-/

variable {α E F : Type} [Field F]

inductive FieldTerm (α : Type) where
  | var (a : α)
  | add (s t : FieldTerm α)
  | mul (s t : FieldTerm α)
  | inv (t : FieldTerm α)

/-- The inverse of zero is zero. -/
def FieldTerm.eval (env : α → F) : FieldTerm α → F
  | var a => env a
  | add s t => s.eval env + t.eval env
  | mul s t => s.eval env * t.eval env
  | inv t => (t.eval env)⁻¹

/-- One term gives `f` under all the valuations. -/
def Expressible (env : E → α → F) (f : E → F) : Prop := ∃ t : FieldTerm α, ∀ e, t.eval (env e) = f e

namespace Expressible

variable {env : E → α → F} {f g : E → F}

theorem var (a : α) : Expressible env fun e => env e a := ⟨.var a, fun _ => rfl⟩

theorem congr (hf : Expressible env f) (h : ∀ e, f e = g e) : Expressible env g := by
  obtain ⟨t, ht⟩ := hf
  exact ⟨t, fun e => (ht e).trans (h e)⟩

theorem add (hf : Expressible env f) (hg : Expressible env g) :
    Expressible env fun e => f e + g e := by
  obtain ⟨s, hs⟩ := hf
  obtain ⟨t, ht⟩ := hg
  refine ⟨.add s t, fun e => ?_⟩
  rw [FieldTerm.eval, hs, ht]

theorem mul (hf : Expressible env f) (hg : Expressible env g) :
    Expressible env fun e => f e * g e := by
  obtain ⟨s, hs⟩ := hf
  obtain ⟨t, ht⟩ := hg
  refine ⟨.mul s t, fun e => ?_⟩
  rw [FieldTerm.eval, hs, ht]

theorem inv (hf : Expressible env f) : Expressible env fun e => (f e)⁻¹ := by
  obtain ⟨t, ht⟩ := hf
  refine ⟨.inv t, fun e => ?_⟩
  rw [FieldTerm.eval, ht]

/-! ## Constants

With one variable that is never zero, and in a finite field, the constants of the prime
field are at hand, and subtraction with them. -/

theorem one (hf : Expressible env f) (hne : ∀ e, f e ≠ 0) : Expressible env fun _ => 1 :=
  (hf.mul hf.inv).congr fun e => mul_inv_cancel₀ (hne e)

theorem natCast_succ (h1 : Expressible env fun _ => 1) (n : ℕ) :
    Expressible env fun _ => ((n + 1 : ℕ) : F) := by
  induction n with
  | zero => exact h1.congr fun _ => by simp
  | succ n ih => exact (ih.add h1).congr fun _ => by push_cast; ring

theorem natCast [Finite F] (h1 : Expressible env fun _ => 1) (n : ℕ) :
    Expressible env fun _ => (n : F) := by
  have hp : ringChar F ≠ 0 := CharP.ringChar_ne_zero_of_finite F
  obtain ⟨p, hp⟩ := Nat.exists_eq_succ_of_ne_zero hp
  -- the characteristic is zero in the field, and more than zero
  refine (natCast_succ h1 (n + p)).congr fun _ => ?_
  rw [Nat.add_assoc, ← Nat.succ_eq_add_one, ← hp, Nat.cast_add, ringChar.Nat.cast_ringChar,
    add_zero]

theorem neg [Finite F] (h1 : Expressible env fun _ => 1) (hf : Expressible env f) :
    Expressible env fun e => -f e := by
  obtain ⟨p, hp⟩ := Nat.exists_eq_succ_of_ne_zero (CharP.ringChar_ne_zero_of_finite F)
  have hcast : (p : F) = -1 := by
    have h := ringChar.Nat.cast_ringChar (R := F)
    rw [hp, Nat.cast_succ] at h
    exact eq_neg_of_add_eq_zero_left h
  exact ((natCast h1 p).mul hf).congr fun e => by rw [hcast, neg_one_mul]

theorem sub [Finite F] (h1 : Expressible env fun _ => 1) (hf : Expressible env f)
    (hg : Expressible env g) : Expressible env fun e => f e - g e :=
  (hf.add (neg h1 hg)).congr fun e => (sub_eq_add_neg (f e) (g e)).symm

/-! ## Lists -/

variable {ι : Type} {l : List ι} {h : ι → E → F}

theorem list_prod (h1 : Expressible env fun _ => 1) (hl : ∀ i ∈ l, Expressible env (h i)) :
    Expressible env fun e => (l.map fun i => h i e).prod := by
  induction l with
  | nil => exact h1
  | cons i l ih =>
    rw [List.forall_mem_cons] at hl
    exact (hl.1.mul (ih hl.2)).congr fun e => by rw [List.map_cons, List.prod_cons]

theorem list_sum (h0 : Expressible env fun _ => 0) (hl : ∀ i ∈ l, Expressible env (h i)) :
    Expressible env fun e => (l.map fun i => h i e).sum := by
  induction l with
  | nil => exact h0
  | cons i l ih =>
    rw [List.forall_mem_cons] at hl
    exact (hl.1.add (ih hl.2)).congr fun e => by rw [List.map_cons, List.sum_cons]

end Expressible
