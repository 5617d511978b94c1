import Mathlib.LinearAlgebra.Lagrange
import Mathlib.Algebra.Module.BigOperators

/-!
# Secret sharing on polynomials

Polynomials as lists of coefficients, lowest first, their commitments in a module,
and the recovery of the constant term from values at enough points. Shares that agree with
commitments are values of one polynomial.
-/

open Polynomial

namespace Shamir

variable {F G : Type} [Field F] [AddCommGroup G] [Module F G]

/-- The value at `x` of the polynomial with these coefficients. -/
def evalPoly : List F → F → F
  | [], _ => 0
  | c :: cs, x => c + x * evalPoly cs x

/-- The value at `x` of a polynomial given by commitments to its coefficients. -/
def evalCommitment : List G → F → G
  | [], _ => 0
  | c :: cs, x => c + x • evalCommitment cs x

noncomputable def polyOf : List F → F[X]
  | [] => 0
  | c :: cs => C c + X * polyOf cs

theorem evalCommitment_map (g : G) (cs : List F) (x : F) :
    evalCommitment (cs.map (· • g)) x = evalPoly cs x • g := by
  induction cs with
  | nil => simp [evalCommitment, evalPoly]
  | cons c cs ih => rw [List.map_cons, evalCommitment, ih, evalPoly, add_smul, mul_smul]

theorem eval_polyOf (cs : List F) (x : F) : (polyOf cs).eval x = evalPoly cs x := by
  induction cs with
  | nil => simp [polyOf, evalPoly]
  | cons c cs ih => simp [polyOf, evalPoly, ih]

theorem evalPoly_zero (cs : List F) : evalPoly cs 0 = cs.headD 0 := by
  cases cs <;> simp [evalPoly]

theorem degree_polyOf_lt (cs : List F) : (polyOf cs).degree < cs.length := by
  induction cs with
  | nil => simp [polyOf]
  | cons c cs ih =>
    unfold polyOf
    rw [List.length_cons]
    refine (degree_add_le _ _).trans_lt (max_lt ?_ ?_)
    · exact degree_C_le.trans_lt (by exact_mod_cast Nat.succ_pos _)
    · by_cases h : polyOf cs = 0
      · rw [h, mul_zero, degree_zero]
        exact WithBot.bot_lt_coe _
      · rw [degree_mul, degree_X, degree_eq_natDegree h] at *
        have hlt : (polyOf cs).natDegree < cs.length := by exact_mod_cast ih
        exact_mod_cast (by omega : 1 + (polyOf cs).natDegree < cs.length + 1)

/-! ## Recovering the constant term -/

/-- The factor of the value at `x` when the constant term is recovered from the points `s`. -/
def weight [DecidableEq F] (s : Finset F) (x : F) : F := ∏ y ∈ s.erase x, y / (y - x)

theorem sum_weight_mul_eval [DecidableEq F] {p : F[X]} {s : Finset F} (hp : p.degree < s.card) :
    ∑ x ∈ s, p.eval x * weight s x = p.eval 0 := by
  have hint := Lagrange.eq_interpolate (s := s) (v := id) Function.injective_id.injOn hp
  conv_rhs => rw [hint]
  rw [Lagrange.interpolate_apply, eval_finsetSum]
  refine Finset.sum_congr rfl fun x hx => ?_
  rw [eval_mul, eval_C, Lagrange.basis, eval_prod, weight]
  refine congrArg _ (Finset.prod_congr rfl fun y hy => ?_)
  have hne : y - x ≠ 0 := sub_ne_zero.mpr (Finset.ne_of_mem_erase hy)
  have hne' : x - y ≠ 0 := sub_ne_zero.mpr (Finset.ne_of_mem_erase hy).symm
  simp only [Lagrange.basisDivisor, id_eq, eval_mul, eval_C, eval_sub, eval_X]
  field_simp
  ring

/-! ## Shares and commitments -/

theorem evalCommitment_zero (c : List G) : evalCommitment c (0 : F) = c.headD 0 := by
  cases c <;> simp [evalCommitment]

theorem evalCommitment_eq_sum (c : List G) (x : F) :
    evalCommitment c x = ∑ k ∈ Finset.range c.length, x ^ k • c.getD k 0 := by
  induction c with
  | nil => simp [evalCommitment]
  | cons a c ih =>
    rw [evalCommitment, ih, List.length_cons, Finset.sum_range_succ', Finset.smul_sum, add_comm]
    simp [pow_succ', mul_smul]

section Points

variable {ι : Type} [DecidableEq ι] {s : Finset ι} {v : ι → F}

/-- The factor of the value at the point `i` for the value at `y`. -/
noncomputable def basisAt (s : Finset ι) (v : ι → F) (y : F) (i : ι) : F :=
  (Lagrange.basis s v i).eval y

theorem sum_basisAt_smul (hv : Set.InjOn v s) {c : List G} (hlen : c.length ≤ s.card) (y : F) :
    ∑ i ∈ s, basisAt s v y i • evalCommitment c (v i) = evalCommitment c y := by
  have hpow : ∀ k ∈ Finset.range c.length, ∑ i ∈ s, basisAt s v y i * v i ^ k = y ^ k := by
    intro k hk
    have hdeg : (X ^ k : F[X]).degree < s.card := by
      rw [degree_X_pow]
      exact_mod_cast (Finset.mem_range.mp hk).trans_le hlen
    have hint := Lagrange.eq_interpolate hv hdeg
    calc ∑ i ∈ s, basisAt s v y i * v i ^ k
        = (Lagrange.interpolate s v fun i => (X ^ k : F[X]).eval (v i)).eval y := by
          rw [Lagrange.interpolate_apply, eval_finsetSum]
          refine Finset.sum_congr rfl fun i _ => ?_
          rw [eval_mul, eval_C, eval_pow, eval_X, mul_comm]
          rfl
      _ = y ^ k := by rw [← hint, eval_pow, eval_X]
  calc ∑ i ∈ s, basisAt s v y i • evalCommitment c (v i)
      = ∑ i ∈ s, ∑ k ∈ Finset.range c.length, (basisAt s v y i * v i ^ k) • c.getD k 0 := by
        refine Finset.sum_congr rfl fun i _ => ?_
        rw [evalCommitment_eq_sum, Finset.smul_sum]
        exact Finset.sum_congr rfl fun k _ => smul_smul _ _ _
    _ = ∑ k ∈ Finset.range c.length, (∑ i ∈ s, basisAt s v y i * v i ^ k) • c.getD k 0 := by
        rw [Finset.sum_comm]
        exact Finset.sum_congr rfl fun k _ => Finset.sum_smul.symm
    _ = evalCommitment c y := by
        rw [evalCommitment_eq_sum]
        exact Finset.sum_congr rfl fun k hk => by rw [hpow k hk]

theorem sum_basisAt_smul_sum (hv : Set.InjOn v s) {cs : List (List G)}
    (hlen : ∀ c ∈ cs, c.length ≤ s.card) (y : F) :
    ∑ i ∈ s, basisAt s v y i • (cs.map fun c => evalCommitment c (v i)).sum =
      (cs.map fun c => evalCommitment c y).sum := by
  induction cs with
  | nil => simp
  | cons c cs ih =>
    rw [List.forall_mem_cons] at hlen
    simp only [List.map_cons, List.sum_cons, smul_add, Finset.sum_add_distrib]
    rw [sum_basisAt_smul hv hlen.1, ih hlen.2]

/-- Shares that agree with commitments at enough points lie on one polynomial, which is committed
to at every point. -/
theorem exists_poly_of_committed {g : G} (hg : g ≠ 0) {k : ℕ} (hv : Set.InjOn v s)
    (hk : k ≤ s.card) {cs : List (List G)} (hlen : ∀ c ∈ cs, c.length ≤ k) {share : ι → F}
    (hshare : ∀ i ∈ s, share i • g = (cs.map fun c => evalCommitment c (v i)).sum) :
    ∃ f : F[X], f.degree < k ∧
      (∀ y, f.eval y • g = (cs.map fun c => evalCommitment c y).sum) ∧
      ∀ i ∈ s, share i = f.eval (v i) := by
  -- as many points as the commitments are long
  obtain ⟨t, hts, hcard⟩ := Finset.exists_subset_card_eq hk
  have hvt : Set.InjOn v t := hv.mono (Finset.coe_subset.mpr hts)
  have hcommitted : ∀ y, (Lagrange.interpolate t v share).eval y • g =
      (cs.map fun c => evalCommitment c y).sum := by
    intro y
    rw [Lagrange.interpolate_apply, eval_finsetSum, Finset.sum_smul,
      ← sum_basisAt_smul_sum hvt fun c hc => (hlen c hc).trans hcard.ge]
    refine Finset.sum_congr rfl fun i hi => ?_
    rw [← hshare i (hts hi), eval_mul, eval_C, mul_comm, mul_smul]
    rfl
  refine ⟨Lagrange.interpolate t v share, ?_, hcommitted, fun i hi => ?_⟩
  · exact hcard ▸ Lagrange.degree_interpolate_lt share hvt
  · exact smul_left_injective F hg ((hshare i hi).trans (hcommitted (v i)).symm)

end Points

end Shamir
