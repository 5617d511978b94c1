import Mathlib.FieldTheory.Finite.Basic
import Mathlib.Tactic.ReduceModChar

/-!
# Certificates of primality

A prime factor `q` of `n - 1` and a number whose power by `n - 1` is 1 modulo `n`, while its power
by `(n - 1) / q` differs from 1 modulo each factor of `n`: then `q` divides `p - 1` for each prime
factor `p` of `n`. So a large `q` leaves no room for two prime factors.
-/

namespace Primality

variable {n q p f : Nat}

theorem dvd_of_not_dvd_div {d m : Nat} (hq : q.Prime) (hqm : q ∣ m) (hd : d ∣ m)
    (hnot : ¬ d ∣ m / q) : q ∣ d := by
  obtain ⟨e, rfl⟩ := hd
  rcases hq.dvd_mul.mp hqm with h | ⟨r, rfl⟩
  · exact h
  · have hcancel : d * (q * r) / q = d * r := by
      rw [Nat.mul_left_comm, Nat.mul_div_cancel_left _ hq.pos]
    exact absurd (hcancel ▸ Nat.dvd_mul_right d r) hnot

/-- `b` is the inverse that shows that the power by `(n - 1) / q` differs from 1 everywhere. -/
theorem dvd_sub_one (hn : 1 < n) (hq : q.Prime) (hqn : q ∣ n - 1) (a b : ZMod n)
    (hpow : a ^ (n - 1) = 1) (hunit : (a ^ ((n - 1) / q) - 1) * b = 1) (hp : p.Prime) (hpn : p ∣ n) :
    q ∣ p - 1 := by
  have : Fact p.Prime := ⟨hp⟩
  let x : ZMod p := ZMod.castHom hpn (ZMod p) a
  have hx : x ^ (n - 1) = 1 := by rw [← map_pow, hpow, map_one]
  have hx' : x ^ ((n - 1) / q) ≠ 1 := by
    intro h
    have hone := congrArg (ZMod.castHom hpn (ZMod p)) hunit
    rw [map_mul, map_sub, map_pow, map_one] at hone
    change (x ^ ((n - 1) / q) - 1) * _ = 1 at hone
    rw [h, sub_self, zero_mul] at hone
    exact zero_ne_one hone
  have hx0 : x ≠ 0 := by
    intro h
    rw [h, zero_pow (Nat.sub_ne_zero_of_lt hn)] at hx
    exact zero_ne_one hx
  have horder : q ∣ orderOf x := dvd_of_not_dvd_div hq hqn (orderOf_dvd_of_pow_eq_one hx)
    fun h => hx' (orderOf_dvd_iff_pow_eq_one.mp h)
  exact horder.trans (orderOf_dvd_of_pow_eq_one (ZMod.pow_card_sub_one_eq_one hx0))

theorem prime_of_dvd_sub_one (hn : 1 < n) (hf : ∀ p, p.Prime → p ∣ n → f ∣ p - 1)
    (hlarge : n < (f + 1) ^ 2) : n.Prime := by
  by_contra hnot
  have hmin := Nat.minFac_prime (Nat.ne_of_gt hn)
  have hpos : 0 < n.minFac - 1 := Nat.sub_pos_of_lt hmin.one_lt
  have hle : f + 1 ≤ n.minFac := by
    have hdvd := Nat.le_of_dvd hpos (hf _ hmin (Nat.minFac_dvd n))
    omega
  have hsq := Nat.minFac_sq_le_self (Nat.zero_lt_of_lt hn) hnot
  exact absurd ((Nat.pow_le_pow_left hle 2).trans hsq) (Nat.not_le.mpr hlarge)

end Primality
