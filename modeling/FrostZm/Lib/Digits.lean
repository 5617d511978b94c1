import Mathlib.Data.Nat.Digits.Lemmas

/-!
# Numbers of a fixed width

The low digits of a number in some base, as many as asked for, lowest first. `Nat.ofDigits` reads
them back.
-/

namespace Digits

variable {b w n : Nat} {l : List Nat}

/-- The low `w` digits of `n` in base `b`. -/
def fixed (b : Nat) : Nat → Nat → List Nat
  | 0, _ => []
  | w + 1, n => n % b :: fixed b w (n / b)

@[simp] theorem length_fixed (b w n : Nat) : (fixed b w n).length = w := by
  induction w generalizing n with
  | zero => rfl
  | succ w ih => simp [fixed, ih]

theorem fixed_lt (hb : 0 < b) : ∀ d ∈ fixed b w n, d < b := by
  induction w generalizing n with
  | zero => exact fun d hd => nomatch hd
  | succ w ih =>
    rw [fixed, List.forall_mem_cons]
    exact ⟨Nat.mod_lt n hb, ih⟩

theorem ofDigits_fixed (b w n : Nat) : Nat.ofDigits b (fixed b w n) = n % b ^ w := by
  induction w generalizing n with
  | zero => simp [fixed, Nat.mod_one]
  | succ w ih => rw [fixed, Nat.ofDigits_cons, ih, Nat.pow_succ', Nat.mod_mul]

theorem ofDigits_fixed_of_lt (h : n < b ^ w) : Nat.ofDigits b (fixed b w n) = n := by
  rw [ofDigits_fixed, Nat.mod_eq_of_lt h]

theorem fixed_ofDigits (hb : 1 < b) (h : ∀ d ∈ l, d < b) :
    fixed b l.length (Nat.ofDigits b l) = l := by
  refine Nat.ofDigits_inj_of_len_eq hb (length_fixed _ _ _) (fixed_lt (Nat.zero_lt_of_lt hb)) h ?_
  exact ofDigits_fixed_of_lt (Nat.ofDigits_lt_base_pow_length hb h)

end Digits
