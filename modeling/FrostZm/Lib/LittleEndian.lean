import Mathlib.Data.Nat.Basic
import Mathlib.Tactic.Common
import Mathlib.Tactic.Ring

/-! # Numbers as little-endian bytes -/

namespace LittleEndian

/-- The low `w` bytes of `n`, lowest first. -/
def bytesOf : Nat → Nat → List UInt8
  | 0, _ => []
  | w + 1, n => UInt8.ofNat n :: bytesOf w (n / 256)

def value : List UInt8 → Nat
  | [] => 0
  | b :: bs => b.toNat + 256 * value bs

@[simp] theorem length_bytesOf (w n : Nat) : (bytesOf w n).length = w := by
  induction w generalizing n with
  | zero => rfl
  | succ w ih => simp [bytesOf, ih]

theorem value_bytesOf (w n : Nat) : value (bytesOf w n) = n % 256 ^ w := by
  induction w generalizing n with
  | zero => simp [bytesOf, value, Nat.mod_one]
  | succ w ih =>
    have h : n % (256 * 256 ^ w) = n % 2 ^ 8 + 256 * (n / 256 % 256 ^ w) := Nat.mod_mul
    rw [bytesOf, value, ih, UInt8.toNat_ofNat', ← h, Nat.pow_succ']

theorem bytesOf_mod (w n : Nat) : bytesOf w (n % 256 ^ w) = bytesOf w n := by
  induction w generalizing n with
  | zero => rfl
  | succ w ih =>
    have hlow : UInt8.ofNat (n % 256 ^ (w + 1)) = .ofNat n := by
      apply UInt8.toNat_inj.mp
      rw [UInt8.toNat_ofNat', UInt8.toNat_ofNat', Nat.pow_succ, Nat.mod_mul_left_mod]
    have hhigh : n % 256 ^ (w + 1) / 256 = n / 256 % 256 ^ w := by
      rw [Nat.pow_succ, Nat.mul_comm, Nat.mod_mul_right_div_self]
    rw [bytesOf, bytesOf, hlow, hhigh, ih]

theorem bytesOf_add (v w n : Nat) : bytesOf (v + w) n = bytesOf v n ++ bytesOf w (n / 256 ^ v) := by
  induction v generalizing n with
  | zero => rw [Nat.zero_add, Nat.pow_zero, Nat.div_one, bytesOf, List.nil_append]
  | succ v ih =>
    rw [Nat.add_right_comm, bytesOf, bytesOf, ih, Nat.div_div_eq_div_mul, Nat.pow_succ',
      List.cons_append]

theorem value_bytesOf_of_lt {w n : Nat} (h : n < 256 ^ w) : value (bytesOf w n) = n := by
  rw [value_bytesOf, Nat.mod_eq_of_lt h]

theorem value_lt (bs : List UInt8) : value bs < 256 ^ bs.length := by
  induction bs with
  | nil => simp [value]
  | cons b bs ih =>
    have hb := b.toNat_lt
    rw [value, List.length_cons, Nat.pow_succ]
    omega

theorem bytesOf_value (bs : List UInt8) : bytesOf bs.length (value bs) = bs := by
  induction bs with
  | nil => rfl
  | cons b bs ih =>
    have hb := b.toNat_lt
    rw [List.length_cons, bytesOf, value, show (b.toNat + 256 * value bs) / 256 = value bs by omega, ih]
    congr 1
    apply UInt8.toNat_inj.mp
    rw [UInt8.toNat_ofNat']
    omega

end LittleEndian
