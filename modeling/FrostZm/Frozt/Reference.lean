import FrostZm.Ceremony.ReferenceDeal
import FrostZm.Frozt.KeyShare

/-!
# A small Zcash library

The spending key of a seed is the sum of its bytes and the account, the extras are zero, and
a hash is the sum of the bytes. It satisfies `FroztLib.Documented`.
-/

namespace Reference

def sumBytes (b : Bytes) : Nat := (b.map UInt8.toNat).sum

def frozt : FroztLib Scalar Scalar Nat where
  toFrostKeys := keys
  randomExtras rng := encodeScalar rng ++ List.replicate 64 0
  accountAsk seed account := encodeScalar ((sumBytes seed + account.toNat : ℕ) : Scalar)
  accountExtras _ account := encodeScalar (account.toNat : Scalar) ++ List.replicate 64 0
  blake2b b := encodeScalar (sumBytes b : Scalar)

theorem frozt_documented : frozt.Documented where
  toKeys := keys_documented
  length_randomExtras rng := by
    simp only [frozt, List.length_append, length_encodeScalar, List.length_replicate]
  length_accountExtras seed account := by
    simp only [frozt, List.length_append, length_encodeScalar, List.length_replicate]
  length_blake2b b := length_encodeScalar _

end Reference
