import FrostZm.Fromt.Mnemonic
import FrostZm.Lib.Primality
import Mathlib.Tactic.NormNum.Prime

/-!
# The scalars of ed25519

The order of the group is prime, so that its residues are a field, and there are scalars that are
reduced and encoded as those of the library.
-/

open Primality

namespace Ed25519

/-! ## The order is prime -/

/-- One large prime factor of `n - 1` and the base 2 certify `n`. -/
theorem prime_of_certificate {n q : Nat} (hn : 1 < n) (hq : q.Prime) (hqn : q ∣ n - 1) (b : ZMod n)
    (hpow : (2 : ZMod n) ^ (n - 1) = 1) (hunit : ((2 : ZMod n) ^ ((n - 1) / q) - 1) * b = 1)
    (hlarge : n < (q + 1) ^ 2) : n.Prime :=
  prime_of_dvd_sub_one hn (fun _ hp hpn => dvd_sub_one hn hq hqn 2 b hpow hunit hp hpn) hlarge

theorem prime_51 : (1257559732178653 : Nat).Prime := by
  have hpow : (2 : ZMod 1257559732178653) ^ (1257559732178653 - 1) = 1 := by reduce_mod_char
  refine prime_of_dvd_sub_one (f := 1224481 * 531581) (by norm_num) (fun p hp hpn => ?_) (by norm_num)
  refine Nat.Coprime.mul_dvd_of_dvd_of_dvd (by norm_num) ?_ ?_
  · exact dvd_sub_one (by norm_num) (by norm_num) (by norm_num) 2 790900187493841 hpow
      (by norm_num; reduce_mod_char) hp hpn
  · exact dvd_sub_one (by norm_num) (by norm_num) (by norm_num) 2 212927577457398 hpow
      (by norm_num; reduce_mod_char) hp hpn

theorem prime_62 : (4434155615661930479 : Nat).Prime :=
  prime_of_certificate (by norm_num) prime_51 (by norm_num) 1010501025739283171
    (by reduce_mod_char) (by norm_num; reduce_mod_char) (by norm_num)

theorem prime_88 : (172054593956031949258510691 : Nat).Prime :=
  prime_of_certificate (by norm_num) prime_62 (by norm_num) 154275350521713489305385904
    (by reduce_mod_char) (by norm_num; reduce_mod_char) (by norm_num)

theorem prime_134 : (19757330305831588566944191468367130476339 : Nat).Prime :=
  prime_of_certificate (by norm_num) prime_88 (by norm_num)
    16371654433361644093796961727196399386194
    (by reduce_mod_char) (by norm_num; reduce_mod_char) (by norm_num)

theorem prime_138 : (276602624281642239937218680557139826668747 : Nat).Prime :=
  prime_of_certificate (by norm_num) prime_134 (by norm_num)
    94074944912245044309966580483695483989395
    (by reduce_mod_char) (by norm_num; reduce_mod_char) (by norm_num)

theorem prime_order : FromtGo.ed25519Order.Prime := by
  unfold FromtGo.ed25519Order
  exact prime_of_certificate (by norm_num) prime_138 (by norm_num)
    2233364593245673852815932892735013076939656528578070433728021143254617821614
    (by reduce_mod_char) (by norm_num; reduce_mod_char) (by norm_num)

/-! ## Scalars -/

abbrev Scalar := ZMod FromtGo.ed25519Order

instance : Fact FromtGo.ed25519Order.Prime := ⟨prime_order⟩

instance : Ord Scalar := ⟨compareOn ZMod.val⟩
instance : Std.TransOrd Scalar := inferInstanceAs (Std.TransCmp (compareOn ZMod.val))
instance : Std.LawfulEqOrd Scalar where
  compare_self := Std.ReflOrd.compare_self
  eq_of_compare h := ZMod.val_injective _ (Std.LawfulEqOrd.eq_of_compare h)

def encodeScalar (x : Scalar) : Bytes := LittleEndian.bytesOf 32 x.val

def decodeScalar (b : Bytes) : Option Scalar :=
  if b.length = 32 ∧ LittleEndian.value b < FromtGo.ed25519Order then some (LittleEndian.value b : Scalar)
  else none

theorem encodeScalar_natCast (n : Nat) :
    encodeScalar (n : Scalar) = LittleEndian.bytesOf 32 (n % FromtGo.ed25519Order) := by
  unfold encodeScalar
  rw [ZMod.val_natCast]

theorem decodeScalar_encode (x : Scalar) : decodeScalar (encodeScalar x) = some x := by
  have hval : x.val < FromtGo.ed25519Order := x.val_lt
  have hvalue : LittleEndian.value (encodeScalar x) = x.val :=
    LittleEndian.value_bytesOf_of_lt (hval.trans (by decide))
  unfold decodeScalar
  rw [hvalue, if_pos ⟨LittleEndian.length_bytesOf 32 _, hval⟩, ZMod.natCast_zmod_val]

/-- A library with these scalars and a stand-in for the hash. Its rounds refuse everything. -/
def fromt : FromtLib Scalar Scalar Scalar Nat where
  generator := 1
  random rng := (rng, rng + 1)
  part1 _ _ _ _ := .error ⟨none⟩
  part2 _ _ := .error ⟨none⟩
  part3 _ _ _ := .error ⟨none⟩
  computeProofOfKnowledge _ _ _ _ := .error ⟨none⟩
  verifyProofOfKnowledge _ _ _ := false
  serializeIdentifier id := encodeScalar id.toScalar
  deserializeIdentifier _ := none
  serializeRound1 _ := none
  deserializeRound1 _ := none
  serializeRound2 _ := none
  deserializeRound2 _ := none
  serializeVerifyingKey x := some (encodeScalar x)
  serializeScalar := encodeScalar
  deserializeScalar := decodeScalar
  serializeKeyPackage _ := none
  deserializeKeyPackage _ := none
  serializePublicKeyPackage _ := none
  deserializePublicKeyPackage _ := none
  keccak256 b := LittleEndian.bytesOf 32 (LittleEndian.value b + 1)
  fromBytesModOrder b := (LittleEndian.value b : Scalar)
  biasedHash b := (LittleEndian.value b : Scalar)
  scalarMul a p := a * p
  compress := encodeScalar
  decompress := decodeScalar

end Ed25519
