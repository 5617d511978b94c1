import FrostZm.Fromt.Signers
import FrostZm.Ceremony.ReferenceDeal

/-!
# A small Monero library

The points are the scalars themselves, and a hash is the sum of its bytes. It satisfies
`FromtLib.Documented`.
-/

namespace Reference

/-- The sum of the bytes, and one more. -/
def hashScalar (b : Bytes) : Scalar := (((b.map UInt8.toNat).sum + 1 : ℕ) : Scalar)

def fromt : FromtLib Scalar Scalar Scalar Nat where
  toFrostKeys := keys
  keccak256 b := encodeScalar (hashScalar b)
  fromBytesModOrder b := (LittleEndian.value b : Scalar)
  biasedHash := hashScalar
  scalarMul a p := a * p
  compress := encodeScalar
  decompress := deserializeScalar

theorem fromt_documented : fromt.Documented where
  toKeys := keys_documented
  scalarMul_add a b o := add_mul a b _
  length_compress := length_encodeScalar
  decompress_compress := by
    intro p
    simp only [fromt]
    exact deserializeScalar_encode p

/-! ## Key shares -/

open Ceremony Fromt

def sampleBundle (p : UInt16) : Fromt.KeyShareBundle Scalar Scalar where
  keyPackage := sampleDeal.key p
  pubKeyPackage := sampleDeal.publicKey p
  viewKey := List.replicate 32 0
  network := 0
  birthday := 0

def sampleData (p : UInt16) : Bytes := (((sampleBundle p).serialize fromt).toOption).getD []

theorem holdsShares_sample : HoldsShares fromt sampleDeal sampleData := by
  intro p hp
  have hok : ∃ out, (sampleBundle p).serialize fromt = .ok out := by
    have hlen : (encodePublicKeys (sampleDeal.publicKey p)).length < 2 ^ 32 := by
      have hall : sampleDeal.ids.all fun p =>
          (encodePublicKeys (sampleDeal.publicKey p)).length < 2 ^ 32 := by decide +kernel
      exact of_decide_eq_true (List.all_eq_true.mp hall p hp)
    have hpub : fromt.serializePublicKeyPackage (sampleDeal.publicKey p) =
        some (encodePublicKeys (sampleDeal.publicKey p)) := if_pos hlen
    exact ⟨_, bind_eq_ok.mpr ⟨_, rfl, bind_eq_ok.mpr ⟨_, okOr_eq_ok.mpr hpub, rfl⟩⟩⟩
  obtain ⟨out, hout⟩ := hok
  refine ⟨sampleBundle p, ?_, rfl⟩
  rw [sampleData, hout]
  exact Fromt.KeyShareBundle.deserialize_serialize fromt_documented rfl hout

end Reference
