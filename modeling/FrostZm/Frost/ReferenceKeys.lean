import FrostZm.Frost.Keys
import FrostZm.Frost.Reference

/-! # Encodings of keys for the small FROST -/

namespace Reference

def serializeKeyPackage (k : KeyPackage Scalar Scalar) : Option Bytes :=
  some (3 :: encodeScalars [k.identifier.toScalar, k.signingShare, k.verifyingShare, k.verifyingKey,
    (k.minSigners.toNat : Scalar)])

def deserializeKeyPackage (b : Bytes) : Option (KeyPackage Scalar Scalar) :=
  match decodeTagged 3 b with
  | some [x, signingShare, verifyingShare, verifyingKey, min] =>
    if hx : x ≠ 0 then
      some {
        identifier := ⟨x, hx⟩
        signingShare, verifyingShare, verifyingKey
        minSigners := .ofNat min.val }
    else none
  | _ => none

def encodeShares (l : List (Identifier Scalar × Scalar)) : List Scalar :=
  l.flatMap fun e => [e.1.toScalar, e.2]

def decodeShares : List Scalar → Option (List (Identifier Scalar × Scalar))
  | [] => some []
  | [_] => none
  | x :: g :: rest => if hx : x ≠ 0 then (decodeShares rest).map ((⟨x, hx⟩, g) :: ·) else none

def encodePublicKeys (p : PublicKeyPackage Scalar Scalar) : Bytes :=
  4 :: encodeScalars (p.verifyingKey :: encodeShares p.verifyingShares.toList)

/-- More shares than a length of 32 bits can hold do not fit. -/
def serializePublicKeyPackage (p : PublicKeyPackage Scalar Scalar) : Option Bytes :=
  if (encodePublicKeys p).length < 2 ^ 32 then some (encodePublicKeys p) else none

def deserializePublicKeyPackage (b : Bytes) : Option (PublicKeyPackage Scalar Scalar) :=
  match decodeTagged 4 b with
  | some (verifyingKey :: shares) =>
    (decodeShares shares).map fun l =>
      { verifyingShares := BTreeMap.tabulate Prod.fst Prod.snd l, verifyingKey }
  | _ => none

def deserializeScalar (b : Bytes) : Option Scalar :=
  match decodeScalars 1 b with
  | some [x] => some x
  | _ => none

def keys : FrostKeys Scalar Scalar Nat where
  toFrostCore := core
  serializeScalar := encodeScalar
  deserializeScalar := deserializeScalar
  serializeKeyPackage := serializeKeyPackage
  deserializeKeyPackage := deserializeKeyPackage
  serializePublicKeyPackage := serializePublicKeyPackage
  deserializePublicKeyPackage := deserializePublicKeyPackage

theorem deserializeScalar_encode (x : Scalar) : deserializeScalar (encodeScalar x) = some x := by
  have h := decodeScalars_encode [x]
  rw [encodeScalars, List.flatMap_singleton] at h
  unfold deserializeScalar
  rw [show decodeScalars 1 (encodeScalar x) = some [x] from h]

theorem decodeShares_encode (l : List (Identifier Scalar × Scalar)) :
    decodeShares (encodeShares l) = some l := by
  induction l with
  | nil => rfl
  | cons e l ih =>
    rw [encodeShares, List.flatMap_cons, ← encodeShares]
    unfold decodeShares
    simp only [List.cons_append, List.nil_append, dif_pos e.1.ne_zero, ih, Option.map_some]

theorem keyPackage_roundtrip {k : KeyPackage Scalar Scalar} {b : Bytes}
    (h : serializeKeyPackage k = some b) : deserializeKeyPackage b = some k ∧ b.length < 2 ^ 32 := by
  obtain rfl := Option.some.inj h
  constructor
  · have hmin : UInt16.ofNat (k.minSigners.toNat : Scalar).val = k.minSigners := by
      rw [ZMod.val_natCast_of_lt (k.minSigners.toNat_lt.trans (by norm_num)), UInt16.ofNat_toNat]
    unfold deserializeKeyPackage
    rw [decodeTagged_encode]
    simp only [dif_pos k.identifier.ne_zero, hmin]
  · rw [List.length_cons, length_encodeScalars]
    norm_num

theorem publicKeyPackage_roundtrip {p : PublicKeyPackage Scalar Scalar} {b : Bytes}
    (h : serializePublicKeyPackage p = some b) :
    deserializePublicKeyPackage b = some p ∧ b.length < 2 ^ 32 := by
  unfold serializePublicKeyPackage at h
  split at h
  · next hlen =>
    obtain rfl := Option.some.inj h
    refine ⟨?_, hlen⟩
    unfold deserializePublicKeyPackage encodePublicKeys
    rw [decodeTagged_encode]
    simp only [decodeShares_encode, Option.map_some, BTreeMap.tabulate_toList]
  · simp at h

theorem keys_documented : keys.Documented where
  toCore := documented
  scalar_roundtrip := by
    intro x
    simp only [keys]
    exact deserializeScalar_encode x
  length_scalar := length_encodeScalar
  keyPackage_roundtrip := fun k b (h : serializeKeyPackage k = some b) => keyPackage_roundtrip h
  publicKeyPackage_roundtrip := fun p b (h : serializePublicKeyPackage p = some b) =>
    publicKeyPackage_roundtrip h

theorem core_shortPackages : core.ShortPackages where
  identifier id := (length_encodeScalar id.toScalar).trans_lt (by norm_num)
  round1 p b h hlen := by
    simp only [core, serializeRound1] at h
    split at h
    · obtain rfl := Option.some.inj h
      rw [List.length_cons, length_encodeScalars, List.length_cons, List.length_cons]
      omega
    · simp at h
  round2 p b h := by
    obtain rfl := Option.some.inj h
    rw [List.length_cons, length_encodeScalars]
    norm_num

theorem length_encodeShares (l : List (Identifier Scalar × Scalar)) :
    (encodeShares l).length = 2 * l.length := by
  simp [encodeShares, List.length_flatMap, mul_comm]

theorem keys_encodesKeys : keys.EncodesKeys where
  toShort := core_shortPackages
  scalar_zero := by decide
  keyPackage k _ _ := ⟨_, rfl⟩
  publicKeyPackage p _ _ hsize := by
    refine ⟨encodePublicKeys p, if_pos ?_⟩
    rw [encodePublicKeys, List.length_cons, length_encodeScalars, List.length_cons,
      length_encodeShares, Std.ExtTreeMap.length_toList]
    omega

end Reference
