import FrostZm.Frost.Core

/-!
# Encodings of scalars and keys

What the two chains further use of frost-core: scalars as bytes, and the two key packages
that a key share bundle holds. Some results rest on the size of the encodings, too.
-/

variable {F G Rng : Type} [Field F] [DecidableEq F] [Ord F] [Std.TransOrd F] [Std.LawfulEqOrd F]
  [AddCommGroup G] [Module F G]

structure FrostKeys (F G Rng : Type) [Field F] [Ord F] [AddCommGroup G] [Module F G] extends
    FrostCore F G Rng where
  serializeScalar : F → Bytes
  deserializeScalar : Bytes → Option F
  serializeKeyPackage : KeyPackage F G → Option Bytes
  deserializeKeyPackage : Bytes → Option (KeyPackage F G)
  serializePublicKeyPackage : PublicKeyPackage F G → Option Bytes
  deserializePublicKeyPackage : Bytes → Option (PublicKeyPackage F G)

namespace FrostKeys

/-- A key package takes a few hundred bytes, a public one some for each participant. -/
structure Documented (keys : FrostKeys F G Rng) : Prop extends
    toCore : keys.toFrostCore.Documented where
  scalar_roundtrip : ∀ x, keys.deserializeScalar (keys.serializeScalar x) = some x
  length_scalar : ∀ x, (keys.serializeScalar x).length = 32
  keyPackage_roundtrip : ∀ k b, keys.serializeKeyPackage k = some b →
    keys.deserializeKeyPackage b = some k ∧ b.length < 2 ^ 32
  publicKeyPackage_roundtrip : ∀ p b, keys.serializePublicKeyPackage p = some b →
    keys.deserializePublicKeyPackage b = some p ∧ b.length < 2 ^ 32

end FrostKeys

/-- A package has 32 bytes for each scalar and element, so its length fits in 32 bits. -/
structure FrostCore.ShortPackages (core : FrostCore F G Rng) : Prop where
  identifier : ∀ id, (core.serializeIdentifier id).length < 2 ^ 32
  round1 : ∀ p b, core.serializeRound1 p = some b → p.commitment.length < 2 ^ 16 →
    b.length + 32 < 2 ^ 32
  round2 : ∀ p b, core.serializeRound2 p = some b → b.length < 2 ^ 32

/-- Keys without an identity element have an encoding. -/
structure FrostKeys.EncodesKeys (keys : FrostKeys F G Rng) : Prop extends
    toShort : keys.toFrostCore.ShortPackages where
  scalar_zero : keys.serializeScalar 0 = List.replicate 32 0
  keyPackage : ∀ k, k.verifyingShare ≠ 0 → k.verifyingKey ≠ 0 →
    ∃ b, keys.serializeKeyPackage k = some b
  publicKeyPackage : ∀ p, (∀ e ∈ p.verifyingShares.toList, e.2 ≠ 0) → p.verifyingKey ≠ 0 →
    p.verifyingShares.size < 2 ^ 16 → ∃ b, keys.serializePublicKeyPackage p = some b
