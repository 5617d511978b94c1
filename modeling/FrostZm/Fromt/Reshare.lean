import FrostZm.Ceremony.Reshare
import FrostZm.Fromt.KeyImport

/-!
# Resharing of the Monero ceremonies

Every old participant sends the view key after its package, every joining one zeros.
-/

set_option linter.unusedSectionVars false

variable {F G P Rng : Type} [Field F] [DecidableEq F] [Ord F] [Std.TransOrd F] [Std.LawfulEqOrd F]
  [AddCommGroup G] [Module F G] [AddCommGroup P]

open Ceremony

namespace Fromt

variable (lib : FromtLib F G P Rng)

/-- What an old participant contributes: its additive share and the view key. -/
def oldTerm (maxSigners : UInt16) (bundleData : Bytes) (oldIdsData : Option Bytes) :
    Result (F × Bytes) := do
  let bundle ← KeyShareBundle.deserialize lib bundleData
  let oldIdsBytes ← okOr .nullPtr oldIdsData
  let oldIds ← decodeOldIdentifiers oldIdsBytes
  let additiveShare ← computeAdditiveShare bundle.keyPackage oldIds maxSigners
  return (additiveShare, bundle.viewKey)

def reshareTerm (maxSigners : UInt16) (oldKeyShare oldIdsData : Option Bytes) :
    Result (F × Bytes) :=
  match oldKeyShare with
  | some bundleData =>
    if bundleData = [] then .ok (1, zeroShare) else oldTerm lib maxSigners bundleData oldIdsData
  | none => .ok (1, zeroShare)

def resharePart1 (id maxSigners minSigners : UInt16) (oldKeyShare oldIdsData : Option Bytes)
    (rng : Rng) : Result (DkgRound1Secret F G × Bytes) := do
  failIf (minSigners < 2 ∨ maxSigners < minSigners) .reshareError
  let (additiveShare, viewKeyBytes) ← reshareTerm lib maxSigners oldKeyShare oldIdsData
  let (secret, pkgBytes) ←
    Ceremony.resharePart1 lib.toFrostCore id maxSigners minSigners additiveShare rng
  return ({ frostSecret := secret, viewKeyShare := viewKeyBytes }, pkgBytes ++ viewKeyBytes)

/-- The first share of the others that is not zero, else one's own. -/
def aggregateReshareViewKey (ownShare : Bytes) (otherShares : BTreeMap (Identifier F) Bytes) :
    Result Bytes :=
  match otherShares.toList.find? fun e => e.2 ≠ zeroShare with
  | some e => .ok e.2
  | none => if ownShare ≠ zeroShare then .ok ownShare else .error (LibError.reshareError : Fault)

def resharePart3 (secret : DkgRound2Secret F G) (r1Data r2Data expectedVk : Bytes)
    (network : UInt8) (birthday : UInt64) : Result (Bytes × Bytes) := do
  let (keyPackage, pubKeyPackage, vkShares) ← frostPart3 lib secret r1Data r2Data
  let vkBytes ← okOr .serializationError (lib.serializeVerifyingKey pubKeyPackage.verifyingKey)
  failIf (vkBytes ≠ expectedVk) .reshareError
  let viewKey ← aggregateReshareViewKey secret.viewKeyShare vkShares
  let bundle : KeyShareBundle F G := { keyPackage, pubKeyPackage, viewKey, network, birthday }
  let bundleBytes ← bundle.serialize lib
  return (bundleBytes, vkBytes)

end Fromt
