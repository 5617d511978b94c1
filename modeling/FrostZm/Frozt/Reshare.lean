import FrostZm.Ceremony.Reshare
import FrostZm.Frost.Keys

/-!
# The first round of a Zcash resharing

An old participant passes its key package and the old identifiers, a joining one nothing.
-/

set_option linter.unusedSectionVars false

variable {F G Rng : Type} [Field F] [DecidableEq F] [Ord F] [Std.TransOrd F] [Std.LawfulEqOrd F]
  [AddCommGroup G] [Module F G]

open Ceremony

namespace Frozt

variable (keys : FrostKeys F G Rng)

/-- The additive share of an old participant. -/
def oldTerm (maxSigners : UInt16) (kpData : Bytes) (oldIdentifiers : Option Bytes) : Result F := do
  let oldIdsData ← okOr .nullPtr oldIdentifiers
  let oldIds ← decodeOldIdentifiers oldIdsData
  let kp ← okOr .serializationError (keys.deserializeKeyPackage kpData)
  computeAdditiveShare kp oldIds maxSigners

def reshareTerm (maxSigners : UInt16) (oldKeyPackage oldIdentifiers : Option Bytes) : Result F :=
  match oldKeyPackage with
  | some kpData => if kpData = [] then .ok 1 else oldTerm keys maxSigners kpData oldIdentifiers
  | none => .ok 1

def resharePart1 (identifier maxSigners minSigners : UInt16)
    (oldKeyPackage oldIdentifiers : Option Bytes) (rng : Rng) :
    Result (Round1SecretPackage F G × Bytes) := do
  failIf (minSigners < 2 ∨ maxSigners < minSigners) .reshareError
  let additiveShare ← reshareTerm keys maxSigners oldKeyPackage oldIdentifiers
  Ceremony.resharePart1 keys.toFrostCore identifier maxSigners minSigners additiveShare rng

end Frozt
