import FrostZm.Ceremony.Rounds
import FrostZm.Frost.Signing

/-!
# Signing sessions

Everyone broadcasts its commitments, then its share. In the rerandomized session of Zcash
the coordinator broadcasts the randomizer between the two.
-/

open FrostChannel Phases

set_option linter.unusedSectionVars false

variable {F G Rng : Type} [Field F] [DecidableEq F] [Ord F] [Std.TransOrd F] [Std.LawfulEqOrd F]
  [AddCommGroup G] [Module F G]

namespace Ceremony

variable (frost : FrostSigning F G Rng)

/-! ## The sessions -/

/-- The last round of a signing session, from the broadcast of one's share on. -/
def exchangeShares (myIdent : Identifier F) (numSigners : Nat) (share : SignatureShare F)
    (aggregate : BTreeMap (Identifier F) (SignatureShare F) →
      Except (FrostError F) (Signature F G)) : Ceremony Bytes := do
  broadcast (frost.serializeShare share)
  let shares ← recvEach (numSigners - 1)
    ((∅ : BTreeMap (Identifier F) (SignatureShare F)).insert myIdent share)
    (store frost.deserializeShare)
  let signature ← blameErr frost.toFrostCore .signingError (aggregate shares)
  let sigBytes ← okOr .serializationError (frost.serializeSignature signature)
  return sigBytes

/-- The first round of a signing session: the package of everyone's commitments. -/
def exchangeCommitments (myIdent : Identifier F) (commitments : SigningCommitments G)
    (message : Bytes) (numSigners : Nat) : Ceremony (SigningPackage F G) := do
  let commitBytes ← okOr .serializationError (frost.serializeCommitments commitments)
  broadcast commitBytes
  let commitMap ← recvEach (numSigners - 1)
    ((∅ : BTreeMap (Identifier F) (SigningCommitments G)).insert myIdent commitments)
    (store frost.deserializeCommitments)
  return ⟨commitMap, message⟩

def signRun (keyPackage : KeyPackage F G) (pubKeyPackage : PublicKeyPackage F G) (message : Bytes)
    (numSigners : Nat) (rng : Rng) : Ceremony Bytes := do
  let (nonces, commitments, _) := frost.commit keyPackage.signingShare rng
  let signingPackage ←
    exchangeCommitments frost keyPackage.identifier commitments message numSigners
  let share ← blameErr frost.toFrostCore .signingError
    (frost.sign signingPackage nonces keyPackage)
  exchangeShares frost keyPackage.identifier numSigners share fun shares =>
    frost.aggregate signingPackage shares pubKeyPackage

/-- What the coordinator broadcasts: the signing package with its length, and the randomizer. -/
def combine (spSer randSer : Bytes) : Bytes :=
  u32ToLeBytes (.ofNat spSer.length) ++ spSer ++ randSer

/-- The two parts of a coordinator's message. -/
def splitCombined (combined : Bytes) : Result (Bytes × Bytes) :=
  if combined.length < 4 then .error LibError.serializationError
  else
    let spLen := (u32FromLeBytes (combined.take 4)).toNat
    if combined.length < 4 + spLen then .error LibError.serializationError
    else .ok (slice combined 4 spLen, combined.drop (4 + spLen))

/-- The randomizer in a coordinator's message. The package before it is not read. -/
def readRandomizer (combined : Bytes) : Result F := do
  let (_spSer, randSer) ← splitCombined combined
  okOr .signingError (frost.deserializeRandomizer randSer)

def chooseRandomizer (vk : G) (signingPackage : SigningPackage F G) (alpha : Option Bytes)
    (rng : Rng) : Result F :=
  okOr .signingError <|
    match alpha with
    | some alphaBytes => frost.deserializeRandomizer alphaBytes
    | none => frost.newRandomizer vk signingPackage rng

/-- The randomizer of a session: the coordinator's own, or the one that it broadcasts. The
sender of that message is not looked at. -/
def agreeRandomizer (vk : G) (signingPackage : SigningPackage F G) (isCoordinator : Bool)
    (alpha : Option Bytes) (rng : Rng) : Ceremony F :=
  if isCoordinator then do
    let randomizer ← chooseRandomizer frost vk signingPackage alpha rng
    let spSer ← okOr .serializationError (frost.serializeSigningPackage signingPackage)
    broadcast (combine spSer (frost.serializeRandomizer randomizer))
    return randomizer
  else do
    let (_sender, combined) ← recv
    readRandomizer frost combined

def froztSignRun (keyPackage : KeyPackage F G) (pubKeyPackage : PublicKeyPackage F G)
    (msgToSign : Bytes) (isCoordinator : Bool) (numSigners : Nat) (alpha : Option Bytes)
    (rng : Rng) : Ceremony Bytes := do
  let (nonces, commitments, rng) := frost.commit keyPackage.signingShare rng
  let signingPackage ←
    exchangeCommitments frost keyPackage.identifier commitments msgToSign numSigners
  let randomizer ←
    agreeRandomizer frost pubKeyPackage.verifyingKey signingPackage isCoordinator alpha rng
  let share ← blameErr frost.toFrostCore .signingError
    (frost.signRandomized signingPackage nonces keyPackage randomizer)
  exchangeShares frost keyPackage.identifier numSigners share fun shares =>
    frost.aggregateRandomized signingPackage shares pubKeyPackage randomizer

end Ceremony
