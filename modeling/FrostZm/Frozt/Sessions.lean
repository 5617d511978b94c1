import FrostZm.Ceremony.KeyImport
import FrostZm.Frozt.KeyShare

/-!
# Key generation and key import for Zcash

After the rounds of the key the parties agree on the metadata: the coordinator broadcasts
it, and everyone compares its hash with those of the others.
-/

open FrostChannel

variable {F G Rng : Type} [Field F] [DecidableEq F] [Ord F] [Std.TransOrd F] [Std.LawfulEqOrd F]
  [AddCommGroup G] [Module F G]

namespace Frozt

variable (lib : FroztLib F G Rng)

/-! ## Keys of a seed -/

/-- The key import and the Sapling module have a copy each, with their own codes. -/
def hardenedAccountChild (failure : LibError) (accountIndex : UInt32) : Result UInt32 :=
  if accountIndex.toNat ≥ 2 ^ 31 then .error (failure : Fault) else .ok accountIndex

def deriveSpendingKey (seed : Bytes) (accountIndex : UInt32) : Result Bytes := do
  if seed.length ≠ 64 then
    throw (LibError.invalidBufferSize : Fault)
  let account ← hardenedAccountChild .keyImportError accountIndex
  return lib.accountAsk seed account

def spendingKeyToVk (spendingKey : Bytes) : Result Bytes := do
  let scalar ← okOr .serializationError (lib.deserializeScalar spendingKey)
  okOr .serializationError (lib.serializeVerifyingKey (scalar • lib.generator))

def deriveExtrasFromSeed (seed : Bytes) (accountIndex : UInt32) : Result Bytes := do
  if seed.length ≠ 64 then
    throw (LibError.invalidBufferSize : Fault)
  let account ← hardenedAccountChild .saplingError accountIndex
  return lib.accountExtras seed account

/-! ## The sessions -/

/-- One turn of the loop that compares the hashes. The sender is not looked at. -/
def compareHash (failure : LibError) (myHash : Bytes) (_ : Unit) (m : UInt16 × Bytes) :
    Result Unit :=
  if m.2.length ≠ 32 ∨ m.2 ≠ myHash then .error (failure : Fault) else .ok ()

/-- The metadata of a session: `create` makes it in the one that broadcasts it, the others
take the next message for it. -/
def shareMetadata : Option (Result Bytes) → Ceremony Bytes
  | some create => do
    let blob ← create
    broadcast blob
    return blob
  | none => do
    let (_sender, blob) ← recv
    return blob

def agreeMetadata (failure : LibError) (maxSigners : UInt16) (create : Option (Result Bytes)) :
    Ceremony Bytes := do
  let metadataBlob ← shareMetadata create
  let myHash ← metadataHash lib metadataBlob
  broadcast myHash
  recvEach (maxSigners - 1).toNat () (compareHash failure myHash)
  return metadataBlob

def packBundle (keyPackage : KeyPackage F G) (pubKeyPackage : PublicKeyPackage F G)
    (metadataBlob : Bytes) : Result Bytes := do
  let (saplingExtras, birthday) ← metadataParse metadataBlob
  KeyShareBundle.serialize lib { keyPackage, pubKeyPackage, saplingExtras, birthday }

def froztDkgRun (myId maxSigners minSigners : UInt16) (birthday : UInt64) (isCoordinator : Bool)
    (rng rng' : Rng) : Ceremony Bytes := do
  let (keyPackage, pubKeyPackage) ←
    Ceremony.dkgRun lib.toFrostCore myId maxSigners minSigners rng
  let metadataBlob ← agreeMetadata lib .dkgError maxSigners <|
    if isCoordinator then some ((metadataCreate lib birthday rng').map Prod.snd) else none
  packBundle lib keyPackage pubKeyPackage metadataBlob

/-- The constant term of a party of a key import. -/
def importTerm (isSeedHolder : Bool) (maxSigners : UInt16) (seed : Bytes) (accountIndex : UInt32) :
    Result F :=
  if isSeedHolder then do
    let sk ← deriveSpendingKey lib seed accountIndex
    let skScalar ← okOr .serializationError (lib.deserializeScalar sk)
    return Ceremony.deriveConstantTerm skScalar maxSigners
  else .ok 1

/-- The comparison of the verifying key: the seed holder broadcasts the one of its seed, the
others compare the next message with their own. -/
def compareKey (isSeedHolder : Bool) (seed : Bytes) (accountIndex : UInt32)
    (pubKeyPackage : PublicKeyPackage F G) : Ceremony Unit :=
  if isSeedHolder then do
    let sk ← deriveSpendingKey lib seed accountIndex
    let expectedVk ← spendingKeyToVk lib sk
    broadcast expectedVk
  else do
    let (_sender, expectedVk) ← recv
    let actualVk ← okOr .serializationError (lib.serializeVerifyingKey pubKeyPackage.verifyingKey)
    if actualVk ≠ expectedVk then
      .fail LibError.keyImportError
    else
      return ()

def froztKeyImportRun (myId maxSigners minSigners seedHolderId : UInt16) (seed : Bytes)
    (accountIndex : UInt32) (birthday : UInt64) (rng : Rng) : Ceremony Bytes := do
  let isSeedHolder := decide (myId = seedHolderId)
  let constantTerm ← importTerm lib isSeedHolder maxSigners seed accountIndex
  let (keyPackage, pubKeyPackage) ←
    Ceremony.keyImportRun lib.toFrostCore myId maxSigners minSigners constantTerm rng
  let metadataBlob ← agreeMetadata lib .keyImportError maxSigners <|
    if isSeedHolder then some (do
      let extras ← deriveExtrasFromSeed lib seed accountIndex
      metadataCreateWithExtras extras birthday)
    else none
  compareKey lib isSeedHolder seed accountIndex pubKeyPackage
  packBundle lib keyPackage pubKeyPackage metadataBlob

end Frozt
