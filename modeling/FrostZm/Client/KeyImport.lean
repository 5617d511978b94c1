import FrostZm.Client.PartyOrder
import FrostZm.Client.Signing
import FrostZm.Ffi.Identifiers
import FrostZm.Ffi.MapCodec
import FrostZm.Frozt.Sessions
import FrostZm.Lib.Posting

/-!
# Key import with the Zcash client

The parties go through the rounds one call of the library at a time, and name the round in the id
of each message. The coordinator holds the seed. It also says which key is expected and what the
metadata are.
-/

set_option linter.unusedSectionVars false

namespace KeyImport

open Relay Relay.RelayClient Collect
open Signing (goSlice)

/-! ## A run -/

/-- `json.Marshal` of a `RoundMessage` beside the readers. -/
structure Json extends Collect.Json where
  marshal : RoundMessage → GoString

/-- A message that was handed to `SendMessage`, with the number that it got there. -/
structure Post where
  messageID : GoString
  toParties : List GoString
  body : RoundMessage
  sequenceNo : UInt64
deriving DecidableEq

/-- The error of each return. The collecting calls keep the error of the loop. -/
inductive ImportError where
  | part1 (f : Fault)
  | sendRound1
  | barrierRound1
  | collectRound1 (e : CollectError)
  | buildRound1 (senderID : UInt16)
  | part2 (f : Fault)
  | decodeRound2
  | noParty (id : UInt16)
  | sendRound2
  | barrierRound2
  | collectRound2 (e : CollectError)
  | buildRound2 (senderID : UInt16)
  | sendVk
  | collectVk (e : CollectError)
  | decodeVk
  | part3 (f : Fault)
  | createMetadata (f : Fault)
  | sendMetadata
  | collectMetadata (e : CollectError)
  | decodeMetadata
  | parseMetadata (f : Fault)
  | hashMetadata (f : Fault)
  | sendHash
  | barrierHash
  | collectHash (e : CollectError)
  | differentHash (senderID : UInt16)
deriving DecidableEq

/-- Why a run has no result. -/
inductive Stop where
  | waiting
  | panics
  | failed (e : ImportError)
deriving DecidableEq

/-- What the requests of a run are answered. A message is told by its id and its recipients. -/
structure Network where
  sends : GoString → List GoString → Bool
  barriers : GoString → Bool
  polls : GoString → List Poll

/-- What a run has done so far. The code keeps the client alone. -/
structure State where
  client : RelayClient
  posts : List Post

def State.init (client : RelayClient) : State := ⟨client, []⟩

def ImportM (α : Type) : Type := Posting.Program State Stop α

instance : Monad ImportM where
  pure a st := (.ok a, st)
  bind x f := Posting.Program.andThen x f

def stop {α : Type} (s : Stop) : ImportM α := fun st => (.error s, st)

def fail {α : Type} (e : ImportError) : ImportM α := stop (.failed e)

def call {α : Type} (error : Fault → ImportError) : Result α → ImportM α
  | .ok a => pure a
  | .error f => fail (error f)

def orFail {α : Type} (error : ImportError) : Option α → ImportM α
  | some a => pure a
  | none => fail error

section Requests

variable (prims : Primitives) (json : Json) (network : Network)

def send (messageID : GoString) (toParties : List GoString) (body : RoundMessage)
    (error : ImportError) : ImportM Unit := fun st =>
  let sequenceNo := st.client.seqCounter + 1
  (if network.sends messageID toParties then .ok () else .error (.failed error),
    { client := { st.client with seqCounter := sequenceNo }
      posts := st.posts ++ [⟨messageID, toParties, body, sequenceNo⟩] })

def waitForBarrier (phase : GoString) (error : ImportError) : ImportM Unit :=
  if network.barriers phase then pure () else fail error

def collectMessages (messageID : GoString) (expected : Int) (error : CollectError → ImportError) :
    ImportM (List RoundMessage) := fun st =>
  match Signing.gather prims json.roundMessage RoundMessage.senderID expected ⟨st.client, [], []⟩
      (network.polls messageID) with
  | none => stop .waiting st
  | some (.error e) => fail (error e) st
  | some (.ok loop) => (.ok (loop.collected.map Prod.snd), { st with client := loop.client })

end Requests

/-! ## The library -/

section Library

variable {F G Rng : Type} [Field F] [DecidableEq F] [Ord F] [Std.TransOrd F] [Std.LawfulEqOrd F]
  [AddCommGroup G] [Module F G] (lib : FroztLib F G Rng)

/-- The term, the key and the extras of a party. Only one with a seed has the last two. -/
def froztImportKeys (maxSigners : UInt16) (seed : Option Bytes) (accountIndex : UInt32) :
    Result (F × Bytes × Bytes) :=
  match seed with
  | none => .ok (1, [], [])
  | some [] => .ok (1, [], [])
  | some seedData => do
    let sk ← Frozt.deriveSpendingKey lib seedData accountIndex
    let vk ← Frozt.spendingKeyToVk lib sk
    let extras ← Frozt.deriveExtrasFromSeed lib seedData accountIndex
    let skScalar ← okOr .serializationError (lib.deserializeScalar sk)
    return (Ceremony.deriveConstantTerm skScalar maxSigners, vk, extras)

/-- `KeyImportPart1`, with the secret in place of its handle. -/
def froztKeyImportPart1 (identifier maxSigners minSigners : UInt16) (seed : Bytes)
    (accountIndex : UInt32) (rng : Rng) : Result (Round1SecretPackage F G × Bytes × Bytes × Bytes) := do
  if minSigners < 2 ∨ maxSigners < minSigners then
    throw (LibError.keyImportError : Fault)
  let (constantTerm, vk, extras) ← froztImportKeys lib maxSigners (goSlice seed) accountIndex
  let (secret, pkgBytes) ← Ceremony.keyImportPart1 lib.toFrostCore identifier maxSigners minSigners
    constantTerm rng
  return (secret, pkgBytes, vk, extras)

/-- `DkgPart2` -/
def froztDkgPart2 (secret : Round1SecretPackage F G) (round1Packages : Bytes) :
    Result (Round2SecretPackage F G × Bytes) := do
  let r1Data ← okOr .nullPtr (goSlice round1Packages)
  Ceremony.dkgPart2 lib.toFrostCore secret r1Data

/-- `KeyImportPart3` -/
def froztKeyImportPart3 (secret : Round2SecretPackage F G)
    (round1Packages round2Packages expectedVk : Bytes) : Result (Bytes × Bytes) := do
  let r1Data ← okOr .nullPtr (goSlice round1Packages)
  let r2Data ← okOr .nullPtr (goSlice round2Packages)
  let vkData ← okOr .nullPtr (goSlice expectedVk)
  let (keyPackage, pubKeyPackage) ←
    Ceremony.keyImportPart3 lib.toFrostCore secret r1Data r2Data vkData
  let kpBytes ← okOr .serializationError (lib.serializeKeyPackage keyPackage)
  let pkpBytes ← okOr .serializationError (lib.serializePublicKeyPackage pubKeyPackage)
  return (kpBytes, pkpBytes)

/-- `KeygenMetadataCreateWithExtras` -/
def keygenMetadataCreateWithExtras (extras : Bytes) (birthday : UInt64) : Result Bytes := do
  let extrasData ← okOr .nullPtr (goSlice extras)
  Frozt.metadataCreateWithExtras extrasData birthday

/-- `KeygenMetadataParse` -/
def keygenMetadataParse (metadata : Bytes) : Result (Bytes × UInt64) := do
  let metaData ← okOr .nullPtr (goSlice metadata)
  Frozt.metadataParse metaData

/-- `KeygenMetadataHash` -/
def keygenMetadataHash (metadata : Bytes) : Result Bytes := do
  let metaData ← okOr .nullPtr (goSlice metadata)
  Frozt.metadataHash lib metaData

/-- `EncodeMap` of the Zcash binding leaves out an entry whose id has no encoding. -/
def froztEncodeMap (entries : List (UInt16 × Bytes)) : Bytes :=
  encodeFields (entries.filterMap fun e =>
    (Identifiers.encodeIdentifier lib.toFrostCore e.1).toOption.map (·, e.2))

/-- `DecodeMap` of the Zcash binding. -/
def froztDecodeMap (data : Bytes) : Option (List (UInt16 × Bytes)) :=
  (MapCodec.goDecodeMap data).toOption.bind fun generic => generic.mapM fun e =>
    (Identifiers.decodeIdentifier lib.toFrostCore (goSlice e.1)).toOption.map (·, e.2)

end Library

/-! ## The functions -/

structure Config where
  seed : Bytes
  accountIndex : UInt32
  birthday : UInt64

structure Party where
  partyID : GoString
  identifier : UInt16
  maxSigners : UInt16
  minSigners : UInt16
  allParties : List GoString

structure KeygenResult where
  keyPackage : Bytes
  pubKeyPackage : Bytes
  saplingExtras : Bytes
  birthday : UInt64
deriving DecidableEq

/-- `OtherParties` -/
def Party.others (party : Party) : List GoString := party.allParties.filter (· ≠ party.partyID)

def Party.expected (party : Party) : Int := party.allParties.length - 1

def round1 : GoString := ascii "import-round1"
def round2 : GoString := ascii "import-round2"
def expectedVkPhase : GoString := ascii "import-expected-vk"
def metadataPhase : GoString := ascii "import-metadata"
def hashPhase : GoString := ascii "keygen-metadata-hash"

section Functions

variable (prims : Primitives) (json : Json) (network : Network)
variable {F G Rng : Type} [Field F] [DecidableEq F] [Ord F] [Std.TransOrd F] [Std.LawfulEqOrd F]
  [AddCommGroup G] [Module F G] (lib : FroztLib F G Rng)
variable (party : Party)

def buildRoundMap (error : UInt16 → ImportError) :
    List RoundMessage → ImportM (List (UInt16 × Bytes))
  | [] => pure []
  | m :: messages => do
    let data ← orFail (error m.senderID) (prims.base64Decode m.data)
    let entries ← buildRoundMap error messages
    return (m.senderID, data) :: entries

/-- One message for each entry, until one fails. -/
def sendPerRecipient : List (UInt16 × Bytes) → ImportM Unit
  | [] => pure ()
  | (recipientID, value) :: entries => do
    let recipient ← orFail (.noParty recipientID)
      (buildPartyIdentifierMap party.allParties recipientID)
    send network round2 [recipient] ⟨party.identifier, prims.base64Encode value, recipientID⟩
      .sendRound2
    sendPerRecipient entries

/-- The two rounds, with the packages that the last one reads. -/
def exchangeRounds (secret1 : Round1SecretPackage F G) (round1Pkg : Bytes) :
    ImportM (Round2SecretPackage F G × Bytes × Bytes) := do
  send network round1 party.others ⟨party.identifier, prims.base64Encode round1Pkg, 0⟩ .sendRound1
  waitForBarrier network round1 .barrierRound1
  let round1Messages ← collectMessages prims json network round1 party.expected .collectRound1
  let round1Map ← buildRoundMap prims .buildRound1 round1Messages
  let round1Encoded := froztEncodeMap lib round1Map
  let (secret2, round2Pkgs) ← call .part2 (froztDkgPart2 lib secret1 round1Encoded)
  let round2Map ← orFail .decodeRound2 (froztDecodeMap lib round2Pkgs)
  sendPerRecipient prims network party round2Map
  waitForBarrier network round2 .barrierRound2
  let round2Messages ← collectMessages prims json network round2 party.expected .collectRound2
  let round2RecvMap ← buildRoundMap prims .buildRound2 round2Messages
  return (secret2, round1Encoded, froztEncodeMap lib round2RecvMap)

/-- What the coordinator sends to all, the others take from the first message of the id. -/
def shareBytes (isCoordinator : Bool) (messageID : GoString) (data : Bytes) (sendError : ImportError)
    (collectError : CollectError → ImportError) (decodeError : ImportError) : ImportM Bytes :=
  if isCoordinator then do
    send network messageID party.others ⟨party.identifier, prims.base64Encode data, 0⟩ sendError
    return data
  else do
    let messages ← collectMessages prims json network messageID 1 collectError
    match messages with
    | [] => stop .panics
    | m :: _ => orFail decodeError (prims.base64Decode m.data)

/-- `exchangeBytes`, for the expected key. -/
def exchangeBytes (isCoordinator : Bool) (data : Bytes) : ImportM Bytes :=
  shareBytes prims json network party isCoordinator expectedVkPhase data .sendVk .collectVk .decodeVk

def compareHashes (myHash : GoString) : List RoundMessage → ImportM Unit
  | [] => pure ()
  | m :: messages =>
    if m.data ≠ myHash then fail (.differentHash m.senderID) else compareHashes myHash messages

def verifyMetadataConsistency (metadata : Bytes) : ImportM Unit := do
  let hashBytes ← call .hashMetadata (keygenMetadataHash lib metadata)
  let myHash := hexEncode hashBytes
  send network hashPhase party.others ⟨party.identifier, myHash, 0⟩ .sendHash
  waitForBarrier network hashPhase .barrierHash
  let messages ← collectMessages prims json network hashPhase party.expected .collectHash
  compareHashes myHash messages

def exchangeImportMetadata (isCoordinator : Bool) (extras : Bytes) (birthday : UInt64) :
    ImportM (Bytes × UInt64) := do
  let created ← (if isCoordinator then
      call .createMetadata (keygenMetadataCreateWithExtras extras birthday)
    else pure [] : ImportM Bytes)
  let metadata ← shareBytes prims json network party isCoordinator metadataPhase created
    .sendMetadata .collectMetadata .decodeMetadata
  let (parsedExtras, agreedBirthday) ← call .parseMetadata (keygenMetadataParse metadata)
  verifyMetadataConsistency prims json network lib party metadata
  return (parsedExtras, agreedBirthday)

/-- What follows part 1. -/
def finishImport (isCoordinator : Bool) (birthday : UInt64) (secret1 : Round1SecretPackage F G)
    (round1Pkg expectedVk saplingExtras : Bytes) : ImportM KeygenResult := do
  let (secret2, round1Encoded, round2Encoded) ←
    exchangeRounds prims json network lib party secret1 round1Pkg
  let expectedVk ← exchangeBytes prims json network party isCoordinator expectedVk
  let (keyPackage, pubKeyPackage) ←
    call .part3 (froztKeyImportPart3 lib secret2 round1Encoded round2Encoded expectedVk)
  let (saplingExtras, agreedBirthday) ←
    exchangeImportMetadata prims json network lib party isCoordinator saplingExtras birthday
  return { keyPackage, pubKeyPackage, saplingExtras, birthday := agreedBirthday }

def runKeyImport (config : Config) (rng : Rng) : ImportM KeygenResult :=
  match PartyOrder.getCoordinatorPartyID party.allParties with
  | none => stop .panics
  | some coordinatorID => do
    let isCoordinator := decide (party.partyID = coordinatorID)
    let seed := if isCoordinator then config.seed else []
    let (secret1, round1Pkg, expectedVk, saplingExtras) ← call .part1
      (froztKeyImportPart1 lib party.identifier party.maxSigners party.minSigners seed
        config.accountIndex rng)
    finishImport prims json network lib party isCoordinator config.birthday secret1 round1Pkg
      expectedVk saplingExtras

end Functions

end KeyImport
