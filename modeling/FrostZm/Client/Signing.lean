import FrostZm.Client.Collect
import FrostZm.Ffi.SignPackages

/-!
# Signing with the clients

Each signer posts its commitments and collects the others'. The first of the sorted names makes
the signing package, collects the shares and posts the signature; the others sign the package
that they are sent. The three functions differ in the library that they call and in the names
of their phases.
-/

namespace Signing

open Relay Relay.RelayClient Collect Firsts

/-! ## A run -/

/-- `json.Unmarshal` into the `SigningPackageMessage` of each client. Only the one of Zcash has
a randomizer. -/
structure Json extends Collect.Json where
  froztPackage : GoString → Option (GoString × GoString)
  fromtPackage : GoString → Option GoString

/-- A signing package, and the randomizer where the chain has one. -/
structure Use where
  signingPackage : Bytes
  randomizer : Bytes
deriving DecidableEq

/-- The package message of Monero has no second text. -/
inductive Body where
  | commitment (m : CommitmentMessage)
  | signingPackage (package randomizer : GoString)
  | share (m : SignShareMessage)
  | signature (text : GoString)
deriving DecidableEq

/-- A message that was handed to `SendMessage`. -/
structure Post where
  messageID : GoString
  toParties : List GoString
  body : Body
deriving DecidableEq

inductive SignError where
  | signCommit (f : Fault)
  | sendCommitment
  | barrierCommit
  | collectCommitments (e : CollectError)
  | encodeIdentifier (f : Fault)
  | decodeCommitment
  | newPackage (f : Fault)
  | sendPackage
  | receivePackage (e : CollectError)
  | unmarshalPackage
  | decodePackage
  | decodeRandomizer
  | sign (f : Fault)
  | sendShare
  | collectSignShares (e : CollectError)
  | decodeShare
  | aggregate (f : Fault)
  | broadcastSignature
  | receiveSignature (e : CollectError)
  | decodeSignature
  | barrierDone
deriving DecidableEq

/-- Why a run has no result. -/
inductive Stop where
  | waiting
  | panics
  | failed (e : SignError)
deriving DecidableEq

/-- What the requests of a run are answered, for each message id. -/
structure Network where
  sends : GoString → Bool
  barriers : GoString → Bool
  polls : GoString → List Poll

/-- What a run has done so far. The code keeps the client alone. -/
structure State where
  client : RelayClient
  posts : List Post
  used : Option Use

def State.init (client : RelayClient) : State := ⟨client, [], none⟩

/-- A step of a run. The messages that it posted stay posted if it has no result. -/
def SignM (α : Type) : Type := State → Except Stop α × State

instance : Monad SignM where
  pure a st := (.ok a, st)
  bind x f st :=
    match x st with
    | (.ok a, st) => f a st
    | (.error e, st) => (.error e, st)

def stop {α : Type} (s : Stop) : SignM α := fun st => (.error s, st)

def fail {α : Type} (e : SignError) : SignM α := stop (.failed e)

def call {α : Type} (error : Fault → SignError) : Result α → SignM α
  | .ok a => pure a
  | .error f => fail (error f)

section Requests

variable (prims : Primitives) (network : Network)

def send (messageID : GoString) (toParties : List GoString) (body : Body) (error : SignError) :
    SignM Unit := fun st =>
  (if network.sends messageID then .ok () else .error (.failed error),
    { st with
      client := { st.client with seqCounter := st.client.seqCounter + 1 }
      posts := st.posts ++ [⟨messageID, toParties, body⟩] })

def waitForBarrier (phase : GoString) (error : SignError) : SignM Unit :=
  if network.barriers phase then pure () else fail error

/-- The loop of `Collect`, with the client that it leaves. -/
def gather {Entry : Type} (unmarshal : GoString → Option Entry) (senderID : Entry → UInt16)
    (expected : Int) (st : Collect.State Entry) :
    List Poll → Option (Except CollectError (Collect.State Entry))
  | [] => if (st.collected.length : Int) < expected then none else some (.ok st)
  | poll :: rest =>
    if (st.collected.length : Int) < expected then
      match poll with
      | .cancelled => some (.error .cancelled)
      | .failed => some (.error .getMessages)
      | .messages l =>
        match l.foldlM (takeMessage prims unmarshal senderID) st with
        | .error e => some (.error e)
        | .ok st => gather unmarshal senderID expected st rest
    else some (.ok st)

def collectAll {Entry : Type} (unmarshal : GoString → Option Entry) (senderID : Entry → UInt16)
    (messageID : GoString) (expected : Int) (error : CollectError → SignError) :
    SignM (List Entry) := fun st =>
  match gather prims unmarshal senderID expected ⟨st.client, [], []⟩ (network.polls messageID) with
  | none => stop .waiting st
  | some (.error e) => fail (error e) st
  | some (.ok loop) => (.ok (loop.collected.map Prod.snd), { st with client := loop.client })

/-- `WaitForMessage` takes the first message of the first poll that has one. -/
def firstMessage (client : RelayClient) :
    List Poll → Option (Except CollectError (GoString × RelayClient))
  | [] => none
  | .cancelled :: _ => some (.error .cancelled)
  | .failed :: _ => some (.error .getMessages)
  | .messages [] :: rest => firstMessage client rest
  | .messages (d :: _) :: _ =>
    match client.decryptAndVerify prims d.message with
    | (.error e, _) => some (.error (.decrypt e))
    | (.ok body, client) => some (.ok (body, client))

def waitForMessage (messageID : GoString) (error : CollectError → SignError) : SignM GoString := fun st =>
  match firstMessage prims st.client (network.polls messageID) with
  | none => stop .waiting st
  | some (.error e) => fail (error e) st
  | some (.ok (body, client)) => (.ok body, { st with client })

end Requests

/-! ## The functions -/

structure SignPhases where
  commit : GoString
  package : GoString
  share : GoString
  result : GoString
deriving DecidableEq

structure Party where
  partyID : GoString
  identifier : UInt16
  signerParties : List GoString

/-- `OtherParties` -/
def Party.others (party : Party) : List GoString :=
  party.signerParties.filter (· ≠ party.partyID)

/-- `GetCoordinatorPartyID`. Without parties it panics. -/
def Party.coordinator (party : Party) : Option GoString :=
  (sortStrings party.signerParties).head?

def Party.expected (party : Party) : Int := party.signerParties.length - 1

/-- The calls of the library with the arguments of the caller. -/
structure Chain (Nonces Rng : Type) where
  signCommit : Rng → Result (Nonces × Bytes)
  /-- `none` for an entry that is left out of the map. -/
  encodeID : UInt16 → Except SignError (Option Bytes)
  newPackage : Bytes → Rng → Result Use
  readPackage : GoString → Except SignError Use
  sign : Use → Nonces → Result Bytes
  aggregate : Use → Bytes → Result Bytes

section Functions

variable (prims : Primitives) (json : Json) (network : Network) {Nonces Rng : Type}
  (chain : Chain Nonces Rng) (phases : SignPhases) (party : Party)

/-- The entries of a map, their values in base64. -/
def mapEntries (error : SignError) (entries : List (UInt16 × GoString)) :
    Except SignError (List (Bytes × Bytes)) := do
  let encoded ← entries.mapM fun (id, text) => do
    let idBytes ← chain.encodeID id
    match prims.base64Decode text with
    | none => throw error
    | some value => return idBytes.map (·, value)
  return encoded.reduceOption

def liftError {α : Type} : Except SignError α → SignM α
  | .ok a => pure a
  | .error e => fail e

/-- Each run up to `commitmentsEncoded`. -/
def commitRound (rng : Rng) : SignM (Nonces × Bytes) := do
  let (nonces, commitmentBytes) ← call .signCommit (chain.signCommit rng)
  let commitMsg : CommitmentMessage := ⟨party.identifier, prims.base64Encode commitmentBytes⟩
  send network phases.commit party.others (.commitment commitMsg) .sendCommitment
  waitForBarrier network phases.commit .barrierCommit
  let commitMessages ← collectAll prims network json.commitmentMessage
    CommitmentMessage.senderID phases.commit party.expected .collectCommitments
  let commitmentsMap ← liftError (mapEntries prims chain .decodeCommitment
    ((commitMessages ++ [commitMsg]).map fun m => (m.senderID, m.commitment)))
  return (nonces, encodeFields commitmentsMap)

/-- `Sign` of the library. -/
def signWith (use : Use) (nonces : Nonces) : SignM Bytes := fun st =>
  call .sign (chain.sign use nonces) { st with used := some use }

def runCoordinator (nonces : Nonces) (commitmentsEncoded : Bytes) (rng : Rng) : SignM Bytes := do
  let use ← call .newPackage (chain.newPackage commitmentsEncoded rng)
  send network phases.package party.others (.signingPackage
    (prims.base64Encode use.signingPackage) (prims.base64Encode use.randomizer)) .sendPackage
  let myShare ← signWith chain use nonces
  let shares ← collectAll prims network json.signShareMessage SignShareMessage.senderID
    phases.share party.expected .collectSignShares
  let myID ← liftError (chain.encodeID party.identifier)
  let entries ← liftError (mapEntries prims chain .decodeShare
    (shares.map fun m => (m.senderID, m.share)))
  let sharesEncoded := encodeFields ((myID.map (·, myShare)).toList ++ entries)
  let signature ← call .aggregate (chain.aggregate use sharesEncoded)
  send network phases.result party.others (.signature (prims.base64Encode signature))
    .broadcastSignature
  return signature

/-- A signer is also given the message, the commitments that it collected and, in a spend, the
randomizer. It reads none of them. -/
def runSigner (coordinatorID : GoString) (nonces : Nonces) (_commitmentsEncoded : Bytes) :
    SignM Bytes := do
  let body ← waitForMessage prims network phases.package .receivePackage
  let use ← liftError (chain.readPackage body)
  let share ← signWith chain use nonces
  let shareMsg : SignShareMessage := ⟨party.identifier, prims.base64Encode share⟩
  send network phases.share [coordinatorID] (.share shareMsg) .sendShare
  let text ← waitForMessage prims network phases.result .receiveSignature
  match prims.base64Decode text with
  | none => fail .decodeSignature
  | some signature => return signature

/-- The randomness of the commitments and that of the package. -/
def runSign (rng rng' : Rng) : SignM Bytes :=
  match party.coordinator with
  | none => stop .panics
  | some coordinatorID => do
    let (nonces, commitmentsEncoded) ← commitRound prims json network chain phases party rng
    if party.partyID = coordinatorID then
      runCoordinator prims json network chain phases party nonces commitmentsEncoded rng'
    else runSigner prims network chain phases party coordinatorID nonces commitmentsEncoded

end Functions

/-! ## The two chains -/

section Chains

variable {F G P Rng : Type} [Field F] [DecidableEq F] [Ord F] [Std.TransOrd F] [Std.LawfulEqOrd F]
  [AddCommGroup G] [Module F G] [AddCommGroup P]
variable (prims : Primitives) (json : Json) (network : Network) (frost : FrostSigning F G Rng)

/-- `cGoSlice` of the Zcash binding: no bytes are a null pointer. The one of Monero passes an
empty slice. -/
def goSlice (b : Bytes) : Option Bytes := if b = [] then none else some b

/-- The package message of the Zcash client. -/
def froztReadPackage (body : GoString) : Except SignError Use :=
  match json.froztPackage body with
  | none => .error .unmarshalPackage
  | some (package, randomizer) =>
    match prims.base64Decode package with
    | none => .error .decodePackage
    | some signingPackage =>
      match prims.base64Decode randomizer with
      | none => .error .decodeRandomizer
      | some randomizer => .ok ⟨signingPackage, randomizer⟩

def fromtReadPackage (body : GoString) : Except SignError Use :=
  match json.fromtPackage body with
  | none => .error .unmarshalPackage
  | some package =>
    match prims.base64Decode package with
    | none => .error .decodePackage
    | some signingPackage => .ok ⟨signingPackage, []⟩

/-- A spend has its randomizer from the caller. -/
def froztChain (keys : FrostKeys F G Rng) (keyPackage pubKeyPackage message : Bytes)
    (alpha : Option Bytes) : Chain (SigningNonces F) Rng where
  signCommit := SignCalls.froztSignCommit keys frost (goSlice keyPackage) true true
  encodeID id := .ok (SignPackages.encodeIdentifier frost id).toOption
  newPackage commitmentsEncoded rng := do
    let (signingPackage, randomizer) ← SignPackages.froztSignNewPackage frost keys
      (goSlice message) (goSlice commitmentsEncoded) (goSlice pubKeyPackage) rng
    return ⟨signingPackage, alpha.getD randomizer⟩
  readPackage := froztReadPackage prims json
  sign use nonces := SignPackages.froztSign frost keys (goSlice use.signingPackage) nonces
    (goSlice keyPackage) (goSlice use.randomizer)
  aggregate use shares := SignPackages.froztSignAggregate frost keys (goSlice use.signingPackage)
    (goSlice shares) (goSlice pubKeyPackage) (goSlice use.randomizer)

def fromtChain (lib : FromtLib F G P Rng) (keyShare message : Bytes) :
    Chain (SigningNonces F) Rng where
  signCommit := SignCalls.fromtSignCommit lib frost (some keyShare) true true
  encodeID id :=
    match SignPackages.encodeIdentifier frost id with
    | .ok idBytes => .ok (some idBytes)
    | .error f => .error (.encodeIdentifier f)
  newPackage commitmentsEncoded _ := do
    let signingPackage ← SignPackages.fromtSignCreatePackage frost (some message)
      (some commitmentsEncoded)
    return ⟨signingPackage, []⟩
  readPackage := fromtReadPackage prims json
  sign use nonces := SignPackages.fromtSign frost lib (some use.signingPackage) nonces
    (some keyShare)
  aggregate use shares := SignPackages.fromtSignAggregate frost lib (some use.signingPackage)
    (some shares) (some keyShare)

def signPhases : SignPhases :=
  ⟨ascii "sign-commit", ascii "sign-package", ascii "sign-share", ascii "sign-result"⟩

def spendPhases (roundIndex : Int) : SignPhases :=
  ⟨ascii s!"spend-commit-{roundIndex}", ascii s!"spend-package-{roundIndex}",
    ascii s!"spend-share-{roundIndex}", ascii s!"spend-result-{roundIndex}"⟩

/-- `RunSign` of the Zcash client. -/
def froztRunSign (keys : FrostKeys F G Rng) (party : Party)
    (keyPackage pubKeyPackage message : Bytes) (rng rng' : Rng) : SignM Bytes :=
  runSign prims json network (froztChain prims json frost keys keyPackage pubKeyPackage message none)
    signPhases party rng rng'

def runSpendSign (keys : FrostKeys F G Rng) (party : Party)
    (keyPackage pubKeyPackage sighash alpha : Bytes) (roundIndex : Int) (rng rng' : Rng) :
    SignM Bytes :=
  runSign prims json network
    (froztChain prims json frost keys keyPackage pubKeyPackage sighash (some alpha))
    (spendPhases roundIndex) party rng rng'

/-- `RunSign` of the Monero client. -/
def fromtRunSign (lib : FromtLib F G P Rng) (party : Party) (keyShare message : Bytes)
    (rng rng' : Rng) : SignM Bytes := do
  let signature ← runSign prims json network (fromtChain prims json frost lib keyShare message)
    signPhases party rng rng'
  waitForBarrier network (ascii "sign-done") .barrierDone
  return signature

end Chains

end Signing
