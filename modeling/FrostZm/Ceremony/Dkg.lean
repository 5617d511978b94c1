import FrostZm.Ffi.Codec
import FrostZm.Frost.Core
import FrostZm.Session.Relay

/-!
# Distributed key generation

The rounds one call at a time (`dkg_part1` to `dkg_part3`), and `dkg_run`, the session
that drives them over a channel.
-/

set_option linter.unusedSectionVars false

variable {F G Rng : Type} [Field F] [DecidableEq F] [Ord F] [Std.TransOrd F] [Std.LawfulEqOrd F]
  [AddCommGroup G] [Module F G]

open FrostChannel

namespace Ceremony

variable (core : FrostCore F G Rng)

/-! ## Blame -/

/-- The loop of `identifier_to_u16` over the candidates from `i` on. -/
def searchIdentifier (target : Bytes) : List UInt16 → Option UInt16
  | [] => none
  | i :: rest =>
    match (Identifier.tryFrom i : Option (Identifier F)) with
    | none => none
    | some candidate =>
      if core.serializeIdentifier candidate = target then some i else searchIdentifier target rest

def identifierToU16 (ident : Identifier F) : Option UInt16 :=
  searchIdentifier core (core.serializeIdentifier ident) ((List.range 256).map fun i => .ofNat (i + 1))

def frostErrToBlame (err : FrostError F) (default : LibError) : Fault :=
  match err.culprit with
  | none => default
  | some ident =>
    match identifierToU16 core ident with
    | none => default
    | some id => { code := .blame, blamed := some id }

/-- `.map_err(|e| frost_err_to_blame(e, default))?` -/
def blameErr {α : Type} (default : LibError) : Except (FrostError F) α → Result α
  | .ok a => .ok a
  | .error e => .error (frostErrToBlame core e default)

@[simp] theorem blameErr_ok {α : Type} (default : LibError) (a : α) :
    blameErr core default (.ok a) = .ok a := rfl

@[simp] theorem blameErr_eq_ok {α : Type} {default : LibError} {x : Except (FrostError F) α} {a : α} :
    blameErr core default x = .ok a ↔ x = .ok a := by
  cases x <;> simp [blameErr]

/-! ## Round by round -/

def decodeKey (b : Bytes) : Result (Identifier F) :=
  okOr .serializationError (core.deserializeIdentifier b)

def decodeR1Map (data : Bytes) : Result (BTreeMap (Identifier F) (Round1Package F G)) :=
  decodeMap data (decodeKey core) fun b => okOr .serializationError (core.deserializeRound1 b)

def encodeR2Map (packages : BTreeMap (Identifier F) (Round2Package F)) : Result Bytes :=
  encodeMap packages (fun id => .ok (core.serializeIdentifier id))
    fun pkg => okOr .serializationError (core.serializeRound2 pkg)

def decodeR2Map (data : Bytes) : Result (BTreeMap (Identifier F) (Round2Package F)) :=
  decodeMap data (decodeKey core) fun b => okOr .serializationError (core.deserializeRound2 b)

def dkgPart1 (id maxSigners minSigners : UInt16) (rng : Rng) :
    Result (Round1SecretPackage F G × Bytes) := do
  if minSigners < 2 ∨ maxSigners < minSigners then
    throw (LibError.dkgError : Fault)
  let ident ← okOr .invalidIdentifier (Identifier.tryFrom id)
  let (secret, package) ← blameErr core .dkgError (core.part1 ident maxSigners minSigners rng)
  let pkgBytes ← okOr .serializationError (core.serializeRound1 package)
  return (secret, pkgBytes)

def dkgPart2 (secret : Round1SecretPackage F G) (round1PackagesData : Bytes) :
    Result (Round2SecretPackage F G × Bytes) := do
  let r1Pkgs ← decodeR1Map core round1PackagesData
  let (secret2, r2Pkgs) ← blameErr core .dkgError (core.part2 secret r1Pkgs)
  let r2Bytes ← encodeR2Map core r2Pkgs
  return (secret2, r2Bytes)

def dkgPart3 (secret : Round2SecretPackage F G) (round1PackagesData round2PackagesData : Bytes) :
    Result (KeyPackage F G × PublicKeyPackage F G) := do
  let r1Pkgs ← decodeR1Map core round1PackagesData
  let r2Pkgs ← decodeR2Map core round2PackagesData
  blameErr core .dkgError (core.part3 secret r1Pkgs r2Pkgs)

/-! ## Sessions -/

/-- `1..=n` -/
def upTo (n : UInt16) : List UInt16 := (List.range n.toNat).map fun i => .ofNat (i + 1)

/-- `HashMap<Vec<u8>, u16>`, the latest entry first. -/
abbrev IdMap := List (Bytes × UInt16)

def buildIdMap (maxSigners : UInt16) : Result IdMap :=
  (upTo maxSigners).foldlM (fun map i => do
    let id ← okOr .invalidIdentifier (Identifier.tryFrom i)
    return (core.serializeIdentifier id, i) :: map) []

def lookupU16 (map : IdMap) (id : Identifier F) : Result UInt16 :=
  okOr .invalidIdentifier (map.lookup (core.serializeIdentifier id))

/-- The body of every collecting loop: the sender must be an identifier and the data must
decode; a second package of one sender replaces the first. -/
def store {α : Type} (decode : Bytes → Option α) (map : BTreeMap (Identifier F) α)
    (m : UInt16 × Bytes) : Result (BTreeMap (Identifier F) α) := do
  let sender ← okOr .invalidIdentifier (Identifier.tryFrom m.1)
  let pkg ← okOr .serializationError (decode m.2)
  return map.insert sender pkg

/-- `for (recipient, pkg) in &r2_map` -/
def sendRound2 (idMap : IdMap) : List (Identifier F × Round2Package F) → Ceremony Unit
  | [] => return ()
  | (recipient, pkg) :: rest => do
    let recipientU16 ← lookupU16 core idMap recipient
    let pkgBytes ← okOr .serializationError (core.serializeRound2 pkg)
    sendTo recipientU16 pkgBytes
    sendRound2 idMap rest

/-- Round 2 and what follows it, once the round-1 packages are in. -/
def finishRounds (maxSigners : UInt16) (idMap : IdMap) (secret1 : Round1SecretPackage F G)
    (r1Map : BTreeMap (Identifier F) (Round1Package F G)) :
    Ceremony (KeyPackage F G × PublicKeyPackage F G) := do
  let (secret2, r2Map) ← blameErr core .dkgError (core.part2 secret1 r1Map)
  sendRound2 core idMap r2Map.toList
  let r2Received ← recvEach (maxSigners - 1).toNat ∅ (store core.deserializeRound2)
  blameErr core .dkgError (core.part3 secret2 r1Map r2Received)

/-- The two rounds that `dkg_run`, `key_import_run` and `reshare_run` have in common, from
the broadcast of the round-1 package on. `max_signers - 1` wraps at zero, as it does in a
release build. -/
def runRounds (maxSigners : UInt16) (idMap : IdMap) (secret1 : Round1SecretPackage F G)
    (r1Bytes : Bytes) : Ceremony (KeyPackage F G × PublicKeyPackage F G) := do
  broadcast r1Bytes
  let r1Map ← recvEach (maxSigners - 1).toNat ∅ (store core.deserializeRound1)
  finishRounds core maxSigners idMap secret1 r1Map

def dkgRun (myId maxSigners minSigners : UInt16) (rng : Rng) :
    Ceremony (KeyPackage F G × PublicKeyPackage F G) := do
  let idMap ← buildIdMap core maxSigners
  let ident ← okOr .invalidIdentifier (Identifier.tryFrom myId)
  let (secret1, package) ← blameErr core .dkgError (core.part1 ident maxSigners minSigners rng)
  let r1Bytes ← okOr .serializationError (core.serializeRound1 package)
  runRounds core maxSigners idMap secret1 r1Bytes

end Ceremony
