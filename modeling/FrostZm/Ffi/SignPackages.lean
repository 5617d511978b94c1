import FrostZm.Ffi.SignCalls

/-!
# Packages and signatures behind the calls

Beside committing and signing, the library makes the package that the shares are for, adds up
the shares and checks the sum. What it adds up verifies.
-/

set_option linter.unusedSectionVars false

namespace SignPackages

variable {F G P Rng : Type} [Field F] [DecidableEq F] [Ord F] [Std.TransOrd F] [Std.LawfulEqOrd F]
  [AddCommGroup G] [Module F G] [AddCommGroup P]

/-! ## The calls -/

section Calls

variable (frost : FrostSigning F G Rng)

def decodeCommitmentsMap (data : Bytes) : Result (BTreeMap (Identifier F) (SigningCommitments G)) :=
  decodeMap data (Ceremony.decodeKey frost.toFrostCore) fun b =>
    okOr .serializationError (frost.deserializeCommitments b)

def decodeSharesMap (data : Bytes) : Result (BTreeMap (Identifier F) (SignatureShare F)) :=
  decodeMap data (Ceremony.decodeKey frost.toFrostCore) fun b =>
    okOr .serializationError (frost.deserializeShare b)

/-- `frozt_encode_identifier` and `fromt_encode_identifier`. -/
def encodeIdentifier (id : UInt16) : Result Bytes := do
  let ident ← okOr .invalidIdentifier (Identifier.tryFrom id : Option (Identifier F))
  return frost.serializeIdentifier ident

variable (keys : FrostKeys F G Rng)

def froztSignNewPackage (message commitmentsMap pubKeyPackage : Option Bytes) (rng : Rng) :
    Result (Bytes × Bytes) := do
  let msg ← okOr .nullPtr message
  let cmData ← okOr .nullPtr commitmentsMap
  let pkpData ← okOr .nullPtr pubKeyPackage
  let commitments ← decodeCommitmentsMap frost cmData
  let pkp ← okOr .serializationError (keys.deserializePublicKeyPackage pkpData)
  let signingPackage : SigningPackage F G := ⟨commitments, msg⟩
  let randomizer ← okOr .signingError (frost.newRandomizer pkp.verifyingKey signingPackage rng)
  let spBytes ← okOr .serializationError (frost.serializeSigningPackage signingPackage)
  return (spBytes, frost.serializeRandomizer randomizer)

def froztSign (signingPackage : Option Bytes) (nonces : SigningNonces F)
    (keyPackage randomizerSeed : Option Bytes) : Result Bytes := do
  let (sp, kpData, seedData) ←
    SignCalls.froztSignStart frost signingPackage keyPackage randomizerSeed true
  let (kp, randomizer) ← SignCalls.froztSignInputs keys frost kpData seedData
  SignCalls.froztShare frost sp nonces kp randomizer

def froztSignAggregate (signingPackage sharesMap pubKeyPackage randomizerSeed : Option Bytes) :
    Result Bytes := do
  let spData ← okOr .nullPtr signingPackage
  let smData ← okOr .nullPtr sharesMap
  let pkpData ← okOr .nullPtr pubKeyPackage
  let seedData ← okOr .nullPtr randomizerSeed
  let sp ← okOr .serializationError (frost.deserializeSigningPackage spData)
  let shares ← decodeSharesMap frost smData
  let pkp ← okOr .serializationError (keys.deserializePublicKeyPackage pkpData)
  let randomizer ← okOr .signingError (frost.deserializeRandomizer seedData)
  let signature ← Ceremony.blameErr frost.toFrostCore .signingError
    (frost.aggregateRandomized sp shares pkp randomizer)
  okOr .serializationError (frost.serializeSignature signature)

def froztVerifySignature (message signature pubKeyPackage randomizerSeed : Option Bytes) :
    Result Unit := do
  let msg ← okOr .nullPtr message
  let sigData ← okOr .nullPtr signature
  let pkpData ← okOr .nullPtr pubKeyPackage
  let seedData ← okOr .nullPtr randomizerSeed
  let pkp ← okOr .serializationError (keys.deserializePublicKeyPackage pkpData)
  let randomizer ← okOr .signingError (frost.deserializeRandomizer seedData)
  let sig ← okOr .serializationError (frost.deserializeSignature sigData)
  let randomized := pkp.verifyingKey + randomizer • frost.generator
  failIf (frost.verify randomized msg sig = false) .signingError

end Calls

section Calls

variable (frost : FrostSigning F G Rng) (lib : FromtLib F G P Rng)

def fromtSignCreatePackage (message commitmentsMap : Option Bytes) : Result Bytes := do
  let msg ← okOr .nullPtr message
  let cmData ← okOr .nullPtr commitmentsMap
  let commitments ← decodeCommitmentsMap frost cmData
  okOr .serializationError (frost.serializeSigningPackage ⟨commitments, msg⟩)

def fromtSign (signingPackage : Option Bytes) (nonces : SigningNonces F)
    (keyShare : Option Bytes) : Result Bytes := do
  let (spData, ksData) ← SignCalls.fromtSignStart signingPackage keyShare true
  let (sp, kp) ← SignCalls.fromtSignInputs lib frost spData ksData
  SignCalls.fromtShare frost sp nonces kp

def fromtSignAggregate (signingPackage sharesMap keyShare : Option Bytes) : Result Bytes := do
  let spData ← okOr .nullPtr signingPackage
  let smData ← okOr .nullPtr sharesMap
  let ksData ← okOr .nullPtr keyShare
  let sp ← okOr .serializationError (frost.deserializeSigningPackage spData)
  let bundle ← Fromt.KeyShareBundle.deserialize lib ksData
  let shares ← decodeSharesMap frost smData
  let signature ← Ceremony.blameErr frost.toFrostCore .signingError
    (frost.aggregate sp shares bundle.pubKeyPackage)
  okOr .serializationError (frost.serializeSignature signature)

def fromtVerifySignature (message signature keyShare : Option Bytes) : Result Unit := do
  let msg ← okOr .nullPtr message
  let sigData ← okOr .nullPtr signature
  let ksData ← okOr .nullPtr keyShare
  let bundle ← Fromt.KeyShareBundle.deserialize lib ksData
  let sig ← okOr .serializationError (frost.deserializeSignature sigData)
  failIf (frost.verify bundle.pubKeyPackage.verifyingKey msg sig = false) .signingError

end Calls

/-! ## What is added up verifies -/

/-- A signing package that was written is read back as it was. -/
def ReadsPackages (frost : FrostSigning F G Rng) : Prop :=
  ∀ sp b, frost.serializeSigningPackage sp = some b → frost.deserializeSigningPackage b = some sp

section Verifies

variable {frost : FrostSigning F G Rng} {keys : FrostKeys F G Rng} {lib : FromtLib F G P Rng}
  {message commitmentsMap sp shares pkp seed ks sig : Bytes}
  {commitments : BTreeMap (Identifier F) (SigningCommitments G)}

theorem froztVerifySignature_aggregate (doc : frost.Documented)
    (hsp : frost.deserializeSigningPackage sp = some ⟨commitments, message⟩)
    (h : froztSignAggregate frost keys (some sp) (some shares) (some pkp) (some seed) = .ok sig) :
    froztVerifySignature frost keys (some message) (some sig) (some pkp) (some seed) = .ok () := by
  simp only [froztSignAggregate, okOr_some, bind_eq_ok, okOr_eq_ok, Ceremony.blameErr_eq_ok,
    Except.ok.injEq, exists_eq_left', hsp, Option.some.injEq, doc.aggregateRandomized_eq] at h
  obtain ⟨sharesMap, -, pub, hpub, r, hr, σ, hσ, hsig⟩ := h
  obtain ⟨hverify, -⟩ := doc.aggregate_verifies _ _ _ _ hσ
  simp only [froztVerifySignature, okOr_some, bind_eq_ok, okOr_eq_ok, Except.ok.injEq,
    exists_eq_left', hpub, hr, doc.signature_roundtrip _ _ hsig, Option.some.injEq]
  rw [failIf_eq_ok, Bool.not_eq_false]
  exact hverify

theorem fromtVerifySignature_aggregate (doc : frost.Documented)
    (hsp : frost.deserializeSigningPackage sp = some ⟨commitments, message⟩)
    (h : fromtSignAggregate frost lib (some sp) (some shares) (some ks) = .ok sig) :
    fromtVerifySignature frost lib (some message) (some sig) (some ks) = .ok () := by
  simp only [fromtSignAggregate, okOr_some, bind_eq_ok, okOr_eq_ok, Ceremony.blameErr_eq_ok,
    Except.ok.injEq, exists_eq_left', hsp, Option.some.injEq] at h
  obtain ⟨bundle, hbundle, sharesMap, -, σ, hσ, hsig⟩ := h
  obtain ⟨hverify, -⟩ := doc.aggregate_verifies _ _ _ _ hσ
  simp only [fromtVerifySignature, okOr_some, bind_eq_ok, okOr_eq_ok, Except.ok.injEq,
    exists_eq_left', hbundle, doc.signature_roundtrip _ _ hsig, Option.some.injEq]
  rw [failIf_eq_ok, Bool.not_eq_false]
  exact hverify

theorem froztSignNewPackage_reads (hread : ReadsPackages frost) {message commitmentsMap pkp : Option Bytes}
    {rng : Rng} {seed : Bytes}
    (h : froztSignNewPackage frost keys message commitmentsMap pkp rng = .ok (sp, seed)) :
    ∃ commitments msg, message = some msg ∧
      frost.deserializeSigningPackage sp = some ⟨commitments, msg⟩ := by
  simp only [froztSignNewPackage, bind_eq_ok, okOr_eq_ok] at h
  obtain ⟨msg, hmsg, cm, -, pkpData, -, commitments, -, pub, -, r, -, b, hb, h⟩ := h
  obtain ⟨rfl, -⟩ := Prod.mk.inj (Except.ok.inj h)
  exact ⟨commitments, msg, hmsg, hread _ _ hb⟩

theorem fromtSignCreatePackage_reads (hread : ReadsPackages frost)
    {message commitmentsMap : Option Bytes}
    (h : fromtSignCreatePackage frost message commitmentsMap = .ok sp) :
    ∃ commitments msg, message = some msg ∧
      frost.deserializeSigningPackage sp = some ⟨commitments, msg⟩ := by
  simp only [fromtSignCreatePackage, bind_eq_ok, okOr_eq_ok] at h
  obtain ⟨msg, hmsg, cm, -, commitments, -, hb⟩ := h
  exact ⟨commitments, msg, hmsg, hread _ _ hb⟩

end Verifies

end SignPackages
