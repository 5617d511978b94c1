import FrostZm.Ceremony.Deal

/-!
# Signing with frost-core

The signing half of the library, plain and rerandomized. A signature share is the
signer's nonces and its weighted key share times the challenge, so the shares of enough
signers add up to a signature under the key they share.
-/

open Polynomial Shamir

set_option linter.unusedSectionVars false

variable {F G Rng : Type} [Field F] [DecidableEq F] [Ord F] [Std.TransOrd F] [Std.LawfulEqOrd F]
  [AddCommGroup G] [Module F G]

/-! ## Records -/

structure SigningNonces (F : Type) where
  hidingNonce : F
  bindingNonce : F
deriving DecidableEq

structure SigningCommitments (G : Type) where
  hidingCommitment : G
  bindingCommitment : G
deriving DecidableEq

structure SigningPackage (F G : Type) [Field F] [Ord F] where
  signingCommitments : BTreeMap (Identifier F) (SigningCommitments G)
  message : Bytes

structure SignatureShare (F : Type) where
  share : F
deriving DecidableEq

/-- The commitments that belong to a pair of nonces. -/
def SigningNonces.commitments (n : SigningNonces F) (generator : G) : SigningCommitments G :=
  ⟨n.hidingNonce • generator, n.bindingNonce • generator⟩

/-- `KeyPackage::randomize` -/
def KeyPackage.randomize (k : KeyPackage F G) (generator : G) (randomizer : F) : KeyPackage F G :=
  { k with
    signingShare := k.signingShare + randomizer
    verifyingShare := k.verifyingShare + randomizer • generator
    verifyingKey := k.verifyingKey + randomizer • generator }

/-- `PublicKeyPackage::randomize` -/
def PublicKeyPackage.randomize (p : PublicKeyPackage F G) (generator : G) (randomizer : F) :
    PublicKeyPackage F G where
  verifyingShares := p.verifyingShares.map fun _ s => s + randomizer • generator
  verifyingKey := p.verifyingKey + randomizer • generator

/-! ## The library -/

structure FrostSigning (F G Rng : Type) [Field F] [Ord F] [AddCommGroup G] [Module F G] extends
    FrostCore F G Rng where
  /-- The version and ciphersuite that most encodings start with. -/
  header : Bytes
  commit : F → Rng → SigningNonces F × SigningCommitments G × Rng
  serializeCommitments : SigningCommitments G → Option Bytes
  deserializeCommitments : Bytes → Option (SigningCommitments G)
  serializeSigningPackage : SigningPackage F G → Option Bytes
  deserializeSigningPackage : Bytes → Option (SigningPackage F G)
  bindingFactor : G → SigningPackage F G → Identifier F → F
  challenge : G → G → Bytes → F
  sign : SigningPackage F G → SigningNonces F → KeyPackage F G →
    Except (FrostError F) (SignatureShare F)
  serializeShare : SignatureShare F → Bytes
  deserializeShare : Bytes → Option (SignatureShare F)
  aggregate : SigningPackage F G → BTreeMap (Identifier F) (SignatureShare F) →
    PublicKeyPackage F G → Except (FrostError F) (Signature F G)
  verify : G → Bytes → Signature F G → Bool
  serializeSignature : Signature F G → Option Bytes
  deserializeSignature : Bytes → Option (Signature F G)
  newRandomizer : G → SigningPackage F G → Rng → Option F
  serializeRandomizer : F → Bytes
  deserializeRandomizer : Bytes → Option F
  signRandomized : SigningPackage F G → SigningNonces F → KeyPackage F G → F →
    Except (FrostError F) (SignatureShare F)
  aggregateRandomized : SigningPackage F G → BTreeMap (Identifier F) (SignatureShare F) →
    PublicKeyPackage F G → F → Except (FrostError F) (Signature F G)

namespace FrostSigning

variable (frost : FrostSigning F G Rng)

/-- The points of a package's signers. -/
def points (sp : SigningPackage F G) : Finset F :=
  (sp.signingCommitments.toList.map fun e => e.1.toScalar).toFinset

def groupCommitment (vk : G) (sp : SigningPackage F G) : G :=
  (sp.signingCommitments.toList.map fun e =>
    e.2.hidingCommitment + frost.bindingFactor vk sp e.1 • e.2.bindingCommitment).sum

def shareOf (sp : SigningPackage F G) (nonces : SigningNonces F) (key : KeyPackage F G) :
    SignatureShare F :=
  ⟨nonces.hidingNonce + frost.bindingFactor key.verifyingKey sp key.identifier * nonces.bindingNonce +
    key.signingShare * weight (points sp) key.identifier.toScalar *
      frost.challenge (frost.groupCommitment key.verifyingKey sp) key.verifyingKey sp.message⟩

def signatureOf (vk : G) (sp : SigningPackage F G)
    (shares : BTreeMap (Identifier F) (SignatureShare F)) : Signature F G :=
  ⟨frost.groupCommitment vk sp, FrostCore.sumValues shares SignatureShare.share⟩

/-- Every commitment of the package has an encoding. -/
def Encodable (sp : SigningPackage F G) : Prop :=
  ∀ (id : Identifier F) (c : SigningCommitments G), sp.signingCommitments[id]? = some c →
    ∃ b, frost.serializeCommitments c = some b

/-- What the ceremonies rely on. Drawn commitments and aggregated signatures contain no
identity element, so they have encodings. -/
structure Documented : Prop extends frost.toFrostCore.Documented where
  header_eq : ∃ version a b c d, frost.header = [version, a, b, c, d] ∧ d ≠ version
  commit_eq : ∀ share rng, (frost.commit share rng).2.1 =
    (frost.commit share rng).1.commitments frost.generator
  commit_ok : ∀ share rng, ∃ b, frost.serializeCommitments (frost.commit share rng).2.1 = some b
  commitments_roundtrip : ∀ c b, frost.serializeCommitments c = some b →
    frost.deserializeCommitments b = some c
  commitments_header : ∀ b c, frost.deserializeCommitments b = some c →
    frost.header <+: b ∧ 32 < b.length
  signingPackage_ok : ∀ sp, frost.Encodable sp → ∃ b, frost.serializeSigningPackage sp = some b
  signingPackage_header : ∀ sp b, frost.serializeSigningPackage sp = some b → frost.header <+: b
  sign_ok : ∀ sp nonces key, key.minSigners.toNat ≤ sp.signingCommitments.size →
    sp.signingCommitments[key.identifier]? = some (nonces.commitments frost.generator) →
    frost.Encodable sp → frost.sign sp nonces key = .ok (frost.shareOf sp nonces key)
  length_share : ∀ s, (frost.serializeShare s).length = 32
  share_roundtrip : ∀ s, frost.deserializeShare (frost.serializeShare s) = some s
  aggregate_ok : ∀ sp shares pub, (∀ id, id ∈ sp.signingCommitments ↔ id ∈ shares) →
    (∀ id ∈ shares, id ∈ pub.verifyingShares) → frost.Encodable sp →
    frost.verify pub.verifyingKey sp.message (frost.signatureOf pub.verifyingKey sp shares) = true →
    frost.aggregate sp shares pub = .ok (frost.signatureOf pub.verifyingKey sp shares)
  aggregate_verifies : ∀ sp shares pub σ, frost.aggregate sp shares pub = .ok σ →
    frost.verify pub.verifyingKey sp.message σ = true ∧
      ∃ b, frost.serializeSignature σ = some b
  verify_of_eq : ∀ vk msg σ, σ.z • frost.generator = σ.r + frost.challenge σ.r vk msg • vk →
    frost.verify vk msg σ = true
  signature_roundtrip : ∀ σ b, frost.serializeSignature σ = some b →
    frost.deserializeSignature b = some σ
  newRandomizer_ok : ∀ vk sp rng, (∃ b, frost.serializeSigningPackage sp = some b) →
    ∃ r, frost.newRandomizer vk sp rng = some r
  randomizer_roundtrip : ∀ r, frost.deserializeRandomizer (frost.serializeRandomizer r) = some r
  length_randomizer : ∀ b r, frost.deserializeRandomizer b = some r → b.length = 32
  signRandomized_eq : ∀ sp nonces key r, frost.signRandomized sp nonces key r =
    frost.sign sp nonces (key.randomize frost.generator r)
  aggregateRandomized_eq : ∀ sp shares pub r, frost.aggregateRandomized sp shares pub r =
    frost.aggregate sp shares (pub.randomize frost.generator r)

end FrostSigning

/-! ## Signers -/

/-- Distinct participants with shares of one key, at least as many as its threshold. -/
structure Signers (frost : FrostSigning F G Rng) where
  ids : List UInt16
  ident : UInt16 → Identifier F
  key : UInt16 → KeyPackage F G
  publicKey : PublicKeyPackage F G
  minSigners : UInt16
  nonempty : ids ≠ []
  nodup : ids.Nodup
  enough : minSigners.toNat ≤ ids.length
  tryFrom : ∀ p ∈ ids, Identifier.tryFrom p = some (ident p)
  identifier : ∀ p ∈ ids, (key p).identifier = ident p
  threshold : ∀ p ∈ ids, (key p).minSigners = minSigners
  verifyingKey : ∀ p ∈ ids, (key p).verifyingKey = publicKey.verifyingKey
  verifyingShares : ∀ p ∈ ids, ident p ∈ publicKey.verifyingShares
  shared : ∃ f : F[X], f.degree < ids.length ∧
    publicKey.verifyingKey = f.eval 0 • frost.generator ∧
    ∀ p ∈ ids, (key p).signingShare = f.eval (ident p).toScalar

namespace Signers

variable {frost : FrostSigning F G Rng} (signers : Signers frost)

def package (nonces : UInt16 → SigningNonces F) (message : Bytes) : SigningPackage F G :=
  ⟨BTreeMap.tabulate signers.ident (fun p => (nonces p).commitments frost.generator) signers.ids,
    message⟩

def share (nonces : UInt16 → SigningNonces F) (message : Bytes) (p : UInt16) : SignatureShare F :=
  frost.shareOf (signers.package nonces message) (nonces p) (signers.key p)

def shares (nonces : UInt16 → SigningNonces F) (message : Bytes) :
    BTreeMap (Identifier F) (SignatureShare F) :=
  BTreeMap.tabulate signers.ident (signers.share nonces message) signers.ids

def signature (nonces : UInt16 → SigningNonces F) (message : Bytes) : Signature F G :=
  frost.signatureOf signers.publicKey.verifyingKey (signers.package nonces message)
    (signers.shares nonces message)

variable {signers} {nonces : UInt16 → SigningNonces F} {message : Bytes} {p : UInt16}

theorem ident_injective (doc : frost.Documented) : BTreeMap.Injective signers.ident signers.ids := by
  intro x hx y hy h
  exact doc.tryFrom_inj (signers.tryFrom x hx) (h ▸ signers.tryFrom y hy)

theorem points_package (doc : frost.Documented) :
    FrostSigning.points (signers.package nonces message) =
      (signers.ids.map fun p => (signers.ident p).toScalar).toFinset := by
  have hperm : (signers.package nonces message).signingCommitments.toList.Perm _ :=
    BTreeMap.toList_tabulate_perm (ident_injective doc) signers.nodup
  have hpoints := hperm.map fun e => e.1.toScalar
  rw [List.map_map] at hpoints
  exact List.toFinset_eq_of_perm _ _ hpoints

theorem nodup_points (doc : frost.Documented) :
    (signers.ids.map fun p => (signers.ident p).toScalar).Nodup :=
  signers.nodup.map_on fun x hx y hy h => ident_injective doc x hx y hy (Identifier.ext h)

theorem size_package (doc : frost.Documented) :
    (signers.package nonces message).signingCommitments.size = signers.ids.length :=
  BTreeMap.size_tabulate_eq_iff.mpr ((ident_injective doc).nodup_map signers.nodup)

theorem groupCommitment_package (doc : frost.Documented) (vk : G) :
    frost.groupCommitment vk (signers.package nonces message) =
      (signers.ids.map fun p => ((nonces p).hidingNonce + frost.bindingFactor vk
        (signers.package nonces message) (signers.ident p) * (nonces p).bindingNonce)).sum •
        frost.generator := by
  rw [FrostSigning.groupCommitment, List.sum_smul, List.map_map]
  refine (BTreeMap.sum_toList_tabulate (ident_injective doc) signers.nodup _).trans ?_
  refine congrArg List.sum (List.map_congr_left fun p hp => ?_)
  simp only [Function.comp_apply, SigningNonces.commitments, add_smul, mul_smul]

theorem sum_weighted (doc : frost.Documented) {f : F[X]} (hdeg : f.degree < signers.ids.length) :
    (signers.ids.map fun p => f.eval (signers.ident p).toScalar *
      weight (FrostSigning.points (signers.package nonces message)) (signers.ident p).toScalar).sum =
      f.eval 0 := by
  have hcard : (signers.ids.map fun p => (signers.ident p).toScalar).toFinset.card =
      signers.ids.length := by
    rw [List.toFinset_card_of_nodup (nodup_points doc), List.length_map]
  rw [points_package doc]
  rw [← sum_weight_mul_eval (hdeg.trans_eq (congrArg _ hcard.symm)),
    List.sum_toFinset _ (nodup_points doc), List.map_map]
  rfl

theorem verify_signature (doc : frost.Documented) :
    frost.verify signers.publicKey.verifyingKey message (signers.signature nonces message) = true := by
  obtain ⟨f, hdeg, hvk, hshare⟩ := signers.shared
  refine doc.verify_of_eq _ _ _ ?_
  let sp := signers.package nonces message
  let vk := signers.publicKey.verifyingKey
  have hshares : ∀ p ∈ signers.ids, (signers.share nonces message p).share =
      ((nonces p).hidingNonce + frost.bindingFactor vk sp (signers.ident p) * (nonces p).bindingNonce) +
      (f.eval (signers.ident p).toScalar * weight (FrostSigning.points sp)
        (signers.ident p).toScalar) * frost.challenge (frost.groupCommitment vk sp) vk message := by
    intro p hp
    rw [share, FrostSigning.shareOf, signers.identifier p hp, signers.verifyingKey p hp, hshare p hp]
    rfl
  have hsum : (signers.signature nonces message).z =
      (signers.ids.map fun p => ((nonces p).hidingNonce +
        frost.bindingFactor vk sp (signers.ident p) * (nonces p).bindingNonce)).sum +
      f.eval 0 * frost.challenge (frost.groupCommitment vk sp) vk message := by
    rw [signature, FrostSigning.signatureOf, FrostCore.sumValues, shares,
      BTreeMap.sum_toList_tabulate (ident_injective doc) signers.nodup,
      List.map_congr_left hshares, List.sum_map_add, List.sum_map_mul_right, sum_weighted doc hdeg]
  rw [hsum, add_smul, ← groupCommitment_package doc, mul_comm, mul_smul, ← hvk]
  rfl

theorem encodable_package (doc : frost.Documented)
    (h : ∀ p ∈ signers.ids, ∃ b,
      frost.serializeCommitments ((nonces p).commitments frost.generator) = some b) :
    frost.Encodable (signers.package nonces message) := by
  intro id c hc
  obtain ⟨p, hp, -, rfl⟩ := (BTreeMap.getElem?_tabulate (ident_injective doc)).mp hc
  exact h p hp

theorem sign_ok (doc : frost.Documented) (henc : frost.Encodable (signers.package nonces message))
    (hp : p ∈ signers.ids) :
    frost.sign (signers.package nonces message) (nonces p) (signers.key p) =
      .ok (signers.share nonces message p) := by
  refine doc.sign_ok _ _ _ ?_ ?_ henc
  · rw [signers.threshold p hp, size_package doc]
    exact signers.enough
  · rw [signers.identifier p hp]
    exact BTreeMap.getElem?_tabulate_of_mem (ident_injective doc) hp

theorem aggregate_ok (doc : frost.Documented)
    (henc : frost.Encodable (signers.package nonces message)) :
    frost.aggregate (signers.package nonces message) (signers.shares nonces message)
      signers.publicKey = .ok (signers.signature nonces message) := by
  refine doc.aggregate_ok _ _ _ ?_ ?_ henc (verify_signature doc)
  · intro id
    rw [package, shares, BTreeMap.mem_tabulate, BTreeMap.mem_tabulate]
  · intro id hid
    obtain ⟨p, hp, rfl⟩ := BTreeMap.mem_tabulate.mp hid
    exact signers.verifyingShares p hp

/-! ### Under a randomized key -/

/-- The same signers with the key shifted by a randomizer. -/
def randomize (signers : Signers frost) (r : F) : Signers frost where
  ids := signers.ids
  ident := signers.ident
  key p := (signers.key p).randomize frost.generator r
  publicKey := signers.publicKey.randomize frost.generator r
  minSigners := signers.minSigners
  nonempty := signers.nonempty
  nodup := signers.nodup
  enough := signers.enough
  tryFrom := signers.tryFrom
  identifier := signers.identifier
  threshold := signers.threshold
  verifyingKey p hp := congrArg (· + r • frost.generator) (signers.verifyingKey p hp)
  verifyingShares p hp := Std.ExtTreeMap.mem_map.mpr (signers.verifyingShares p hp)
  shared := by
    obtain ⟨f, hdeg, hvk, hshare⟩ := signers.shared
    have hpos : (0 : WithBot ℕ) < signers.ids.length := by
      exact_mod_cast List.length_pos_of_ne_nil signers.nonempty
    refine ⟨f + C r, ?_, ?_, ?_⟩
    · exact (degree_add_le _ _).trans_lt (max_lt hdeg (degree_C_le.trans_lt hpos))
    · rw [eval_add, eval_C, add_smul, ← hvk]
      rfl
    · intro p hp
      rw [eval_add, eval_C, ← hshare p hp]
      rfl

theorem signRandomized_ok (doc : frost.Documented) {r : F}
    (henc : frost.Encodable (signers.package nonces message)) (hp : p ∈ signers.ids) :
    frost.signRandomized (signers.package nonces message) (nonces p) (signers.key p) r =
      .ok ((signers.randomize r).share nonces message p) := by
  rw [doc.signRandomized_eq]
  exact (sign_ok doc henc hp : frost.sign ((signers.randomize r).package nonces message) _ _ = _)

theorem aggregateRandomized_ok (doc : frost.Documented) {r : F}
    (henc : frost.Encodable (signers.package nonces message)) :
    frost.aggregateRandomized (signers.package nonces message)
      ((signers.randomize r).shares nonces message) signers.publicKey r =
      .ok ((signers.randomize r).signature nonces message) := by
  rw [doc.aggregateRandomized_eq]
  exact (aggregate_ok doc henc :
    frost.aggregate ((signers.randomize r).package nonces message) _ _ = _)

end Signers

/-! ## Signers of a key generation -/

namespace Ceremony.Deal

variable {frost : FrostSigning F G Rng} {maxSigners minSigners : UInt16}

/-- Enough of the participants of a key generation can sign. -/
def signers (doc : frost.Documented) (deal : Deal frost.toFrostCore maxSigners minSigners)
    (q : UInt16) (ids : List UInt16) (hq : q ∈ deal.ids) (hne : ids ≠ []) (hnodup : ids.Nodup)
    (hsub : ∀ p ∈ ids, p ∈ deal.ids) (henough : minSigners.toNat ≤ ids.length) : Signers frost where
  ids := ids
  ident := deal.ident
  key := deal.key
  publicKey := deal.publicKey q
  minSigners := minSigners
  nonempty := hne
  nodup := hnodup
  enough := henough
  tryFrom p hp := deal.tryFrom p (hsub p hp)
  identifier _ _ := rfl
  threshold _ _ := rfl
  verifyingKey p hp := by
    rw [key_verifyingKey doc.toDocumented (hsub p hp), publicKey_verifyingKey doc.toDocumented hq]
  verifyingShares p hp := by
    refine Std.ExtTreeMap.mem_map.mpr ?_
    rw [groupCommitments_eq doc.toDocumented hq, BTreeMap.mem_tabulate]
    exact ⟨p, hsub p hp, rfl⟩
  shared := by
    refine ⟨deal.groupPoly, groupPoly_degree_lt.trans_le (by exact_mod_cast henough), ?_, ?_⟩
    · rw [publicKey_verifyingKey doc.toDocumented hq, groupPoly_eval_zero]
    · exact fun p hp => key_signingShare doc.toDocumented (hsub p hp)

end Ceremony.Deal
