import FrostZm.Fromt.Dkg

/-!
# Key import of the Monero ceremonies

The seed holder publishes the view key, everyone else zeros in its place.
-/

set_option linter.unusedSectionVars false

variable {F G P Rng : Type} [Field F] [DecidableEq F] [Ord F] [Std.TransOrd F] [Std.LawfulEqOrd F]
  [AddCommGroup G] [Module F G] [AddCommGroup P]

open Ceremony

namespace Fromt

variable (lib : FromtLib F G P Rng)

/-- `[0u8; 32]` -/
def zeroShare : Bytes := List.replicate vkShareLen 0

/-- The view key that belongs to a spend key. -/
def viewKeyOf (spendKey : Bytes) : Bytes :=
  lib.serializeScalar (lib.fromBytesModOrder (lib.keccak256 spendKey))

def deriveKeysFromSeed (seed : Bytes) : Bytes × Bytes :=
  let spendKey := lib.serializeScalar (lib.fromBytesModOrder seed)
  (spendKey, viewKeyOf lib spendKey)

def spendKeyToPublic (spendKey : Bytes) : Result Bytes := do
  let scalar ← okOr .serializationError (lib.deserializeScalar spendKey)
  okOr .serializationError (lib.serializeVerifyingKey (scalar • lib.generator))

/-- The constant term and the view key share of a participant. -/
def importTerm (maxSigners : UInt16) : Option Bytes → Result (F × Bytes)
  | some skBytes => do
    let skScalar ← okOr .serializationError (lib.deserializeScalar skBytes)
    return (deriveConstantTerm skScalar maxSigners, viewKeyOf lib skBytes)
  | none => return (1, zeroShare)

def keyImportPart1 (id maxSigners minSigners : UInt16) (spendKey : Option Bytes) (rng : Rng) :
    Result (DkgRound1Secret F G × Bytes) := do
  failIf (minSigners < 2 ∨ maxSigners < minSigners) .keyImportError
  let (constantTerm, vkShareBytes) ← importTerm lib maxSigners spendKey
  let (secret, pkgBytes) ←
    Ceremony.keyImportPart1 lib.toFrostCore id maxSigners minSigners constantTerm rng
  return ({ frostSecret := secret, viewKeyShare := vkShareBytes }, pkgBytes ++ vkShareBytes)

/-- The same loop as `aggregate_view_key_shares`. -/
def aggregateImportViewKey (ownShare : Bytes) (otherShares : BTreeMap (Identifier F) Bytes) :
    Result Bytes :=
  aggregateViewKeyShares lib ownShare otherShares

def keyImportPart3 (secret : DkgRound2Secret F G) (r1Data r2Data expectedVk : Bytes)
    (network : UInt8) (birthday : UInt64) : Result (Bytes × Bytes) := do
  let (keyPackage, pubKeyPackage, vkShares) ← frostPart3 lib secret r1Data r2Data
  let vkBytes ← okOr .serializationError (lib.serializeVerifyingKey pubKeyPackage.verifyingKey)
  failIf (vkBytes ≠ expectedVk) .keyImportError
  let viewKey ← aggregateImportViewKey lib secret.viewKeyShare vkShares
  let bundle : KeyShareBundle F G := { keyPackage, pubKeyPackage, viewKey, network, birthday }
  let bundleBytes ← bundle.serialize lib
  return (bundleBytes, vkBytes)

/-! ## Honest participants -/

variable {lib} {maxSigners minSigners : UInt16}

theorem serialize_keyImportPart3 {secret : DkgRound2Secret F G}
    {r1Data r2Data expectedVk vk data viewKey : Bytes}
    {packages : BTreeMap (Identifier F) (Round1Package F G)} {others : BTreeMap (Identifier F) Bytes}
    {network : UInt8} {birthday : UInt64}
    (hmaps : decodeR1MapWithVk lib r1Data = .ok (packages, others))
    (hview : aggregateImportViewKey lib secret.viewKeyShare others = .ok viewKey)
    (h : keyImportPart3 lib secret r1Data r2Data expectedVk network birthday = .ok (data, vk)) :
    ∃ bundle : KeyShareBundle F G, bundle.serialize lib = .ok data ∧ bundle.viewKey = viewKey := by
  obtain ⟨⟨keyPackage, pubKeyPackage, shares⟩, hfrost, h⟩ := bind_eq_ok.mp h
  obtain ⟨_, -, h⟩ := bind_eq_ok.mp h
  obtain ⟨_, -, h⟩ := bind_eq_ok.mp h
  obtain ⟨stored, hstored, h⟩ := bind_eq_ok.mp h
  obtain ⟨bytes, hbytes, h⟩ := bind_eq_ok.mp h
  obtain ⟨rfl, -⟩ := Prod.mk.inj (Except.ok.inj h)
  obtain ⟨maps, hmaps', hfrost⟩ := bind_eq_ok.mp hfrost
  obtain ⟨_, -, hfrost⟩ := bind_eq_ok.mp hfrost
  obtain ⟨_, -, hfrost⟩ := bind_eq_ok.mp hfrost
  obtain ⟨-, hrest⟩ := Prod.mk.inj (Except.ok.inj hfrost)
  obtain ⟨-, rfl⟩ := Prod.mk.inj hrest
  obtain rfl := Except.ok.inj (hmaps'.symm.trans hmaps)
  obtain rfl := Except.ok.inj (hstored.symm.trans hview)
  exact ⟨_, hbytes, rfl⟩

theorem keyImportPart1_ok {id : UInt16} {spendKey : Option Bytes} {rng : Rng} {term : F}
    {vkShare pkg : Bytes} {secret : Round1SecretPackage F G} (hmin : 2 ≤ minSigners)
    (hmax : minSigners ≤ maxSigners) (hterm : importTerm lib maxSigners spendKey = .ok (term, vkShare))
    (hpart1 : Ceremony.keyImportPart1 lib.toFrostCore id maxSigners minSigners term rng =
      .ok (secret, pkg)) :
    keyImportPart1 lib id maxSigners minSigners spendKey rng =
      .ok (⟨secret, vkShare⟩, pkg ++ vkShare) := by
  refine bind_eq_ok.mpr ⟨(), failIf_eq_ok.mpr ?_, ?_⟩
  · rw [not_or, UInt16.not_lt, UInt16.not_lt]
    exact ⟨hmin, hmax⟩
  · exact bind_eq_ok.mpr ⟨_, hterm, bind_eq_ok.mpr ⟨_, hpart1, rfl⟩⟩

theorem exists_bundle (doc : lib.Documented) (enc : lib.EncodesKeys)
    {deal : Deal lib.toFrostCore maxSigners minSigners} {p : UInt16} (hp : p ∈ deal.ids)
    (hsecret : deal.groupSecret ≠ 0) (hshares : ∀ s ∈ deal.ids, (deal.key s).signingShare ≠ 0)
    {viewKey : Bytes} (hview : viewKey.length = 32) (network : UInt8) (birthday : UInt64) :
    let bundle : KeyShareBundle F G :=
      { keyPackage := deal.key p, pubKeyPackage := deal.publicKey p, viewKey, network, birthday }
    ∃ data, bundle.serialize lib = .ok data ∧ KeyShareBundle.deserialize lib data = .ok bundle := by
  intro bundle
  obtain ⟨⟨kp, hkp⟩, pkp, hpkp⟩ := Deal.exists_keyEncodings doc.toKeys enc hp hsecret hshares
  have hserialize : ∃ data, bundle.serialize lib = .ok data :=
    ⟨_, bind_eq_ok.mpr ⟨kp, okOr_eq_ok.mpr hkp, bind_eq_ok.mpr ⟨pkp, okOr_eq_ok.mpr hpkp, rfl⟩⟩⟩
  obtain ⟨data, hdata⟩ := hserialize
  exact ⟨data, hdata, KeyShareBundle.deserialize_serialize doc hview hdata⟩

end Fromt
