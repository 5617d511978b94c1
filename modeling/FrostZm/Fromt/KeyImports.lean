import FrostZm.Ceremony.Importing
import FrostZm.Fromt.KeyImport
import FrostZm.Fromt.Reference

/-!
# Key imports share the imported key

Every round of honest participants succeeds, with the packages in any order, and leaves
shares of the imported secret and, on Monero, its view key.
-/

set_option linter.unusedSectionVars false

variable {F G P Rng : Type} [Field F] [DecidableEq F] [Ord F] [Std.TransOrd F] [Std.LawfulEqOrd F]
  [AddCommGroup G] [Module F G] [AddCommGroup P]

open Ceremony

namespace Fromt

variable (lib : FromtLib F G P Rng) {maxSigners minSigners : UInt16} (i : Import F Rng maxSigners)

/-- The spend key that a participant passes to round 1. -/
def importedKey (spendKey : Bytes) (p : UInt16) : Option Bytes :=
  if p = i.seedHolder then some spendKey else none

/-- The view key share of a participant. -/
def importShare (spendKey : Bytes) (p : UInt16) : Bytes :=
  if p = i.seedHolder then viewKeyOf lib spendKey else zeroShare

variable {lib} {i} {spendKey : Bytes}

theorem importTerm_ok (hkey : lib.deserializeScalar spendKey = some i.secret) (p : UInt16) :
    importTerm lib maxSigners (importedKey i spendKey p) =
      .ok (i.constantTerm p, importShare lib i spendKey p) := by
  unfold importedKey importShare Import.constantTerm
  split
  · exact bind_eq_ok.mpr ⟨_, okOr_eq_ok.mpr hkey, rfl⟩
  · rfl

theorem importShare_eq (hzero : lib.serializeScalar 0 = zeroShare) (spendKey : Bytes) (p : UInt16) :
    importShare lib i spendKey p = lib.serializeScalar
      (if p = i.seedHolder then lib.fromBytesModOrder (lib.keccak256 spendKey) else 0) := by
  unfold importShare
  split
  · rfl
  · exact hzero.symm

theorem length_importShare (doc : lib.Documented) (enc : lib.EncodesKeys) (p : UInt16) :
    (importShare lib i spendKey p).length = vkShareLen := by
  rw [importShare_eq enc.scalar_zero]
  exact doc.length_scalar _

theorem aggregate_importShare
    (hround : ∀ x, lib.deserializeScalar (lib.serializeScalar x) = some x)
    (hzero : lib.serializeScalar 0 = zeroShare) (spendKey : Bytes) {ident : UInt16 → Identifier F}
    {p : UInt16} (hp : p ∈ i.ids) (hinj : BTreeMap.Injective ident (i.ids.erase p)) :
    aggregateImportViewKey lib (importShare lib i spendKey p)
        (BTreeMap.tabulate ident (importShare lib i spendKey) (i.ids.erase p)) =
      .ok (viewKeyOf lib spendKey) := by
  let share : UInt16 → F := fun p =>
    if p = i.seedHolder then lib.fromBytesModOrder (lib.keccak256 spendKey) else 0
  have hshare : importShare lib i spendKey = fun p => lib.serializeScalar (share p) :=
    funext (importShare_eq hzero spendKey)
  have hsum : (i.ids.map share).sum = lib.fromBytesModOrder (lib.keccak256 spendKey) := by
    rw [List.sum_map_ite_eq, List.count_eq_one_of_mem i.nodup i.mem, one_nsmul]
    simp
  unfold aggregateImportViewKey
  rw [hshare, aggregateViewKeyShares_ok hround i.nodup hp hinj share, hsum, viewKeyOf]

/-- All rounds of honest participants succeed, whatever the order of the packages; the
constant terms add up to the imported secret, and any quorum of the new shares gives it back.
On Monero everyone stores the view key of the spend key, if no share is zero. -/
theorem keyImport_shares_secret (doc : lib.Documented) (enc : lib.EncodesKeys)
    (hmin : 2 ≤ minSigners) (hmax : minSigners ≤ maxSigners) (i : Import F Rng maxSigners)
    (hkey : lib.deserializeScalar spendKey = some i.secret) (hsecret : i.secret ≠ 0)
    (hnonzero : i.NonZero lib.toFrostCore minSigners) :
    let core := lib.toFrostCore
    let viewShare := importShare lib i spendKey
    (i.ids.map i.constantTerm).sum = i.secret ∧
    ∃ (ident : UInt16 → Identifier F) (vk : Bytes) (secret1 : UInt16 → Round1SecretPackage F G)
      (bytes1 : UInt16 → Bytes) (secret2 : UInt16 → Round2SecretPackage F G)
      (bytes2 : UInt16 → UInt16 → Bytes) (key : UInt16 → KeyPackage F G)
      (pub : UInt16 → PublicKeyPackage F G),
      spendKeyToPublic lib spendKey = .ok vk ∧
      (∀ p ∈ i.ids, Identifier.tryFrom p = some (ident p) ∧
        Ceremony.keyImportPart1 core p maxSigners minSigners (i.constantTerm p) (i.rng p) =
          .ok (secret1 p, bytes1 p) ∧
        Fromt.keyImportPart1 lib p maxSigners minSigners (importedKey i spendKey p) (i.rng p) =
          .ok (⟨secret1 p, viewShare p⟩, bytes1 p ++ viewShare p)) ∧
      (∀ p ∈ i.ids, ∀ order : List UInt16, order.Perm (i.ids.erase p) →
        (∃ order' : List UInt16, order'.Perm (i.ids.erase p) ∧
          Ceremony.dkgPart2 core (secret1 p) (roundData core ident bytes1 order) =
            .ok (secret2 p, roundData core ident (bytes2 p) order')) ∧
        ∃ order' : List UInt16, order'.Perm (i.ids.erase p) ∧
          Fromt.dkgPart2 lib ⟨secret1 p, viewShare p⟩
              (roundData core ident (fun s => bytes1 s ++ viewShare s) order) =
            .ok (⟨secret2 p, viewShare p⟩, roundData core ident (bytes2 p) order')) ∧
      (∀ p ∈ i.ids, ∀ order₁ order₂ : List UInt16, order₁.Perm (i.ids.erase p) →
        order₂.Perm (i.ids.erase p) →
        Ceremony.keyImportPart3 core (secret2 p) (roundData core ident bytes1 order₁)
          (roundData core ident (fun s => bytes2 s p) order₂) vk = .ok (key p, pub p) ∧
        ((∀ s ∈ i.ids, (key s).signingShare ≠ 0) → ∀ network birthday, ∃ data,
          Fromt.keyImportPart3 lib ⟨secret2 p, viewShare p⟩
              (roundData core ident (fun s => bytes1 s ++ viewShare s) order₁)
              (roundData core ident (fun s => bytes2 s p) order₂) vk network birthday =
            .ok (data, vk) ∧
          KeyShareBundle.deserialize lib data =
            .ok ⟨key p, pub p, lib.serializeScalar (lib.fromBytesModOrder (lib.keccak256 spendKey)),
              network, birthday⟩)) ∧
      ∀ quorum ⊆ i.ids, quorum.Nodup → minSigners.toNat ≤ quorum.length →
        ∃ coeff : UInt16 → F,
          (∀ p ∈ quorum, lagrangeCoeff (ident p) (quorum.map ident) = .ok (coeff p)) ∧
          (quorum.map fun p => (key p).signingShare * coeff p).sum = i.secret := by
  intro core viewShare
  have hmin0 : minSigners ≠ 0 := by
    rintro rfl
    exact absurd hmin (by decide)
  obtain ⟨deal, bytes, hids, hgroup, hpart1, hbytes⟩ := i.exists_deal doc.toCore hmin0 hnonzero
  have hshare : ∀ s ∈ deal.ids, (viewShare s).length = vkShareLen :=
    fun s _ => length_importShare doc enc s
  obtain ⟨vk, hvk⟩ := (doc.toCore.verifyingKey_ok_iff (i.secret • lib.generator)).mpr
    (smul_ne_zero hsecret doc.toCore.generator_ne_zero)
  refine ⟨i.sum_constantTerm, deal.ident, vk, deal.secret, bytes, deal.secret2, deal.round2Bytes,
    deal.key, deal.publicKey, ?_, ?_, ?_, ?_, ?_⟩
  · exact bind_eq_ok.mpr ⟨_, okOr_eq_ok.mpr hkey, okOr_eq_ok.mpr hvk⟩
  · rw [← hids]
    intro p hp
    exact ⟨deal.tryFrom p hp, hpart1 p hp,
      keyImportPart1_ok hmin hmax (importTerm_ok hkey p) (hpart1 p hp)⟩
  · rw [← hids]
    intro p hp order horder
    exact ⟨Deal.dkgPart2_ok hbytes doc.toCore enc.toShort hp horder,
      Fromt.dkgPart2_ok doc enc.toShort hp horder hshare hbytes⟩
  · rw [← hids]
    intro p hp order₁ order₂ horder₁ horder₂
    rw [← hgroup] at hvk hsecret
    refine ⟨Deal.checkedPart3_ok hbytes doc.toCore enc.toShort hmin0 hp horder₁ horder₂ hvk, ?_⟩
    intro hshares network birthday
    have hpart3 := frostPart3_ok doc enc.toShort hmin0 hp horder₁ horder₂ hshare hbytes
    have hinj : BTreeMap.Injective deal.ident (deal.ids.erase p) := Deal.others_injective doc.toCore
    rw [hids] at hinj
    have hview := aggregate_importShare doc.scalar_roundtrip enc.scalar_zero spendKey (hids ▸ hp) hinj
    rw [← hids] at hview
    obtain ⟨data, hdata, hread⟩ :=
      exists_bundle doc enc hp hsecret hshares (doc.length_scalar _) network birthday
    refine ⟨data, ?_, hread⟩
    refine bind_eq_ok.mpr ⟨_, hpart3, bind_eq_ok.mpr ⟨vk, ?_, ?_⟩⟩
    · rw [okOr_eq_ok, Deal.publicKey_verifyingKey doc.toCore hp, hvk]
    · refine bind_eq_ok.mpr ⟨(), failIf_eq_ok.mpr (not_not.mpr rfl), ?_⟩
      exact bind_eq_ok.mpr ⟨_, hview, bind_eq_ok.mpr ⟨_, hdata, rfl⟩⟩
  · rw [← hids, ← hgroup]
    intro quorum hsub hn hquorum
    exact Resharing.interpolate_deal doc.toCore hsub hn hquorum

section Samples

open Reference

/-- Party 2 imports the secret 5 for a 2-of-3 key. -/
def sampleImport : Import Scalar Nat 3 where
  ids := [1, 2, 3]
  nodup := nodup_sampleIds
  length := length_sampleIds
  ne_zero := by
    intro p hp
    rintro rfl
    simp at hp
  seedHolder := 2
  mem := by decide
  secret := 5
  rng p := p.toNat

theorem sampleImport_nonZero : sampleImport.NonZero core 2 where
  secret := by decide
  drawn := by
    intro p _ c hc
    obtain rfl := List.mem_singleton.mp hc
    exact random_ne_zero _

theorem keyImport_shares_sampleSecret :
    ∃ (ident : UInt16 → Identifier Scalar) (key : UInt16 → KeyPackage Scalar Scalar),
      ∀ quorum ⊆ [1, 2, 3], quorum.Nodup → 2 ≤ quorum.length →
        ∃ coeff : UInt16 → Scalar,
          (∀ p ∈ quorum, lagrangeCoeff (ident p) (quorum.map ident) = .ok (coeff p)) ∧
          (quorum.map fun p => (key p).signingShare * coeff p).sum = 5 := by
  have hkey : fromt.deserializeScalar (encodeScalar 5) = some sampleImport.secret :=
    deserializeScalar_encode 5
  obtain ⟨-, ident, -, -, -, -, -, key, -, -, -, -, -, h⟩ :=
    keyImport_shares_secret fromt_documented keys_encodesKeys (by decide) (by decide) sampleImport
      hkey (by decide) sampleImport_nonZero
  exact ⟨ident, key, h⟩

/-- Two parties cannot import the secret 1: the seed holder's constant term would be zero. -/
theorem keyImport_refuses_secret :
    fromt.deserializeScalar (encodeScalar 1) = some 1 ∧
      ∀ rng, ¬ ∃ r, keyImportPart1 fromt 1 2 2 (some (encodeScalar 1)) rng = .ok r := by
  refine ⟨deserializeScalar_encode 1, ?_⟩
  rintro rng ⟨r, h⟩
  obtain ⟨_, -, h⟩ := bind_eq_ok.mp h
  obtain ⟨⟨term, share⟩, hterm, h⟩ := bind_eq_ok.mp h
  obtain ⟨r', hpart1, -⟩ := bind_eq_ok.mp h
  obtain ⟨x, hx, hterm⟩ := bind_eq_ok.mp hterm
  obtain rfl := Option.some.inj ((okOr_eq_ok.mp hx).symm.trans (deserializeScalar_encode 1))
  obtain ⟨rfl, -⟩ := Prod.mk.inj (Except.ok.inj hterm)
  have hne := (constantPart1_isOk_iff documented (by decide)).mp ⟨r', hpart1⟩ _ List.mem_cons_self
  exact hne (by decide)

end Samples

end Fromt
