import FrostZm.Fromt.Ed25519

/-!
# One seed in both languages

A key that the client has reduced and the key itself are the same seed for the library, and every
party of a key import comes to its view key.
-/

set_option linter.unusedSectionVars false

open Ceremony Fromt FromtGo

variable {F G P Rng : Type} [Field F] [DecidableEq F] [Ord F] [Std.TransOrd F] [Std.LawfulEqOrd F]
  [AddCommGroup G] [Module F G] [AddCommGroup P]

/-- The documented behaviour of the scalars: bytes are reduced modulo the order of the group, and
the encoding of a scalar is the number below the order. -/
structure FromtLib.Ed25519Scalars (lib : FromtLib F G P Rng) : Prop where
  fromBytesModOrder : ∀ b, b.length = 32 → lib.fromBytesModOrder b = (LittleEndian.value b : F)
  serializeScalar : ∀ n : Nat,
    lib.serializeScalar (n : F) = LittleEndian.bytesOf 32 (n % ed25519Order)
  scalar_roundtrip : ∀ x, lib.deserializeScalar (lib.serializeScalar x) = some x

namespace FromtGo

variable {lib : FromtLib F G P Rng} {key : Bytes}

theorem length_scReduce32 (key : Bytes) : (scReduce32 key).length = 32 := by
  rw [scReduce32_eq, LittleEndian.length_bytesOf]

theorem value_scReduce32 (key : Bytes) :
    LittleEndian.value (scReduce32 key) = LittleEndian.value key % ed25519Order := by
  rw [scReduce32_eq]
  exact LittleEndian.value_bytesOf_of_lt ((Nat.mod_lt _ (by decide)).trans (by decide))

theorem scReduce32_idem (key : Bytes) : scReduce32 (scReduce32 key) = scReduce32 key := by
  rw [scReduce32_eq (scReduce32 key), value_scReduce32, Nat.mod_mod, ← scReduce32_eq]

theorem scReduce32_eq_serialize (doc : lib.Ed25519Scalars) (hkey : key.length = 32) :
    scReduce32 key = lib.serializeScalar (lib.fromBytesModOrder key) := by
  rw [scReduce32_eq, doc.fromBytesModOrder key hkey, doc.serializeScalar]

theorem deriveKeysFromSeed_scReduce32 (doc : lib.Ed25519Scalars) (hkey : key.length = 32) :
    deriveKeysFromSeed lib (scReduce32 key) = deriveKeysFromSeed lib key := by
  have hspend : lib.serializeScalar (lib.fromBytesModOrder (scReduce32 key)) =
      lib.serializeScalar (lib.fromBytesModOrder key) := by
    rw [← scReduce32_eq_serialize doc (length_scReduce32 key), ← scReduce32_eq_serialize doc hkey,
      scReduce32_idem]
  unfold deriveKeysFromSeed
  rw [hspend]

theorem serializeScalar_zero (doc : lib.Ed25519Scalars) : lib.serializeScalar 0 = zeroShare := by
  have h := doc.serializeScalar 0
  rw [Nat.cast_zero, Nat.zero_mod] at h
  exact h

/-- The client reduces every key as the library does, and the view key that is derived from the
reduced key is the one that every party of a key import has from all the shares and stores. -/
theorem scReduce32_agrees (doc : lib.Ed25519Scalars) (hkey : key.length = 32) :
    ((scReduce32 key).length = 32 ∧
      LittleEndian.value (scReduce32 key) = LittleEndian.value key % ed25519Order) ∧
    scReduce32 (scReduce32 key) = scReduce32 key ∧
    (deriveKeysFromSeed lib key).1 = scReduce32 key ∧
    deriveKeysFromSeed lib (scReduce32 key) = deriveKeysFromSeed lib key ∧
    ∀ (maxSigners : UInt16) (i : Import F Rng maxSigners) (ident : UInt16 → Identifier F),
      BTreeMap.Injective ident i.ids → ∀ p ∈ i.ids,
        let others := BTreeMap.tabulate ident (importShare lib i (scReduce32 key)) (i.ids.erase p)
        aggregateImportViewKey lib (importShare lib i (scReduce32 key) p) others =
            .ok (deriveKeysFromSeed lib (scReduce32 key)).2 ∧
          ∀ (secret : DkgRound2Secret F G) (r1Data r2Data expectedVk vk data : Bytes)
            (packages : BTreeMap (Identifier F) (Round1Package F G)) (network : UInt8)
            (birthday : UInt64),
            secret.viewKeyShare = importShare lib i (scReduce32 key) p →
            decodeR1MapWithVk lib r1Data = .ok (packages, others) →
            keyImportPart3 lib secret r1Data r2Data expectedVk network birthday = .ok (data, vk) →
            ∃ bundle : KeyShareBundle F G, bundle.serialize lib = .ok data ∧
              bundle.viewKey = (deriveKeysFromSeed lib (scReduce32 key)).2 := by
  have hspend : (deriveKeysFromSeed lib key).1 = scReduce32 key :=
    (scReduce32_eq_serialize doc hkey).symm
  have hkeys := deriveKeysFromSeed_scReduce32 doc hkey
  refine ⟨⟨length_scReduce32 key, value_scReduce32 key⟩, scReduce32_idem key, hspend, hkeys, ?_⟩
  intro maxSigners i ident hinj p hp others
  have herase : BTreeMap.Injective ident (i.ids.erase p) := fun x hx y hy =>
    hinj x (List.mem_of_mem_erase hx) y (List.mem_of_mem_erase hy)
  have hview : viewKeyOf lib (scReduce32 key) = (deriveKeysFromSeed lib (scReduce32 key)).2 := by
    rw [hkeys, ← hspend]
    rfl
  have haggregate : aggregateImportViewKey lib (importShare lib i (scReduce32 key) p) others =
      .ok (deriveKeysFromSeed lib (scReduce32 key)).2 := by
    rw [aggregate_importShare doc.scalar_roundtrip (serializeScalar_zero doc) _ hp herase, hview]
  refine ⟨haggregate, fun secret r1Data r2Data expectedVk vk data packages network birthday hsecret
    hmaps hpart3 => ?_⟩
  rw [← hsecret] at haggregate
  exact serialize_keyImportPart3 hmaps haggregate hpart3

theorem ed25519Scalars_fromt : Ed25519.fromt.Ed25519Scalars where
  fromBytesModOrder b _ := by
    simp only [Ed25519.fromt]
  serializeScalar n := by
    simp only [Ed25519.fromt]
    exact Ed25519.encodeScalar_natCast n
  scalar_roundtrip x := by
    simp only [Ed25519.fromt]
    exact Ed25519.decodeScalar_encode x

/-- A key that is the order itself is the seed zero. -/
theorem scReduce32_agrees_order :
    (deriveKeysFromSeed Ed25519.fromt (LittleEndian.bytesOf 32 ed25519Order)).1 =
      scReduce32 (LittleEndian.bytesOf 32 ed25519Order) :=
  (scReduce32_agrees ed25519Scalars_fromt (LittleEndian.length_bytesOf 32 _)).2.2.1

end FromtGo
