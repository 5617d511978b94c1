import FrostZm.Frost.Reference
import FrostZm.Frost.Signing

/-!
# Signing with the small FROST

Sums stand for the hashes. The encodings are as long as the library's.
-/

open Shamir

namespace Reference

abbrev Package := SigningPackage Scalar Scalar
abbrev ShareMap := BTreeMap (Identifier Scalar) (SignatureShare Scalar)

/-! ## Encodings -/

def header : Bytes := [0, 0xc3, 0xd2, 0x05, 0x1e]

def serializeCommitments (c : SigningCommitments Scalar) : Option Bytes :=
  some (header ++ encodeScalars [c.hidingCommitment, c.bindingCommitment])

def deserializeCommitments (b : Bytes) : Option (SigningCommitments Scalar) :=
  if b.take 5 = header then
    match decodeScalars 2 (b.drop 5) with
    | some [h, e] => some ⟨h, e⟩
    | _ => none
  else none

def encodeSigner (e : Identifier Scalar × SigningCommitments Scalar) : Bytes :=
  encodeScalars [e.1.toScalar, e.2.hidingCommitment, e.2.bindingCommitment]

def serializeSigningPackage (sp : Package) : Option Bytes :=
  some (header ++ u32ToLeBytes (.ofNat sp.signingCommitments.size) ++
    sp.signingCommitments.toList.flatMap encodeSigner ++ sp.message)

def decodeSigners : Nat → Bytes → Option (BTreeMap (Identifier Scalar) (SigningCommitments Scalar))
  | 0, _ => some ∅
  | n + 1, b =>
    match decodeScalars 3 (b.take 96) with
    | some [x, h, e] =>
      if hx : x ≠ 0 then (decodeSigners n (b.drop 96)).map (·.insert ⟨x, hx⟩ ⟨h, e⟩) else none
    | _ => none

def deserializeSigningPackage (b : Bytes) : Option Package :=
  if b.take 5 = header then
    let n := LittleEndian.value (slice b 5 4)
    (decodeSigners n (b.drop 9)).map fun m => ⟨m, b.drop (9 + 96 * n)⟩
  else none

def deserializeShare (b : Bytes) : Option (SignatureShare Scalar) :=
  match decodeScalars 1 b with
  | some [x] => some ⟨x⟩
  | _ => none

def serializeSignature (σ : Signature Scalar Scalar) : Option Bytes := some (encodeScalars [σ.r, σ.z])

def deserializeSignature (b : Bytes) : Option (Signature Scalar Scalar) :=
  match decodeScalars 2 b with
  | some [r, z] => some ⟨r, z⟩
  | _ => none

def deserializeRandomizer (b : Bytes) : Option Scalar :=
  match decodeScalars 1 b with
  | some [x] => some x
  | _ => none

/-! ## Signing -/

def bindingFactor (vk : Scalar) (sp : Package) (id : Identifier Scalar) : Scalar :=
  vk + id.toScalar + sp.signingCommitments.size + LittleEndian.value sp.message

def signingChallenge (r vk : Scalar) (msg : Bytes) : Scalar := r + vk + LittleEndian.value msg

def verify (vk : Scalar) (msg : Bytes) (σ : Signature Scalar Scalar) : Bool :=
  decide (σ.z = σ.r + signingChallenge σ.r vk msg * vk)

/-- The library without its signing functions. -/
def unsigned : FrostSigning Scalar Scalar Nat where
  toFrostCore := core
  header := header
  commit _ rng := (⟨(random rng).1, (random (rng + 1)).1⟩, ⟨(random rng).1, (random (rng + 1)).1⟩,
    rng + 2)
  serializeCommitments := serializeCommitments
  deserializeCommitments := deserializeCommitments
  serializeSigningPackage := serializeSigningPackage
  deserializeSigningPackage := deserializeSigningPackage
  bindingFactor := bindingFactor
  challenge := signingChallenge
  sign _ _ _ := .error ⟨none⟩
  serializeShare s := encodeScalar s.share
  deserializeShare := deserializeShare
  aggregate _ _ _ := .error ⟨none⟩
  verify := verify
  serializeSignature := serializeSignature
  deserializeSignature := deserializeSignature
  newRandomizer _ _ rng := some (random rng).1
  serializeRandomizer := encodeScalar
  deserializeRandomizer := deserializeRandomizer
  signRandomized _ _ _ _ := .error ⟨none⟩
  aggregateRandomized _ _ _ _ := .error ⟨none⟩

def sign (sp : Package) (nonces : SigningNonces Scalar) (key : KeyPackage Scalar Scalar) :
    Except (FrostError Scalar) (SignatureShare Scalar) :=
  if sp.signingCommitments.size < key.minSigners.toNat then .error ⟨none⟩
  else if sp.signingCommitments[key.identifier]? ≠ some ⟨nonces.hidingNonce, nonces.bindingNonce⟩ then
    .error ⟨none⟩
  else .ok (unsigned.shareOf sp nonces key)

def aggregate (sp : Package) (shares : ShareMap) (pub : PublicKeyPackage Scalar Scalar) :
    Except (FrostError Scalar) (Signature Scalar Scalar) :=
  if ¬ ((∀ e ∈ sp.signingCommitments.toList, e.1 ∈ shares) ∧
      ∀ e ∈ shares.toList, e.1 ∈ sp.signingCommitments ∧ e.1 ∈ pub.verifyingShares) then
    .error ⟨none⟩
  else if verify pub.verifyingKey sp.message (unsigned.signatureOf pub.verifyingKey sp shares) then
    .ok (unsigned.signatureOf pub.verifyingKey sp shares)
  else .error ⟨none⟩

def signing : FrostSigning Scalar Scalar Nat :=
  { unsigned with
    sign := sign
    aggregate := aggregate
    signRandomized := fun sp nonces key r => sign sp nonces (key.randomize 1 r)
    aggregateRandomized := fun sp shares pub r => aggregate sp shares (pub.randomize 1 r) }

/-! ## It does what the ceremonies rely on -/

theorem length_of_decodeScalars {n : Nat} {b : Bytes} {l : List Scalar}
    (h : decodeScalars n b = some l) : b.length = 32 * n := by
  induction n generalizing b l with
  | zero =>
    cases b with
    | nil => rfl
    | cons x b => simp [decodeScalars] at h
  | succ n ih =>
    simp only [decodeScalars] at h
    split at h
    · simp at h
    · next hlen =>
      obtain ⟨l', hl', -⟩ := Option.map_eq_some_iff.mp h
      have hdrop := ih hl'
      rw [List.length_drop] at hdrop
      omega

theorem take_header (b : Bytes) : (header ++ b).take 5 = header := List.take_left' rfl
theorem drop_header (b : Bytes) : (header ++ b).drop 5 = b := List.drop_left' rfl

theorem header_le_of_take {b : Bytes} (h : b.take 5 = header) : header <+: b :=
  h ▸ List.take_prefix 5 b

theorem deserializeCommitments_serialize (c : SigningCommitments Scalar) (b : Bytes)
    (h : serializeCommitments c = some b) : deserializeCommitments b = some c := by
  obtain rfl := Option.some.inj h
  have hdec := decodeScalars_encode [c.hidingCommitment, c.bindingCommitment]
  unfold deserializeCommitments
  rw [if_pos (take_header _), drop_header]
  rw [List.length_cons, List.length_singleton] at hdec
  rw [hdec]

theorem length_of_deserializeCommitments {b : Bytes} {c : SigningCommitments Scalar}
    (h : deserializeCommitments b = some c) : header <+: b ∧ 32 < b.length := by
  unfold deserializeCommitments at h
  split at h
  · next htake =>
    refine ⟨header_le_of_take htake, ?_⟩
    split at h
    · next hdec =>
      have hlen := length_of_decodeScalars hdec
      rw [List.length_drop] at hlen
      omega
    · simp at h
  · simp at h

theorem decodeScalars_one (x : Scalar) : decodeScalars 1 (encodeScalar x) = some [x] := by
  have h := decodeScalars_encode [x]
  rwa [encodeScalars, List.flatMap_singleton] at h

theorem sign_ok {sp : Package} {nonces : SigningNonces Scalar} {key : KeyPackage Scalar Scalar}
    (hsize : key.minSigners.toNat ≤ sp.signingCommitments.size)
    (hown : sp.signingCommitments[key.identifier]? = some (nonces.commitments (1 : Scalar))) :
    sign sp nonces key = .ok (signing.shareOf sp nonces key) := by
  rw [SigningNonces.commitments, smul_eq_mul, smul_eq_mul, mul_one, mul_one] at hown
  unfold sign
  rw [if_neg (Nat.not_lt.mpr hsize), if_neg (not_not.mpr hown)]
  rfl

theorem aggregate_ok {sp : Package} {shares : ShareMap} {pub : PublicKeyPackage Scalar Scalar}
    (hkeys : ∀ id, id ∈ sp.signingCommitments ↔ id ∈ shares)
    (hpub : ∀ id ∈ shares, id ∈ pub.verifyingShares)
    (hver : verify pub.verifyingKey sp.message
      (signing.signatureOf pub.verifyingKey sp shares) = true) :
    aggregate sp shares pub = .ok (signing.signatureOf pub.verifyingKey sp shares) := by
  have hmem : ∀ {α : Type} (m : BTreeMap (Identifier Scalar) α), ∀ e ∈ m.toList, e.1 ∈ m := by
    rintro α m ⟨id, a⟩ he
    rw [Std.ExtTreeMap.mem_toList_iff_getElem?_eq_some] at he
    exact Std.ExtTreeMap.mem_iff_isSome_getElem?.mpr (by rw [he]; rfl)
  unfold aggregate
  rw [if_neg]
  · exact if_pos hver
  · rw [not_not]
    refine ⟨fun e he => (hkeys e.1).mp (hmem _ e he), fun e he => ?_⟩
    exact ⟨(hkeys e.1).mpr (hmem _ e he), hpub e.1 (hmem _ e he)⟩

theorem aggregate_verifies {sp : Package} {shares : ShareMap} {pub : PublicKeyPackage Scalar Scalar}
    {σ : Signature Scalar Scalar} (h : aggregate sp shares pub = .ok σ) :
    verify pub.verifyingKey sp.message σ = true := by
  unfold aggregate at h
  split at h
  · simp at h
  split at h
  · next hver => exact Except.ok.inj h ▸ hver
  · simp at h

theorem signing_documented : signing.Documented where
  toDocumented := documented
  header_eq := ⟨_, _, _, _, _, rfl, by decide⟩
  commit_eq _ _ := by simp [signing, unsigned, SigningNonces.commitments, core]
  commit_ok _ _ := ⟨_, rfl⟩
  commitments_roundtrip := deserializeCommitments_serialize
  commitments_header _ _ := length_of_deserializeCommitments
  signingPackage_ok _ _ := ⟨_, rfl⟩
  signingPackage_header := by
    intro sp b h
    obtain rfl := Option.some.inj h
    rw [List.append_assoc, List.append_assoc]
    exact List.prefix_append _ _
  sign_ok _ _ _ hsize hown _ := sign_ok hsize hown
  length_share s := length_encodeScalar s.share
  share_roundtrip s := by
    simp only [signing, unsigned, deserializeShare, decodeScalars_one]
  aggregate_ok _ _ _ hkeys hpub _ hver := aggregate_ok hkeys hpub hver
  aggregate_verifies _ _ _ _ h := ⟨aggregate_verifies h, _, rfl⟩
  verify_of_eq vk msg σ h := by
    simp only [signing, unsigned, core, smul_eq_mul, mul_one] at h
    simpa [signing, unsigned, verify] using h
  signature_roundtrip σ b h := by
    obtain rfl := Option.some.inj h
    have hdec := decodeScalars_encode [σ.r, σ.z]
    rw [List.length_cons, List.length_singleton] at hdec
    simp only [signing, unsigned, deserializeSignature, hdec]
  newRandomizer_ok _ _ _ _ := ⟨_, rfl⟩
  randomizer_roundtrip r := by
    simp only [signing, unsigned, deserializeRandomizer, decodeScalars_one]
  length_randomizer b r h := by
    simp only [signing, unsigned, deserializeRandomizer] at h
    split at h
    · next hdec => exact length_of_decodeScalars hdec
    · simp at h
  signRandomized_eq _ _ _ _ := rfl
  aggregateRandomized_eq _ _ _ _ := rfl

theorem decodeSigners_encode (l : List (Identifier Scalar × SigningCommitments Scalar))
    (message : Bytes) (h : (l.map Prod.fst).Nodup) :
    decodeSigners l.length (l.flatMap encodeSigner ++ message) =
      some (BTreeMap.tabulate Prod.fst Prod.snd l) := by
  induction l with
  | nil => rfl
  | cons e l ih =>
    have hlen : (encodeSigner e).length = 96 := by
      rw [encodeSigner, length_encodeScalars]
      rfl
    have hscalars := decodeScalars_encode [e.1.toScalar, e.2.hidingCommitment, e.2.bindingCommitment]
    rw [← encodeSigner, List.length_cons, List.length_cons, List.length_singleton] at hscalars
    rw [List.flatMap_cons, List.append_assoc, List.length_cons, decodeSigners,
      List.take_left' hlen, List.drop_left' hlen, hscalars]
    simp only [dif_pos e.1.ne_zero, ih (List.nodup_cons.mp h).2, Option.map_some]
    exact congrArg some (BTreeMap.insert_tabulate (BTreeMap.injective_of_nodup h))

theorem length_flatMap_encodeSigner (l : List (Identifier Scalar × SigningCommitments Scalar)) :
    (l.flatMap encodeSigner).length = 96 * l.length := by
  induction l with
  | nil => rfl
  | cons e l ih =>
    rw [List.flatMap_cons, List.length_append, ih, encodeSigner, length_encodeScalars]
    simp only [List.length_cons, List.length_nil]
    omega

theorem size_lt {α : Type} (m : BTreeMap (Identifier Scalar) α) : m.size < 2 ^ 32 := by
  have hkeys : (m.toList.map fun e => e.1.toScalar).Nodup := by
    have h : (m.toList.map Prod.fst).Nodup := by
      rw [Std.ExtTreeMap.map_fst_toList_eq_keys]
      exact Std.ExtTreeMap.nodup_keys
    have h' := h.map fun (_ _ : Identifier Scalar) heq => Identifier.ext heq
    rwa [List.map_map] at h'
  have hcard := hkeys.length_le_card
  rw [List.length_map, Std.ExtTreeMap.length_toList, ZMod.card] at hcard
  omega

theorem signingPackage_roundtrip {sp : Package} {b : Bytes}
    (h : serializeSigningPackage sp = some b) : deserializeSigningPackage b = some sp := by
  obtain rfl := Option.some.inj h
  have hkeys : (sp.signingCommitments.toList.map Prod.fst).Nodup := by
    rw [Std.ExtTreeMap.map_fst_toList_eq_keys]
    exact Std.ExtTreeMap.nodup_keys
  have hcount : LittleEndian.value (u32ToLeBytes (.ofNat sp.signingCommitments.size)) =
      sp.signingCommitments.toList.length := by
    rw [u32ToLeBytes, LittleEndian.value_bytesOf_of_lt (UInt32.toNat_lt _), UInt32.toNat_ofNat',
      Nat.mod_eq_of_lt (size_lt _), Std.ExtTreeMap.length_toList]
  have hfront : (header ++ u32ToLeBytes (.ofNat sp.signingCommitments.size)).length = 9 := by
    rw [List.length_append, length_u32ToLeBytes]
    rfl
  have hsigners := length_flatMap_encodeSigner sp.signingCommitments.toList
  have hmessage : (header ++ u32ToLeBytes (.ofNat sp.signingCommitments.size) ++
      sp.signingCommitments.toList.flatMap encodeSigner ++ sp.message).drop
        (9 + 96 * sp.signingCommitments.toList.length) = sp.message := by
    apply List.drop_left'
    rw [List.length_append, hfront, hsigners]
  have hread : LittleEndian.value (slice (header ++ u32ToLeBytes (.ofNat sp.signingCommitments.size) ++
      sp.signingCommitments.toList.flatMap encodeSigner ++ sp.message) 5 4) =
        sp.signingCommitments.toList.length := by
    rw [slice, List.append_assoc, List.append_assoc, drop_header,
      List.take_left' (length_u32ToLeBytes _), hcount]
  unfold deserializeSigningPackage
  dsimp only
  rw [hread, hmessage, List.append_assoc (header ++ _), List.drop_left' hfront,
    decodeSigners_encode _ _ hkeys, List.append_assoc, take_header, if_pos rfl,
    BTreeMap.tabulate_toList]
  rfl

end Reference
