import FrostZm.Ffi.Codec
import FrostZm.Frost.Keys

/-!
# Key shares of the Zcash ceremonies

What the parties of a key generation hold in common beside the key, the ceremony metadata,
and the bundle in which each of them keeps both.
-/

set_option linter.unusedSectionVars false

variable {F G Rng : Type} [Field F] [DecidableEq F] [Ord F] [Std.TransOrd F] [Std.LawfulEqOrd F]
  [AddCommGroup G] [Module F G]

/-- The Sapling functions and the hash. They are not part of this repository. -/
structure FroztLib (F G Rng : Type) [Field F] [Ord F] [AddCommGroup G] [Module F G] extends
    FrostKeys F G Rng where
  /-- `nsk ‖ ovk ‖ dk`, drawn at random. -/
  randomExtras : Rng → Bytes
  /-- The spend authorizing key of the account of a seed, at `m/32'/133'/account'`. -/
  accountAsk : Bytes → UInt32 → Bytes
  /-- `nsk ‖ ovk ‖ dk` of the account of a seed. -/
  accountExtras : Bytes → UInt32 → Bytes
  /-- Blake2b with 32 bytes of output and the personalisation of the metadata. -/
  blake2b : Bytes → Bytes

structure FroztLib.Documented (lib : FroztLib F G Rng) : Prop extends
    toKeys : lib.toFrostKeys.Documented where
  length_randomExtras : ∀ rng, (lib.randomExtras rng).length = 96
  length_accountExtras : ∀ seed account, (lib.accountExtras seed account).length = 96
  length_blake2b : ∀ b, (lib.blake2b b).length = 32

namespace Frozt

variable (lib : FroztLib F G Rng)

/-! ## Ceremony metadata -/

def metadataVersion : UInt8 := 1

def metadataLength : Nat := 1 + 8 + 96

def metadataCreateWithExtras (extras : Bytes) (birthday : UInt64) : Result Bytes :=
  if extras.length ≠ 96 then .error LibError.invalidBufferSize
  else .ok (metadataVersion :: u64ToLeBytes birthday ++ extras)

def metadataCreate (birthday : UInt64) (rng : Rng) : Result (Bytes × Bytes) :=
  let extras := lib.randomExtras rng
  .ok (extras, metadataVersion :: u64ToLeBytes birthday ++ extras)

def metadataParse (data : Bytes) : Result (Bytes × UInt64) :=
  if data.length ≠ metadataLength then .error LibError.invalidBufferSize
  else if data.head? ≠ some metadataVersion then .error LibError.serializationError
  else .ok (slice data 9 96, u64FromLeBytes (slice data 1 8))

def metadataHash (data : Bytes) : Result Bytes :=
  if data.length ≠ metadataLength then .error LibError.invalidBufferSize
  else .ok (lib.blake2b data)

/-! ## The bundle -/

structure KeyShareBundle (F G : Type) [Field F] [Ord F] where
  keyPackage : KeyPackage F G
  pubKeyPackage : PublicKeyPackage F G
  saplingExtras : Bytes
  birthday : UInt64

namespace KeyShareBundle

def version : UInt8 := 1

def serialize (bundle : KeyShareBundle F G) : Result Bytes := do
  let kpBytes ← okOr .serializationError (lib.serializeKeyPackage bundle.keyPackage)
  let pkpBytes ← okOr .serializationError (lib.serializePublicKeyPackage bundle.pubKeyPackage)
  return version :: u64ToLeBytes bundle.birthday ++ lengthPrefixed bundle.saplingExtras ++
    lengthPrefixed kpBytes ++ lengthPrefixed pkpBytes

def deserialize (data : Bytes) : Result (KeyShareBundle F G) := do
  if data.length < 1 + 8 + 4 then
    throw (LibError.serializationError : Fault)
  if data.head? ≠ some version then
    throw (LibError.serializationError : Fault)
  let (birthday, pos) ← readU64 data 1
  let (saplingExtras, pos) ← readField data pos
  let (kpBytes, pos) ← readField data pos
  let keyPackage ← okOr .serializationError (lib.deserializeKeyPackage kpBytes)
  let (pkpBytes, _) ← readField data pos
  let pubKeyPackage ← okOr .serializationError (lib.deserializePublicKeyPackage pkpBytes)
  return { keyPackage, pubKeyPackage, saplingExtras, birthday }

end KeyShareBundle

/-! ## What is stored is what was agreed on -/

variable {lib}

theorem metadataParse_create (extras : Bytes) (birthday : UInt64) {blob : Bytes}
    (h : metadataCreateWithExtras extras birthday = .ok blob) :
    metadataParse blob = .ok (extras, birthday) := by
  unfold metadataCreateWithExtras at h
  split at h
  · simp at h
  · next hlen =>
    rw [not_not] at hlen
    obtain rfl := Except.ok.inj h
    unfold metadataParse
    rw [if_neg, if_neg]
    · rw [slice, slice, List.cons_append, show (9 : Nat) = 8 + 1 from rfl, List.drop_succ_cons,
        List.drop_succ_cons, List.drop_zero, List.drop_left' (length_u64ToLeBytes birthday),
        List.take_left' (length_u64ToLeBytes birthday), u64FromLeBytes_toLeBytes,
        List.take_of_length_le (Nat.le_of_eq hlen)]
    · simp
    · simp [metadataLength, hlen]

theorem length_of_metadataHash {blob hash : Bytes} (h : metadataHash lib blob = .ok hash) :
    blob.length = metadataLength ∧ hash = lib.blake2b blob := by
  unfold metadataHash at h
  split at h
  · simp at h
  · next hlen =>
    rw [not_not] at hlen
    exact ⟨hlen, (Except.ok.inj h).symm⟩

namespace KeyShareBundle

theorem deserialize_serialize (doc : lib.Documented) {bundle : KeyShareBundle F G} {out : Bytes}
    (hextras : bundle.saplingExtras.length < 2 ^ 32) (h : bundle.serialize lib = .ok out) :
    deserialize lib out = .ok bundle := by
  unfold serialize at h
  obtain ⟨kpBytes, hkp, h⟩ := bind_eq_ok.mp h
  obtain ⟨pkpBytes, hpkp, h⟩ := bind_eq_ok.mp h
  rw [okOr_eq_ok] at hkp hpkp
  obtain ⟨hkp, hkplen⟩ := doc.keyPackage_roundtrip _ _ hkp
  obtain ⟨hpkp, hpkplen⟩ := doc.publicKeyPackage_roundtrip _ _ hpkp
  -- each field is read behind what was written before it
  have hout : out = [version] ++ u64ToLeBytes bundle.birthday ++
      lengthPrefixed bundle.saplingExtras ++ lengthPrefixed kpBytes ++ lengthPrefixed pkpBytes :=
    (Except.ok.inj h).symm
  have hlen : ¬ out.length < 1 + 8 + 4 := by
    rw [hout]
    simp only [lengthPrefixed, List.length_append, length_u32ToLeBytes, length_u64ToLeBytes,
      List.length_singleton]
    omega
  have hversion : ¬ out.head? ≠ some version := by
    rw [hout]
    simp
  have h₁ := readU64_at bundle.birthday [version] (lengthPrefixed bundle.saplingExtras ++
    (lengthPrefixed kpBytes ++ lengthPrefixed pkpBytes)) (hout.trans (by simp only [List.append_assoc]))
  have h₂ := readField_at bundle.saplingExtras ([version] ++ u64ToLeBytes bundle.birthday)
    (lengthPrefixed kpBytes ++ lengthPrefixed pkpBytes) hextras (hout.trans (by simp only [List.append_assoc]))
  have h₃ := readField_at _ _ _ hkplen hout
  have h₄ := readField_at _ _ _ hpkplen (hout.trans (List.append_nil _).symm)
  unfold deserialize
  rw [if_neg hlen, if_neg hversion]
  rw [List.length_singleton] at h₁
  simp only [pure, Except.pure, bind, Except.bind, h₁, h₂, h₃, h₄, hkp, hpkp, okOr_some]

end KeyShareBundle

end Frozt
