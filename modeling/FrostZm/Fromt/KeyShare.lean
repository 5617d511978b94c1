import FrostZm.Ceremony.Deal
import FrostZm.Frost.Keys

/-!
# Key shares of the Monero ceremonies

The bundle in which a participant keeps its key, the group's view key, the network and the
birthday of the wallet.
-/

set_option linter.unusedSectionVars false

variable {F G P Rng : Type} [Field F] [DecidableEq F] [Ord F] [Std.TransOrd F] [Std.LawfulEqOrd F]
  [AddCommGroup G] [Module F G] [AddCommGroup P]

/-- The curve and hash functions. They are not part of this repository. `P` is the group of
all curve points, not only of those with the order of the scalars. -/
structure FromtLib (F G P Rng : Type) [Field F] [Ord F] [AddCommGroup G] [Module F G]
    [AddCommGroup P] extends FrostKeys F G Rng where
  keccak256 : Bytes → Bytes
  /-- `Scalar::from_bytes_mod_order`. -/
  fromBytesModOrder : Bytes → F
  /-- `Point::biased_hash`. -/
  biasedHash : Bytes → P
  scalarMul : F → P → P
  compress : P → Bytes
  decompress : Bytes → Option P

/-- A hashed point has the order of the scalars. -/
structure FromtLib.Documented (lib : FromtLib F G P Rng) : Prop extends
    toKeys : lib.toFrostKeys.Documented where
  scalarMul_add : ∀ a b o, lib.scalarMul (a + b) (lib.biasedHash o) =
    lib.scalarMul a (lib.biasedHash o) + lib.scalarMul b (lib.biasedHash o)
  length_compress : ∀ p, (lib.compress p).length = 32
  decompress_compress : ∀ p, lib.decompress (lib.compress p) = some p

namespace Fromt

variable (lib : FromtLib F G P Rng)

structure KeyShareBundle (F G : Type) [Field F] [Ord F] where
  keyPackage : KeyPackage F G
  pubKeyPackage : PublicKeyPackage F G
  viewKey : Bytes
  network : UInt8
  birthday : UInt64

namespace KeyShareBundle

def bundleVersion : UInt8 := 2

def serialize (bundle : KeyShareBundle F G) : Result Bytes := do
  let kpBytes ← okOr .serializationError (lib.serializeKeyPackage bundle.keyPackage)
  let pkpBytes ← okOr .serializationError (lib.serializePublicKeyPackage bundle.pubKeyPackage)
  return bundleVersion :: bundle.network :: bundle.viewKey ++ u64ToLeBytes bundle.birthday ++
    lengthPrefixed kpBytes ++ lengthPrefixed pkpBytes

/-- The birthday of a bundle of this version, and the position behind it. -/
def readBirthday (version : UInt8) (data : Bytes) (pos : Nat) : Result (UInt64 × Nat) :=
  if 2 ≤ version then readU64 data pos else .ok (0, pos)

def deserialize (data : Bytes) : Result (KeyShareBundle F G) := do
  failIf (data.length < 1 + 1 + 32 + 4) .serializationError
  let version := data.headD 0
  failIf (version ≠ 1 ∧ version ≠ bundleVersion) .serializationError
  let network := data.getD 1 0
  let viewKey := slice data 2 32
  let (birthday, pos) ← readBirthday version data 34
  let (kpBytes, pos) ← readField data pos
  let keyPackage ← okOr .serializationError (lib.deserializeKeyPackage kpBytes)
  let (pkpBytes, _) ← readField data pos
  let pubKeyPackage ← okOr .serializationError (lib.deserializePublicKeyPackage pkpBytes)
  return { keyPackage, pubKeyPackage, viewKey, network, birthday }

def verifyingKeyBytes (bundle : KeyShareBundle F G) : Result Bytes :=
  okOr .serializationError (lib.serializeVerifyingKey bundle.pubKeyPackage.verifyingKey)

variable {lib}

theorem deserialize_serialize (doc : lib.Documented) {bundle : KeyShareBundle F G} {out : Bytes}
    (hview : bundle.viewKey.length = 32) (h : bundle.serialize lib = .ok out) :
    deserialize lib out = .ok bundle := by
  unfold serialize at h
  obtain ⟨kpBytes, hkp, h⟩ := bind_eq_ok.mp h
  obtain ⟨pkpBytes, hpkp, h⟩ := bind_eq_ok.mp h
  rw [okOr_eq_ok] at hkp hpkp
  obtain ⟨hkp, hkplen⟩ := doc.keyPackage_roundtrip _ _ hkp
  obtain ⟨hpkp, hpkplen⟩ := doc.publicKeyPackage_roundtrip _ _ hpkp
  have hout : out = (bundleVersion :: bundle.network :: bundle.viewKey) ++
      u64ToLeBytes bundle.birthday ++ lengthPrefixed kpBytes ++ lengthPrefixed pkpBytes :=
    (Except.ok.inj h).symm
  have hhead : (bundleVersion :: bundle.network :: bundle.viewKey).length = 34 := by
    simp [hview]
  have hlen : ¬ out.length < 1 + 1 + 32 + 4 := by
    rw [hout]
    simp only [lengthPrefixed, List.length_append, length_u32ToLeBytes, length_u64ToLeBytes, hhead]
    omega
  have hslice : slice out 2 32 = bundle.viewKey := by
    rw [hout, slice]
    simp only [List.cons_append, List.drop_succ_cons, List.drop_zero, List.append_assoc]
    exact List.take_left' hview
  have h₁ := readU64_at bundle.birthday (bundleVersion :: bundle.network :: bundle.viewKey)
    (lengthPrefixed kpBytes ++ lengthPrefixed pkpBytes) (hout.trans (by simp only [List.append_assoc]))
  have h₂ := readField_at _ _ _ hkplen hout
  have h₃ := readField_at _ _ _ hpkplen (hout.trans (List.append_nil _).symm)
  rw [hhead] at h₁
  have hversion : out.headD 0 = bundleVersion := by rw [hout]; rfl
  have hnetwork : out.getD 1 0 = bundle.network := by rw [hout]; rfl
  have hbirthday : readBirthday bundleVersion out 34 = readU64 out 34 := rfl
  unfold deserialize
  rw [hversion, hnetwork, hslice]
  simp only [hbirthday, failIf, if_neg hlen, bind, Except.bind, h₁, h₂, h₃, hkp, hpkp, okOr_some, pure,
    Except.pure, ne_eq, not_true_eq_false, and_false, if_false]

theorem length_viewKey {data : Bytes} {bundle : KeyShareBundle F G}
    (h : deserialize lib data = .ok bundle) : bundle.viewKey.length = 32 := by
  obtain ⟨_, hlen, h⟩ := bind_eq_ok.mp h
  rw [failIf_eq_ok] at hlen
  obtain ⟨_, -, h⟩ := bind_eq_ok.mp h
  obtain ⟨_, -, h⟩ := bind_eq_ok.mp h
  obtain ⟨_, -, h⟩ := bind_eq_ok.mp h
  obtain ⟨_, -, h⟩ := bind_eq_ok.mp h
  obtain ⟨_, -, h⟩ := bind_eq_ok.mp h
  obtain ⟨_, -, h⟩ := bind_eq_ok.mp h
  obtain rfl := Except.ok.inj h
  simp only [slice, List.length_take, List.length_drop]
  omega

end KeyShareBundle

end Fromt
