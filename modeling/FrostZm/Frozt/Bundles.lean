import FrostZm.Frozt.Reference
import FrostZm.Frozt.WasmTx
import FrostZm.Fromt.Reference

/-!
# Key share bundles across versions and libraries

The packer and the reader of the WASM library, which split a bundle without decoding its
packages, and the bundles of Monero of the first version.
-/

set_option linter.unusedSectionVars false

variable {F G Rng : Type} [Field F] [DecidableEq F] [Ord F] [Std.TransOrd F] [Std.LawfulEqOrd F]
  [AddCommGroup G] [Module F G]

theorem length_of_readField {data b : Bytes} {pos next : Nat} (h : readField data pos = .ok (b, next)) :
    b.length < 2 ^ 32 := by
  obtain ⟨⟨len, pos⟩, -, h⟩ := bind_eq_ok.mp h
  simp only [readBytes] at h
  by_cases hlen : data.length < pos + len.toNat
  · rw [if_pos hlen] at h
    nomatch h
  · rw [if_neg hlen] at h
    obtain ⟨rfl, -⟩ := Prod.mk.inj (Except.ok.inj h)
    rw [slice, List.length_take]
    exact (Nat.min_le_left _ _).trans_lt len.toNat_lt

namespace Frozt

/-! ## The WASM library -/

structure BundleParts where
  birthday : UInt64
  saplingExtras : Bytes
  keyPackage : Bytes
  pubKeyPackage : Bytes

def bundleReadU64 (data : Bytes) (pos : Nat) : Except String (UInt64 × Nat) := do
  failWith (data.length < pos + 8) "bundle: unexpected end of data reading u64"
  return (u64FromLeBytes (slice data pos 8), pos + 8)

def bundleReadU32 (data : Bytes) (pos : Nat) : Except String (UInt32 × Nat) := do
  failWith (data.length < pos + 4) "bundle: unexpected end of data reading u32"
  return (u32FromLeBytes (slice data pos 4), pos + 4)

/-- A field behind its length, and the message when it is cut short. -/
def bundleReadField (truncated : String) (data : Bytes) (pos : Nat) : Except String (Bytes × Nat) := do
  let (len, pos) ← bundleReadU32 data pos
  failWith (data.length < pos + len.toNat) truncated
  return (slice data pos len.toNat, pos + len.toNat)

def bundleUnpack (data : Bytes) : Except String BundleParts := do
  failWith (data.length < 1 + 8 + 4) "bundle: data too short"
  failWith (data.head? ≠ some KeyShareBundle.version) "bundle: unsupported version"
  let (birthday, pos) ← bundleReadU64 data 1
  let (saplingExtras, pos) ← bundleReadField "bundle: truncated extras" data pos
  let (keyPackage, pos) ← bundleReadField "bundle: truncated key_package" data pos
  let (pubKeyPackage, _) ← bundleReadField "bundle: truncated pub_key_package" data pos
  return { birthday, saplingExtras, keyPackage, pubKeyPackage }

variable (lib : FroztLib F G Rng)

/-- `frozt_keyshare_bundle_pack`. `debug` is the text of an error of frost-core. -/
def bundlePack (debug : String) (keyPackage pubKeyPackage saplingExtras : Bytes) (birthday : UInt64) :
    Except String Bytes := do
  let _ ← okOrMessage debug (lib.deserializeKeyPackage keyPackage)
  let _ ← okOrMessage debug (lib.deserializePublicKeyPackage pubKeyPackage)
  return KeyShareBundle.version :: u64ToLeBytes birthday ++ lengthPrefixed saplingExtras ++
    lengthPrefixed keyPackage ++ lengthPrefixed pubKeyPackage

/-! ## The native readers of a part -/

def bundleBirthday (bundleData : Bytes) : Result UInt64 :=
  KeyShareBundle.birthday <$> KeyShareBundle.deserialize lib bundleData

def bundleSaplingExtras (bundleData : Bytes) : Result Bytes :=
  KeyShareBundle.saplingExtras <$> KeyShareBundle.deserialize lib bundleData

def bundleKeyPackage (bundleData : Bytes) : Result Bytes := do
  let b ← KeyShareBundle.deserialize lib bundleData
  okOr .serializationError (lib.serializeKeyPackage b.keyPackage)

def bundlePubKeyPackage (bundleData : Bytes) : Result Bytes := do
  let b ← KeyShareBundle.deserialize lib bundleData
  okOr .serializationError (lib.serializePublicKeyPackage b.pubKeyPackage)

/-- Both libraries read these parts. -/
structure SplitsInto (data : Bytes) (parts : BundleParts) : Prop where
  birthday : bundleBirthday lib data = .ok parts.birthday
  saplingExtras : bundleSaplingExtras lib data = .ok parts.saplingExtras
  keyPackage : bundleKeyPackage lib data = .ok parts.keyPackage
  pubKeyPackage : bundlePubKeyPackage lib data = .ok parts.pubKeyPackage
  unpacked : bundleUnpack data = .ok parts

namespace KeyShareBundle

/-- A bundle comes back from its bytes, and with packages that have an encoding both libraries
write the same bytes and read them alike. -/
structure RoundTrips (bundle : KeyShareBundle F G) : Prop where
  deserialized : ∀ out, bundle.serialize lib = .ok out → deserialize lib out = .ok bundle
  agreed : ∀ debug kp pkp, lib.serializeKeyPackage bundle.keyPackage = some kp →
    lib.serializePublicKeyPackage bundle.pubKeyPackage = some pkp →
    ∃ out, bundle.serialize lib = .ok out ∧
      bundlePack lib debug kp pkp bundle.saplingExtras bundle.birthday = .ok out ∧
      SplitsInto lib out ⟨bundle.birthday, bundle.saplingExtras, kp, pkp⟩

/-! ## The readers of the two libraries agree -/

variable {lib}

theorem bundleReadU64_eq_ok {data : Bytes} {pos : Nat} {r : UInt64 × Nat} :
    bundleReadU64 data pos = .ok r ↔ readU64 data pos = .ok r := by
  unfold bundleReadU64 readU64 failWith
  split <;> simp [bind, Except.bind, pure, Except.pure]

theorem bundleReadField_eq_ok {truncated : String} {data : Bytes} {pos : Nat} {r : Bytes × Nat} :
    bundleReadField truncated data pos = .ok r ↔ readField data pos = .ok r := by
  unfold bundleReadField bundleReadU32 readField readU32 readBytes failWith
  by_cases hlen : data.length < pos + 4
  · simp [hlen, bind, Except.bind]
  · by_cases hrest : data.length < pos + 4 + (u32FromLeBytes (slice data pos 4)).toNat
    · simp [hlen, hrest, bind, Except.bind, pure, Except.pure]
    · simp [hlen, hrest, bind, Except.bind, pure, Except.pure]

theorem bundleUnpack_eq_ok {data extras kp pkp : Bytes} {birthday : UInt64}
    (hdata : data = version :: u64ToLeBytes birthday ++ lengthPrefixed extras ++ lengthPrefixed kp ++
      lengthPrefixed pkp) (hextras : extras.length < 2 ^ 32) (hkp : kp.length < 2 ^ 32)
    (hpkp : pkp.length < 2 ^ 32) : bundleUnpack data = .ok ⟨birthday, extras, kp, pkp⟩ := by
  have hlen : ¬ data.length < 1 + 8 + 4 := by
    rw [hdata]
    simp only [lengthPrefixed, List.length_append, List.length_cons, length_u32ToLeBytes,
      length_u64ToLeBytes]
    omega
  have hversion : ¬ data.head? ≠ some version := by
    rw [hdata]
    simp
  have h₁ := readU64_at birthday [version] (lengthPrefixed extras ++
    (lengthPrefixed kp ++ lengthPrefixed pkp)) (hdata.trans (by simp only [List.append_assoc]; rfl))
  have h₂ := readField_at extras ([version] ++ u64ToLeBytes birthday)
    (lengthPrefixed kp ++ lengthPrefixed pkp) hextras (hdata.trans (by simp only [List.append_assoc]; rfl))
  have h₃ := readField_at kp _ _ hkp hdata
  have h₄ := readField_at pkp _ _ hpkp (hdata.trans (List.append_nil _).symm)
  simp only [bundleUnpack, bind_eq_ok, failWith_eq_ok]
  exact ⟨(), hlen, (), hversion, _, bundleReadU64_eq_ok.mpr h₁, _, bundleReadField_eq_ok.mpr h₂, _,
    bundleReadField_eq_ok.mpr h₃, _, bundleReadField_eq_ok.mpr h₄, rfl⟩

/-! ## Round trips -/

theorem length_saplingExtras {data : Bytes} {bundle : KeyShareBundle F G}
    (h : deserialize lib data = .ok bundle) : bundle.saplingExtras.length < 2 ^ 32 := by
  unfold deserialize at h
  by_cases hlen : data.length < 1 + 8 + 4
  · rw [if_pos hlen] at h
    nomatch h
  by_cases hversion : data.head? ≠ some version
  · rw [if_neg hlen, if_pos hversion] at h
    nomatch h
  rw [if_neg hlen, if_neg hversion] at h
  obtain ⟨_, -, h⟩ := bind_eq_ok.mp h
  obtain ⟨_, hextras, h⟩ := bind_eq_ok.mp h
  obtain ⟨_, -, h⟩ := bind_eq_ok.mp h
  obtain ⟨_, -, h⟩ := bind_eq_ok.mp h
  obtain ⟨_, -, h⟩ := bind_eq_ok.mp h
  obtain ⟨_, -, h⟩ := bind_eq_ok.mp h
  obtain rfl := Except.ok.inj h
  exact length_of_readField hextras

theorem splitsInto (doc : lib.Documented) {bundle : KeyShareBundle F G} {kp pkp out : Bytes}
    (hextras : bundle.saplingExtras.length < 2 ^ 32)
    (hkp : lib.serializeKeyPackage bundle.keyPackage = some kp)
    (hpkp : lib.serializePublicKeyPackage bundle.pubKeyPackage = some pkp)
    (hout : bundle.serialize lib = .ok out) :
    SplitsInto lib out ⟨bundle.birthday, bundle.saplingExtras, kp, pkp⟩ := by
  have hback := deserialize_serialize doc hextras hout
  have hbytes : out = version :: u64ToLeBytes bundle.birthday ++ lengthPrefixed bundle.saplingExtras ++
      lengthPrefixed kp ++ lengthPrefixed pkp := by
    rw [serialize, hkp, hpkp] at hout
    exact (Except.ok.inj hout).symm
  constructor
  · exact map_eq_ok.mpr ⟨bundle, hback, rfl⟩
  · exact map_eq_ok.mpr ⟨bundle, hback, rfl⟩
  · exact bind_eq_ok.mpr ⟨bundle, hback, okOr_eq_ok.mpr hkp⟩
  · exact bind_eq_ok.mpr ⟨bundle, hback, okOr_eq_ok.mpr hpkp⟩
  · apply bundleUnpack_eq_ok hbytes hextras
    · exact (doc.keyPackage_roundtrip _ _ hkp).2
    · exact (doc.publicKeyPackage_roundtrip _ _ hpkp).2

theorem roundTrips_iff (doc : lib.Documented) (bundle : KeyShareBundle F G) :
    bundle.RoundTrips lib ↔ lib.serializeKeyPackage bundle.keyPackage = none ∨
      lib.serializePublicKeyPackage bundle.pubKeyPackage = none ∨
      bundle.saplingExtras.length < 2 ^ 32 := by
  cases hkp : lib.serializeKeyPackage bundle.keyPackage with
  | none =>
    refine ⟨fun _ => .inl rfl, fun _ => ⟨fun out hout => ?_, fun debug kp pkp h => ?_⟩⟩
    · rw [serialize, hkp] at hout
      nomatch hout
    · rw [hkp] at h
      nomatch h
  | some kp =>
    cases hpkp : lib.serializePublicKeyPackage bundle.pubKeyPackage with
    | none =>
      refine ⟨fun _ => .inr (.inl rfl), fun _ => ⟨fun out hout => ?_, fun debug kp pkp _ h => ?_⟩⟩
      · rw [serialize, hkp, hpkp] at hout
        nomatch hout
      · rw [hpkp] at h
        nomatch h
    | some pkp =>
      have hout : bundle.serialize lib = .ok (version :: u64ToLeBytes bundle.birthday ++
          lengthPrefixed bundle.saplingExtras ++ lengthPrefixed kp ++ lengthPrefixed pkp) := by
        rw [serialize, hkp, hpkp]
        rfl
      constructor
      · intro h
        exact .inr (.inr (length_saplingExtras (h.deserialized _ hout)))
      · rintro (h | h | hextras)
        · nomatch h
        · nomatch h
        · refine ⟨fun out h => deserialize_serialize doc hextras h, fun debug kp' pkp' h h' => ?_⟩
          rw [hkp] at h
          rw [hpkp] at h'
          obtain rfl := Option.some.inj h
          obtain rfl := Option.some.inj h'
          refine ⟨_, hout, ?_, splitsInto doc hextras hkp hpkp hout⟩
          rw [bundlePack, (doc.keyPackage_roundtrip _ _ hkp).1, (doc.publicKeyPackage_roundtrip _ _ hpkp).1]
          rfl

end KeyShareBundle

end Frozt

namespace Fromt.KeyShareBundle

variable {P : Type} [AddCommGroup P] (lib : FromtLib F G P Rng)

/-- The layout of the first version, which had no birthday. -/
def serializeV1 (bundle : KeyShareBundle F G) : Result Bytes := do
  let kpBytes ← okOr .serializationError (lib.serializeKeyPackage bundle.keyPackage)
  let pkpBytes ← okOr .serializationError (lib.serializePublicKeyPackage bundle.pubKeyPackage)
  return 1 :: bundle.network :: bundle.viewKey ++ lengthPrefixed kpBytes ++ lengthPrefixed pkpBytes

structure RoundTrips (bundle : KeyShareBundle F G) : Prop where
  deserialized : ∀ out, bundle.serialize lib = .ok out → deserialize lib out = .ok bundle
  legacy : ∀ out, bundle.serializeV1 lib = .ok out →
    deserialize lib out = .ok { bundle with birthday := 0 }

variable {lib}

theorem deserialize_serializeV1 (doc : lib.Documented) {bundle : KeyShareBundle F G} {out : Bytes}
    (hview : bundle.viewKey.length = 32) (h : bundle.serializeV1 lib = .ok out) :
    deserialize lib out = .ok { bundle with birthday := 0 } := by
  unfold serializeV1 at h
  obtain ⟨kpBytes, hkp, h⟩ := bind_eq_ok.mp h
  obtain ⟨pkpBytes, hpkp, h⟩ := bind_eq_ok.mp h
  rw [okOr_eq_ok] at hkp hpkp
  obtain ⟨hkp, hkplen⟩ := doc.keyPackage_roundtrip _ _ hkp
  obtain ⟨hpkp, hpkplen⟩ := doc.publicKeyPackage_roundtrip _ _ hpkp
  have hout : out = (1 :: bundle.network :: bundle.viewKey) ++ lengthPrefixed kpBytes ++
      lengthPrefixed pkpBytes := (Except.ok.inj h).symm
  have hhead : ((1 : UInt8) :: bundle.network :: bundle.viewKey).length = 34 := by
    rw [List.length_cons, List.length_cons, hview]
  have hlen : ¬ out.length < 1 + 1 + 32 + 4 := by
    rw [hout]
    simp only [lengthPrefixed, List.length_append, length_u32ToLeBytes, hhead]
    omega
  have hslice : slice out 2 32 = bundle.viewKey := by
    rw [hout, slice]
    simp only [List.cons_append, List.drop_succ_cons, List.drop_zero, List.append_assoc]
    exact List.take_left' hview
  have h₁ := readField_at _ _ _ hkplen hout
  have h₂ := readField_at _ _ _ hpkplen (hout.trans (List.append_nil _).symm)
  rw [hhead] at h₁
  have hfirst : out.headD 0 = 1 := by rw [hout]; rfl
  have hversion : ¬ (out.headD 0 ≠ 1 ∧ out.headD 0 ≠ bundleVersion) := fun h => h.1 hfirst
  have hnetwork : out.getD 1 0 = bundle.network := by rw [hout]; rfl
  have hbirthday : readBirthday (out.headD 0) out 34 = .ok (0, 34) := by rw [hfirst]; rfl
  simp only [deserialize, bind_eq_ok, failIf_eq_ok]
  refine ⟨(), hlen, (), hversion, _, hbirthday, _, h₁, _, okOr_eq_ok.mpr hkp, _, h₂, _,
    okOr_eq_ok.mpr hpkp, ?_⟩
  rw [hnetwork, hslice]
  rfl

theorem roundTrips (doc : lib.Documented) {bundle : KeyShareBundle F G}
    (hview : bundle.viewKey.length = 32) : bundle.RoundTrips lib :=
  ⟨fun _ h => deserialize_serialize doc hview h, fun _ h => deserialize_serializeV1 doc hview h⟩

end Fromt.KeyShareBundle

namespace KeyShares

variable {F' G' P' Rng' : Type} [Field F'] [DecidableEq F'] [Ord F'] [Std.TransOrd F']
  [Std.LawfulEqOrd F'] [AddCommGroup G'] [Module F' G'] [AddCommGroup P']

/-- A bundle of Monero comes back in both versions. One of Zcash does in both libraries if and
only if its extras are shorter than 2^32 bytes, or a package of it has no encoding at all. -/
theorem bundles_roundTrip_iff {lib : FroztLib F G Rng} {lib' : FromtLib F' G' P' Rng'}
    (doc : lib.Documented) (doc' : lib'.Documented) (bundle : Frozt.KeyShareBundle F G)
    (bundle' : Fromt.KeyShareBundle F' G') (hview : bundle'.viewKey.length = 32) :
    bundle'.RoundTrips lib' ∧
    (bundle.RoundTrips lib ↔ lib.serializeKeyPackage bundle.keyPackage = none ∨
      lib.serializePublicKeyPackage bundle.pubKeyPackage = none ∨
      bundle.saplingExtras.length < 2 ^ 32) :=
  ⟨Fromt.KeyShareBundle.roundTrips doc' hview, Frozt.KeyShareBundle.roundTrips_iff doc bundle⟩

section Samples

open Reference Ceremony

def sampleBundle (extras : Bytes) : Frozt.KeyShareBundle Scalar Scalar where
  keyPackage := sampleDeal.key 1
  pubKeyPackage := sampleDeal.publicKey 1
  saplingExtras := extras
  birthday := 7

theorem bundles_roundTrip_sample :
    (Reference.sampleBundle 1).RoundTrips fromt ∧ (sampleBundle [1, 2, 3]).RoundTrips frozt := by
  have h := bundles_roundTrip_iff frozt_documented fromt_documented (sampleBundle [1, 2, 3])
    (Reference.sampleBundle 1) rfl
  exact ⟨h.1, h.2.mpr (.inr (.inr (show 3 < 2 ^ 32 by norm_num)))⟩

/-- Extras of 2^32 bytes are announced as empty. -/
theorem longExtras_lost : ¬ (sampleBundle (List.replicate (2 ^ 32) 0)).RoundTrips frozt := by
  have hlen : (encodePublicKeys (sampleDeal.publicKey 1)).length < 2 ^ 32 := by decide +kernel
  have hpub (p : PublicKeyPackage Scalar Scalar) (h : (encodePublicKeys p).length < 2 ^ 32) :
      frozt.serializePublicKeyPackage p = some (encodePublicKeys p) := if_pos h
  rw [Frozt.KeyShareBundle.roundTrips_iff frozt_documented]
  rintro (h | h | h)
  · nomatch h
  · rw [sampleBundle, hpub _ hlen] at h
    nomatch h
  · rw [sampleBundle, List.length_replicate] at h
    exact lt_irrefl _ h

end Samples

end KeyShares
