import FrostZm.Ceremony.Openings
import FrostZm.Fromt.KeyImport

/-!
# Key generation and key import for Monero

Behind its round-1 package each party sends its share of the view key, and in the end it adds
up the shares that it has read.
-/

set_option linter.unusedSectionVars false

variable {F G P Rng : Type} [Field F] [DecidableEq F] [Ord F] [Std.TransOrd F] [Std.LawfulEqOrd F]
  [AddCommGroup G] [Module F G] [AddCommGroup P]

open Ceremony FrostChannel

namespace Fromt

variable (lib : FromtLib F G P Rng)

/-! ## The sessions -/

/-- One turn of the loop over round 1. -/
def storeWithVk
    (maps : BTreeMap (Identifier F) (Round1Package F G) × BTreeMap (Identifier F) Bytes)
    (m : UInt16 × Bytes) :
    Result (BTreeMap (Identifier F) (Round1Package F G) × BTreeMap (Identifier F) Bytes) := do
  let sender ← okOr .invalidIdentifier (Identifier.tryFrom m.1)
  let (frostData, vkData) ← splitFromtPackage m.2
  let pkg ← okOr .serializationError (lib.deserializeRound1 frostData)
  return (maps.1.insert sender pkg, maps.2.insert sender vkData)

/-- The two rounds from the broadcast on, and what `compare` and the view key make of them. -/
def runRoundsWithVk (maxSigners : UInt16) (idMap : IdMap) (secret1 : Round1SecretPackage F G)
    (r1FrostBytes vkShareBytes : Bytes) (compare : PublicKeyPackage F G → Ceremony Unit)
    (network : UInt8) (birthday : UInt64) : Ceremony Bytes := do
  broadcast (r1FrostBytes ++ vkShareBytes)
  let (r1FrostMap, vkSharesMap) ← recvEach (maxSigners - 1).toNat (∅, ∅) (storeWithVk lib)
  let (keyPackage, pubKeyPackage) ←
    finishRounds lib.toFrostCore maxSigners idMap secret1 r1FrostMap
  compare pubKeyPackage
  let viewKey ← aggregateViewKeyShares lib vkShareBytes vkSharesMap
  KeyShareBundle.serialize lib { keyPackage, pubKeyPackage, viewKey, network, birthday }

def fromtDkgRun (myId maxSigners minSigners : UInt16) (network : UInt8) (birthday : UInt64)
    (rng rng' : Rng) : Ceremony Bytes := do
  let idMap ← buildIdMap lib.toFrostCore maxSigners
  let ident ← okOr .invalidIdentifier (Identifier.tryFrom myId)
  let (secret1, package) ←
    blameErr lib.toFrostCore .dkgError (lib.part1 ident maxSigners minSigners rng)
  let bytes ← okOr .serializationError (lib.serializeRound1 package)
  let vkShareBytes := lib.serializeScalar (lib.random rng').1
  failIf (vkShareBytes.length ≠ vkShareLen) .serializationError
  runRoundsWithVk lib maxSigners idMap secret1 bytes vkShareBytes (fun _ => return ()) network
    birthday

/-- The constant term and the view key share of a party of a key import. -/
def sessionTerm (isSeedHolder : Bool) (maxSigners : UInt16) (spendKey : Bytes) :
    Result (F × Bytes) :=
  if isSeedHolder then do
    failIf (spendKey.length ≠ 32) .invalidBufferSize
    let skScalar ← okOr .serializationError (lib.deserializeScalar spendKey)
    return (deriveConstantTerm skScalar maxSigners, viewKeyOf lib spendKey)
  else .ok (1, zeroShare)

/-- The comparison of the verifying key: the seed holder broadcasts the one that it has got, the
others compare the next message with their own. -/
def compareKey (isSeedHolder : Bool) (pubKeyPackage : PublicKeyPackage F G) : Ceremony Unit :=
  if isSeedHolder then do
    let expectedVk ← okOr .serializationError
      (lib.serializeVerifyingKey pubKeyPackage.verifyingKey)
    broadcast expectedVk
  else do
    let (_sender, expectedVk) ← recv
    let actualVk ← okOr .serializationError (lib.serializeVerifyingKey pubKeyPackage.verifyingKey)
    if actualVk ≠ expectedVk then
      .fail LibError.keyImportError
    else
      return ()

def fromtKeyImportRun (myId maxSigners minSigners seedHolderId : UInt16) (spendKey : Bytes)
    (network : UInt8) (birthday : UInt64) (rng : Rng) : Ceremony Bytes := do
  let isSeedHolder := decide (myId = seedHolderId)
  let idMap ← buildIdMap lib.toFrostCore maxSigners
  let (constantTerm, vkShareBytes) ← sessionTerm lib isSeedHolder maxSigners spendKey
  let (secret1, r1FrostBytes) ←
    Ceremony.keyImportPart1 lib.toFrostCore myId maxSigners minSigners constantTerm rng
  runRoundsWithVk lib maxSigners idMap secret1 r1FrostBytes vkShareBytes
    (compareKey lib isSeedHolder) network birthday

/-! ## Their rounds -/

/-- The package and the share in a message of round 1. -/
def decodeRound1 (data : Bytes) : Option (Round1Package F G × Bytes) :=
  (splitFromtPackage data).toOption.bind fun parts =>
    (lib.deserializeRound1 parts.1).map fun package => (package, parts.2)

variable {lib}

theorem splitFromtPackage_error {data : Bytes} {e : Fault} (h : splitFromtPackage data = .error e) :
    e = LibError.serializationError := by
  unfold splitFromtPackage failIf at h
  split at h
  · exact (Except.error.inj h).symm
  · nomatch h

theorem map_insert {κ γ δ : Type} [Ord κ] [Std.TransOrd κ] [Std.LawfulEqOrd κ] (m : BTreeMap κ γ)
    (k : κ) (a : γ) (g : γ → δ) :
    (m.map fun _ => g).insert k (g a) = (m.insert k a).map fun _ => g := by
  refine Std.ExtTreeMap.ext_getElem? fun k' => ?_
  rw [Std.ExtTreeMap.getElem?_insert, Std.ExtTreeMap.getElem?_map, Std.ExtTreeMap.getElem?_map,
    Std.ExtTreeMap.getElem?_insert]
  split <;> rfl

/-- The packages of a map of both. -/
def packagesOf (map : BTreeMap (Identifier F) (Round1Package F G × Bytes)) :
    BTreeMap (Identifier F) (Round1Package F G) := map.map fun _ => Prod.fst

def sharesOf (map : BTreeMap (Identifier F) (Round1Package F G × Bytes)) :
    BTreeMap (Identifier F) Bytes := map.map fun _ => Prod.snd

theorem storeWithVk_eq (map : BTreeMap (Identifier F) (Round1Package F G × Bytes))
    (m : UInt16 × Bytes) :
    storeWithVk lib (packagesOf map, sharesOf map) m =
      (store (decodeRound1 lib) map m).map fun map => (packagesOf map, sharesOf map) := by
  unfold storeWithVk store decodeRound1 packagesOf sharesOf
  cases (Identifier.tryFrom m.1 : Option (Identifier F)) with
  | none => rfl
  | some id =>
    cases hsplit : splitFromtPackage m.2 with
    | error e =>
      obtain rfl := splitFromtPackage_error hsplit
      rfl
    | ok parts =>
      cases hpkg : lib.deserializeRound1 parts.1 with
      | none => simp [hpkg, okOr, Except.toOption, bind, Except.bind, Except.map]
      | some package =>
        simp [hpkg, okOr, Except.toOption, bind, Except.bind, Except.map, pure, Except.pure, ← map_insert]

/-- What a session does with its keys and the shares of the view key. -/
def packKeyShare (lib : FromtLib F G P Rng) (vkShareBytes : Bytes)
    (compare : PublicKeyPackage F G → Ceremony Unit) (network : UInt8) (birthday : UInt64)
    (r1Map : BTreeMap (Identifier F) (Round1Package F G × Bytes))
    (keys : KeyPackage F G × PublicKeyPackage F G) : Ceremony Bytes := do
  compare keys.2
  let viewKey ← aggregateViewKeyShares lib vkShareBytes (sharesOf r1Map)
  KeyShareBundle.serialize lib
    { keyPackage := keys.1, pubKeyPackage := keys.2, viewKey, network, birthday }

theorem runRoundsWithVk_eq (maxSigners : UInt16) (idMap : IdMap)
    (secret1 : Round1SecretPackage F G) (r1FrostBytes vkShareBytes : Bytes)
    (compare : PublicKeyPackage F G → Ceremony Unit) (network : UInt8) (birthday : UInt64) :
    runRoundsWithVk lib maxSigners idMap secret1 r1FrostBytes vkShareBytes compare network birthday =
      roundsWith lib.toFrostCore (decodeRound1 lib) Prod.fst maxSigners idMap secret1
        (r1FrostBytes ++ vkShareBytes) (packKeyShare lib vkShareBytes compare network birthday) := by
  have hloop : recvEach (maxSigners - 1).toNat (∅, ∅) (storeWithVk lib) =
      recvEach (maxSigners - 1).toNat ∅ (store (decodeRound1 lib)) >>= fun map =>
        .ret (packagesOf map, sharesOf map) :=
    Proc.collect_image (fun map => (packagesOf map, sharesOf map))
      (fun map frame => storeWithVk_eq map (unframe frame)) _ ∅
  unfold runRoundsWithVk roundsWith
  rw [hloop]
  simp only [Proc.bind_bind, Proc.ret_bind]
  rfl

theorem decodeRound1_append {package : Round1Package F G} {b v : Bytes} (doc : lib.Documented)
    (hb : lib.serializeRound1 package = some b) (hv : v.length = vkShareLen) :
    decodeRound1 lib (b ++ v) = some (package, v) := by
  unfold decodeRound1
  rw [splitFromtPackage_append hv]
  simp only [Except.toOption, Option.bind_some, doc.toCore.round1_roundtrip _ _ hb, Option.map_some]

theorem fromtDkgRun_opens (doc : lib.Documented) (n minSigners p : UInt16) (network : UInt8)
    (birthday : UInt64) (rng rng' : Rng) :
    Opens lib.toFrostCore (decodeRound1 lib) Prod.fst n minSigners p
      (fun o => (2 ≤ minSigners ∧ minSigners ≤ n) ∧
        o.own.2 = lib.serializeScalar (lib.random rng').1)
      (packKeyShare lib (lib.serializeScalar (lib.random rng').1) (fun _ => return ()) network
        birthday)
      (fromtDkgRun lib p n minSigners network birthday rng rng') := by
  unfold fromtDkgRun
  refine .lift fun idMap hmap => .lift fun ident hident => .lift fun ⟨s, package⟩ hpart1 =>
    .lift fun b hb => .lift fun _ _ => ?_
  rw [okOr_eq_ok] at hident hb
  rw [blameErr_eq_ok] at hpart1
  obtain ⟨hmin, o, hown, rfl, rfl, hdata⟩ := part1_opens doc.toCore hmap hident hpart1
    Prod.fst (decodeRound1_append doc hb (doc.length_scalar (lib.random rng').1)) rfl
  rw [runRoundsWithVk_eq, ← hdata]
  exact .inr ⟨o, ⟨hmin, congrArg Prod.snd hown⟩, rfl⟩

theorem length_sessionShare (doc : lib.Documented) {isSeedHolder : Bool} {n : UInt16}
    {spendKey vkShare : Bytes} {term : F}
    (h : sessionTerm lib isSeedHolder n spendKey = .ok (term, vkShare)) :
    vkShare.length = vkShareLen := by
  unfold sessionTerm at h
  split at h
  · obtain ⟨_, -, h⟩ := bind_eq_ok.mp h
    obtain ⟨_, -, h⟩ := bind_eq_ok.mp h
    obtain ⟨-, rfl⟩ := Prod.mk.inj (Except.ok.inj h)
    exact doc.length_scalar _
  · obtain ⟨-, rfl⟩ := Prod.mk.inj (Except.ok.inj h)
    exact List.length_replicate

theorem fromtKeyImportRun_opens (doc : lib.Documented) (n minSigners p seedHolderId : UInt16)
    (spendKey : Bytes) (network : UInt8) (birthday : UInt64) (rng : Rng) {term : F}
    {vkShare : Bytes}
    (hterm : sessionTerm lib (decide (p = seedHolderId)) n spendKey = .ok (term, vkShare)) :
    Opens lib.toFrostCore (decodeRound1 lib) Prod.fst n minSigners p
      (fun o => o.secret1.coefficients.headD 0 = term ∧ o.own.2 = vkShare)
      (packKeyShare lib vkShare (compareKey lib (decide (p = seedHolderId))) network birthday)
      (fromtKeyImportRun lib p n minSigners seedHolderId spendKey network birthday rng) := by
  have hlen := length_sessionShare doc hterm
  unfold fromtKeyImportRun
  simp only [hterm]
  refine .lift fun idMap hmap => .lift fun begun heq => .lift fun drawn hpart1 => ?_
  obtain ⟨term, vkShare⟩ := begun
  obtain ⟨s, b⟩ := drawn
  obtain ⟨rfl, rfl⟩ := Prod.mk.inj (Except.ok.inj heq)
  obtain ⟨o, hhead, ⟨package, hown⟩, rfl, rfl, hdata⟩ := constantPart1_opens hmap hpart1 Prod.fst
    (fun package => (package, vkShare))
    fun package hb => ⟨decodeRound1_append doc hb hlen, rfl⟩
  rw [runRoundsWithVk_eq, ← hdata]
  exact .inr ⟨o, ⟨hhead, congrArg Prod.snd hown⟩, rfl⟩

theorem fromtKeyImportRun_of_error (n minSigners p seedHolderId : UInt16)
    (spendKey : Bytes) (network : UInt8) (birthday : UInt64) (rng : Rng) {e : Fault}
    (hterm : sessionTerm lib (decide (p = seedHolderId)) n spendKey = .error e) :
    ∃ e, fromtKeyImportRun lib p n minSigners seedHolderId spendKey network birthday rng = .fail e := by
  unfold fromtKeyImportRun
  simp only [hterm]
  cases buildIdMap lib.toFrostCore n with
  | error e => exact ⟨e, rfl⟩
  | ok idMap => exact ⟨e, rfl⟩

end Fromt
