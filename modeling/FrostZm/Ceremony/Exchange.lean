import FrostZm.Ceremony.KeyImport
import FrostZm.Frost.Keys

/-!
# The packages of honest participants as bytes

Between the rounds a client puts the packages of the others into one map of bytes. Whatever
their order, the next round reads the packages of the deal.
-/

set_option linter.unusedSectionVars false

variable {F G Rng : Type} [Field F] [DecidableEq F] [Ord F] [Std.TransOrd F] [Std.LawfulEqOrd F]
  [AddCommGroup G] [Module F G]

namespace Ceremony

/-- The packages `bytes` of these participants, in the order of the list. -/
def roundData (core : FrostCore F G Rng) (ident : UInt16 → Identifier F) (bytes : UInt16 → Bytes)
    (order : List UInt16) : Bytes :=
  encodeFields (order.map fun s => (core.serializeIdentifier (ident s), bytes s))

namespace Deal

variable {core : FrostCore F G Rng} {maxSigners minSigners : UInt16}
  {deal : Deal core maxSigners minSigners} {p : UInt16} {order : List UInt16}

theorem length_order_lt (horder : order.Perm (deal.others p)) : order.length < 2 ^ 32 := by
  have hle : (deal.others p).length ≤ deal.ids.length := List.length_erase_le
  have hlt := maxSigners.toNat_lt
  rw [deal.length] at hle
  rw [horder.length_eq]
  omega

theorem decodeKey_serialize (doc : core.Documented) (id : Identifier F) :
    decodeKey core (core.serializeIdentifier id) = .ok id := by
  rw [decodeKey, doc.identifier_roundtrip, okOr_some]

/-- Whatever the order of the others' packages, they are read back as one map. -/
theorem decodeMap_roundData (doc : core.Documented) (short : core.ShortPackages)
    (horder : order.Perm (deal.others p)) {α : Type} {decodeVal : Bytes → Result α}
    {bytes : UInt16 → Bytes} {val : UInt16 → α}
    (hbytes : ∀ s ∈ deal.others p, (bytes s).length < 2 ^ 32 ∧ decodeVal (bytes s) = .ok (val s)) :
    decodeMap (roundData core deal.ident bytes order) (decodeKey core) decodeVal =
      .ok (BTreeMap.tabulate deal.ident val (deal.others p)) := by
  have hmem : ∀ s ∈ order, s ∈ deal.others p := fun s hs => horder.mem_iff.mp hs
  have hdecode : decodeMap (roundData core deal.ident bytes order) (decodeKey core) decodeVal =
      .ok (BTreeMap.tabulate deal.ident val order) :=
    decodeMap_encodeFields (length_order_lt horder)
      (fun s hs => ⟨short.identifier (deal.ident s), (hbytes s (hmem s hs)).1⟩)
      (fun s hs => ⟨decodeKey_serialize doc (deal.ident s), (hbytes s (hmem s hs)).2⟩)
  rw [hdecode]
  congr 1
  refine BTreeMap.tabulate_eq_of_mem_iff ?_ fun s => horder.mem_iff
  intro x hx y hy
  exact others_injective doc x (hmem x hx) y (hmem y hy)

theorem length_round1 (short : core.ShortPackages) {s : UInt16} (hs : s ∈ deal.ids) {b : Bytes}
    (hb : core.serializeRound1 (deal.package s) = some b) : b.length + 32 < 2 ^ 32 := by
  refine short.round1 _ _ hb ?_
  rw [length_commitment hs]
  exact minSigners.toNat_lt

theorem decodeR1Map_roundData (doc : core.Documented) (short : core.ShortPackages)
    (horder : order.Perm (deal.others p)) {bytes : UInt16 → Bytes}
    (hbytes : ∀ s ∈ deal.ids, core.serializeRound1 (deal.package s) = some (bytes s)) :
    decodeR1Map core (roundData core deal.ident bytes order) = .ok (deal.round1Map p) := by
  refine decodeMap_roundData doc short horder fun s hs => ⟨?_, ?_⟩
  · have hlen := length_round1 short (mem_others.mp hs).2 (hbytes s (mem_others.mp hs).2)
    omega
  · rw [doc.round1_roundtrip _ _ (hbytes s (mem_others.mp hs).2), okOr_some]

theorem decodeR2Map_roundData (doc : core.Documented) (short : core.ShortPackages)
    (horder : order.Perm (deal.others p)) :
    decodeR2Map core (roundData core deal.ident (fun s => deal.round2Bytes s p) order) =
      .ok (deal.round2Map p) := by
  refine decodeMap_roundData doc short horder fun s _ => ⟨?_, ?_⟩
  · exact short.round2 _ _ (deserializeRound2_bytes doc deal s p).1
  · rw [(deserializeRound2_bytes doc deal s p).2, okOr_some]

theorem encodeR2Map_sent2Map (doc : core.Documented) (deal : Deal core maxSigners minSigners)
    (p : UInt16) :
    ∃ order : List UInt16, order.Perm (deal.others p) ∧ encodeR2Map core (deal.sent2Map p) =
      .ok (roundData core deal.ident (deal.round2Bytes p) order) := by
  have hinj : BTreeMap.Injective deal.ident (deal.others p) := others_injective doc
  obtain ⟨order, hperm, htoList⟩ : ∃ order : List UInt16, (deal.others p).Perm order ∧
      (deal.sent2Map p).toList = order.map fun s => (deal.ident s, deal.round2Package p s) :=
    BTreeMap.exists_toList_tabulate hinj nodup_others
  refine ⟨order, hperm.symm, ?_⟩
  have hsize : (deal.sent2Map p).size = order.length := by
    rw [← Std.ExtTreeMap.length_toList, htoList, List.length_map]
  have hentries : (deal.sent2Map p).toList.mapM (fun (k, v) =>
      encodeEntry (fun id => .ok (core.serializeIdentifier id))
        (fun pkg => okOr .serializationError (core.serializeRound2 pkg)) k v) =
      .ok (order.map fun s => lengthPrefixed (core.serializeIdentifier (deal.ident s)) ++
        lengthPrefixed (deal.round2Bytes p s)) := by
    rw [htoList, List.mapM_map]
    refine mapM_ok fun s _ => ?_
    refine bind_eq_ok.mpr ⟨_, rfl,
      bind_eq_ok.mpr ⟨_, okOr_eq_ok.mpr (deserializeRound2_bytes doc deal p s).1, ?_⟩⟩
    simp only [lengthPrefixed, List.append_assoc]
    rfl
  refine bind_eq_ok.mpr ⟨_, hentries, ?_⟩
  rw [hsize, roundData, encodeFields, List.length_map, List.map_map]
  rfl

/-! ## Storing the keys -/

theorem exists_keyEncodings {keys : FrostKeys F G Rng} (doc : keys.Documented)
    (enc : keys.EncodesKeys) {deal : Deal keys.toFrostCore maxSigners minSigners} (hp : p ∈ deal.ids)
    (hsecret : deal.groupSecret ≠ 0) (hshares : ∀ s ∈ deal.ids, (deal.key s).signingShare ≠ 0) :
    (∃ b, keys.serializeKeyPackage (deal.key p) = some b) ∧
      ∃ b, keys.serializePublicKeyPackage (deal.publicKey p) = some b := by
  have hg := doc.toCore.generator_ne_zero
  have hvk : (deal.key p).verifyingKey ≠ 0 := by
    rw [key_verifyingKey doc.toCore hp]
    exact smul_ne_zero hsecret hg
  have hshare : ∀ e ∈ (deal.publicKey p).verifyingShares.toList, e.2 ≠ 0 := by
    intro e he
    rw [publicKey_verifyingShares doc.toCore hp, Std.ExtTreeMap.mem_toList_iff_getElem?_eq_some] at he
    obtain ⟨s, hs, -, h⟩ := (BTreeMap.getElem?_tabulate (ident_injective doc.toCore)).mp he
    rw [← h]
    exact smul_ne_zero (hshares s hs) hg
  have hsize : (deal.publicKey p).verifyingShares.size < 2 ^ 16 := by
    rw [publicKey_verifyingShares doc.toCore hp]
    refine (BTreeMap.size_tabulate_le deal.ids).trans_lt ?_
    rw [deal.length]
    exact maxSigners.toNat_lt
  exact ⟨enc.keyPackage (deal.key p) (smul_ne_zero (hshares p hp) hg) hvk,
    enc.publicKeyPackage (deal.publicKey p) hshare hvk hsize⟩

/-! ## The rounds -/

section Rounds

variable {bytes : UInt16 → Bytes}
  (hbytes : ∀ s ∈ deal.ids, core.serializeRound1 (deal.package s) = some (bytes s))
include hbytes

theorem dkgPart2_ok (doc : core.Documented) (short : core.ShortPackages) (hp : p ∈ deal.ids)
    (horder : order.Perm (deal.others p)) :
    ∃ order' : List UInt16, order'.Perm (deal.others p) ∧
      dkgPart2 core (deal.secret p) (roundData core deal.ident bytes order) =
        .ok (deal.secret2 p, roundData core deal.ident (deal.round2Bytes p) order') := by
  obtain ⟨order', hperm, hencode⟩ := encodeR2Map_sent2Map doc deal p
  refine ⟨order', hperm, ?_⟩
  refine bind_eq_ok.mpr ⟨_, decodeR1Map_roundData doc short horder hbytes, ?_⟩
  refine bind_eq_ok.mpr ⟨_, (blameErr_eq_ok core).mpr (part2_ok doc hp), ?_⟩
  exact bind_eq_ok.mpr ⟨_, hencode, rfl⟩

theorem dkgPart3_ok (doc : core.Documented) (short : core.ShortPackages) (hmin : minSigners ≠ 0)
    (hp : p ∈ deal.ids) (horder : order.Perm (deal.others p)) {order₂ : List UInt16}
    (horder₂ : order₂.Perm (deal.others p)) :
    dkgPart3 core (deal.secret2 p) (roundData core deal.ident bytes order)
        (roundData core deal.ident (fun s => deal.round2Bytes s p) order₂) =
      .ok (deal.key p, deal.publicKey p) := by
  refine bind_eq_ok.mpr ⟨_, decodeR1Map_roundData doc short horder hbytes, ?_⟩
  refine bind_eq_ok.mpr ⟨_, decodeR2Map_roundData doc short horder₂, ?_⟩
  rw [part3_ok doc hmin hp, blameErr_ok]

theorem checkedPart3_ok (doc : core.Documented) (short : core.ShortPackages)
    (hmin : minSigners ≠ 0) (hp : p ∈ deal.ids) (horder : order.Perm (deal.others p))
    {order₂ : List UInt16} (horder₂ : order₂.Perm (deal.others p)) {failure : LibError}
    {vk : Bytes} (hvk : core.serializeVerifyingKey (deal.groupSecret • core.generator) = some vk) :
    checkedPart3 core failure (deal.secret2 p) (roundData core deal.ident bytes order)
        (roundData core deal.ident (fun s => deal.round2Bytes s p) order₂) vk =
      .ok (deal.key p, deal.publicKey p) := by
  refine bind_eq_ok.mpr ⟨_, dkgPart3_ok hbytes doc short hmin hp horder horder₂, ?_⟩
  refine bind_eq_ok.mpr ⟨vk, ?_, ?_⟩
  · rw [okOr_eq_ok, publicKey_verifyingKey doc hp, hvk]
  · rw [if_neg (not_not.mpr rfl)]
    rfl

end Rounds

end Deal

end Ceremony
