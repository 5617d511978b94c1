import FrostZm.Ceremony.ReshareSession
import FrostZm.Fromt.Reference
import FrostZm.Fromt.Reshare
import FrostZm.Frozt.Reshare

/-!
# Resharing by session and round by round

Round by round, old and joining participants reshare in any mix. The sessions do the same for
old participants alone.
-/

open Ceremony Polynomial

set_option linter.unusedSectionVars false

variable {F G P Rng : Type} [Field F] [DecidableEq F] [Ord F] [Std.TransOrd F] [Std.LawfulEqOrd F]
  [AddCommGroup G] [Module F G] [AddCommGroup P]

namespace Fromt

variable {lib : FromtLib F G P Rng} {n minSigners : UInt16} {f : F[X]} {r : Resharing F G f n}

/-- On Monero, an old participant further has a key share with the view key. -/
structure ReshareClients (lib : FromtLib F G P Rng) {f : F[X]} (r : Resharing F G f n)
    (minSigners : UInt16) extends Ceremony.ReshareClients lib.toFrostKeys r minSigners where
  viewKey : Bytes
  oldKeyShare : UInt16 → Option Bytes
  viewKey_ne : viewKey ≠ zeroShare
  heldShare : ∀ p ∈ r.ids, ∀ kp, r.role p = some kp → ∃ b bundle, oldKeyShare p = some b ∧
    KeyShareBundle.deserialize lib b = .ok bundle ∧ bundle.keyPackage = kp ∧ bundle.viewKey = viewKey
  joiningShare : ∀ p ∈ r.ids, r.role p = none → oldKeyShare p = none ∨ oldKeyShare p = some []

namespace ReshareClients

variable (c : ReshareClients lib r minSigners)

/-- What a participant sends for the view key. -/
def viewShare (p : UInt16) : Bytes := (r.role p).elim zeroShare fun _ => c.viewKey

variable {c}

theorem froztTerm_eq (hempty : lib.deserializeKeyPackage [] = none) {p : UInt16} (hp : p ∈ r.ids) :
    Frozt.reshareTerm lib.toFrostKeys n (c.oldKeyPackage p) (some c.oldIdsData) =
      r.additiveShare p := by
  unfold Frozt.reshareTerm Resharing.additiveShare
  cases hrole : r.role p with
  | none =>
    rcases c.joining p hp hrole with h | h
    · rw [h]
    · rw [h]
      rfl
  | some kp =>
    obtain ⟨b, hb, hdec⟩ := c.held p hp kp hrole
    have hne : b ≠ [] := by
      rintro rfl
      rw [hempty] at hdec
      nomatch hdec
    have hids : decodeOldIdentifiers c.oldIdsData = .ok r.oldIds :=
      decodeOldIdentifiers_flatMap c.oldIds
    rw [hb]
    simp only [if_neg hne, Frozt.oldTerm, okOr_some, hids, hdec, bind, Except.bind]

theorem fromtTerm_eq {p : UInt16} (hp : p ∈ r.ids) {share : F}
    (hshare : r.additiveShare p = .ok share) :
    Fromt.reshareTerm lib n (c.oldKeyShare p) (some c.oldIdsData) = .ok (share, c.viewShare p) := by
  unfold Resharing.additiveShare at hshare
  unfold Fromt.reshareTerm viewShare
  cases hrole : r.role p with
  | none =>
    rw [hrole] at hshare
    obtain rfl := Except.ok.inj hshare
    rcases c.joiningShare p hp hrole with h | h
    · rw [h]
      rfl
    · rw [h]
      rfl
  | some kp =>
    rw [hrole] at hshare
    obtain ⟨b, bundle, hb, hbundle, rfl, hview⟩ := c.heldShare p hp kp hrole
    have hne : b ≠ [] := by
      rintro rfl
      nomatch hbundle
    have hids : decodeOldIdentifiers c.oldIdsData = .ok r.oldIds :=
      decodeOldIdentifiers_flatMap c.oldIds
    rw [hb]
    simp only [if_neg hne]
    refine bind_eq_ok.mpr ⟨bundle, hbundle, bind_eq_ok.mpr ⟨_, rfl, bind_eq_ok.mpr ⟨_, hids, ?_⟩⟩⟩
    exact bind_eq_ok.mpr ⟨share, hshare, by rw [hview]; rfl⟩

theorem viewShare_eq (p : UInt16) : c.viewShare p = zeroShare ∨ c.viewShare p = c.viewKey := by
  unfold viewShare
  cases r.role p with
  | none => exact .inl rfl
  | some kp => exact .inr rfl

theorem length_viewShare {p : UInt16} (hp : p ∈ r.ids) : (c.viewShare p).length = vkShareLen := by
  unfold viewShare
  cases hrole : r.role p with
  | none => rfl
  | some kp =>
    obtain ⟨_, _, _, hbundle, _, hview⟩ := c.heldShare p hp kp hrole
    exact hview ▸ KeyShareBundle.length_viewKey hbundle

theorem aggregate_viewShare (doc : lib.Documented) {deal : Deal lib.toFrostCore n minSigners}
    (hids : deal.ids = r.ids) (p : UInt16) :
    aggregateReshareViewKey (c.viewShare p)
      (BTreeMap.tabulate deal.ident c.viewShare (deal.others p)) = .ok c.viewKey := by
  have hinj : BTreeMap.Injective deal.ident (deal.others p) := Deal.others_injective doc.toCore
  have hentry : ∀ e ∈ (BTreeMap.tabulate deal.ident c.viewShare (deal.others p)).toList,
      ∃ s ∈ deal.others p, deal.ident s = e.1 ∧ c.viewShare s = e.2 := by
    intro e he
    rw [Std.ExtTreeMap.mem_toList_iff_getElem?_eq_some] at he
    exact (BTreeMap.getElem?_tabulate hinj).mp he
  unfold aggregateReshareViewKey
  split
  · next e hfind =>
    obtain ⟨s, -, -, hval⟩ := hentry e (List.mem_of_find?_eq_some hfind)
    have hne : e.2 ≠ zeroShare := by simpa using List.find?_some hfind
    rw [← hval] at hne ⊢
    rw [(c.viewShare_eq s).resolve_left hne]
  · next hfind =>
    -- nobody else is old, so it is this participant
    obtain ⟨q, hq, kp, hrole⟩ := r.exists_old
    have hview : c.viewShare q = c.viewKey := by rw [viewShare, hrole, Option.elim_some]
    have hqp : q = p := by
      by_contra hne
      have hmem : (deal.ident q, c.viewShare q) ∈
          (BTreeMap.tabulate deal.ident c.viewShare (deal.others p)).toList := by
        rw [Std.ExtTreeMap.mem_toList_iff_getElem?_eq_some]
        exact (BTreeMap.getElem?_tabulate hinj).mpr
          ⟨q, Deal.mem_others.mpr ⟨hne, hids ▸ hq⟩, rfl, rfl⟩
      have hzero := List.find?_eq_none.mp hfind _ hmem
      exact hzero (by simpa [hview] using c.viewKey_ne)
    rw [← hqp, hview, if_pos c.viewKey_ne]

end ReshareClients

/-- Round by round every mix of old and joining participants reshares, whatever the order of
the packages, and on Monero everyone stores the view key if no share is zero. The sessions give the
same keys exactly if nobody joins, the participants are numbered from one to the number of signers
and no package comes out of its round; they give no view key. -/
theorem reshareSessions_agree_iff (doc : lib.Documented) (enc : lib.EncodesKeys)
    (hempty : lib.deserializeKeyPackage [] = none) (r : Resharing F G f n)
    (c : ReshareClients lib r minSigners) (rng : UInt16 → Rng)
    (secret1 : UInt16 → Round1SecretPackage F G) (bytes1 : UInt16 → Bytes)
    (hround1 : ∀ p ∈ r.ids, Frozt.resharePart1 lib.toFrostKeys p n minSigners (c.oldKeyPackage p)
      (some c.oldIdsData) (rng p) = .ok (secret1 p, bytes1 p)) :
    let core := lib.toFrostCore
    let vk := c.setup.expectedVk
    ∃ (ident : UInt16 → Identifier F) (secret2 : UInt16 → Round2SecretPackage F G)
      (bytes2 : UInt16 → UInt16 → Bytes) (key : UInt16 → KeyPackage F G)
      (pub : UInt16 → PublicKeyPackage F G),
      (∀ p ∈ r.ids, Identifier.tryFrom p = some (ident p) ∧
        Fromt.resharePart1 lib p n minSigners (c.oldKeyShare p) (some c.oldIdsData) (rng p) =
          .ok (⟨secret1 p, c.viewShare p⟩, bytes1 p ++ c.viewShare p)) ∧
      (∀ p ∈ r.ids, ∀ order : List UInt16, order.Perm (r.ids.erase p) →
        (∃ order' : List UInt16, order'.Perm (r.ids.erase p) ∧
          Ceremony.dkgPart2 core (secret1 p) (roundData core ident bytes1 order) =
            .ok (secret2 p, roundData core ident (bytes2 p) order')) ∧
        ∃ order' : List UInt16, order'.Perm (r.ids.erase p) ∧
          Fromt.dkgPart2 lib ⟨secret1 p, c.viewShare p⟩
              (roundData core ident (fun s => bytes1 s ++ c.viewShare s) order) =
            .ok (⟨secret2 p, c.viewShare p⟩, roundData core ident (bytes2 p) order')) ∧
      (∀ p ∈ r.ids, ∀ order₁ order₂ : List UInt16, order₁.Perm (r.ids.erase p) →
        order₂.Perm (r.ids.erase p) →
        Ceremony.resharePart3 core (secret2 p) (roundData core ident bytes1 order₁)
          (roundData core ident (fun s => bytes2 s p) order₂) vk = .ok (key p, pub p) ∧
        ((∀ s ∈ r.ids, (key s).signingShare ≠ 0) → ∀ network birthday, ∃ data,
          Fromt.resharePart3 lib ⟨secret2 p, c.viewShare p⟩
              (roundData core ident (fun s => bytes1 s ++ c.viewShare s) order₁)
              (roundData core ident (fun s => bytes2 s p) order₂) vk network birthday =
            .ok (data, vk) ∧
          KeyShareBundle.deserialize lib data =
            .ok ⟨key p, pub p, c.viewKey, network, birthday⟩)) ∧
      ∀ acts net, Net.run ⟨r.ids.toFinset, ∅⟩ (c.body rng) acts = some net →
        (SessionsAgree r.ids (c.session rng) (c.body rng) bytes1 bytes2 sessionResult
            (fun p => ⟨key p, pub p, none⟩) acts ↔
          (∀ p ∈ r.ids, r.role p ≠ none) ∧ (∀ p ∈ r.ids, p ≤ n) ∧
            Net.KeepsPhase ⟨r.ids.toFinset, ∅⟩ (c.body rng) (othersTwice r.ids) acts) ∧
        ¬ SessionsAgree r.ids (c.session rng) (c.body rng) bytes1 bytes2 sessionResult
          (fun p => ⟨key p, pub p, some c.viewKey⟩) acts := by
  intro core vk
  obtain ⟨least, -, hleast⟩ := Resharing.exists_minIdentifier r.oldIds_ne_nil
  have hshare := fun p (hp : p ∈ r.ids) => Resharing.additiveShare_ok hleast hp
  set share : UInt16 → F := fun p => (r.role p).elim 1 fun kp => r.oldTerm least kp.identifier
  have hparts : ∀ p ∈ r.ids, (2 ≤ minSigners ∧ minSigners ≤ n) ∧
      Ceremony.resharePart1 core p n minSigners (share p) (rng p) = .ok (secret1 p, bytes1 p) := by
    intro p hp
    obtain ⟨_, hcheck, h⟩ := bind_eq_ok.mp (hround1 p hp)
    obtain ⟨term, hterm, h⟩ := bind_eq_ok.mp h
    rw [ReshareClients.froztTerm_eq hempty hp, hshare p hp] at hterm
    obtain rfl := Except.ok.inj hterm
    rw [failIf_eq_ok, not_or, UInt16.not_lt, UInt16.not_lt] at hcheck
    exact ⟨hcheck, h⟩
  obtain ⟨p₀, hp₀, -⟩ := r.exists_old
  obtain ⟨⟨hmin, hmax⟩, -⟩ := hparts p₀ hp₀
  have hmin0 : minSigners ≠ 0 := by
    rintro rfl
    exact absurd hmin (by decide)
  obtain ⟨deal, hids, rfl, hdeal⟩ :=
    exists_deal doc.toCore hmin0 r.nodup r.length fun p hp => (hparts p hp).2
  have hgroup : deal.groupSecret = f.eval 0 := by
    rw [← Resharing.sum_additiveShare hshare, Deal.groupSecret, hids]
    exact congrArg List.sum (List.map_congr_left fun p hp => (hdeal p hp).2)
  have hvk : core.serializeVerifyingKey (deal.groupSecret • core.generator) = some vk :=
    hgroup ▸ c.expected
  have hbytes : ∀ s ∈ deal.ids, core.serializeRound1 (deal.package s) = some (bytes1 s) :=
    fun s hs => (hdeal s (hids ▸ hs)).1
  have hview : ∀ s ∈ deal.ids, (c.viewShare s).length = vkShareLen :=
    fun s hs => ReshareClients.length_viewShare (hids ▸ hs)
  refine ⟨deal.ident, deal.secret2, deal.round2Bytes, deal.key, deal.publicKey, ?_, ?_, ?_, ?_⟩
  · intro p hp
    refine ⟨deal.tryFrom p (hids ▸ hp), ?_⟩
    refine bind_eq_ok.mpr ⟨(), failIf_eq_ok.mpr ?_, ?_⟩
    · rw [not_or, UInt16.not_lt, UInt16.not_lt]
      exact ⟨hmin, hmax⟩
    · exact bind_eq_ok.mpr ⟨_, ReshareClients.fromtTerm_eq hp (hshare p hp),
        bind_eq_ok.mpr ⟨_, (hparts p hp).2, rfl⟩⟩
  · rw [← hids]
    intro p hp order horder
    exact ⟨Deal.dkgPart2_ok hbytes doc.toCore enc.toShort hp horder,
      Fromt.dkgPart2_ok doc enc.toShort hp horder hview hbytes⟩
  · rw [← hids]
    intro p hp order₁ order₂ horder₁ horder₂
    refine ⟨Deal.checkedPart3_ok hbytes doc.toCore enc.toShort hmin0 hp horder₁ horder₂ hvk, ?_⟩
    intro hshares network birthday
    have hsecret : deal.groupSecret ≠ 0 := by
      intro h0
      have hne := (doc.toCore.verifyingKey_ok_iff _).mp ⟨vk, hvk⟩
      rw [h0, zero_smul] at hne
      exact hne rfl
    have hpart3 := frostPart3_ok doc enc.toShort hmin0 hp horder₁ horder₂ hview hbytes
    have hlen : c.viewKey.length = 32 := by
      obtain ⟨q, hq, kp, hrole⟩ := r.exists_old
      have h := ReshareClients.length_viewShare (c := c) hq
      rwa [ReshareClients.viewShare, hrole, Option.elim_some] at h
    obtain ⟨data, hdata, hread⟩ :=
      exists_bundle doc enc hp hsecret hshares hlen network birthday
    refine ⟨data, ?_, hread⟩
    refine bind_eq_ok.mpr ⟨_, hpart3, bind_eq_ok.mpr ⟨vk, ?_, ?_⟩⟩
    · rw [okOr_eq_ok, Deal.publicKey_verifyingKey doc.toCore hp, hvk]
    · refine bind_eq_ok.mpr ⟨(), failIf_eq_ok.mpr (not_not.mpr rfl), ?_⟩
      exact bind_eq_ok.mpr ⟨_, ReshareClients.aggregate_viewShare doc hids p,
        bind_eq_ok.mpr ⟨_, hdata, rfl⟩⟩
  · intro acts net hr
    have hpart1 := fun p (hp : p ∈ r.ids) => (hparts p hp).2
    have h2 : 2 ≤ n := UInt16.le_trans hmin hmax
    refine ⟨Ceremony.ReshareClients.sessionsAgree_iff doc.toKeys hmin0 hids hshare hpart1 hbytes
      hempty h2 hgroup hr, ?_⟩
    rintro ⟨-, hreads, -⟩
    obtain ⟨-, a, -, ha, -⟩ := hreads p₀ hp₀
    exact Option.some_ne_none c.viewKey (congrArg Reshared.viewKey ha).symm

section Samples

open Reference

/-- The setup message of the resharing of parties 1 and 2, which party 3 joins. -/
def sampleReshareSetup : ReshareSetup where
  base := { maxSigners := 3, minSigners := 2, parties := [⟨1, [1]⟩, ⟨2, [2]⟩, ⟨3, [3]⟩] }
  oldIdentifiers := [1, 2]
  expectedVk := encodeScalar 5

def sampleSetupData : Bytes :=
  u16ToLeBytes 3 ++ u16ToLeBytes 2 ++ u16ToLeBytes 3 ++
    ([1, 2, 3].flatMap fun p : UInt16 => u16ToLeBytes p ++ u16ToLeBytes 1 ++ [p.toUInt8]) ++
    u16ToLeBytes 2 ++ [1, 2].flatMap u16ToLeBytes ++ lengthPrefixed (encodeScalar 5)

def sampleOldBundle (kp : KeyPackage Scalar Scalar) : KeyShareBundle Scalar Scalar where
  keyPackage := kp
  pubKeyPackage := { verifyingShares := ∅, verifyingKey := kp.verifyingKey }
  viewKey := List.replicate 32 1
  network := 0
  birthday := 0

theorem exists_sampleOldBundle (kp : KeyPackage Scalar Scalar) :
    ∃ out, (sampleOldBundle kp).serialize fromt = .ok out := by
  have hlen : (encodePublicKeys (sampleOldBundle kp).pubKeyPackage).length < 2 ^ 32 := by
    rw [encodePublicKeys, List.length_cons, length_encodeScalars, List.length_cons, length_encodeShares]
    simp [sampleOldBundle]
  have hpkp : serializePublicKeyPackage (sampleOldBundle kp).pubKeyPackage =
      some (encodePublicKeys (sampleOldBundle kp).pubKeyPackage) := by
    rw [serializePublicKeyPackage, if_pos hlen]
  exact ⟨_, bind_eq_ok.mpr ⟨_, rfl, bind_eq_ok.mpr ⟨_, okOr_eq_ok.mpr hpkp, rfl⟩⟩⟩

def sampleOldKeyPackage (p : UInt16) : Option Bytes :=
  (sampleResharing.role p).map fun kp => (serializeKeyPackage kp).getD []

def sampleClients : ReshareClients fromt sampleResharing 2 where
  name p := [p.toUInt8]
  setup := sampleReshareSetup
  setupData := sampleSetupData
  oldKeyPackage := sampleOldKeyPackage
  decode := rfl
  maxSigners_eq := rfl
  minSigners_eq := rfl
  named := by
    intro p hp
    simp only [sampleResharing, List.mem_cons, List.not_mem_nil, or_false] at hp
    rcases hp with rfl | rfl | rfl
    · rfl
    · rfl
    · rfl
  oldIds := by decide
  expected := by
    have h5 : (C (5 : Scalar) + X).eval 0 • fromt.generator = 5 := by simp [fromt, keys, core]
    rw [h5]
    decide
  held p _ kp hrole := by
    refine ⟨(serializeKeyPackage kp).getD [], by rw [sampleOldKeyPackage, hrole]; rfl, ?_⟩
    exact (keys_documented.keyPackage_roundtrip kp _ rfl).1
  joining p _ hrole := .inl (by rw [sampleOldKeyPackage, hrole]; rfl)
  viewKey := List.replicate 32 1
  oldKeyShare p := (sampleResharing.role p).map fun kp =>
    (((sampleOldBundle kp).serialize fromt).toOption).getD []
  viewKey_ne := by decide
  heldShare p _ kp hrole := by
    obtain ⟨out, hout⟩ := exists_sampleOldBundle kp
    refine ⟨out, sampleOldBundle kp, ?_, ?_, rfl, rfl⟩
    · rw [hrole, Option.map_some, hout]
      rfl
    · exact KeyShareBundle.deserialize_serialize fromt_documented rfl hout
  joiningShare p _ hrole := .inl (by rw [hrole]; rfl)

def sampleRound (p : UInt16) : Result (Round1SecretPackage Scalar Scalar × Bytes) :=
  Frozt.resharePart1 keys p 3 2 (sampleOldKeyPackage p) (some ([1, 2].flatMap u16ToLeBytes)) p.toNat

theorem sampleRound_ok : ∀ p ∈ sampleResharing.ids,
    sampleRound p = .ok (((sampleRound p).toOption).getD default) := by
  intro p hp
  have hall : sampleResharing.ids.all fun p => (sampleRound p).toOption.isSome := by decide +kernel
  have hsome := List.all_eq_true.mp hall p hp
  cases h : sampleRound p with
  | ok out => rfl
  | error e =>
    rw [h] at hsome
    nomatch hsome

/-- Party 3 takes part round by round, and gets no session. -/
theorem joining_without_session :
    (∀ p ∈ sampleResharing.ids, ∃ out, sampleRound p = .ok out) ∧
      ∀ rng body, sampleClients.session rng 3 ≠ .ok body := by
  refine ⟨fun p hp => ⟨_, sampleRound_ok p hp⟩, fun rng body => ?_⟩
  exact Ceremony.ReshareClients.no_session (by decide) (by decide) rfl body

theorem reshareSessions_agree_sample :
    ∃ (bytes1 : UInt16 → Bytes) (bytes2 : UInt16 → UInt16 → Bytes)
      (key : UInt16 → KeyPackage Scalar Scalar) (pub : UInt16 → PublicKeyPackage Scalar Scalar),
      ¬ SessionsAgree sampleResharing.ids (sampleClients.session UInt16.toNat)
        (sampleClients.body UInt16.toNat) bytes1 bytes2 sessionResult
        (fun p => ⟨key p, pub p, none⟩) [] := by
  let secret1 := fun p => (((sampleRound p).toOption).getD default).1
  let bytes1 := fun p => (((sampleRound p).toOption).getD default).2
  obtain ⟨-, -, bytes2, key, pub, -, -, -, hiff⟩ := reshareSessions_agree_iff fromt_documented
    keys_encodesKeys (by decide) sampleResharing sampleClients UInt16.toNat secret1 bytes1 sampleRound_ok
  refine ⟨bytes1, bytes2, key, pub, fun h => ?_⟩
  exact ((hiff [] _ rfl).1.mp h).1 3 (by decide) rfl

end Samples

end Fromt
