import FrostZm.Fromt.Ckd
import FrostZm.Fromt.KeyImage
import FrostZm.Fromt.Reference

/-!
# Lists of signers

What the weighted shares are when the list of signers is not what it should be. No list makes the
denominator zero, so the weights of repeated, foreign or too few signers are computed as well.
-/

set_option linter.unusedSectionVars false

variable {F G F' G' P Rng : Type} [Field F] [DecidableEq F] [Ord F] [Std.TransOrd F]
  [Std.LawfulEqOrd F] [AddCommGroup G] [Module F G] [Field F'] [DecidableEq F'] [Ord F']
  [Std.TransOrd F'] [Std.LawfulEqOrd F'] [AddCommGroup G'] [Module F' G'] [AddCommGroup P]

open Ceremony Fromt

namespace SignerLists

/-! ## Shares of one secret -/

/-- The key package has a share of the secret that the polynomial hides. -/
structure IsShare (coefficients : List F) (keyPackage : KeyPackage F G) : Prop where
  threshold : coefficients.length = keyPackage.minSigners.toNat
  share : keyPackage.signingShare = Shamir.evalPoly coefficients keyPackage.identifier.toScalar

def secretOf (coefficients : List F) : F := Shamir.evalPoly coefficients 0

/-! ## The old participants of a resharing -/

/-- The list names different participants, the own one among them and as many as are needed. -/
structure ValidIds (keyPackage : KeyPackage F G) (ids : List (Identifier F)) : Prop where
  nodup : ids.Nodup
  own : keyPackage.identifier ∈ ids
  enough : keyPackage.minSigners.toNat ≤ ids.length

/-- The additive shares of the listed participants and the ones of those who join add up to the
secret. -/
def AdditiveSums (G : Type) (coefficients : List F) (ids : List (Identifier F)) (maxSigners : UInt16) :
    Prop :=
  ∃ share : Identifier F → F,
    (∀ kp : KeyPackage F G, IsShare coefficients kp → kp.identifier ∈ ids →
      computeAdditiveShare kp ids maxSigners = .ok (share kp.identifier)) ∧
    ids.length ≤ maxSigners.toNat ∧
    (ids.map share).sum + ((maxSigners.toNat - ids.length : ℕ) : F) = secretOf coefficients

def AdditiveSafe (coefficients : List F) (keyPackage : KeyPackage F G) (ids : List (Identifier F))
    (maxSigners : UInt16) : Prop :=
  ∀ share, computeAdditiveShare keyPackage ids maxSigners = .ok share →
    ValidIds keyPackage ids ∧ AdditiveSums G coefficients ids maxSigners

/-! ## The signers of a key image and of a child key -/

structure ValidSigners (keyPackage : KeyPackage F G) (signerIds : List UInt16) : Prop where
  nodup : signerIds.Nodup
  own : ∃ id ∈ signerIds, Identifier.tryFrom id = some keyPackage.identifier
  enough : keyPackage.minSigners.toNat ≤ signerIds.length

section Parts

variable (lib : FromtLib F G P Rng) (coefficients : List F)

/-- The listed signers publish the partial images of weighted shares that add up to the secret. -/
def KeyImageSums (outputsData : Bytes) (signerIds : List UInt16) : Prop :=
  ∃ ids outputs, ∃ share : Identifier F → F,
    signerIdentifiers signerIds = .ok ids ∧ decodeOutputs outputsData = .ok outputs ∧
    (∀ data bundle, KeyShareBundle.deserialize lib data = .ok bundle →
      IsShare coefficients bundle.keyPackage → bundle.keyPackage.identifier ∈ ids →
        let partials := outputs.map (partialOf lib (share bundle.keyPackage.identifier))
        keyImagePart1 lib data outputsData signerIds = .ok (⟨outputs, partials⟩, partials.flatten)) ∧
    (ids.map share).sum = secretOf coefficients

def KeyImageSafe (bundle : KeyShareBundle F G) (data outputsData : Bytes) (signerIds : List UInt16) :
    Prop :=
  ∀ result, keyImagePart1 lib data outputsData signerIds = .ok result →
    ValidSigners bundle.keyPackage signerIds ∧ KeyImageSums lib coefficients outputsData signerIds

/-- The listed signers publish multiples of weighted shares that add up to the secret. -/
def CkdSums (account index : UInt32) (signerIds : List UInt16) : Prop :=
  ∃ ids, ∃ share : Identifier F → F, signerIdentifiers signerIds = .ok ids ∧
    (∀ data bundle, KeyShareBundle.deserialize lib data = .ok bundle →
      IsShare coefficients bundle.keyPackage → bundle.keyPackage.identifier ∈ ids →
        let lambdaX := share bundle.keyPackage.identifier
        ckdPart1 lib data account index signerIds = .ok (⟨data, account, index, lambdaX⟩,
          lib.serializeScalar (lambdaX * derivePathPoint lib account index))) ∧
    (ids.map share).sum = secretOf coefficients

def CkdSafe (bundle : KeyShareBundle F G) (data : Bytes) (account index : UInt32)
    (signerIds : List UInt16) : Prop :=
  ∀ result, ckdPart1 lib data account index signerIds = .ok result →
    ValidSigners bundle.keyPackage signerIds ∧ CkdSums lib coefficients account index signerIds

end Parts

/-- There is an output whose key image is asked for. -/
def OutputsThere (outputsData : Bytes) : Prop :=
  ∃ outputs, decodeOutputs outputsData = .ok outputs ∧ outputs ≠ []

/-! ## Every list has a coefficient -/

variable {coefficients : List F} {keyPackage : KeyPackage F G} {ids : List (Identifier F)}
  {maxSigners : UInt16}

theorem prod_otherPoints_ne_zero (myId : Identifier F) (ids : List (Identifier F)) :
    ((otherPoints myId ids).map (· - myId.toScalar)).prod ≠ 0 := by
  rw [ne_eq, List.prod_eq_zero_iff]
  intro h
  obtain ⟨x, hx, hzero⟩ := List.mem_map.mp h
  obtain ⟨id, hid, rfl⟩ := List.mem_map.mp hx
  exact of_decide_eq_true (List.mem_filter.mp hid).2 (Identifier.ext (sub_eq_zero.mp hzero))

theorem exists_lagrangeCoeff (myId : Identifier F) (ids : List (Identifier F)) :
    ∃ c, lagrangeCoeff myId ids = .ok c := by
  unfold lagrangeCoeff
  rw [foldl_lagrangeStep, one_mul, one_mul]
  simp only [invert, if_neg (prod_otherPoints_ne_zero myId ids), okOr_some]
  exact ⟨_, rfl⟩

/-- The only lists that are refused are the empty one and, by the lowest 16 bits of their length, the
long ones. -/
theorem computeAdditiveShare_succeeds (keyPackage : KeyPackage F G) :
    (∃ share, computeAdditiveShare keyPackage ids maxSigners = .ok share) ↔
      ids ≠ [] ∧ ¬ maxSigners < .ofNat ids.length := by
  unfold computeAdditiveShare
  by_cases hlong : maxSigners < .ofNat ids.length
  · rw [if_pos hlong]
    constructor
    · rintro ⟨_, h⟩
      nomatch h
    · rintro ⟨-, h⟩
      exact absurd hlong h
  · rw [if_neg hlong]
    obtain ⟨c, hc⟩ := exists_lagrangeCoeff keyPackage.identifier ids
    rw [hc]
    cases ids with
    | nil =>
      constructor
      · rintro ⟨_, h⟩
        nomatch h
      · rintro ⟨h, -⟩
        exact absurd rfl h
    | cons id ids =>
      constructor
      · rintro -
        exact ⟨List.cons_ne_nil _ _, hlong⟩
      · rintro -
        exact ⟨_, rfl⟩

/-! ## Valid lists -/

theorem sum_weightedShares (hnodup : ids.Nodup) (henough : coefficients.length ≤ ids.length) :
    (ids.map fun id => Shamir.evalPoly coefficients id.toScalar *
      Shamir.weight (ids.map Identifier.toScalar).toFinset id.toScalar).sum = secretOf coefficients := by
  have hdeg : (Shamir.polyOf coefficients).degree < ids.length :=
    (Shamir.degree_polyOf_lt coefficients).trans_le (by exact_mod_cast henough)
  have h := Resharing.sum_weighted hnodup hdeg
  simp only [Shamir.eval_polyOf] at h
  exact h

/-- The term of a listed participant, when `least` is the smallest of them. -/
def additiveTerm (coefficients : List F) (ids : List (Identifier F)) (joining : ℕ)
    (least id : Identifier F) : F :=
  Shamir.evalPoly coefficients id.toScalar *
    Shamir.weight (ids.map Identifier.toScalar).toFinset id.toScalar +
      if id = least then -(joining : F) else 0

theorem additiveSums (hnodup : ids.Nodup) (hne : ids ≠ []) (henough : coefficients.length ≤ ids.length)
    (hmax : ids.length ≤ maxSigners.toNat) : AdditiveSums G coefficients ids maxSigners := by
  obtain ⟨least, hmem, hleast⟩ := Resharing.exists_minIdentifier hne
  have hlen : (UInt16.ofNat ids.length).toNat = ids.length := by
    have hlt := maxSigners.toNat_lt
    rw [UInt16.toNat_ofNat']
    omega
  have hle : UInt16.ofNat ids.length ≤ maxSigners := by
    rw [UInt16.le_iff_toNat_le, hlen]
    exact hmax
  have hsub : (maxSigners - UInt16.ofNat ids.length).toNat = maxSigners.toNat - ids.length := by
    rw [UInt16.toNat_sub_of_le _ _ hle, hlen]
  refine ⟨additiveTerm coefficients ids (maxSigners.toNat - ids.length) least, ?_, hmax, ?_⟩
  · intro kp hkp _
    unfold computeAdditiveShare
    rw [if_neg (UInt16.not_lt.mpr hle), lagrangeCoeff_ok hnodup, hleast]
    refine congrArg Except.ok ?_
    rw [additiveTerm, hkp.share, hsub]
    split
    · rw [subOnes_eq, sub_eq_add_neg]
    · rw [add_zero]
  · unfold additiveTerm
    rw [List.sum_map_add, Resharing.sum_least hnodup hmem, sum_weightedShares hnodup henough]
    ring

theorem additiveSafe_iff (hshare : IsShare coefficients keyPackage) :
    AdditiveSafe coefficients keyPackage ids maxSigners ↔
      (ValidIds keyPackage ids ∧ ids.length ≤ maxSigners.toNat) ∨ ids = [] ∨
        maxSigners < .ofNat ids.length := by
  constructor
  · intro h
    by_cases hsucceeds : ids ≠ [] ∧ ¬ maxSigners < .ofNat ids.length
    · obtain ⟨share, hok⟩ := (computeAdditiveShare_succeeds keyPackage).mpr hsucceeds
      obtain ⟨hvalid, -, -, hmax, -⟩ := h share hok
      exact .inl ⟨hvalid, hmax⟩
    · rw [not_and_or, not_not, not_not] at hsucceeds
      exact .inr hsucceeds
  · rintro (⟨hvalid, hmax⟩ | hrefused) share hok
    · exact ⟨hvalid, additiveSums hvalid.nodup (List.ne_nil_of_mem hvalid.own)
        (hshare.threshold ▸ hvalid.enough) hmax⟩
    · have hsucceeds := (computeAdditiveShare_succeeds keyPackage).mp ⟨share, hok⟩
      rcases hrefused with hnil | hlong
      · exact absurd hnil hsucceeds.1
      · exact absurd hlong hsucceeds.2

/-! ## Lists of numbers -/

section Signers

variable {lib : FromtLib F G P Rng} (doc : lib.toFrostCore.Documented) {signerIds : List UInt16}

theorem signerIdentifiers_eq_ok :
    signerIdentifiers signerIds = .ok ids ↔
      List.Forall₂ (fun x id => Identifier.tryFrom x = some id) signerIds ids := by
  unfold signerIdentifiers
  rw [mapM_eq_ok]
  simp only [okOr_eq_ok]

include doc

theorem exists_signerIdentifiers :
    (∃ ids : List (Identifier F), signerIdentifiers signerIds = .ok ids) ↔ 0 ∉ signerIds := by
  constructor
  · rintro ⟨ids, hids⟩ hzero
    obtain ⟨id, -, hid⟩ := exists_of_forall₂ (signerIdentifiers_eq_ok.mp hids) hzero
    exact doc.ne_zero_of_tryFrom hid rfl
  · intro hzero
    have h : ∀ x ∈ signerIds, Identifier.tryFrom x =
        some ((Identifier.tryFrom x).getD (default : Identifier F)) := by
      intro x hx
      obtain ⟨id, hid⟩ := doc.exists_tryFrom fun h : x = 0 => hzero (h ▸ hx)
      rw [hid, Option.getD_some]
    exact ⟨_, signerIdentifiers_ok h⟩

theorem map_toScalar_signerIdentifiers (h : signerIdentifiers signerIds = .ok ids) :
    ids.map Identifier.toScalar = signerIds.map fun x => (x.toNat : F) := by
  rw [signerIdentifiers_eq_ok] at h
  induction h with
  | nil => rfl
  | cons hid _ ih => rw [List.map_cons, List.map_cons, ih, doc.tryFrom_eq_some_iff.mp hid]

theorem nodup_signerIdentifiers (h : signerIdentifiers signerIds = .ok ids) :
    ids.Nodup ↔ signerIds.Nodup := by
  rw [← List.nodup_map_iff toScalar_injective, map_toScalar_signerIdentifiers doc h]
  exact List.nodup_map_iff fun m n => doc.natCast_injective m n

theorem exists_weightedShare (keyPackage : KeyPackage F G) (failure : LibError) :
    (∃ w, weightedShare failure keyPackage signerIds = .ok w) ↔ 0 ∉ signerIds := by
  rw [← exists_signerIdentifiers doc]
  unfold weightedShare
  constructor
  · rintro ⟨w, h⟩
    obtain ⟨ids, hids, -⟩ := bind_eq_ok.mp h
    exact ⟨ids, hids⟩
  · rintro ⟨ids, hids⟩
    obtain ⟨c, hc⟩ := exists_lagrangeCoeff keyPackage.identifier ids
    exact ⟨_, bind_eq_ok.mpr ⟨ids, hids, bind_eq_ok.mpr ⟨c, signerLambda_ok hc, rfl⟩⟩⟩

theorem weightedSums (failure : LibError) (hids : signerIdentifiers signerIds = .ok ids)
    (hnodup : signerIds.Nodup) (henough : coefficients.length ≤ signerIds.length) :
    ∃ share : Identifier F → F,
      (∀ kp : KeyPackage F G, IsShare coefficients kp →
        weightedShare failure kp signerIds = .ok (share kp.identifier)) ∧
      (ids.map share).sum = secretOf coefficients := by
  have hn := (nodup_signerIdentifiers doc hids).mpr hnodup
  rw [(signerIdentifiers_eq_ok.mp hids).length_eq] at henough
  refine ⟨_, fun kp hkp => ?_, sum_weightedShares hn henough⟩
  refine bind_eq_ok.mpr ⟨ids, hids, bind_eq_ok.mpr ⟨_, signerLambda_ok (lagrangeCoeff_ok hn _), ?_⟩⟩
  rw [hkp.share, mul_comm]
  rfl

/-! ## Key images and child keys -/

variable {bundle : KeyShareBundle F G} {data outputsData : Bytes} {account index : UInt32}

omit doc in
theorem keyImagePart1_ok {outputs : List KeyImageOutput} {w : F}
    (hbundle : KeyShareBundle.deserialize lib data = .ok bundle)
    (hw : weightedShare .unknownError bundle.keyPackage signerIds = .ok w)
    (houtputs : decodeOutputs outputsData = .ok outputs) (hne : outputs ≠ []) :
    keyImagePart1 lib data outputsData signerIds =
      .ok (⟨outputs, outputs.map (partialOf lib w)⟩, (outputs.map (partialOf lib w)).flatten) := by
  have hnonempty : ¬ outputs.isEmpty := by
    rw [List.isEmpty_iff]
    exact hne
  exact bind_eq_ok.mpr ⟨_, hbundle, bind_eq_ok.mpr ⟨_, hw, bind_eq_ok.mpr ⟨_, houtputs,
    bind_eq_ok.mpr ⟨(), failIf_eq_ok.mpr hnonempty, rfl⟩⟩⟩⟩

theorem keyImagePart1_succeeds (outputsData : Bytes) (signerIds : List UInt16)
    (hbundle : KeyShareBundle.deserialize lib data = .ok bundle) :
    (∃ result, keyImagePart1 lib data outputsData signerIds = .ok result) ↔
      0 ∉ signerIds ∧ OutputsThere outputsData := by
  rw [← exists_weightedShare doc bundle.keyPackage .unknownError]
  constructor
  · rintro ⟨result, h⟩
    obtain ⟨bundle', hbundle', h⟩ := bind_eq_ok.mp h
    obtain rfl := Except.ok.inj (hbundle.symm.trans hbundle')
    obtain ⟨w, hw, h⟩ := bind_eq_ok.mp h
    obtain ⟨outputs, houtputs, h⟩ := bind_eq_ok.mp h
    obtain ⟨_, hne, -⟩ := bind_eq_ok.mp h
    rw [failIf_eq_ok, List.isEmpty_iff] at hne
    exact ⟨⟨w, hw⟩, outputs, houtputs, hne⟩
  · rintro ⟨⟨w, hw⟩, outputs, houtputs, hne⟩
    exact ⟨_, keyImagePart1_ok hbundle hw houtputs hne⟩

theorem keyImageSafe_iff (hbundle : KeyShareBundle.deserialize lib data = .ok bundle)
    (hshare : IsShare coefficients bundle.keyPackage) :
    KeyImageSafe lib coefficients bundle data outputsData signerIds ↔
      ValidSigners bundle.keyPackage signerIds ∨ 0 ∈ signerIds ∨ ¬ OutputsThere outputsData := by
  have hsucceeds := keyImagePart1_succeeds doc outputsData signerIds hbundle
  constructor
  · intro h
    by_cases hok : 0 ∉ signerIds ∧ OutputsThere outputsData
    · obtain ⟨result, hresult⟩ := hsucceeds.mpr hok
      exact .inl (h result hresult).1
    · rw [not_and_or, not_not] at hok
      exact .inr hok
  · intro h result hresult
    obtain ⟨hzero, outputs, houtputs, hne⟩ := hsucceeds.mp ⟨result, hresult⟩
    rcases h with hvalid | hbad | hbad
    · refine ⟨hvalid, ?_⟩
      obtain ⟨ids, hids⟩ := (exists_signerIdentifiers doc).mpr hzero
      obtain ⟨share, hweighted, hsum⟩ := weightedSums doc (G := G) .unknownError hids hvalid.nodup
        (hshare.threshold ▸ hvalid.enough)
      refine ⟨ids, outputs, share, hids, houtputs, fun data' bundle' hbundle' hshare' _ => ?_, hsum⟩
      exact keyImagePart1_ok hbundle' (hweighted _ hshare') houtputs hne
    · exact absurd hbad hzero
    · exact absurd ⟨outputs, houtputs, hne⟩ hbad

theorem ckdPart1_succeeds (account index : UInt32) (signerIds : List UInt16)
    (hbundle : KeyShareBundle.deserialize lib data = .ok bundle) :
    (∃ result, ckdPart1 lib data account index signerIds = .ok result) ↔ 0 ∉ signerIds := by
  rw [← exists_weightedShare doc bundle.keyPackage .ckdError]
  constructor
  · rintro ⟨⟨state, package⟩, h⟩
    obtain ⟨bundle', w, hbundle', hw, -⟩ := of_ckdPart1 h
    obtain rfl := Except.ok.inj (hbundle.symm.trans hbundle')
    exact ⟨w, hw⟩
  · rintro ⟨w, hw⟩
    exact ⟨_, ckdPart1_ok hbundle hw⟩

theorem ckdSafe_iff (hbundle : KeyShareBundle.deserialize lib data = .ok bundle)
    (hshare : IsShare coefficients bundle.keyPackage) :
    CkdSafe lib coefficients bundle data account index signerIds ↔
      ValidSigners bundle.keyPackage signerIds ∨ 0 ∈ signerIds := by
  have hsucceeds := ckdPart1_succeeds doc account index signerIds hbundle
  constructor
  · intro h
    by_cases hzero : 0 ∈ signerIds
    · exact .inr hzero
    · obtain ⟨result, hresult⟩ := hsucceeds.mpr hzero
      exact .inl (h result hresult).1
  · intro h result hresult
    have hzero := hsucceeds.mp ⟨result, hresult⟩
    rcases h with hvalid | hbad
    · refine ⟨hvalid, ?_⟩
      obtain ⟨ids, hids⟩ := (exists_signerIdentifiers doc).mpr hzero
      obtain ⟨share, hweighted, hsum⟩ := weightedSums doc (G := G) .ckdError hids hvalid.nodup
        (hshare.threshold ▸ hvalid.enough)
      refine ⟨ids, share, hids, fun data' bundle' hbundle' hshare' _ => ?_, hsum⟩
      exact ckdPart1_ok hbundle' (hweighted _ hshare')
    · exact absurd hbad hzero

/-- The additive shares of a resharing and the weighted shares of a key image and of a child key, with
the lists over which they are right. -/
theorem signerLists_safe_iff {oldCoefficients : List F'} {oldKey : KeyPackage F' G'}
    (hold : IsShare oldCoefficients oldKey) (hbundle : KeyShareBundle.deserialize lib data = .ok bundle)
    (hshare : IsShare coefficients bundle.keyPackage) :
    (∀ oldIds maxSigners, AdditiveSafe oldCoefficients oldKey oldIds maxSigners ↔
      (ValidIds oldKey oldIds ∧ oldIds.length ≤ maxSigners.toNat) ∨ oldIds = [] ∨
        maxSigners < .ofNat oldIds.length) ∧
    (∀ outputsData signerIds, KeyImageSafe lib coefficients bundle data outputsData signerIds ↔
      ValidSigners bundle.keyPackage signerIds ∨ 0 ∈ signerIds ∨ ¬ OutputsThere outputsData) ∧
    ∀ account index signerIds, CkdSafe lib coefficients bundle data account index signerIds ↔
      ValidSigners bundle.keyPackage signerIds ∨ 0 ∈ signerIds :=
  ⟨fun _ _ => additiveSafe_iff hold, fun _ _ => keyImageSafe_iff doc hbundle hshare,
    fun _ _ _ => ckdSafe_iff doc hbundle hshare⟩

end Signers

/-! ## Lists that are taken -/

open Reference

theorem isShare_sampleKey (id : Identifier Scalar) : IsShare [5, 1] (sampleKey id) where
  threshold := rfl
  share := by simp [sampleKey, Shamir.evalPoly]

theorem isShare_sampleDeal : IsShare [9, 12] (sampleDeal.key 1) where
  threshold := by decide +kernel
  share := by decide +kernel

/-- With the right lists, and with a list in which a participant appears twice. -/
theorem signerLists_safe_sample :
    AdditiveSafe [5, 1] (sampleKey ⟨1, by decide⟩) [⟨1, by decide⟩, ⟨2, by decide⟩] 3 ∧
    ∃ bundle, KeyShareBundle.deserialize fromt (sampleData 1) = .ok bundle ∧
      CkdSafe fromt [9, 12] bundle (sampleData 1) 0 7 [1, 3] ∧
      ¬ CkdSafe fromt [9, 12] bundle (sampleData 1) 0 7 [1, 1] := by
  obtain ⟨bundle, hbundle, hkey⟩ := holdsShares_sample 1 (by decide)
  have hshare : IsShare [9, 12] bundle.keyPackage := by
    rw [hkey]
    exact isShare_sampleDeal
  obtain ⟨hadditive, -, hckd⟩ := signerLists_safe_iff documented
    (isShare_sampleKey ⟨1, by decide⟩) hbundle hshare
  refine ⟨(hadditive _ _).mpr (.inl ⟨⟨by decide +kernel, by decide +kernel, by decide⟩, by decide⟩),
    bundle, hbundle, (hckd _ _ _).mpr (.inl ⟨by decide, ⟨1, by decide, ?_⟩, ?_⟩), ?_⟩
  · rw [hkey]
    decide +kernel
  · rw [hkey]
    decide +kernel
  · rw [hckd]
    rintro (hvalid | hzero)
    · exact absurd hvalid.nodup (by decide)
    · exact absurd hzero (by decide)

/-- Participant 1, named twice, is refused by nothing. -/
theorem repeated_is_taken :
    computeAdditiveShare (sampleKey ⟨1, by decide⟩) [⟨1, by decide⟩, ⟨1, by decide⟩] 3 = .ok 5 ∧
    ¬ ValidIds (sampleKey ⟨1, by decide⟩) [⟨1, by decide⟩, ⟨1, by decide⟩] := by
  refine ⟨by decide +kernel, fun h => ?_⟩
  exact absurd h.nodup (by decide +kernel)

end SignerLists
