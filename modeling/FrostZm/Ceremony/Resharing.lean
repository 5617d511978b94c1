import FrostZm.Ceremony.Exchange
import FrostZm.Ceremony.Reshare
import FrostZm.Frost.ReferenceKeys

/-!
# Resharing keeps the secret

The old participants' contributions are their shares, weighted so that they add up to the
secret; the smallest of them takes off the ones that the joining participants add.
-/

open Polynomial

set_option linter.unusedSectionVars false

variable {F G Rng : Type} [Field F] [DecidableEq F] [Ord F] [Std.TransOrd F] [Std.LawfulEqOrd F]
  [AddCommGroup G] [Module F G]

namespace Ceremony

/-- A resharing of the secret `f.eval 0` among `maxSigners` new participants. `role` gives
the old key package of an old participant and nothing for a joining one. -/
structure Resharing (F G : Type) [Field F] (f : F[X]) (maxSigners : UInt16) where
  ids : List UInt16
  nodup : ids.Nodup
  length : ids.length = maxSigners.toNat
  role : UInt16 → Option (KeyPackage F G)
  oldIds : List (Identifier F)
  oldNodup : oldIds.Nodup
  oldThreshold : ℕ
  thresholdPos : 0 < oldThreshold
  degree : f.degree < oldThreshold
  enough : oldThreshold ≤ oldIds.length
  oldPerm : ((ids.filterMap role).map KeyPackage.identifier).Perm oldIds
  oldShare : ∀ kp ∈ ids.filterMap role, kp.signingShare = f.eval kp.identifier.toScalar

namespace Resharing

variable {f : F[X]} {maxSigners minSigners : UInt16} (r : Resharing F G f maxSigners)

/-- What a participant contributes as its constant term. -/
def additiveShare (p : UInt16) : Result F :=
  match r.role p with
  | some kp => computeAdditiveShare kp r.oldIds maxSigners
  | none => .ok 1

/-- The points of the old participants. -/
def oldPoints : Finset F := (r.oldIds.map Identifier.toScalar).toFinset

/-- The value of an additive share, when `least` is the smallest old identifier. -/
def oldTerm (least id : Identifier F) : F :=
  f.eval id.toScalar * Shamir.weight r.oldPoints id.toScalar +
    if id = least then -((maxSigners.toNat - r.oldIds.length : ℕ) : F) else 0

theorem foldl_min_mem (ids : List (Identifier F)) (m : Identifier F) :
    ids.foldl (fun m x => if compare x m = .lt then x else m) m ∈ m :: ids := by
  induction ids generalizing m with
  | nil => exact List.mem_cons_self
  | cons x ids ih =>
    rw [List.foldl_cons]
    rcases List.mem_cons.mp (ih (if compare x m = .lt then x else m)) with h | h
    · rw [h]
      split
      · exact List.mem_cons_of_mem _ List.mem_cons_self
      · exact List.mem_cons_self
    · exact List.mem_cons_of_mem _ (List.mem_cons_of_mem _ h)

theorem exists_minIdentifier {ids : List (Identifier F)} (h : ids ≠ []) :
    ∃ m ∈ ids, minIdentifier ids = some m := by
  obtain ⟨id, ids, rfl⟩ := List.exists_cons_of_ne_nil h
  exact ⟨_, foldl_min_mem ids id, rfl⟩

variable {r}

theorem length_oldIds_le : r.oldIds.length ≤ maxSigners.toNat := by
  rw [← r.oldPerm.length_eq, List.length_map, ← r.length]
  exact List.length_filterMap_le _ _

theorem oldIds_ne_nil (r : Resharing F G f maxSigners) : r.oldIds ≠ [] :=
  List.ne_nil_of_length_pos (r.thresholdPos.trans_le r.enough)

theorem exists_old (r : Resharing F G f n) : ∃ p ∈ r.ids, ∃ kp, r.role p = some kp := by
  have hne : r.ids.filterMap r.role ≠ [] := by
    intro hnil
    have hlen := r.oldPerm.length_eq
    rw [hnil] at hlen
    exact r.oldIds_ne_nil (List.eq_nil_of_length_eq_zero hlen.symm)
  obtain ⟨kp, hkp⟩ := List.exists_mem_of_ne_nil _ hne
  obtain ⟨p, hp, hrole⟩ := List.mem_filterMap.mp hkp
  exact ⟨p, hp, kp, hrole⟩

theorem computeAdditiveShare_ok {least : Identifier F} (hleast : minIdentifier r.oldIds = some least)
    {kp : KeyPackage F G} (hkp : kp ∈ r.ids.filterMap r.role) :
    computeAdditiveShare kp r.oldIds maxSigners = .ok (r.oldTerm least kp.identifier) := by
  have hlen : (UInt16.ofNat r.oldIds.length).toNat = r.oldIds.length := by
    have hle : r.oldIds.length ≤ maxSigners.toNat := length_oldIds_le
    have hlt := maxSigners.toNat_lt
    rw [UInt16.toNat_ofNat']
    exact Nat.mod_eq_of_lt (by omega)
  have hle : UInt16.ofNat r.oldIds.length ≤ maxSigners := by
    rw [UInt16.le_iff_toNat_le, hlen]
    exact length_oldIds_le
  have hsub : (maxSigners - UInt16.ofNat r.oldIds.length).toNat =
      maxSigners.toNat - r.oldIds.length := by
    rw [UInt16.toNat_sub_of_le _ _ hle, hlen]
  unfold computeAdditiveShare
  rw [if_neg (UInt16.not_lt.mpr hle), lagrangeCoeff_ok r.oldNodup, hleast]
  refine congrArg Except.ok ?_
  rw [oldTerm, oldPoints, r.oldShare kp hkp, hsub]
  split
  · rw [subOnes_eq, sub_eq_add_neg]
  · rw [add_zero]

theorem additiveShare_ok {least : Identifier F} (hleast : minIdentifier r.oldIds = some least)
    {p : UInt16} (hp : p ∈ r.ids) :
    r.additiveShare p = .ok ((r.role p).elim 1 fun kp => r.oldTerm least kp.identifier) := by
  unfold additiveShare
  cases h : r.role p with
  | none => rfl
  | some kp => exact computeAdditiveShare_ok hleast (List.mem_filterMap.mpr ⟨p, hp, h⟩)

/-! ## The sum of the constant terms -/

theorem sum_role {α β : Type} (l : List α) (role : α → Option β) (term : β → F) :
    (l.map fun p => (role p).elim 1 term).sum =
      ((l.filterMap role).map term).sum + ((l.length - (l.filterMap role).length : ℕ) : F) := by
  induction l with
  | nil => simp
  | cons p l ih =>
    have hle : (l.filterMap role).length ≤ l.length := List.length_filterMap_le _ _
    rw [List.map_cons, List.sum_cons, ih, List.filterMap_cons]
    cases h : role p with
    | none =>
      simp only [List.length_cons, Option.elim_none]
      rw [Nat.succ_sub hle, Nat.cast_succ]
      ring
    | some k =>
      simp only [List.map_cons, List.sum_cons, List.length_cons, Option.elim_some]
      rw [Nat.add_sub_add_right]
      ring

theorem sum_weighted {ids : List (Identifier F)} (hn : ids.Nodup) {q : F[X]}
    (hdeg : q.degree < ids.length) :
    (ids.map fun id => q.eval id.toScalar *
      Shamir.weight (ids.map Identifier.toScalar).toFinset id.toScalar).sum = q.eval 0 := by
  have hnodup := hn.map toScalar_injective
  have hcard : (ids.map Identifier.toScalar).toFinset.card = ids.length := by
    rw [List.toFinset_card_of_nodup hnodup, List.length_map]
  rw [← Shamir.sum_weight_mul_eval (hcard ▸ hdeg), List.sum_toFinset _ hnodup, List.map_map]
  rfl

theorem sum_least {ids : List (Identifier F)} (hn : ids.Nodup) {least : Identifier F}
    (hmem : least ∈ ids) (c : F) : (ids.map fun id => if id = least then c else 0).sum = c := by
  rw [List.sum_map_ite_eq, List.count_eq_one_of_mem hn hmem]
  simp

theorem sum_oldTerm {least : Identifier F} (hmem : least ∈ r.oldIds) :
    ((r.ids.filterMap r.role).map fun kp => r.oldTerm least kp.identifier).sum =
      f.eval 0 - ((maxSigners.toNat - r.oldIds.length : ℕ) : F) := by
  have hdeg : f.degree < r.oldIds.length :=
    r.degree.trans_le (by exact_mod_cast r.enough)
  have hperm := (r.oldPerm.map (r.oldTerm least)).sum_eq
  rw [List.map_map] at hperm
  refine hperm.trans ?_
  unfold oldTerm
  rw [List.sum_map_add, sum_least r.oldNodup hmem, sub_eq_add_neg]
  exact congrArg (· + _) (sum_weighted r.oldNodup hdeg)

theorem sum_additiveShare {share : UInt16 → F}
    (hshare : ∀ p ∈ r.ids, r.additiveShare p = .ok (share p)) :
    (r.ids.map share).sum = f.eval 0 := by
  obtain ⟨least, hmem, hleast⟩ := exists_minIdentifier r.oldIds_ne_nil
  have hval : ∀ p ∈ r.ids,
      share p = (r.role p).elim 1 fun kp => r.oldTerm least kp.identifier := by
    intro p hp
    have h := hshare p hp
    rw [additiveShare_ok hleast hp] at h
    exact (Except.ok.inj h).symm
  have hcount : (r.ids.filterMap r.role).length = r.oldIds.length := by
    rw [← r.oldPerm.length_eq, List.length_map]
  rw [List.map_congr_left hval, sum_role r.ids r.role fun kp => r.oldTerm least kp.identifier,
    sum_oldTerm hmem, hcount, r.length]
  ring

/-! ## The new key -/

theorem interpolate_points {ident : UInt16 → Identifier F} {quorum : List UInt16}
    (hn : (quorum.map ident).Nodup) {q : F[X]} (hdeg : q.degree < quorum.length) :
    ∃ coeff : UInt16 → F,
      (∀ p ∈ quorum, lagrangeCoeff (ident p) (quorum.map ident) = .ok (coeff p)) ∧
      (quorum.map fun p => q.eval (ident p).toScalar * coeff p).sum = q.eval 0 := by
  refine ⟨_, fun p _ => lagrangeCoeff_ok hn (ident p), ?_⟩
  have hsum := sum_weighted hn (q := q) (by rwa [List.length_map])
  rwa [List.map_map] at hsum

theorem nodup_idents {core : FrostCore F G Rng} (doc : core.Documented)
    {deal : Deal core maxSigners minSigners} {quorum : List UInt16} (hsub : quorum ⊆ deal.ids)
    (hn : quorum.Nodup) : (quorum.map deal.ident).Nodup :=
  hn.map_on fun x hx y hy => Deal.ident_injective doc x (hsub hx) y (hsub hy)

theorem interpolate_deal {core : FrostCore F G Rng} (doc : core.Documented)
    {deal : Deal core maxSigners minSigners} {quorum : List UInt16} (hsub : quorum ⊆ deal.ids)
    (hn : quorum.Nodup) (hmin : minSigners.toNat ≤ quorum.length) :
    ∃ coeff : UInt16 → F,
      (∀ p ∈ quorum, lagrangeCoeff (deal.ident p) (quorum.map deal.ident) = .ok (coeff p)) ∧
      (quorum.map fun p => (deal.key p).signingShare * coeff p).sum = deal.groupSecret := by
  have hdeg : deal.groupPoly.degree < quorum.length :=
    Deal.groupPoly_degree_lt.trans_le (by exact_mod_cast hmin)
  obtain ⟨coeff, hcoeff, hsum⟩ := interpolate_points (nodup_idents doc hsub hn) hdeg
  refine ⟨coeff, hcoeff, ?_⟩
  rw [← Deal.groupPoly_eval_zero, ← hsum]
  refine congrArg List.sum (List.map_congr_left fun p hp => ?_)
  rw [Deal.key_signingShare doc (hsub hp)]

/-- No contribution has a zero coefficient: neither a weighted share nor a drawn one. -/
structure NonZero (r : Resharing F G f maxSigners) (core : FrostCore F G Rng) (minSigners : UInt16)
    (rng : UInt16 → Rng) : Prop where
  share : ∀ p ∈ r.ids, r.additiveShare p ≠ .ok 0
  drawn : ∀ p ∈ r.ids, ∀ c ∈ (drawScalars core (minSigners.toNat - 1) (rng p)).1, c ≠ 0

theorem exists_deal {core : FrostCore F G Rng} (doc : core.Documented) (hmin : minSigners ≠ 0)
    (hids : ∀ p ∈ r.ids, p ≠ 0) {rng : UInt16 → Rng} (hnonzero : r.NonZero core minSigners rng) :
    ∃ (deal : Deal core maxSigners minSigners) (share : UInt16 → F) (bytes : UInt16 → Bytes),
      deal.ids = r.ids ∧ deal.groupSecret = f.eval 0 ∧
      (∀ p ∈ r.ids, r.additiveShare p = .ok (share p)) ∧
      (∀ p ∈ r.ids, resharePart1 core p maxSigners minSigners (share p) (rng p) =
        .ok (deal.secret p, bytes p)) ∧
      ∀ p ∈ deal.ids, core.serializeRound1 (deal.package p) = some (bytes p) := by
  obtain ⟨least, -, hleast⟩ := exists_minIdentifier r.oldIds_ne_nil
  have hshare := fun p (hp : p ∈ r.ids) => additiveShare_ok hleast hp
  set share : UInt16 → F := fun p => (r.role p).elim 1 fun kp => r.oldTerm least kp.identifier
  have hpart1 : ∀ p ∈ r.ids, ∃ out,
      resharePart1 core p maxSigners minSigners (share p) (rng p) = .ok out := by
    intro p hp
    refine (constantPart1_isOk_iff doc (hids p hp)).mpr fun c hc => ?_
    rcases List.mem_cons.mp hc with rfl | hc
    · intro hzero
      exact hnonzero.share p hp (hzero ▸ hshare p hp)
    · exact hnonzero.drawn p hp c hc
  choose! out hout using hpart1
  obtain ⟨deal, hdeal, hsecret, hparts⟩ := Ceremony.exists_deal doc hmin r.nodup r.length hout
  refine ⟨deal, share, fun p => (out p).2, hdeal, ?_, hshare, ?_, ?_⟩
  · rw [← sum_additiveShare hshare, Deal.groupSecret, hdeal]
    exact congrArg List.sum (List.map_congr_left fun p hp => (hparts p hp).2)
  · rw [hsecret]
    exact hout
  · rw [hdeal]
    exact fun p hp => (hparts p hp).1

end Resharing

/-- The constant terms of a resharing without zeros add up to the old secret, so all rounds succeed,
everyone accepts the old verifying key, and the new shares give the old secret back. -/
theorem resharing_preserves_secret {core : FrostCore F G Rng} (doc : core.Documented)
    (short : core.ShortPackages) {f : F[X]} {maxSigners minSigners : UInt16} (hmin : minSigners ≠ 0)
    (r : Resharing F G f maxSigners) (hids : ∀ p ∈ r.ids, p ≠ 0) (hsecret : f.eval 0 ≠ 0)
    {rng : UInt16 → Rng} (hnonzero : r.NonZero core minSigners rng) :
    ∃ (ident : UInt16 → Identifier F) (share : UInt16 → F) (vk : Bytes)
      (secret1 : UInt16 → Round1SecretPackage F G) (bytes1 : UInt16 → Bytes)
      (secret2 : UInt16 → Round2SecretPackage F G) (bytes2 : UInt16 → UInt16 → Bytes)
      (key : UInt16 → KeyPackage F G) (pub : UInt16 → PublicKeyPackage F G),
      core.serializeVerifyingKey (f.eval 0 • core.generator) = some vk ∧
      (r.ids.map share).sum = f.eval 0 ∧
      (∀ p ∈ r.ids, Identifier.tryFrom p = some (ident p) ∧ r.additiveShare p = .ok (share p) ∧
        resharePart1 core p maxSigners minSigners (share p) (rng p) =
          .ok (secret1 p, bytes1 p)) ∧
      (∀ p ∈ r.ids, ∀ order : List UInt16, order.Perm (r.ids.erase p) →
        ∃ order' : List UInt16, order'.Perm (r.ids.erase p) ∧
          dkgPart2 core (secret1 p) (roundData core ident bytes1 order) =
            .ok (secret2 p, roundData core ident (bytes2 p) order')) ∧
      (∀ p ∈ r.ids, ∀ order₁ order₂ : List UInt16, order₁.Perm (r.ids.erase p) →
        order₂.Perm (r.ids.erase p) →
        resharePart3 core (secret2 p) (roundData core ident bytes1 order₁)
          (roundData core ident (fun s => bytes2 s p) order₂) vk = .ok (key p, pub p)) ∧
      ∀ quorum ⊆ r.ids, quorum.Nodup → minSigners.toNat ≤ quorum.length →
        ∃ coeff : UInt16 → F,
          (∀ p ∈ quorum, lagrangeCoeff (ident p) (quorum.map ident) = .ok (coeff p)) ∧
          (quorum.map fun p => (key p).signingShare * coeff p).sum = f.eval 0 := by
  obtain ⟨deal, share, bytes, hdeal, hgroup, hshare, hpart1, hbytes⟩ :=
    Resharing.exists_deal doc hmin hids hnonzero
  obtain ⟨vk, hvk⟩ := (doc.verifyingKey_ok_iff (f.eval 0 • core.generator)).mpr
    (smul_ne_zero hsecret doc.generator_ne_zero)
  refine ⟨deal.ident, share, vk, deal.secret, bytes, deal.secret2, deal.round2Bytes, deal.key,
    deal.publicKey, hvk, Resharing.sum_additiveShare hshare, ?_, ?_, ?_, ?_⟩
  · intro p hp
    exact ⟨deal.tryFrom p (hdeal ▸ hp), hshare p hp, hpart1 p hp⟩
  · rw [← hdeal]
    intro p hp order horder
    exact Deal.dkgPart2_ok hbytes doc short hp horder
  · rw [← hdeal]
    intro p hp order₁ order₂ horder₁ horder₂
    exact Deal.checkedPart3_ok hbytes doc short hmin hp horder₁ horder₂ (hgroup ▸ hvk)
  · rw [← hdeal, ← hgroup]
    intro quorum hsub hn hq
    exact Resharing.interpolate_deal doc hsub hn hq

section Samples

open Reference

def sampleKey (id : Identifier Scalar) : KeyPackage Scalar Scalar where
  identifier := id
  signingShare := 5 + id.toScalar
  verifyingShare := 5 + id.toScalar
  verifyingKey := 5
  minSigners := 2

/-- Parties 1 and 2 of a key with the secret 5 are joined by party 3. -/
def sampleResharing : Resharing Scalar Scalar (C 5 + X) 3 where
  ids := [1, 2, 3]
  nodup := Reference.nodup_sampleIds
  length := Reference.length_sampleIds
  role p := if p = 3 then none else (Identifier.tryFrom p).map sampleKey
  oldIds := [⟨1, by decide⟩, ⟨2, by decide⟩]
  oldNodup := by decide
  oldThreshold := 2
  thresholdPos := by decide
  degree := by
    rw [add_comm, degree_X_add_C]
    exact_mod_cast one_lt_two
  enough := le_refl 2
  oldPerm := by decide
  oldShare := by
    intro kp hkp
    obtain ⟨p, -, hp⟩ := List.mem_filterMap.mp hkp
    split at hp
    · simp at hp
    · obtain ⟨id, -, rfl⟩ := Option.map_eq_some_iff.mp hp
      simp [sampleKey]

theorem sampleResharing_nonZero : sampleResharing.NonZero core 2 UInt16.toNat where
  share := by
    have hall : (sampleResharing.ids.all fun p =>
        (sampleResharing.additiveShare p).toOption ≠ some 0) = true := by decide +kernel
    intro p hp hzero
    have hne := of_decide_eq_true (List.all_eq_true.mp hall p hp)
    rw [hzero] at hne
    exact hne rfl
  drawn := by
    intro p _ c hc
    obtain rfl := List.mem_singleton.mp hc
    exact random_ne_zero _

/-- All rounds of the three, and a quorum with the party that has joined. -/
theorem sampleResharing_preserves_secret :
    ∃ (ident : UInt16 → Identifier Scalar) (share : UInt16 → Scalar) (vk : Bytes)
      (secret1 : UInt16 → Round1SecretPackage Scalar Scalar) (bytes1 : UInt16 → Bytes)
      (secret2 : UInt16 → Round2SecretPackage Scalar Scalar) (bytes2 : UInt16 → UInt16 → Bytes)
      (key : UInt16 → KeyPackage Scalar Scalar) (pub : UInt16 → PublicKeyPackage Scalar Scalar),
      serializeVerifyingKey 5 = some vk ∧
      (∀ p ∈ [1, 2, 3], sampleResharing.additiveShare p = .ok (share p) ∧
        resharePart1 core p 3 2 (share p) p.toNat = .ok (secret1 p, bytes1 p) ∧
        (∃ order, dkgPart2 core (secret1 p) (roundData core ident bytes1 ([1, 2, 3].erase p)) =
          .ok (secret2 p, roundData core ident (bytes2 p) order)) ∧
        resharePart3 core (secret2 p) (roundData core ident bytes1 ([1, 2, 3].erase p))
          (roundData core ident (fun s => bytes2 s p) ([1, 2, 3].erase p)) vk =
            .ok (key p, pub p)) ∧
      ∃ coeff : UInt16 → Scalar,
        (∀ p ∈ [1, 3], lagrangeCoeff (ident p) ([1, 3].map ident) = .ok (coeff p)) ∧
        ([1, 3].map fun p => (key p).signingShare * coeff p).sum = 5 := by
  have heval : (C (5 : Scalar) + X).eval 0 = 5 := by simp
  obtain ⟨ident, share, vk, secret1, bytes1, secret2, bytes2, key, pub, hvk, -, h1, h2, h3,
      hquorum⟩ := resharing_preserves_secret documented keys_encodesKeys.toShort
    (show (2 : UInt16) ≠ 0 by decide) sampleResharing
    (show ∀ p ∈ ([1, 2, 3] : List UInt16), p ≠ 0 by simp) (by rw [heval]; decide)
    sampleResharing_nonZero
  rw [heval] at hvk hquorum
  refine ⟨ident, share, vk, secret1, bytes1, secret2, bytes2, key, pub, ?_, fun p hp => ?_,
    hquorum [1, 3] (by decide) (by decide) (by decide)⟩
  · simpa [core] using hvk
  · obtain ⟨-, hshare, hpart1⟩ := h1 p hp
    obtain ⟨order, -, hpart2⟩ := h2 p hp _ (.refl _)
    exact ⟨hshare, hpart1, ⟨order, hpart2⟩, h3 p hp _ _ (.refl _) (.refl _)⟩

def zeroShareKey (id : Identifier Scalar) : KeyPackage Scalar Scalar where
  identifier := id
  signingShare := -1 + id.toScalar
  verifyingShare := -1 + id.toScalar
  verifyingKey := -1
  minSigners := 2

/-- Parties 1 and 2 of a key of which party 1 has the share 0. -/
def zeroShareResharing : Resharing Scalar Scalar (C (-1) + X) 2 where
  ids := [1, 2]
  nodup := by decide
  length := rfl
  role p := (Identifier.tryFrom p).map zeroShareKey
  oldIds := [⟨1, by decide⟩, ⟨2, by decide⟩]
  oldNodup := by decide
  oldThreshold := 2
  thresholdPos := by decide
  degree := by
    rw [add_comm, degree_X_add_C]
    exact_mod_cast one_lt_two
  enough := le_refl 2
  oldPerm := by decide
  oldShare := by
    intro kp hkp
    obtain ⟨p, -, hp⟩ := List.mem_filterMap.mp hkp
    obtain ⟨id, -, rfl⟩ := Option.map_eq_some_iff.mp hp
    simp [zeroShareKey]

/-- The secret is not zero, but party 1 cannot contribute its share. -/
theorem resharing_refuses_zeroShare :
    (C (-1 : Scalar) + X).eval 0 ≠ 0 ∧ zeroShareResharing.additiveShare 1 = .ok 0 ∧
      ∀ rng, ¬ ∃ out, resharePart1 core 1 2 2 0 rng = .ok out := by
  refine ⟨?_, by decide +kernel, fun rng hout => ?_⟩
  · rw [eval_add, eval_C, eval_X, add_zero]
    decide
  · exact (constantPart1_isOk_iff documented (by decide)).mp hout 0 List.mem_cons_self rfl

end Samples

end Ceremony
