import FrostZm.Ceremony.Resharing
import FrostZm.Fromt.KeyShare

/-!
# Weighted shares of a signer list

Key images and child keys start alike: a signer weights its share for the list of signers,
so that the weighted shares of all of them add up to the group's secret.
-/

set_option linter.unusedSectionVars false

variable {F G P Rng : Type} [Field F] [DecidableEq F] [Ord F] [Std.TransOrd F] [Std.LawfulEqOrd F]
  [AddCommGroup G] [Module F G] [AddCommGroup P]

open Ceremony

namespace Fromt

def signerIdentifiers (signerIds : List UInt16) : Result (List (Identifier F)) :=
  signerIds.mapM fun id => okOr .invalidIdentifier (Identifier.tryFrom id)

/-- The coefficient as `key_image_part1` and `ckd_part1` compute it; they differ in the code
of a denominator that has no inverse. -/
def signerLambda (failure : LibError) (myId : Identifier F) (allIds : List (Identifier F)) :
    Result F := do
  let (num, den) := allIds.foldl (lagrangeStep myId) (1, 1)
  let denInv ← okOr failure (invert den)
  return num * denInv

def weightedShare (failure : LibError) (keyPackage : KeyPackage F G) (signerIds : List UInt16) :
    Result F := do
  let allIds ← signerIdentifiers signerIds
  let lambda ← signerLambda failure keyPackage.identifier allIds
  return lambda * keyPackage.signingShare

/-- The stored bundles of a deal's participants hold their keys. -/
def HoldsShares (lib : FromtLib F G P Rng) {maxSigners minSigners : UInt16}
    (deal : Deal lib.toFrostCore maxSigners minSigners) (data : UInt16 → Bytes) : Prop :=
  ∀ p ∈ deal.ids, ∃ bundle, KeyShareBundle.deserialize lib (data p) = .ok bundle ∧
    bundle.keyPackage = deal.key p

variable {lib : FromtLib F G P Rng} {maxSigners minSigners : UInt16}
  {deal : Deal lib.toFrostCore maxSigners minSigners} {signers : List UInt16}

theorem signerIdentifiers_ok {ident : UInt16 → Identifier F} {l : List UInt16}
    (h : ∀ p ∈ l, Identifier.tryFrom p = some (ident p)) :
    signerIdentifiers l = .ok (l.map ident) := by
  refine mapM_ok fun p hp => ?_
  rw [h p hp, okOr_some]

theorem signerLambda_ok {failure : LibError} {myId : Identifier F} {allIds : List (Identifier F)}
    {c : F} (h : lagrangeCoeff myId allIds = .ok c) : signerLambda failure myId allIds = .ok c := by
  unfold lagrangeCoeff at h
  obtain ⟨denInv, hinv, h⟩ := bind_eq_ok.mp h
  refine bind_eq_ok.mpr ⟨denInv, ?_, h⟩
  rw [okOr_eq_ok] at hinv ⊢
  exact hinv

theorem exists_weights (doc : lib.toFrostCore.Documented) (hsub : signers ⊆ deal.ids)
    (hnodup : signers.Nodup) (hmin : minSigners.toNat ≤ signers.length) :
    ∃ weight : UInt16 → F,
      (∀ failure, ∀ p ∈ signers, weightedShare failure (deal.key p) signers =
        .ok (weight p * (deal.key p).signingShare)) ∧
      (signers.map fun p => weight p * (deal.key p).signingShare).sum = deal.groupSecret := by
  obtain ⟨coeff, hcoeff, hsum⟩ := Resharing.interpolate_deal doc hsub hnodup hmin
  refine ⟨coeff, ?_, ?_⟩
  · intro failure p hp
    have hids := signerIdentifiers_ok fun s hs => deal.tryFrom s (hsub hs)
    exact bind_eq_ok.mpr ⟨_, hids, bind_eq_ok.mpr ⟨_, signerLambda_ok (hcoeff p hp), rfl⟩⟩
  · rw [← hsum]
    refine congrArg List.sum (List.map_congr_left fun p _ => ?_)
    exact mul_comm _ _

theorem sum_erase {A : Type} [AddCommMonoid A] {p : UInt16} (hp : p ∈ signers) (f : UInt16 → A) :
    f p + ((signers.erase p).map f).sum = (signers.map f).sum := by
  rw [← List.sum_cons, ← List.map_cons]
  exact ((List.perm_cons_erase hp).map f).sum_eq.symm

end Fromt
