import FrostZm.Fromt.Ckd
import FrostZm.Fromt.Reference
import FrostZm.Lib.FieldTerms

/-!
# Child keys of honest signers, and what their packages tell

Any quorum derives the same tweak, and the shares moved by it are shares of the moved
secret. But a package is the signer's share times a public scalar.
-/

set_option linter.unusedSectionVars false

variable {F G P Rng : Type} [Field F] [DecidableEq F] [Ord F] [Std.TransOrd F] [Std.LawfulEqOrd F]
  [AddCommGroup G] [Module F G] [AddCommGroup P]

open Ceremony Polynomial

namespace Fromt

variable {lib : FromtLib F G P Rng} {maxSigners minSigners : UInt16}
  {deal : Deal lib.toFrostCore maxSigners minSigners}

theorem interpolate_moved (doc : lib.toFrostCore.Documented) (hmin : minSigners ≠ 0) (c : F)
    {quorum : List UInt16} (hsub : quorum ⊆ deal.ids) (hn : quorum.Nodup)
    (hquorum : minSigners.toNat ≤ quorum.length) :
    ∃ coeff : UInt16 → F,
      (∀ p ∈ quorum, lagrangeCoeff (deal.ident p) (quorum.map deal.ident) = .ok (coeff p)) ∧
      (quorum.map fun p => ((deal.key p).signingShare + c) * coeff p).sum =
        deal.groupSecret + c := by
  have hpos : 0 < quorum.length := by
    have hne : minSigners.toNat ≠ 0 := fun h => hmin (UInt16.toNat_inj.mp h)
    omega
  have hdeg : (deal.groupPoly + C c).degree < quorum.length := by
    apply (degree_add_le _ _).trans_lt
    apply max_lt
    · exact Deal.groupPoly_degree_lt.trans_le (by exact_mod_cast hquorum)
    · exact degree_C_le.trans_lt (by exact_mod_cast hpos)
  obtain ⟨coeff, hcoeff, hsum⟩ :=
    Resharing.interpolate_points (Resharing.nodup_idents doc hsub hn) hdeg
  refine ⟨coeff, hcoeff, ?_⟩
  rw [eval_add, eval_C, Deal.groupPoly_eval_zero] at hsum
  rw [← hsum]
  refine congrArg List.sum (List.map_congr_left fun p hp => ?_)
  rw [Deal.key_signingShare doc (hsub hp), eval_add, eval_C]

/-- Whichever quorum derives a child key, and in whatever order the packages arrive, every
signer returns its share moved by one tweak, the hash of the secret times the path scalar;
and the moved shares are shares of the moved secret. -/
theorem childKeys_of_quorum (doc : lib.Documented) (hmin : minSigners ≠ 0)
    (deal : Deal lib.toFrostCore maxSigners minSigners) {data : UInt16 → Bytes}
    (hdata : HoldsShares lib deal data) (account index : UInt32) :
    let path := lib.fromBytesModOrder
      (lib.keccak256 (ascii "fromt/ckd" ++ u32ToLeBytes account ++ u32ToLeBytes index))
    let tweak := lib.fromBytesModOrder (lib.keccak256
      (lib.serializeScalar (deal.groupSecret * path) ++ u32ToLeBytes account ++ u32ToLeBytes index))
    (∀ signers ⊆ deal.ids, signers.Nodup → minSigners.toNat ≤ signers.length →
      ∃ package : UInt16 → Bytes, ∀ p ∈ signers, ∃ state,
        ckdPart1 lib (data p) account index signers = .ok (state, package p) ∧
        ∀ order : List UInt16, order.Perm (signers.erase p) →
          ckdPart2 lib state (order.map fun s => (s, package s)) =
            .ok (lib.serializeScalar ((deal.key p).signingShare + tweak))) ∧
    ∀ quorum ⊆ deal.ids, quorum.Nodup → minSigners.toNat ≤ quorum.length →
      ∃ coeff : UInt16 → F,
        (∀ p ∈ quorum, lagrangeCoeff (deal.ident p) (quorum.map deal.ident) = .ok (coeff p)) ∧
        (quorum.map fun p => ((deal.key p).signingShare + tweak) * coeff p).sum =
          deal.groupSecret + tweak := by
  intro path tweak
  constructor
  · intro signers hsub hn hquorum
    obtain ⟨weight, hweight, hsum⟩ := exists_weights doc.toCore hsub hn hquorum
    let h := derivePathPoint lib account index
    let part : UInt16 → F := fun p => weight p * (deal.key p).signingShare * h
    refine ⟨fun p => lib.serializeScalar (part p), fun p hp => ?_⟩
    obtain ⟨bundle, hbundle, hkey⟩ := hdata p (hsub hp)
    have hshare : weightedShare .ckdError bundle.keyPackage signers =
        .ok (weight p * (deal.key p).signingShare) := by
      rw [hkey]
      exact hweight .ckdError p hp
    refine ⟨_, ckdPart1_ok hbundle hshare, fun order horder => ?_⟩
    have htotal : part p + (order.map part).sum = deal.groupSecret * h := by
      rw [(horder.map part).sum_eq, sum_erase hp part, ← hsum, List.sum_map_mul_right]
    have hfold := foldlM_addScalar doc part order (part p)
    rw [htotal] at hfold
    unfold ckdPart2
    refine bind_eq_ok.mpr ⟨bundle, hbundle, bind_eq_ok.mpr ⟨_, hfold, ?_⟩⟩
    rw [hkey]
    rfl
  · intro quorum hsub hn hquorum
    exact interpolate_moved doc.toCore hmin tweak hsub hn hquorum

/-! ## What the packages tell -/

/-- What everyone sees of a derivation. -/
inductive CkdPublic where
  | id (s : UInt16)
  | path
  | package (s : UInt16)

/-- The public values of a derivation with these packages. Only the ids of the list are
among them. -/
def ckdPublic (signers : List UInt16) (path : F) (packages : UInt16 → F) : CkdPublic → F
  | .id s => if s ∈ signers then (s.toNat : F) else 0
  | .path => path
  | .package s => packages s

variable (lib) in
/-- The term gives `p`'s share back from its package, whatever the share is. -/
def RecoversShare (account index : UInt32) (signers : List UInt16) (p : UInt16)
    (t : FieldTerm CkdPublic) : Prop :=
  ∀ data bundle state package, KeyShareBundle.deserialize lib data = .ok bundle →
    Identifier.tryFrom p = some bundle.keyPackage.identifier →
    ckdPart1 lib data account index signers = .ok (state, package) →
    ∃ v, lib.deserializeScalar package = some v ∧
      t.eval (ckdPublic signers (derivePathPoint lib account index) fun _ => v) =
        bundle.keyPackage.signingShare

variable (lib) in
/-- The term gives the group's secret back from the packages of a quorum, whatever the
shares are. -/
def RecoversSecret (account index : UInt32) (signers : List UInt16) (t : FieldTerm CkdPublic) :
    Prop :=
  ∀ {maxSigners minSigners : UInt16} (deal : Deal lib.toFrostCore maxSigners minSigners)
    (data package : UInt16 → Bytes), HoldsShares lib deal data → signers ⊆ deal.ids →
    minSigners.toNat ≤ signers.length →
    (∀ p ∈ signers, ∃ state, ckdPart1 lib (data p) account index signers = .ok (state, package p)) →
    ∃ v : UInt16 → F, (∀ p ∈ signers, lib.deserializeScalar (package p) = some (v p)) ∧
      t.eval (ckdPublic signers (derivePathPoint lib account index) v) = deal.groupSecret

variable (lib) in
/-- No term recovers a signer's share from its package, and none the group's secret. -/
def HidesShares (account index : UInt32) (signers : List UInt16) : Prop :=
  (∀ p ∈ signers, ¬ ∃ t, RecoversShare lib account index signers p t) ∧
    ¬ ∃ t, RecoversSecret lib account index signers t

variable {signers : List UInt16} {account index : UInt32}

theorem eq_of_signerLambda {failure : LibError} {myId : Identifier F}
    {allIds : List (Identifier F)} {c : F} (h : signerLambda failure myId allIds = .ok c) :
    c = (otherPoints myId allIds).prod *
      ((otherPoints myId allIds).map (· - myId.toScalar)).prod⁻¹ ∧ c ≠ 0 := by
  unfold signerLambda at h
  rw [foldl_lagrangeStep, one_mul, one_mul] at h
  obtain ⟨denInv, hinv, h⟩ := bind_eq_ok.mp h
  rw [okOr_eq_ok, invert] at hinv
  split at hinv
  · simp at hinv
  · next hden =>
    obtain rfl := Option.some.inj hinv
    obtain rfl := Except.ok.inj h
    refine ⟨rfl, mul_ne_zero ?_ (inv_ne_zero hden)⟩
    apply List.prod_ne_zero
    rw [otherPoints, List.mem_map]
    rintro ⟨id, -, hid⟩
    exact id.ne_zero hid

theorem expressible_lambda [Finite F] {E : Type} {env : E → CkdPublic → F}
    {ident : UInt16 → Identifier F} {failure : LibError} {p : UInt16} {c : F} (hp : p ∈ signers)
    (henv : ∀ s ∈ signers, ∀ e, env e (.id s) = (ident s).toScalar)
    (hc : signerLambda failure (ident p) (signers.map ident) = .ok c) :
    Expressible env fun _ => c := by
  have hid : ∀ s ∈ signers, Expressible env fun _ => (ident s).toScalar := fun s hs =>
    (Expressible.var (.id s)).congr (henv s hs)
  have h1 : Expressible env fun _ => 1 := (hid p hp).one fun _ => (ident p).ne_zero
  obtain ⟨hval, -⟩ := eq_of_signerLambda hc
  have hpoint : ∀ x ∈ otherPoints (ident p) (signers.map ident), Expressible env fun _ => x := by
    intro x hx
    obtain ⟨id, hmem, rfl⟩ := List.mem_map.mp hx
    obtain ⟨s, hs, rfl⟩ := List.mem_map.mp (List.mem_of_mem_filter hmem)
    exact hid s hs
  have hdiff : ∀ x ∈ otherPoints (ident p) (signers.map ident),
      Expressible env fun _ => x - (ident p).toScalar :=
    fun x hx => Expressible.sub h1 (hpoint x hx) (hid p hp)
  have hnum := Expressible.list_prod h1 hpoint
  have hden := Expressible.list_prod h1 hdiff
  refine (hnum.mul hden.inv).congr fun _ => ?_
  rw [hval, List.map_id']

theorem exists_recoversShare [Finite F] (doc : lib.Documented) (hn : signers.Nodup)
    (hids : ∀ s ∈ signers, s ≠ 0) (hpath : derivePathPoint lib account index ≠ 0) {p : UInt16}
    (hp : p ∈ signers) : ∃ t, RecoversShare lib account index signers p t := by
  have hident := fun s (hs : s ∈ signers) => doc.toCore.exists_tryFrom (hids s hs)
  choose! ident hident using hident
  have hinj : (signers.map ident).Nodup := by
    refine hn.map_on fun x hx y hy h => ?_
    exact doc.toCore.tryFrom_inj (hident x hx) (h ▸ hident y hy)
  obtain ⟨c, hcoeff⟩ : ∃ c, lagrangeCoeff (ident p) (signers.map ident) = .ok c :=
    ⟨_, lagrangeCoeff_ok hinj (ident p)⟩
  have hlambda : signerLambda .ckdError (ident p) (signers.map ident) = .ok c :=
    signerLambda_ok hcoeff
  let h := derivePathPoint lib account index
  let env : F → CkdPublic → F := fun x => ckdPublic signers h fun _ => c * x * h
  have henv : ∀ s ∈ signers, ∀ e, env e (.id s) = (ident s).toScalar := by
    intro s hs e
    rw [doc.toCore.tryFrom_eq_some_iff.mp (hident s hs)]
    exact if_pos hs
  have hc : Expressible env fun _ => c := expressible_lambda hp henv hlambda
  have hne : c * h ≠ 0 := mul_ne_zero (eq_of_signerLambda hlambda).2 hpath
  -- the package divided by the signer's public factor
  have hx : Expressible env fun x => x := by
    refine ((Expressible.var (CkdPublic.package p)).mul (hc.mul (Expressible.var CkdPublic.path)).inv).congr
      fun x => ?_
    change c * x * h * (c * h)⁻¹ = x
    calc c * x * h * (c * h)⁻¹ = x * (c * h * (c * h)⁻¹) := by ring
      _ = x := by rw [mul_inv_cancel₀ hne, mul_one]
  obtain ⟨t, ht⟩ := hx
  refine ⟨t, fun data bundle state package hbundle hid hpart1 => ?_⟩
  obtain ⟨bundle', w, hbundle', hw, rfl⟩ := of_ckdPart1 hpart1
  obtain rfl := Except.ok.inj (hbundle.symm.trans hbundle')
  obtain ⟨ids, hsigners, hw⟩ := bind_eq_ok.mp hw
  obtain rfl := Except.ok.inj ((signerIdentifiers_ok hident).symm.trans hsigners)
  obtain ⟨c', hc', hw⟩ := bind_eq_ok.mp hw
  rw [← Option.some.inj ((hident p hp).symm.trans hid), hlambda] at hc'
  obtain rfl := Except.ok.inj hc'
  obtain rfl := Except.ok.inj hw
  exact ⟨_, doc.scalar_roundtrip _, ht bundle.keyPackage.signingShare⟩

theorem exists_recoversSecret [Finite F] (doc : lib.Documented) (hn : signers.Nodup)
    (hpath : derivePathPoint lib account index ≠ 0) :
    ∃ t, RecoversSecret lib account index signers t := by
  let h := derivePathPoint lib account index
  let env : (UInt16 → F) → CkdPublic → F := ckdPublic signers h
  have hpathvar : Expressible env fun _ => h := Expressible.var CkdPublic.path
  have h1 := hpathvar.one fun _ => hpath
  have h0 : Expressible env fun _ => 0 :=
    (Expressible.natCast h1 0).congr fun _ => Nat.cast_zero
  have hsum : Expressible env fun v => (signers.map fun s => v s).sum :=
    Expressible.list_sum h0 fun s _ => Expressible.var (CkdPublic.package s)
  obtain ⟨t, ht⟩ := hsum.mul hpathvar.inv
  refine ⟨t, fun deal data package hdata hsub hmin hpart1 => ?_⟩
  obtain ⟨weight, hweight, htotal⟩ := exists_weights doc.toCore hsub hn hmin
  refine ⟨fun p => weight p * (deal.key p).signingShare * h, fun p hp => ?_, ?_⟩
  · obtain ⟨state, hpart1⟩ := hpart1 p hp
    obtain ⟨bundle, w, hbundle, hw, hpackage⟩ := of_ckdPart1 hpart1
    obtain ⟨bundle', hbundle', hkey⟩ := hdata p (hsub hp)
    obtain rfl := Except.ok.inj (hbundle.symm.trans hbundle')
    rw [hkey, hweight .ckdError p hp] at hw
    rw [hpackage, ← Except.ok.inj hw]
    exact doc.scalar_roundtrip _
  · apply (ht _).trans
    change (signers.map fun p => weight p * (deal.key p).signingShare * h).sum * h⁻¹ = _
    rw [List.sum_map_mul_right, htotal, mul_inv_cancel_right₀ hpath]

/-- Whatever the path, one term recovers a signer's share from its package, and one the
group's secret from all of them. -/
theorem ckd_reveals_shares [Finite F] (doc : lib.Documented) (hn : signers.Nodup)
    (hids : ∀ s ∈ signers, s ≠ 0) (hpath : derivePathPoint lib account index ≠ 0) :
    (∀ p ∈ signers, ∃ t, RecoversShare lib account index signers p t) ∧
      (∃ t, RecoversSecret lib account index signers t) ∧ ¬ HidesShares lib account index signers := by
  have hsecret := exists_recoversSecret doc hn hpath
  refine ⟨fun p hp => exists_recoversShare doc hn hids hpath hp, hsecret, ?_⟩
  intro hhides
  exact hhides.2 hsecret

section Samples

open Reference

theorem childKeys_of_sampleQuorum :
    let path := fromt.fromBytesModOrder
      (fromt.keccak256 (ascii "fromt/ckd" ++ u32ToLeBytes 0 ++ u32ToLeBytes 7))
    let tweak := fromt.fromBytesModOrder (fromt.keccak256
      (encodeScalar (sampleDeal.groupSecret * path) ++ u32ToLeBytes 0 ++ u32ToLeBytes 7))
    (∃ package : UInt16 → Bytes, ∀ p ∈ [1, 3], ∃ state,
      ckdPart1 fromt (sampleData p) 0 7 [1, 3] = .ok (state, package p) ∧
      ∀ order : List UInt16, order.Perm ([1, 3].erase p) →
        ckdPart2 fromt state (order.map fun s => (s, package s)) =
          .ok (encodeScalar ((sampleDeal.key p).signingShare + tweak))) ∧
    ∃ coeff : UInt16 → Scalar,
      (∀ p ∈ [1, 3], lagrangeCoeff (sampleDeal.ident p) ([1, 3].map sampleDeal.ident) =
        .ok (coeff p)) ∧
      ([1, 3].map fun p => ((sampleDeal.key p).signingShare + tweak) * coeff p).sum =
        sampleDeal.groupSecret + tweak := by
  obtain ⟨h, hquorum⟩ :=
    childKeys_of_quorum fromt_documented (by decide) sampleDeal holdsShares_sample 0 7
  exact ⟨h [1, 3] (by decide) (by decide) (by decide),
    hquorum [1, 3] (by decide) (by decide) (by decide)⟩

theorem samplePath_ne_zero : derivePathPoint fromt 0 7 ≠ 0 := by decide +kernel

theorem sampleSigners_ne_zero : ∀ s ∈ ([1, 3] : List UInt16), s ≠ 0 := by
  intro s hs
  rcases List.mem_pair.mp hs with rfl | rfl <;> decide

/-- Party 1 can publish its package for the list 1, 3, and a term recovers its share. -/
theorem not_hidesShares_sample :
    (∃ r, ckdPart1 fromt (sampleData 1) 0 7 [1, 3] = .ok r) ∧
      ¬ HidesShares fromt 0 7 [1, 3] := by
  refine ⟨?_, fun hhides => ?_⟩
  · obtain ⟨bundle, hbundle, hkey⟩ := holdsShares_sample 1 (by decide)
    have hsub : [1, 3] ⊆ sampleDeal.ids := by decide
    obtain ⟨weight, hweight, -⟩ :=
      exists_weights fromt_documented.toCore hsub (by decide) (by decide)
    exact ⟨_, ckdPart1_ok hbundle (hkey ▸ hweight .ckdError 1 (by decide))⟩
  · exact hhides.1 1 (by decide) (exists_recoversShare fromt_documented (by decide)
      sampleSigners_ne_zero samplePath_ne_zero (by decide))

theorem ckd_reveals_sampleShares :
    (∀ p ∈ [1, 3], ∃ t, RecoversShare fromt 0 7 [1, 3] p t) ∧
      ∃ t, RecoversSecret fromt 0 7 [1, 3] t := by
  obtain ⟨hshare, hsecret, -⟩ := ckd_reveals_shares fromt_documented (by decide)
    sampleSigners_ne_zero samplePath_ne_zero
  exact ⟨hshare, hsecret⟩

end Samples

end Fromt
