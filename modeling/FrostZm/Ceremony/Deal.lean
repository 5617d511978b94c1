import FrostZm.Ceremony.Dkg

/-!
# What honest participants compute

A deal is the round-1 output of every participant. From it follow the packages of
round 2 and the keys of round 3: shares of the sum of the participants' polynomials.
-/

open Shamir

set_option linter.unusedSectionVars false

variable {F G Rng : Type} [Field F] [DecidableEq F] [Ord F] [Std.TransOrd F] [Std.LawfulEqOrd F]
  [AddCommGroup G] [Module F G]

namespace Ceremony

structure Deal (core : FrostCore F G Rng) (maxSigners minSigners : UInt16) where
  ids : List UInt16
  ident : UInt16 → Identifier F
  secret : UInt16 → Round1SecretPackage F G
  package : UInt16 → Round1Package F G
  nodup : ids.Nodup
  length : ids.length = maxSigners.toNat
  tryFrom : ∀ p ∈ ids, Identifier.tryFrom p = some (ident p)
  round1 : ∀ p ∈ ids, core.IsRound1 (ident p) maxSigners minSigners (secret p) (package p)

namespace Deal

variable {core : FrostCore F G Rng} {maxSigners minSigners : UInt16}
  (deal : Deal core maxSigners minSigners)

def others (p : UInt16) : List UInt16 := deal.ids.erase p

/-- The packages that `p` has after round 1. -/
def round1Map (p : UInt16) : BTreeMap (Identifier F) (Round1Package F G) :=
  BTreeMap.tabulate deal.ident deal.package (deal.others p)

def secret2 (p : UInt16) : Round2SecretPackage F G where
  identifier := deal.ident p
  commitment := (deal.secret p).commitment
  secretShare := evalPoly (deal.secret p).coefficients (deal.ident p).toScalar
  minSigners := minSigners
  maxSigners := maxSigners

/-- The round-2 package of `s` for `p`. -/
def round2Package (s p : UInt16) : Round2Package F :=
  ⟨evalPoly (deal.secret s).coefficients (deal.ident p).toScalar⟩

/-- The same as it is sent. -/
def round2Bytes (s p : UInt16) : Bytes := (core.serializeRound2 (deal.round2Package s p)).getD []

/-- The packages that `p` sends in round 2. -/
def sent2Map (p : UInt16) : BTreeMap (Identifier F) (Round2Package F) :=
  BTreeMap.tabulate deal.ident (deal.round2Package p) (deal.others p)

/-- The packages that `p` has after round 2. -/
def round2Map (p : UInt16) : BTreeMap (Identifier F) (Round2Package F) :=
  BTreeMap.tabulate deal.ident (fun s => deal.round2Package s p) (deal.others p)

/-- The sum of everyone's polynomials. -/
noncomputable def groupPoly : Polynomial F :=
  (deal.ids.map fun s => polyOf (deal.secret s).coefficients).sum

def constantTerm (p : UInt16) : F := (deal.secret p).coefficients.headD 0

/-- The secret that the participants share after the ceremony. -/
def groupSecret : F := (deal.ids.map deal.constantTerm).sum

def key (p : UInt16) : KeyPackage F G := core.keyOf (deal.secret2 p) (deal.round1Map p) (deal.round2Map p)

def publicKey (p : UInt16) : PublicKeyPackage F G :=
  FrostCore.publicKeys (deal.secret2 p) (deal.round1Map p)

/-! ## The participants -/

variable {deal} {p s : UInt16}

theorem mem_others : s ∈ deal.others p ↔ s ≠ p ∧ s ∈ deal.ids := deal.nodup.mem_erase_iff

theorem nodup_others : (deal.others p).Nodup := deal.nodup.erase p

theorem perm_cons_others (hp : p ∈ deal.ids) : deal.ids.Perm (p :: deal.others p) :=
  List.perm_cons_erase hp

theorem length_others (hp : p ∈ deal.ids) : (deal.others p).length = (maxSigners - 1).toNat := by
  have hpos : 0 < deal.ids.length := List.length_pos_of_mem hp
  have hlen := deal.length
  have hle : (1 : UInt16) ≤ maxSigners := by
    rw [UInt16.le_iff_toNat_le]
    have h1 : (1 : UInt16).toNat = 1 := rfl
    omega
  rw [others, List.length_erase_of_mem hp, deal.length, UInt16.toNat_sub_of_le _ _ hle]
  rfl

theorem ident_injective (doc : core.Documented) : BTreeMap.Injective deal.ident deal.ids := by
  intro x hx y hy h
  exact doc.tryFrom_inj (deal.tryFrom x hx) (h ▸ deal.tryFrom y hy)

theorem others_injective (doc : core.Documented) :
    BTreeMap.Injective deal.ident (deal.others p) := by
  intro x hx y hy
  exact ident_injective doc x (mem_others.mp hx).2 y (mem_others.mp hy).2

theorem ident_not_mem_others (doc : core.Documented) (hp : p ∈ deal.ids) {α : Type}
    (val : UInt16 → α) : deal.ident p ∉ BTreeMap.tabulate deal.ident val (deal.others p) := by
  rw [BTreeMap.mem_tabulate]
  rintro ⟨s, hs, h⟩
  exact (mem_others.mp hs).1 (ident_injective doc s (mem_others.mp hs).2 p hp h)

theorem size_tabulate_others (doc : core.Documented) (hp : p ∈ deal.ids) {α : Type}
    (val : UInt16 → α) :
    (BTreeMap.tabulate deal.ident val (deal.others p)).size = (maxSigners - 1).toNat := by
  rw [← length_others hp]
  exact BTreeMap.size_tabulate_eq_iff.mpr ((others_injective doc).nodup_map nodup_others)

/-! ## Round 2 -/

theorem commitment_eq (hp : p ∈ deal.ids) :
    (deal.package p).commitment = (deal.secret p).coefficients.map (· • core.generator) :=
  (deal.round1 p hp).published.trans (deal.round1 p hp).commitment

theorem length_commitment (hp : p ∈ deal.ids) :
    (deal.package p).commitment.length = minSigners.toNat := by
  rw [commitment_eq hp, List.length_map, (deal.round1 p hp).length]

theorem part2_ok (doc : core.Documented) (hp : p ∈ deal.ids) :
    core.part2 (deal.secret p) (deal.round1Map p) = .ok (deal.secret2 p, deal.sent2Map p) := by
  have hw := deal.round1 p hp
  have hid : (deal.secret p).identifier ∉ deal.round1Map p := by
    rw [hw.identifier]
    exact ident_not_mem_others doc hp _
  have haccept : core.Part2Accepts (deal.secret p) (deal.round1Map p) := by
    refine ⟨?_, ?_, ?_⟩
    · rw [hw.maxSigners]
      exact size_tabulate_others doc hp _
    · intro id pkg hpkg
      obtain ⟨s, hs, rfl, rfl⟩ := (BTreeMap.getElem?_tabulate (others_injective doc)).mp hpkg
      rw [hw.minSigners]
      exact length_commitment (mem_others.mp hs).2
    · intro id pkg hpkg
      obtain ⟨s, hs, rfl, rfl⟩ := (BTreeMap.getElem?_tabulate (others_injective doc)).mp hpkg
      exact (deal.round1 s (mem_others.mp hs).2).proof
  obtain ⟨⟨s2, r2⟩, hr⟩ := (doc.part2_ok_iff _ _ hid).mpr haccept
  obtain ⟨rfl, rfl⟩ := doc.part2_eq _ _ _ _ hr
  rw [hr, round1Map, BTreeMap.map_tabulate _ (others_injective doc), secret2, sent2Map, hw.identifier,
    hw.minSigners, hw.maxSigners]
  rfl

theorem deserializeRound2_bytes (doc : core.Documented) (deal : Deal core maxSigners minSigners)
    (s p : UInt16) :
    core.serializeRound2 (deal.round2Package s p) = some (deal.round2Bytes s p) ∧
      core.deserializeRound2 (deal.round2Bytes s p) = some (deal.round2Package s p) := by
  obtain ⟨b, hb⟩ := doc.round2_ok (deal.round2Package s p)
  rw [round2Bytes, hb]
  exact ⟨rfl, doc.round2_roundtrip _ _ hb⟩

/-! ## Round 3 -/

theorem groupCommitments_eq (doc : core.Documented) (hp : p ∈ deal.ids) :
    FrostCore.groupCommitments (deal.secret2 p) (deal.round1Map p) =
      BTreeMap.tabulate deal.ident (fun s => (deal.secret s).commitment) deal.ids := by
  have hperm := perm_cons_others hp
  have hinj : BTreeMap.Injective deal.ident (p :: deal.others p) := by
    intro x hx y hy
    exact ident_injective doc x (hperm.mem_iff.mpr hx) y (hperm.mem_iff.mpr hy)
  rw [FrostCore.groupCommitments, round1Map, BTreeMap.map_tabulate _ (others_injective doc),
    BTreeMap.tabulate_congr fun s hs => (deal.round1 s (mem_others.mp hs).2).published]
  refine (BTreeMap.insert_tabulate hinj).trans ?_
  exact BTreeMap.tabulate_eq_of_mem_iff hinj fun x => hperm.mem_iff.symm

theorem headD_map_smul (cs : List F) (g : G) : (cs.map (· • g)).headD 0 = cs.headD 0 • g := by
  cases cs <;> simp

theorem groupKey_eq (doc : core.Documented) (hp : p ∈ deal.ids) :
    FrostCore.groupKey (deal.secret2 p) (deal.round1Map p) = deal.groupSecret • core.generator := by
  rw [FrostCore.groupKey, groupCommitments_eq doc hp, FrostCore.sumValues,
    BTreeMap.sum_toList_tabulate (ident_injective doc) deal.nodup, groupSecret, List.sum_smul,
    List.map_map]
  refine congrArg List.sum (List.map_congr_left fun s hs => ?_)
  simp only [(deal.round1 s hs).commitment, headD_map_smul]
  rfl

theorem longTermShare_eq (doc : core.Documented) (hp : p ∈ deal.ids) :
    FrostCore.longTermShare (deal.secret2 p) (deal.round2Map p) =
      deal.groupPoly.eval (deal.ident p).toScalar := by
  rw [FrostCore.longTermShare, FrostCore.sumValues, round2Map,
    BTreeMap.sum_toList_tabulate (others_injective doc) nodup_others, groupPoly,
    Polynomial.eval_listSum, List.map_map, ((perm_cons_others hp).map _).sum_eq, List.map_cons,
    List.sum_cons, Function.comp_apply, eval_polyOf]
  refine congrArg _ (congrArg List.sum (List.map_congr_left fun s _ => ?_))
  rw [Function.comp_apply, eval_polyOf]
  rfl

theorem part3_ok (doc : core.Documented) (hmin : minSigners ≠ 0) (hp : p ∈ deal.ids) :
    core.part3 (deal.secret2 p) (deal.round1Map p) (deal.round2Map p) =
      .ok (deal.key p, deal.publicKey p) := by
  have hlen : (deal.secret p).commitment.length = minSigners.toNat := by
    rw [← (deal.round1 p hp).published, length_commitment hp]
  have haccept : core.Part3Accepts (deal.secret2 p) (deal.round1Map p) (deal.round2Map p) := by
    refine ⟨size_tabulate_others doc hp _, ?_, ⟨?_, ?_⟩, ?_⟩
    · intro id
      rw [round1Map, round2Map, BTreeMap.mem_tabulate, BTreeMap.mem_tabulate]
    · intro hnil
      rw [secret2] at hnil
      simp only at hnil
      rw [hnil, List.length_nil] at hlen
      exact hmin (UInt16.toNat_inj.mp hlen.symm)
    · intro id pkg hpkg
      obtain ⟨s, hs, rfl, rfl⟩ := (BTreeMap.getElem?_tabulate (others_injective doc)).mp hpkg
      rw [length_commitment (mem_others.mp hs).2]
      exact hlen.symm
    · intro id pkg q hpkg hq
      obtain ⟨s, hs, rfl, rfl⟩ := (BTreeMap.getElem?_tabulate (others_injective doc)).mp hpkg
      obtain ⟨s', hs', hid, rfl⟩ := (BTreeMap.getElem?_tabulate (others_injective doc)).mp hq
      obtain rfl := others_injective doc s' hs' s hs hid
      rw [commitment_eq (mem_others.mp hs).2, evalCommitment_map]
      rfl
  obtain ⟨⟨k, pk⟩, hr⟩ := (doc.part3_ok_iff _ _ _ (ident_not_mem_others doc hp _)).mpr haccept
  obtain ⟨rfl, rfl⟩ := doc.part3_eq _ _ _ _ _ hr
  exact hr

/-! ## The keys -/

theorem key_verifyingKey (doc : core.Documented) (hp : p ∈ deal.ids) :
    (deal.key p).verifyingKey = deal.groupSecret • core.generator := groupKey_eq doc hp

theorem publicKey_verifyingKey (doc : core.Documented) (hp : p ∈ deal.ids) :
    (deal.publicKey p).verifyingKey = deal.groupSecret • core.generator := groupKey_eq doc hp

theorem key_signingShare (doc : core.Documented) (hp : p ∈ deal.ids) :
    (deal.key p).signingShare = deal.groupPoly.eval (deal.ident p).toScalar :=
  longTermShare_eq doc hp

theorem publicKey_verifyingShares (doc : core.Documented) (hp : p ∈ deal.ids) :
    (deal.publicKey p).verifyingShares = BTreeMap.tabulate deal.ident
      (fun s => (deal.key s).signingShare • core.generator) deal.ids := by
  have hinj : BTreeMap.Injective deal.ident deal.ids := ident_injective doc
  rw [publicKey, FrostCore.publicKeys, groupCommitments_eq doc hp, BTreeMap.map_tabulate _ hinj]
  refine BTreeMap.tabulate_congr fun s hs => ?_
  rw [FrostCore.sumValues, BTreeMap.sum_toList_tabulate hinj deal.nodup, key_signingShare doc hs,
    groupPoly, Polynomial.eval_listSum, List.map_map, List.sum_smul, List.map_map]
  refine congrArg List.sum (List.map_congr_left fun q hq => ?_)
  rw [Function.comp_apply, Function.comp_apply, eval_polyOf, (deal.round1 q hq).commitment,
    evalCommitment_map]

theorem groupPoly_degree_lt : deal.groupPoly.degree < minSigners.toNat := by
  rw [groupPoly, ← Polynomial.mem_degreeLT]
  refine list_sum_mem ?_
  intro q hq
  obtain ⟨s, hs, rfl⟩ := List.mem_map.mp hq
  rw [Polynomial.mem_degreeLT, ← (deal.round1 s hs).length]
  exact degree_polyOf_lt _

theorem groupPoly_eval_zero : deal.groupPoly.eval 0 = deal.groupSecret := by
  rw [groupPoly, Polynomial.eval_listSum, List.map_map, groupSecret]
  refine congrArg List.sum (List.map_congr_left fun s _ => ?_)
  rw [Function.comp_apply, eval_polyOf, evalPoly_zero]
  rfl

end Deal

end Ceremony
