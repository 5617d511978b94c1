import FrostZm.Fromt.KeyImage
import FrostZm.Fromt.Reference

/-!
# Key images of honest signers, and whose packages they sum

Any quorum computes the key images of the group's secret, in any order of the packages. A
session, though, counts messages and not signers.
-/

set_option linter.unusedSectionVars false

variable {F G P Rng : Type} [Field F] [DecidableEq F] [Ord F] [Std.TransOrd F] [Std.LawfulEqOrd F]
  [AddCommGroup G] [Module F G] [AddCommGroup P]

open Ceremony FrostChannel

namespace Fromt

variable {lib : FromtLib F G P Rng} {maxSigners minSigners : UInt16}

/-- Every signer of a quorum ends with the key images of the outputs, in their order, under
the group's secret, in whatever order the other signers' packages arrive. -/
theorem keyImages_of_quorum (doc : lib.Documented)
    (deal : Deal lib.toFrostCore maxSigners minSigners) {data : UInt16 → Bytes}
    (hdata : HoldsShares lib deal data) (signers : List UInt16) (hsub : signers ⊆ deal.ids)
    (hnodup : signers.Nodup) (hmin : minSigners.toNat ≤ signers.length)
    (outs : List (Bytes × F)) (hne : outs ≠ []) (hcount : outs.length < 2 ^ 32)
    (hkeys : ∀ o ∈ outs, o.1.length = 32) :
    ∃ package : UInt16 → Bytes, ∀ p ∈ signers, ∃ state,
      keyImagePart1 lib (data p) (encodeOutputs (outs.map (toOutput lib))) signers =
        .ok (state, package p) ∧
      ∀ order : List UInt16, order.Perm (signers.erase p) →
        keyImagePart2 lib state (order.map fun s => (s, package s)) =
          .ok (keyImages lib outs deal.groupSecret) ∧
        (keyImageSessionRun lib (data p) (encodeOutputs (outs.map (toOutput lib))) signers).eval
            (order.map fun s => frame (s, package s)) =
          some (.ok (keyImages lib outs deal.groupSecret), []) := by
  obtain ⟨weight, hweight, hsum⟩ := exists_weights doc.toCore hsub hnodup hmin
  let outputs := outs.map (toOutput lib)
  have hlengths : ∀ o ∈ outputs, o.outputKey.length = 32 ∧ o.keyOffset.length = 32 := by
    intro o ho
    obtain ⟨o', ho', rfl⟩ := List.mem_map.mp ho
    exact ⟨hkeys o' ho', doc.length_scalar o'.2⟩
  have hdecode := decodeOutputs_encode hlengths (by simpa [outputs] using hcount)
  let share : UInt16 → F := fun p => weight p * (deal.key p).signingShare
  refine ⟨fun p => packageOf lib outputs (share p), fun p hp => ?_⟩
  obtain ⟨bundle, hbundle, hkey⟩ := hdata p (hsub hp)
  have hshare : weightedShare .unknownError bundle.keyPackage signers = .ok (share p) := by
    rw [hkey]
    exact hweight .unknownError p hp
  have hpart1 := keyImagePart1_ok hbundle hshare hdecode (by simpa [outputs] using hne)
  refine ⟨_, hpart1, fun order horder => ?_⟩
  have htotal : share p + (order.map share).sum = deal.groupSecret := by
    rw [(horder.map share).sum_eq, sum_erase hp share, hsum]
  have hpart2 := keyImagePart2_ok doc outs (share p) share order
  rw [htotal] at hpart2
  refine ⟨hpart2, ?_⟩
  have hlen : (order.map fun s => (s, packageOf lib outputs (share s))).length =
      otherSigners signers.length := by
    have hcons := List.length_erase_of_mem hp
    obtain ⟨n, hn⟩ := Nat.exists_eq_succ_of_ne_zero (List.length_pos_of_mem hp).ne'
    rw [List.length_map, horder.length_eq, hcons, hn]
    rfl
  have hrun := eval_keyImageSessionRun hpart1 hlen hpart2
  rwa [List.map_map] at hrun

/-! ## Whose packages a session sums -/

/-- One package from each identifier of the list but one's own, and no other. -/
def CountsOnce (ids : List UInt16) (own : UInt16) (packages : List (UInt16 × Bytes)) : Prop :=
  (packages.map Prod.fst).Nodup ∧ ∀ s, s ∈ packages.map Prod.fst ↔ s ∈ ids ∧ s ≠ own

/-- The list repeats no identifier, and the packages come from different identifiers of it,
none of them one's own. -/
structure FromDifferentSigners (ids : List UInt16) (own : UInt16)
    (packages : List (UInt16 × Bytes)) : Prop where
  list : ids.Nodup
  different : (packages.map Prod.fst).Nodup
  signers : ∀ s ∈ packages.map Prod.fst, s ∈ ids ∧ s ≠ own

variable {ids : List UInt16} {own : UInt16} {packages : List (UInt16 × Bytes)}

theorem nodup_of_card {l : List UInt16} (h : l.toFinset.card = l.length) : l.Nodup := by
  rw [List.card_toFinset] at h
  exact List.dedup_eq_self.mp ((List.dedup_sublist l).eq_of_length h)

/-- As many packages as there are other signers count each of them once exactly if they come
from different signers. -/
theorem countsOnce_iff (hown : own ∈ ids) (hlen : packages.length = ids.length - 1) :
    CountsOnce ids own packages ↔ FromDifferentSigners ids own packages := by
  have hpos := List.length_pos_of_mem hown
  constructor
  · rintro ⟨hdifferent, hiff⟩
    refine ⟨nodup_of_card ?_, hdifferent, fun s hs => (hiff s).mp hs⟩
    have hset : (packages.map Prod.fst).toFinset = ids.toFinset.erase own := by
      ext s
      rw [List.mem_toFinset, hiff, Finset.mem_erase, List.mem_toFinset, and_comm]
    have hcard := congrArg Finset.card hset
    have hmem : own ∈ ids.toFinset := List.mem_toFinset.mpr hown
    have hle := List.toFinset_card_le ids
    have hcardpos := Finset.card_pos.mpr ⟨own, hmem⟩
    rw [List.toFinset_card_of_nodup hdifferent, List.length_map, hlen,
      Finset.card_erase_of_mem hmem] at hcard
    omega
  · rintro ⟨hlist, hdifferent, hsigners⟩
    refine ⟨hdifferent, fun s => ⟨hsigners s, fun hs => ?_⟩⟩
    have hsub : packages.map Prod.fst ⊆ ids.erase own := fun s hs =>
      (hlist.mem_erase_iff).mpr ⟨(hsigners s hs).2, (hsigners s hs).1⟩
    have hperm : (packages.map Prod.fst).Perm (ids.erase own) := by
      refine (hdifferent.subperm hsub).perm_of_length_le ?_
      rw [List.length_erase_of_mem hown, List.length_map, hlen]
    exact hperm.mem_iff.mpr ((hlist.mem_erase_iff).mpr ⟨hs.2, hs.1⟩)

theorem foldlM_push (l : List Bytes) (acc : List (UInt16 × Bytes)) :
    l.foldlM (fun (ps : List (UInt16 × Bytes)) f => Except.ok (ps ++ [unframe f])) acc =
      (.ok (acc ++ l.map unframe) : Result _) := by
  induction l generalizing acc with
  | nil => simp [pure, Except.pure]
  | cons f l ih =>
    rw [List.foldlM_cons]
    simp only [bind, Except.bind]
    rw [ih, List.append_assoc, List.map_cons]
    rfl

theorem keyImageSessionRun_ok {keyShareData outputsData out : Bytes} {inbox rest : List Bytes}
    (h : (keyImageSessionRun lib keyShareData outputsData ids).eval inbox = some (.ok out, rest)) :
    ∃ state partials, keyImagePart1 lib keyShareData outputsData ids = .ok (state, partials) ∧
      otherSigners ids.length ≤ inbox.length ∧
      keyImagePart2 lib state ((inbox.take (otherSigners ids.length)).map unframe) = .ok out := by
  unfold keyImageSessionRun at h
  obtain ⟨⟨state, partials⟩, hpart1, h⟩ := Proc.eval_liftM_bind_ok.mp h
  obtain ⟨_, inbox', hbroadcast, h⟩ := Proc.eval_bind_ok.mp h
  obtain ⟨-, rfl⟩ := Prod.mk.inj (Option.some.inj hbroadcast)
  obtain ⟨packages, s, hcollect, hfinal⟩ := Proc.eval_bind_ok.mp h
  obtain ⟨l, rfl, hlen, hfold⟩ := Proc.eval_collect_ok_iff.mp hcollect
  have hpackages := Except.ok.inj ((foldlM_push l []).symm.trans hfold)
  rw [List.nil_append] at hpackages
  refine ⟨state, partials, hpart1, ?_, ?_⟩
  · rw [List.length_append]
    omega
  · rw [List.take_left' hlen, hpackages]
    rw [Proc.liftM_eq, Proc.eval_lift] at hfinal
    exact (Prod.mk.inj (Option.some.inj hfinal)).1

/-- A session that ended well has summed the packages it got first, and has counted each
other signer once exactly if these come from different signers. -/
theorem keyImageSession_countsOnce_iff {setup : KeyImageSetup} {myPartyName keyShare : Bytes}
    {body : Ceremony Bytes}
    (hsession : keyImageSessionFromSetup lib setup myPartyName keyShare = .ok (own, body))
    {inbox rest : List Bytes} {out : Bytes} (hrun : body.eval inbox = some (.ok out, rest)) :
    ∃ state partials packages,
      keyImagePart1 lib keyShare setup.outputsData setup.base.ids = .ok (state, partials) ∧
      packages = (inbox.take (setup.base.ids.length - 1)).map unframe ∧
      keyImagePart2 lib state packages = .ok out ∧
      (CountsOnce setup.base.ids own packages ↔
        FromDifferentSigners setup.base.ids own packages) := by
  obtain ⟨own', hown, h⟩ := bind_eq_ok.mp hsession
  obtain ⟨rfl, rfl⟩ := Prod.mk.inj (Except.ok.inj h)
  have hmem := SetupMsg.frostIdByName_mem (okOr_eq_ok.mp hown)
  have hothers : otherSigners setup.base.ids.length = setup.base.ids.length - 1 := by
    obtain ⟨n, hn⟩ := Nat.exists_eq_succ_of_ne_zero (List.length_pos_of_mem hmem).ne'
    rw [hn]
    rfl
  obtain ⟨state, partials, hpart1, hlen, hpart2⟩ := keyImageSessionRun_ok hrun
  rw [hothers] at hlen hpart2
  refine ⟨state, partials, _, hpart1, rfl, hpart2, countsOnce_iff hmem ?_⟩
  rw [List.length_map, List.length_take, Nat.min_eq_left hlen]

section Samples

open Reference

/-- The parties 1, 2 and 3, called by one letter each, and one output. -/
def sampleSetup : KeyImageSetup where
  base := {
    maxSigners := 3
    minSigners := 3
    parties := [⟨1, ascii "a"⟩, ⟨2, ascii "b"⟩, ⟨3, ascii "c"⟩] }
  outputsData := encodeOutputs ([(List.replicate 32 7, (5 : Scalar))].map (toOutput fromt))

/-- A package that any party can send. -/
def samplePackage : Bytes := encodeScalar 9

theorem keyImages_of_sampleQuorum :
    ∃ package : UInt16 → Bytes, ∀ p ∈ [1, 3], ∃ state,
      keyImagePart1 fromt (sampleData p)
          (encodeOutputs ([(List.replicate 32 7, (5 : Scalar))].map (toOutput fromt))) [1, 3] =
        .ok (state, package p) ∧
      ∀ order : List UInt16, order.Perm ([1, 3].erase p) →
        keyImagePart2 fromt state (order.map fun s => (s, package s)) =
          .ok (keyImages fromt [(List.replicate 32 7, 5)] sampleDeal.groupSecret) := by
  obtain ⟨package, h⟩ := keyImages_of_quorum fromt_documented sampleDeal holdsShares_sample
    [1, 3] (by decide) (by decide) (by decide)
    [(List.replicate 32 7, (5 : Scalar))] (by decide) (by decide) (by decide)
  refine ⟨package, fun p hp => ?_⟩
  obtain ⟨state, hpart1, hpart2⟩ := h p hp
  exact ⟨state, hpart1, fun order horder => (hpart2 order horder).1⟩

/-- A quorum has no key images to compute for an empty list of outputs. -/
theorem no_keyImages_of_no_outputs :
    HoldsShares fromt sampleDeal sampleData ∧
      ¬ ∃ state package, keyImagePart1 fromt (sampleData 1) (encodeOutputs []) [1, 3] =
        .ok (state, package) := by
  refine ⟨holdsShares_sample, ?_⟩
  rintro ⟨state, package, h⟩
  obtain ⟨bundle, -, h⟩ := bind_eq_ok.mp h
  obtain ⟨lambdaX, -, h⟩ := bind_eq_ok.mp h
  obtain ⟨outputs, hout, h⟩ := bind_eq_ok.mp h
  obtain rfl := Except.ok.inj ((show decodeOutputs (encodeOutputs []) = .ok [] from rfl).symm.trans hout)
  obtain ⟨_, hne, -⟩ := bind_eq_ok.mp h
  exact failIf_eq_ok.mp hne rfl

/-- Party 1 takes two packages of party 2 for those of parties 2 and 3. -/
theorem keyImageSession_countsTwice :
    ∃ body, keyImageSessionFromSetup fromt sampleSetup (ascii "a") (sampleData 1) = .ok (1, body) ∧
      (∃ out rest, body.eval [frame (2, samplePackage), frame (2, samplePackage)] =
        some (.ok out, rest)) ∧
      ¬ CountsOnce sampleSetup.base.ids 1 [(2, samplePackage), (2, samplePackage)] := by
  refine ⟨_, rfl, Proc.exists_eval_ok (by decide +kernel), ?_⟩
  rintro ⟨hdifferent, -⟩
  simp at hdifferent

theorem keyImageSession_countsOnce_sample :
    ∃ body out rest,
      keyImageSessionFromSetup fromt sampleSetup (ascii "a") (sampleData 1) = .ok (1, body) ∧
      body.eval [frame (2, samplePackage), frame (3, samplePackage)] = some (.ok out, rest) ∧
      CountsOnce sampleSetup.base.ids 1 [(2, samplePackage), (3, samplePackage)] := by
  obtain ⟨out, rest, hrun⟩ := Proc.exists_eval_ok
    (show (((keyImageSessionRun fromt (sampleData 1) sampleSetup.outputsData
      sampleSetup.base.ids).eval [frame (2, samplePackage), frame (3, samplePackage)]).bind
        fun r => r.1.toOption).isSome by decide +kernel)
  have hsession : keyImageSessionFromSetup fromt sampleSetup (ascii "a") (sampleData 1) =
      .ok (1, keyImageSessionRun fromt (sampleData 1) sampleSetup.outputsData
        sampleSetup.base.ids) := rfl
  obtain ⟨state, partials, packages, -, hpackages, -, hiff⟩ :=
    keyImageSession_countsOnce_iff hsession hrun
  have heq : packages = [(2, samplePackage), (3, samplePackage)] := hpackages
  rw [heq] at hiff
  refine ⟨_, out, rest, hsession, hrun, hiff.mpr ⟨by decide, by decide, fun s hs => ?_⟩⟩
  rcases List.mem_pair.mp hs with rfl | rfl <;> decide

end Samples

end Fromt
