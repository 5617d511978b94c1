import FrostZm.Ceremony.Exchange
import FrostZm.Ceremony.Resharing

/-!
# Honest key imports

Whoever holds the seed, the constant terms add up to the imported secret.
-/

set_option linter.unusedSectionVars false

variable {F G Rng : Type} [Field F] [DecidableEq F] [Ord F] [Std.TransOrd F] [Std.LawfulEqOrd F]
  [AddCommGroup G] [Module F G]

namespace Ceremony

/-- What honest participants bring to a key import. -/
structure Import (F Rng : Type) (maxSigners : UInt16) where
  ids : List UInt16
  nodup : ids.Nodup
  length : ids.length = maxSigners.toNat
  ne_zero : ∀ p ∈ ids, p ≠ 0
  seedHolder : UInt16
  mem : seedHolder ∈ ids
  secret : F
  rng : UInt16 → Rng

namespace Import

variable {core : FrostCore F G Rng} {maxSigners minSigners : UInt16} (i : Import F Rng maxSigners)

def constantTerm (p : UInt16) : F :=
  if p = i.seedHolder then deriveConstantTerm i.secret maxSigners else 1

/-- No coefficient of anyone's contribution is zero. -/
structure NonZero (core : FrostCore F G Rng) (minSigners : UInt16) : Prop where
  secret : i.secret ≠ ((maxSigners - 1).toNat : F)
  drawn : ∀ p ∈ i.ids, ∀ c ∈ (drawScalars core (minSigners.toNat - 1) (i.rng p)).1, c ≠ 0

variable {i}

theorem length_erase : (i.ids.erase i.seedHolder).length = (maxSigners - 1).toNat := by
  have hpos := List.length_pos_of_mem i.mem
  have hlen := i.length
  have hle : (1 : UInt16) ≤ maxSigners := by
    rw [UInt16.le_iff_toNat_le]
    have h1 : (1 : UInt16).toNat = 1 := rfl
    omega
  rw [List.length_erase_of_mem i.mem, i.length, UInt16.toNat_sub_of_le _ _ hle]
  rfl

theorem sum_constantTerm (i : Import F Rng maxSigners) : (i.ids.map i.constantTerm).sum = i.secret := by
  have hothers : ∀ p ∈ i.ids.erase i.seedHolder, i.constantTerm p = 1 := by
    intro p hp
    exact if_neg (i.nodup.mem_erase_iff.mp hp).1
  rw [((List.perm_cons_erase i.mem).map _).sum_eq, List.map_cons, List.sum_cons,
    List.map_congr_left hothers, List.map_const', List.sum_replicate, length_erase, constantTerm,
    if_pos rfl, deriveConstantTerm, subOnes_eq, nsmul_one, sub_add_cancel]

theorem constantTerm_ne_zero (h : i.secret ≠ ((maxSigners - 1).toNat : F)) (p : UInt16) :
    i.constantTerm p ≠ 0 := by
  unfold constantTerm
  split
  · rw [deriveConstantTerm, subOnes_eq]
    exact sub_ne_zero.mpr h
  · exact one_ne_zero

theorem exists_deal (doc : core.Documented) (hmin : minSigners ≠ 0) (hi : i.NonZero core minSigners) :
    ∃ (deal : Deal core maxSigners minSigners) (bytes : UInt16 → Bytes), deal.ids = i.ids ∧
      deal.groupSecret = i.secret ∧
      (∀ p ∈ deal.ids, keyImportPart1 core p maxSigners minSigners (i.constantTerm p) (i.rng p) =
        .ok (deal.secret p, bytes p)) ∧
      ∀ p ∈ deal.ids, core.serializeRound1 (deal.package p) = some (bytes p) := by
  have hpart1 : ∀ p ∈ i.ids, ∃ r,
      keyImportPart1 core p maxSigners minSigners (i.constantTerm p) (i.rng p) = .ok r := by
    intro p hp
    refine (constantPart1_isOk_iff doc (i.ne_zero p hp)).mpr ?_
    intro c hc
    rcases List.mem_cons.mp hc with rfl | hc
    · exact constantTerm_ne_zero hi.secret p
    · exact hi.drawn p hp c hc
  choose! r hr using hpart1
  obtain ⟨deal, hids, hsecret, hdeal⟩ := Ceremony.exists_deal doc hmin i.nodup i.length hr
  refine ⟨deal, fun p => (r p).2, hids, ?_, ?_, ?_⟩
  · rw [Deal.groupSecret, hids, ← sum_constantTerm i]
    exact congrArg List.sum (List.map_congr_left fun p hp => (hdeal p hp).2)
  · rw [hids, hsecret]
    exact hr
  · rw [hids]
    exact fun p hp => (hdeal p hp).1

end Import

end Ceremony
