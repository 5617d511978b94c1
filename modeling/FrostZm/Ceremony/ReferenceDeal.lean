import FrostZm.Ceremony.Deal
import FrostZm.Frost.ReferenceKeys

/-!
# A key generation worked out

Three participants with threshold two, over the small FROST.
-/

namespace Reference

open Ceremony

def sampleIdent (p : UInt16) : Identifier Scalar := (Identifier.tryFrom p).getD default

def sampleRound1 (p : UInt16) : Round1SecretPackage Scalar Scalar × Round1Package Scalar Scalar :=
  ((core.part1 (sampleIdent p) 3 2 p.toNat).toOption).getD default

theorem isRound1_sample (p : UInt16) :
    core.IsRound1 (sampleIdent p) 3 2 (sampleRound1 p).1 (sampleRound1 p).2 := by
  obtain ⟨s, pkg, hpart1, hround1, -⟩ :=
    documented.part1_ok (sampleIdent p) 3 2 p.toNat (by decide) (by decide)
  rw [sampleRound1, hpart1]
  exact hround1

def sampleDeal : Deal core 3 2 where
  ids := [1, 2, 3]
  ident := sampleIdent
  secret p := (sampleRound1 p).1
  package p := (sampleRound1 p).2
  nodup := nodup_sampleIds
  length := length_sampleIds
  tryFrom := by
    intro p hp
    have hne : p ≠ 0 := by
      rintro rfl
      simp at hp
    obtain ⟨ident, hident⟩ := documented.exists_tryFrom hne
    rw [sampleIdent, hident, Option.getD_some]
  round1 p _ := isRound1_sample p

end Reference
