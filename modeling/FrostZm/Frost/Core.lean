import FrostZm.Ffi.Errors
import FrostZm.Lib.Maps
import FrostZm.Lib.Shamir

/-!
# frost-core

The library whose rounds the ceremonies drive is not part of this repository. The records
are the ones that the ceremonies build and read, its functions are the fields of
`FrostCore`, and what the ceremonies rely on is stated in `FrostCore.Documented`.
-/

open Shamir

set_option linter.unusedSectionVars false

variable {F G Rng : Type} [Field F] [DecidableEq F] [Ord F] [Std.TransOrd F] [Std.LawfulEqOrd F]
  [AddCommGroup G] [Module F G]

/-! ## Identifiers -/

/-- A participant identifier is a non-zero scalar. -/
@[ext] structure Identifier (F : Type) [Zero F] where
  toScalar : F
  ne_zero : toScalar ≠ 0
deriving DecidableEq

instance : Ord (Identifier F) := ⟨compareOn Identifier.toScalar⟩

instance : Std.TransOrd (Identifier F) :=
  inferInstanceAs (Std.TransCmp (compareOn Identifier.toScalar))

instance : Std.LawfulEqOrd (Identifier F) where
  compare_self := Std.ReflOrd.compare_self
  eq_of_compare h := Identifier.ext (Std.LawfulEqOrd.eq_of_compare h)

instance : Inhabited (Identifier F) := ⟨⟨1, one_ne_zero⟩⟩

/-- `Identifier::try_from(n)`: the field element `n`, unless it is zero. -/
def Identifier.tryFrom (n : UInt16) : Option (Identifier F) :=
  if h : (n.toNat : F) ≠ 0 then some ⟨n.toNat, h⟩ else none

/-! ## Records -/

structure Signature (F G : Type) where
  r : G
  z : F
deriving DecidableEq

structure Round1SecretPackage (F G : Type) [Zero F] where
  identifier : Identifier F
  coefficients : List F
  commitment : List G
  minSigners : UInt16
  maxSigners : UInt16

instance : Inhabited (Round1SecretPackage F G) := ⟨⟨default, [], [], 0, 0⟩⟩

structure Round1Package (F G : Type) where
  commitment : List G
  proofOfKnowledge : Signature F G
deriving DecidableEq

instance : Inhabited (Round1Package F G) := ⟨⟨[], ⟨0, 0⟩⟩⟩

structure Round2SecretPackage (F G : Type) [Zero F] where
  identifier : Identifier F
  commitment : List G
  secretShare : F
  minSigners : UInt16
  maxSigners : UInt16

structure Round2Package (F : Type) where
  signingShare : F
deriving DecidableEq

structure KeyPackage (F G : Type) [Zero F] where
  identifier : Identifier F
  signingShare : F
  verifyingShare : G
  verifyingKey : G
  minSigners : UInt16

structure PublicKeyPackage (F G : Type) [Field F] [Ord F] where
  verifyingShares : BTreeMap (Identifier F) G
  verifyingKey : G

/-- Of a frost-core error the ceremonies read only whom it accuses. -/
structure FrostError (F : Type) [Zero F] where
  culprit : Option (Identifier F)

/-! ## The library -/

structure FrostCore (F G Rng : Type) [Field F] [Ord F] [AddCommGroup G] [Module F G] where
  generator : G
  random : Rng → F × Rng
  part1 : Identifier F → UInt16 → UInt16 → Rng →
    Except (FrostError F) (Round1SecretPackage F G × Round1Package F G)
  part2 : Round1SecretPackage F G → BTreeMap (Identifier F) (Round1Package F G) →
    Except (FrostError F) (Round2SecretPackage F G × BTreeMap (Identifier F) (Round2Package F))
  part3 : Round2SecretPackage F G → BTreeMap (Identifier F) (Round1Package F G) →
    BTreeMap (Identifier F) (Round2Package F) →
    Except (FrostError F) (KeyPackage F G × PublicKeyPackage F G)
  computeProofOfKnowledge : Identifier F → List F → List G → Rng →
    Except (FrostError F) (Signature F G)
  verifyProofOfKnowledge : Identifier F → List G → Signature F G → Bool
  serializeIdentifier : Identifier F → Bytes
  deserializeIdentifier : Bytes → Option (Identifier F)
  serializeRound1 : Round1Package F G → Option Bytes
  deserializeRound1 : Bytes → Option (Round1Package F G)
  serializeRound2 : Round2Package F → Option Bytes
  deserializeRound2 : Bytes → Option (Round2Package F)
  serializeVerifyingKey : G → Option Bytes

namespace FrostCore

/-- A sum over the values of a map. -/
def sumValues {κ α A : Type} [Ord κ] [Std.TransOrd κ] [AddCommMonoid A] (m : BTreeMap κ α)
    (f : α → A) : A :=
  (m.toList.map fun e => f e.2).sum

/-- Everyone's commitments, with one's own beside the received ones. -/
def groupCommitments (s : Round2SecretPackage F G)
    (r1 : BTreeMap (Identifier F) (Round1Package F G)) : BTreeMap (Identifier F) (List G) :=
  (r1.map fun _ p => p.commitment).insert s.identifier s.commitment

def groupKey (s : Round2SecretPackage F G) (r1 : BTreeMap (Identifier F) (Round1Package F G)) : G :=
  sumValues (groupCommitments s r1) fun c => c.headD 0

def publicKeys (s : Round2SecretPackage F G) (r1 : BTreeMap (Identifier F) (Round1Package F G)) :
    PublicKeyPackage F G where
  verifyingShares := (groupCommitments s r1).map fun id _ =>
    sumValues (groupCommitments s r1) fun c => evalCommitment c id.toScalar
  verifyingKey := groupKey s r1

def longTermShare (s : Round2SecretPackage F G) (r2 : BTreeMap (Identifier F) (Round2Package F)) : F :=
  s.secretShare + sumValues r2 fun p => p.signingShare

variable (core : FrostCore F G Rng)

def keyOf (s : Round2SecretPackage F G) (r1 : BTreeMap (Identifier F) (Round1Package F G))
    (r2 : BTreeMap (Identifier F) (Round2Package F)) : KeyPackage F G where
  identifier := s.identifier
  signingShare := longTermShare s r2
  verifyingShare := longTermShare s r2 • core.generator
  verifyingKey := groupKey s r1
  minSigners := s.minSigners

/-- A round-1 secret for these parameters, and the package that publishes it. -/
structure IsRound1 (id : Identifier F) (maxSigners minSigners : UInt16)
    (s : Round1SecretPackage F G) (p : Round1Package F G) : Prop where
  identifier : s.identifier = id
  length : s.coefficients.length = minSigners.toNat
  commitment : s.commitment = s.coefficients.map (· • core.generator)
  minSigners : s.minSigners = minSigners
  maxSigners : s.maxSigners = maxSigners
  published : p.commitment = s.commitment
  proof : core.verifyProofOfKnowledge id p.commitment p.proofOfKnowledge = true

/-- What `part2` accepts: a package from each other participant, each with as many
commitments as the threshold and a valid proof of knowledge. -/
structure Part2Accepts (s : Round1SecretPackage F G)
    (r1 : BTreeMap (Identifier F) (Round1Package F G)) : Prop where
  size : r1.size = (s.maxSigners - 1).toNat
  length : ∀ (id : Identifier F) (p : Round1Package F G), r1[id]? = some p →
    p.commitment.length = s.minSigners.toNat
  proof : ∀ (id : Identifier F) (p : Round1Package F G), r1[id]? = some p →
    core.verifyProofOfKnowledge id p.commitment p.proofOfKnowledge = true

/-- What `part3` accepts: both rounds of the same participants, each share on the sender's
committed polynomial. -/
structure Part3Accepts (s : Round2SecretPackage F G)
    (r1 : BTreeMap (Identifier F) (Round1Package F G))
    (r2 : BTreeMap (Identifier F) (Round2Package F)) : Prop where
  size : r1.size = (s.maxSigners - 1).toNat
  keys : ∀ id, id ∈ r1 ↔ id ∈ r2
  length : s.commitment ≠ [] ∧
    ∀ (id : Identifier F) (p : Round1Package F G), r1[id]? = some p → p.commitment.length = s.commitment.length
  share : ∀ (id : Identifier F) (p : Round1Package F G) (q : Round2Package F), r1[id]? = some p → r2[id]? = some q →
    q.signingShare • core.generator = evalCommitment p.commitment s.identifier.toScalar

/-- What the ceremonies rely on. The maps of `part2` and `part3` hold the packages of the
other participants. -/
structure Documented : Prop where
  natCast_injective : ∀ m n : UInt16, (m.toNat : F) = n.toNat → m = n
  generator_ne_zero : core.generator ≠ 0
  part1_ok : ∀ id maxSigners minSigners rng, 2 ≤ minSigners → minSigners ≤ maxSigners →
    ∃ s p, core.part1 id maxSigners minSigners rng = .ok (s, p) ∧
      core.IsRound1 id maxSigners minSigners s p ∧ ∃ b, core.serializeRound1 p = some b
  part1_params : ∀ id maxSigners minSigners rng r,
    core.part1 id maxSigners minSigners rng = .ok r → 2 ≤ minSigners ∧ minSigners ≤ maxSigners
  part2_ok_iff : ∀ s r1, s.identifier ∉ r1 →
    ((∃ r, core.part2 s r1 = .ok r) ↔ core.Part2Accepts s r1)
  part2_eq : ∀ s r1 s2 r2, core.part2 s r1 = .ok (s2, r2) →
    s2 = {
      identifier := s.identifier
      commitment := s.commitment
      secretShare := evalPoly s.coefficients s.identifier.toScalar
      minSigners := s.minSigners
      maxSigners := s.maxSigners } ∧
    r2 = r1.map fun id _ => { signingShare := evalPoly s.coefficients id.toScalar }
  part3_ok_iff : ∀ s r1 r2, s.identifier ∉ r1 →
    ((∃ r, core.part3 s r1 r2 = .ok r) ↔ core.Part3Accepts s r1 r2)
  part3_eq : ∀ s r1 r2 k p, core.part3 s r1 r2 = .ok (k, p) →
    k = core.keyOf s r1 r2 ∧ p = publicKeys s r1
  proof_ok_iff : ∀ id a cs rng,
    (∃ σ, core.computeProofOfKnowledge id (a :: cs) ((a :: cs).map (· • core.generator)) rng
      = .ok σ) ↔ a ≠ 0
  proof_valid : ∀ id cs rng σ,
    core.computeProofOfKnowledge id cs (cs.map (· • core.generator)) rng = .ok σ →
      core.verifyProofOfKnowledge id (cs.map (· • core.generator)) σ = true ∧
      -- the identity element has no encoding
      ((∃ b, core.serializeRound1 ⟨cs.map (· • core.generator), σ⟩ = some b) ↔ ∀ c ∈ cs, c ≠ 0)
  identifier_injective : ∀ id id', core.serializeIdentifier id = core.serializeIdentifier id' →
    id = id'
  identifier_roundtrip : ∀ id, core.deserializeIdentifier (core.serializeIdentifier id) = some id
  round1_roundtrip : ∀ p b, core.serializeRound1 p = some b → core.deserializeRound1 b = some p
  round2_ok : ∀ p, ∃ b, core.serializeRound2 p = some b
  round2_roundtrip : ∀ p b, core.serializeRound2 p = some b → core.deserializeRound2 b = some p
  round1_not_round2 : ∀ p b, core.serializeRound1 p = some b → core.deserializeRound2 b = none
  round2_not_round1 : ∀ p b, core.serializeRound2 p = some b → core.deserializeRound1 b = none
  verifyingKey_injective : ∀ g g' b, core.serializeVerifyingKey g = some b →
    core.serializeVerifyingKey g' = some b → g = g'
  verifyingKey_ok_iff : ∀ g, (∃ b, core.serializeVerifyingKey g = some b) ↔ g ≠ 0

end FrostCore

/-! ## Identifiers of participants -/

namespace FrostCore.Documented

variable {core : FrostCore F G Rng} (doc : core.Documented)
include doc

theorem natCast_ne_zero {n : UInt16} (hn : n ≠ 0) : (n.toNat : F) ≠ 0 := by
  intro h
  exact hn (doc.natCast_injective n 0 (by simpa using h))

theorem tryFrom_eq_some_iff {n : UInt16} {id : Identifier F} :
    Identifier.tryFrom n = some id ↔ id.toScalar = n.toNat := by
  unfold Identifier.tryFrom
  split
  · next h =>
    rw [Option.some_inj]
    constructor
    · rintro rfl
      rfl
    · intro h'
      exact Identifier.ext h'.symm
  · next h =>
    rw [not_not] at h
    simp only [reduceCtorEq, false_iff]
    intro h'
    exact id.ne_zero (h'.trans h)

theorem exists_tryFrom {n : UInt16} (hn : n ≠ 0) :
    ∃ id : Identifier F, Identifier.tryFrom n = some id :=
  ⟨⟨n.toNat, doc.natCast_ne_zero hn⟩, doc.tryFrom_eq_some_iff.mpr rfl⟩

theorem tryFrom_inj {m n : UInt16} {id : Identifier F} (hm : Identifier.tryFrom m = some id)
    (hn : Identifier.tryFrom n = some id) : m = n := by
  refine doc.natCast_injective m n ?_
  rw [← doc.tryFrom_eq_some_iff.mp hm, doc.tryFrom_eq_some_iff.mp hn]

theorem ne_zero_of_tryFrom {n : UInt16} {id : Identifier F} (h : Identifier.tryFrom n = some id) :
    n ≠ 0 := by
  rintro rfl
  exact id.ne_zero (by simpa using doc.tryFrom_eq_some_iff.mp h)

end FrostCore.Documented
