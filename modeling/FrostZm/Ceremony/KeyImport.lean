import FrostZm.Ceremony.Deal

/-!
# Key import

A DKG in which one party's constant term carries an existing key: each other party
contributes one, and the seed holder the key less that.
-/

set_option linter.unusedSectionVars false

variable {F G Rng : Type} [Field F] [DecidableEq F] [Ord F] [Std.TransOrd F] [Std.LawfulEqOrd F]
  [AddCommGroup G] [Module F G]

namespace Ceremony

variable (core : FrostCore F G Rng)

/-- `F::random(&mut rng)`, `n` times. -/
def drawScalars : Nat → Rng → List F × Rng
  | 0, rng => ([], rng)
  | n + 1, rng =>
    let (c, rng) := core.random rng
    let (cs, rng) := drawScalars n rng
    (c :: cs, rng)

theorem length_drawScalars (n : Nat) (rng : Rng) : (drawScalars core n rng).1.length = n := by
  induction n generalizing rng with
  | zero => rfl
  | succ n ih => simp [drawScalars, ih]

/-- The coefficients of a contribution: the given constant term and random ones. -/
def contribution (minSigners : UInt16) (constantTerm : F) (rng : Rng) : List F :=
  constantTerm :: (drawScalars core (minSigners.toNat - 1) rng).1

/-- Round 1 with a chosen constant term, as `key_import_part1` and `reshare_part1` build it;
they differ in the code of a failed proof. The thresholds are not checked. -/
def constantPart1 (failure : LibError) (id maxSigners minSigners : UInt16) (constantTerm : F)
    (rng : Rng) : Result (Round1SecretPackage F G × Bytes) := do
  let ident ← okOr .invalidIdentifier (Identifier.tryFrom id)
  let rng' := (drawScalars core (minSigners.toNat - 1) rng).2
  let coefficients := contribution core minSigners constantTerm rng
  let commitment := coefficients.map (· • core.generator)
  let proof ← blameErr core failure (core.computeProofOfKnowledge ident coefficients commitment rng')
  let secret : Round1SecretPackage F G :=
    { identifier := ident, coefficients, commitment, minSigners, maxSigners }
  let pkgBytes ← okOr .serializationError (core.serializeRound1 ⟨commitment, proof⟩)
  return (secret, pkgBytes)

def keyImportPart1 (id maxSigners minSigners : UInt16) (constantTerm : F) (rng : Rng) :
    Result (Round1SecretPackage F G × Bytes) :=
  constantPart1 core .keyImportError id maxSigners minSigners constantTerm rng

/-- Round 3 and the comparison of the new verifying key with the expected one. -/
def checkedPart3 (failure : LibError) (secret : Round2SecretPackage F G)
    (round1PackagesData round2PackagesData expectedVerifyingKey : Bytes) :
    Result (KeyPackage F G × PublicKeyPackage F G) := do
  let (keyPackage, pubKeyPackage) ← dkgPart3 core secret round1PackagesData round2PackagesData
  let vkBytes ← okOr .serializationError (core.serializeVerifyingKey pubKeyPackage.verifyingKey)
  if vkBytes ≠ expectedVerifyingKey then
    throw (failure : Fault)
  return (keyPackage, pubKeyPackage)

def keyImportPart3 (secret : Round2SecretPackage F G)
    (round1PackagesData round2PackagesData expectedVerifyingKey : Bytes) :
    Result (KeyPackage F G × PublicKeyPackage F G) :=
  checkedPart3 core .keyImportError secret round1PackagesData round2PackagesData expectedVerifyingKey

/-- `for _ in 0..n { s = s - F::one(); }` -/
def subOnes : Nat → F → F
  | 0, s => s
  | n + 1, s => subOnes n (s - 1)

theorem subOnes_eq (n : Nat) (s : F) : subOnes n s = s - n := by
  induction n generalizing s with
  | zero => simp [subOnes]
  | succ n ih =>
    rw [subOnes, ih, Nat.cast_succ]
    ring

def deriveConstantTerm (skScalar : F) (maxSigners : UInt16) : F :=
  subOnes (maxSigners - 1).toNat skScalar

def keyImportRun (myId maxSigners minSigners : UInt16) (constantTerm : F) (rng : Rng) :
    Ceremony (KeyPackage F G × PublicKeyPackage F G) := do
  let idMap ← buildIdMap core maxSigners
  let (secret1, r1Bytes) ← keyImportPart1 core myId maxSigners minSigners constantTerm rng
  runRounds core maxSigners idMap secret1 r1Bytes

/-! ## What round 1 returns -/

variable {core}

theorem constantPart1_ok {failure : LibError} {id maxSigners minSigners : UInt16} {constantTerm : F}
    {rng : Rng} {s : Round1SecretPackage F G} {b : Bytes}
    (h : constantPart1 core failure id maxSigners minSigners constantTerm rng = .ok (s, b)) :
    ∃ ident σ,
      Identifier.tryFrom id = some ident ∧
      core.computeProofOfKnowledge ident (contribution core minSigners constantTerm rng)
        ((contribution core minSigners constantTerm rng).map (· • core.generator))
        (drawScalars core (minSigners.toNat - 1) rng).2 = .ok σ ∧
      s = {
        identifier := ident
        coefficients := contribution core minSigners constantTerm rng
        commitment := (contribution core minSigners constantTerm rng).map (· • core.generator)
        minSigners, maxSigners } ∧
      core.serializeRound1 ⟨s.commitment, σ⟩ = some b := by
  unfold constantPart1 at h
  obtain ⟨ident, hid, h⟩ := bind_eq_ok.mp h
  obtain ⟨σ, hσ, h⟩ := bind_eq_ok.mp h
  obtain ⟨b', hb, h⟩ := bind_eq_ok.mp h
  obtain ⟨rfl, rfl⟩ := Prod.mk.inj (Except.ok.inj h)
  rw [okOr_eq_ok] at hid hb
  rw [blameErr_eq_ok] at hσ
  exact ⟨ident, σ, hid, hσ, rfl, hb⟩

theorem length_contribution {minSigners : UInt16} (hmin : minSigners ≠ 0) (constantTerm : F)
    (rng : Rng) : (contribution core minSigners constantTerm rng).length = minSigners.toNat := by
  have hpos : minSigners.toNat ≠ 0 := fun h => hmin (UInt16.toNat_inj.mp h)
  rw [contribution, List.length_cons, length_drawScalars]
  omega

theorem isRound1_of_constantPart1 (doc : core.Documented) {failure : LibError}
    {id maxSigners minSigners : UInt16} {constantTerm : F} {rng : Rng}
    {s : Round1SecretPackage F G} {b : Bytes} (hmin : minSigners ≠ 0)
    (h : constantPart1 core failure id maxSigners minSigners constantTerm rng = .ok (s, b)) :
    ∃ ident p, Identifier.tryFrom id = some ident ∧ core.IsRound1 ident maxSigners minSigners s p ∧
      core.serializeRound1 p = some b ∧ s.coefficients.headD 0 = constantTerm := by
  obtain ⟨ident, σ, hid, hσ, rfl, hb⟩ := constantPart1_ok h
  refine ⟨ident, ⟨_, σ⟩, hid, ?_, hb, rfl⟩
  exact {
    identifier := rfl
    length := length_contribution hmin constantTerm rng
    commitment := rfl
    minSigners := rfl
    maxSigners := rfl
    published := rfl
    proof := (doc.proof_valid _ _ _ _ hσ).1 }

theorem exists_deal (doc : core.Documented) {failure : LibError} {maxSigners minSigners : UInt16}
    (hmin : minSigners ≠ 0) {ids : List UInt16} (hnodup : ids.Nodup)
    (hlen : ids.length = maxSigners.toNat) {term : UInt16 → F} {rng : UInt16 → Rng}
    {secret : UInt16 → Round1SecretPackage F G} {bytes : UInt16 → Bytes}
    (h : ∀ p ∈ ids, constantPart1 core failure p maxSigners minSigners (term p) (rng p) =
      .ok (secret p, bytes p)) :
    ∃ deal : Deal core maxSigners minSigners, deal.ids = ids ∧ deal.secret = secret ∧
      ∀ p ∈ ids, core.serializeRound1 (deal.package p) = some (bytes p) ∧
        deal.constantTerm p = term p := by
  have hparts := fun p hp => isRound1_of_constantPart1 doc hmin (h p hp)
  choose! ident package htry hround hser hterm using hparts
  exact ⟨⟨ids, ident, secret, package, hnodup, hlen, htry, hround⟩, rfl, rfl,
    fun p hp => ⟨hser p hp, hterm p hp⟩⟩

theorem constantPart1_isOk_iff (doc : core.Documented) {failure : LibError}
    {id maxSigners minSigners : UInt16} {constantTerm : F} {rng : Rng} (hid : id ≠ 0) :
    (∃ r, constantPart1 core failure id maxSigners minSigners constantTerm rng = .ok r) ↔
      ∀ c ∈ contribution core minSigners constantTerm rng, c ≠ 0 := by
  obtain ⟨ident, hident⟩ := doc.exists_tryFrom hid
  constructor
  · rintro ⟨⟨s, b⟩, h⟩
    obtain ⟨ident', σ, -, hσ, rfl, hb⟩ := constantPart1_ok h
    exact (doc.proof_valid _ _ _ _ hσ).2.mp ⟨b, hb⟩
  · intro hc
    obtain ⟨σ, hσ⟩ := (doc.proof_ok_iff ident constantTerm
      (drawScalars core (minSigners.toNat - 1) rng).1
      (drawScalars core (minSigners.toNat - 1) rng).2).mpr (hc _ List.mem_cons_self)
    obtain ⟨b, hb⟩ := (doc.proof_valid _ _ _ _ hσ).2.mpr hc
    refine ⟨({
      identifier := ident
      coefficients := contribution core minSigners constantTerm rng
      commitment := (contribution core minSigners constantTerm rng).map (· • core.generator)
      minSigners, maxSigners }, b), ?_⟩
    refine bind_eq_ok.mpr ⟨ident, okOr_eq_ok.mpr hident, ?_⟩
    refine bind_eq_ok.mpr ⟨σ, (blameErr_eq_ok core).mpr hσ, ?_⟩
    exact bind_eq_ok.mpr ⟨b, okOr_eq_ok.mpr hb, rfl⟩

end Ceremony
