import FrostZm.Ceremony.KeyImport

/-!
# Resharing

A DKG in which the old participants contribute their shares of the old key, weighted so
that they add up to it, and each joining participant contributes one.
-/

set_option linter.unusedSectionVars false

variable {F G Rng : Type} [Field F] [DecidableEq F] [Ord F] [Std.TransOrd F] [Std.LawfulEqOrd F]
  [AddCommGroup G] [Module F G]

namespace Ceremony

variable (core : FrostCore F G Rng)

/-- The loop of `decode_old_identifiers`: two bytes for each identifier. -/
def oldIdentifiers : Bytes → Result (List (Identifier F))
  | b₀ :: b₁ :: rest => do
    let id ← okOr .invalidIdentifier (Identifier.tryFrom (u16FromLeBytes [b₀, b₁]))
    let ids ← oldIdentifiers rest
    return id :: ids
  | _ => return []

def decodeOldIdentifiers (data : Bytes) : Result (List (Identifier F)) :=
  if data.length % 2 ≠ 0 then .error (LibError.serializationError : Fault) else oldIdentifiers data

/-- `F::invert` -/
def invert (x : F) : Option F := if x = 0 then none else some x⁻¹

/-- One turn of the loop in `lagrange_coeff`, on the numerator and the denominator. -/
def lagrangeStep (myId : Identifier F) (nd : F × F) (id : Identifier F) : F × F :=
  if id = myId then nd
  else (nd.1 * id.toScalar, nd.2 * (id.toScalar - myId.toScalar))

def lagrangeCoeff (myId : Identifier F) (allIds : List (Identifier F)) : Result F := do
  let (num, den) := allIds.foldl (lagrangeStep myId) (1, 1)
  let denInv ← okOr .reshareError (invert den)
  return num * denInv

/-- `ids.iter().min()` -/
def minIdentifier : List (Identifier F) → Option (Identifier F)
  | [] => none
  | id :: ids => some (ids.foldl (fun m x => if compare x m = .lt then x else m) id)

def computeAdditiveShare (keyPackage : KeyPackage F G) (oldIds : List (Identifier F))
    (maxSigners : UInt16) : Result F := do
  if maxSigners < .ofNat oldIds.length then
    throw (LibError.reshareError : Fault)
  let li ← lagrangeCoeff keyPackage.identifier oldIds
  let share := keyPackage.signingShare * li
  let numNew := maxSigners - .ofNat oldIds.length
  let minOldId ← okOr .reshareError (minIdentifier oldIds)
  return if keyPackage.identifier = minOldId then subOnes numNew.toNat share else share

def resharePart1 (id maxSigners minSigners : UInt16) (additiveShare : F) (rng : Rng) :
    Result (Round1SecretPackage F G × Bytes) :=
  constantPart1 core .reshareError id maxSigners minSigners additiveShare rng

def resharePart3 (secret : Round2SecretPackage F G)
    (round1PackagesData round2PackagesData expectedVerifyingKey : Bytes) :
    Result (KeyPackage F G × PublicKeyPackage F G) :=
  checkedPart3 core .reshareError secret round1PackagesData round2PackagesData expectedVerifyingKey

def reshareRun (myId maxSigners minSigners : UInt16) (additiveShare : F) (expectedVk : Bytes)
    (rng : Rng) : Ceremony (KeyPackage F G × PublicKeyPackage F G) := do
  let idMap ← buildIdMap core maxSigners
  let (secret1, r1Bytes) ← resharePart1 core myId maxSigners minSigners additiveShare rng
  let (keyPackage, pubKeyPackage) ← runRounds core maxSigners idMap secret1 r1Bytes
  let vkBytes ← okOr .serializationError (core.serializeVerifyingKey pubKeyPackage.verifyingKey)
  if vkBytes ≠ expectedVk then
    .fail LibError.reshareError
  else
    return (keyPackage, pubKeyPackage)

/-! ## Old identifiers -/

theorem decodeOldIdentifiers_flatMap {l : List UInt16} {ids : List (Identifier F)}
    (h : l.mapM Identifier.tryFrom = some ids) :
    decodeOldIdentifiers (l.flatMap u16ToLeBytes) = .ok ids := by
  have hread : ∀ {l : List UInt16} {ids : List (Identifier F)}, l.mapM Identifier.tryFrom = some ids →
      oldIdentifiers (l.flatMap u16ToLeBytes) = .ok ids := by
    intro l
    induction l with
    | nil =>
      rintro ids h
      obtain rfl := Option.some.inj h
      rfl
    | cons x l ih =>
      intro ids h
      rw [List.mapM_cons] at h
      obtain ⟨id, hid, h⟩ := Option.bind_eq_some_iff.mp h
      obtain ⟨ids', hids, h⟩ := Option.bind_eq_some_iff.mp h
      obtain rfl := Option.some.inj h
      obtain ⟨b₀, b₁, hx⟩ := List.length_eq_two.mp (length_u16ToLeBytes x)
      rw [List.flatMap_cons, hx, List.cons_append, List.cons_append, List.nil_append]
      refine bind_eq_ok.mpr ⟨id, ?_, bind_eq_ok.mpr ⟨ids', ih hids, rfl⟩⟩
      rw [← hx, u16FromLeBytes_toLeBytes, hid, okOr_some]
  have hlen : (l.flatMap u16ToLeBytes).length = 2 * l.length := by
    simp [List.length_flatMap, mul_comm]
  unfold decodeOldIdentifiers
  rw [if_neg (by omega), hread h]

/-! ## Lagrange coefficients -/

variable {myId : Identifier F} {ids : List (Identifier F)}

/-- The points of the identifiers other than one's own. -/
def otherPoints (myId : Identifier F) (ids : List (Identifier F)) : List F :=
  (ids.filter (· ≠ myId)).map Identifier.toScalar

theorem foldl_lagrangeStep (myId : Identifier F) (ids : List (Identifier F)) (nd : F × F) :
    ids.foldl (lagrangeStep myId) nd =
      (nd.1 * (otherPoints myId ids).prod,
        nd.2 * ((otherPoints myId ids).map (· - myId.toScalar)).prod) := by
  induction ids generalizing nd with
  | nil => simp [otherPoints]
  | cons id ids ih =>
    rw [List.foldl_cons, ih]
    by_cases h : id = myId
    · simp [lagrangeStep, otherPoints, h]
    · simp [lagrangeStep, otherPoints, h, mul_assoc]

theorem toScalar_injective : Function.Injective (Identifier.toScalar : Identifier F → F) :=
  fun _ _ h => Identifier.ext h

theorem nodup_otherPoints (hn : ids.Nodup) : (otherPoints myId ids).Nodup :=
  (hn.filter _).map toScalar_injective

theorem toFinset_otherPoints :
    (otherPoints myId ids).toFinset =
      (ids.map Identifier.toScalar).toFinset.erase myId.toScalar := by
  ext x
  simp only [otherPoints, List.mem_toFinset, List.mem_map, List.mem_filter, decide_eq_true_eq,
    Finset.mem_erase]
  constructor
  · rintro ⟨id, ⟨hid, hne⟩, rfl⟩
    exact ⟨fun h => hne (Identifier.ext h), id, hid, rfl⟩
  · rintro ⟨hne, id, hid, rfl⟩
    exact ⟨id, ⟨hid, fun h => hne (h ▸ rfl)⟩, rfl⟩

theorem lagrangeCoeff_ok (hn : ids.Nodup) (myId : Identifier F) :
    lagrangeCoeff myId ids =
      .ok (Shamir.weight (ids.map Identifier.toScalar).toFinset myId.toScalar) := by
  have hnum : (otherPoints myId ids).prod =
      ∏ y ∈ (ids.map Identifier.toScalar).toFinset.erase myId.toScalar, y := by
    rw [← toFinset_otherPoints, List.prod_toFinset _ (nodup_otherPoints hn), List.map_id']
  have hden : ((otherPoints myId ids).map (· - myId.toScalar)).prod =
      ∏ y ∈ (ids.map Identifier.toScalar).toFinset.erase myId.toScalar, (y - myId.toScalar) := by
    rw [← toFinset_otherPoints, List.prod_toFinset _ (nodup_otherPoints hn)]
  have hne : ((otherPoints myId ids).map (· - myId.toScalar)).prod ≠ 0 := by
    rw [hden, Finset.prod_ne_zero_iff]
    intro y hy
    exact sub_ne_zero.mpr (Finset.ne_of_mem_erase hy)
  unfold lagrangeCoeff
  rw [foldl_lagrangeStep, one_mul, one_mul]
  simp only [invert, if_neg hne, okOr_some]
  refine congrArg Except.ok ?_
  rw [hnum, hden, ← div_eq_mul_inv, ← Finset.prod_div_distrib, Shamir.weight]

end Ceremony
