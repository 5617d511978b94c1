import FrostZm.Ffi.Codec
import FrostZm.Frost.Core
import Mathlib.FieldTheory.Finite.Basic
import Mathlib.Tactic.NormNum.Prime

/-!
# A small FROST

FROST over the field of 65537 elements, whose additive group is also its group. It follows
the library step by step on scalars small enough to compute with, and meets what
`FrostCore.Documented` says.
-/

open Shamir

namespace Reference

abbrev Scalar := ZMod 65537

instance fact_prime : Fact (Nat.Prime 65537) := ⟨by norm_num⟩

instance : Ord Scalar := ⟨compareOn ZMod.val⟩
instance : Std.TransOrd Scalar := inferInstanceAs (Std.TransCmp (compareOn ZMod.val))
instance : Std.LawfulEqOrd Scalar where
  compare_self := Std.ReflOrd.compare_self
  eq_of_compare h := ZMod.val_injective _ (Std.LawfulEqOrd.eq_of_compare h)

instance transOrd_identifier : Std.TransOrd (Identifier Scalar) := inferInstance

-- the literals of the samples, as scalars
instance atLeastTwo_two : Nat.AtLeastTwo 2 := ⟨by decide⟩
instance atLeastTwo_three : Nat.AtLeastTwo 3 := ⟨by decide⟩
instance atLeastTwo_five : Nat.AtLeastTwo 5 := ⟨by decide⟩
instance atLeastTwo_seven : Nat.AtLeastTwo 7 := ⟨by decide⟩
instance atLeastTwo_nine : Nat.AtLeastTwo 9 := ⟨by decide⟩

theorem nodup_sampleIds : ([1, 2, 3] : List UInt16).Nodup := by decide

theorem length_sampleIds : ([1, 2, 3] : List UInt16).length = (3 : UInt16).toNat := rfl

/-! ## Encodings -/

def encodeScalar (x : Scalar) : Bytes := LittleEndian.bytesOf 32 x.val

def encodeScalars (l : List Scalar) : Bytes := l.flatMap encodeScalar

/-- Exactly `n` scalars of 32 bytes each, all of them reduced. -/
def decodeScalars : Nat → Bytes → Option (List Scalar)
  | 0, [] => some []
  | 0, _ => none
  | n + 1, b =>
    if b.length < 32 ∨ 65537 ≤ LittleEndian.value (b.take 32) then none
    else (decodeScalars n (b.drop 32)).map ((LittleEndian.value (b.take 32) : Scalar) :: ·)

/-- A tagged list of scalars, as many as the bytes hold. -/
def decodeTagged (tag : UInt8) : Bytes → Option (List Scalar)
  | [] => none
  | t :: b => if t = tag then decodeScalars (b.length / 32) b else none

@[simp] theorem length_encodeScalar (x : Scalar) : (encodeScalar x).length = 32 :=
  LittleEndian.length_bytesOf 32 _

theorem value_encodeScalar (x : Scalar) : LittleEndian.value (encodeScalar x) = x.val :=
  LittleEndian.value_bytesOf_of_lt (x.val_lt.trans (by norm_num))

theorem length_encodeScalars (l : List Scalar) : (encodeScalars l).length = 32 * l.length := by
  induction l with
  | nil => rfl
  | cons x l ih =>
    rw [encodeScalars, List.flatMap_cons, List.length_append, length_encodeScalar,
      ← encodeScalars, ih, List.length_cons]
    omega

theorem decodeScalars_encode (l : List Scalar) :
    decodeScalars l.length (encodeScalars l) = some l := by
  induction l with
  | nil => rfl
  | cons x l ih =>
    have happ : encodeScalars (x :: l) = encodeScalar x ++ encodeScalars l := by
      rw [encodeScalars, List.flatMap_cons, encodeScalars]
    have htake : (encodeScalars (x :: l)).take 32 = encodeScalar x := by
      rw [happ, List.take_left' (length_encodeScalar x)]
    have hdrop : (encodeScalars (x :: l)).drop 32 = encodeScalars l := by
      rw [happ, List.drop_left' (length_encodeScalar x)]
    have hlen := length_encodeScalars (x :: l)
    have hval := x.val_lt
    rw [List.length_cons, decodeScalars, if_neg, htake, hdrop, ih, value_encodeScalar, Option.map_some,
      ZMod.natCast_zmod_val]
    rw [htake, value_encodeScalar, hlen, List.length_cons]
    omega

theorem decodeTagged_encode (tag : UInt8) (l : List Scalar) :
    decodeTagged tag (tag :: encodeScalars l) = some l := by
  have hdiv : (encodeScalars l).length / 32 = l.length := by
    rw [length_encodeScalars]
    omega
  rw [decodeTagged, if_pos rfl, hdiv, decodeScalars_encode]

theorem decodeTagged_of_ne {tag t : UInt8} (h : t ≠ tag) (b : Bytes) :
    decodeTagged tag (t :: b) = none := if_neg h

/-! ## Packages -/

def serializeRound1 (p : Round1Package Scalar Scalar) : Option Bytes :=
  if p.proofOfKnowledge.r ≠ 0 ∧ p.commitment.all (· ≠ 0) then
    some (1 :: encodeScalars (p.proofOfKnowledge.r :: p.proofOfKnowledge.z :: p.commitment))
  else none

def deserializeRound1 (b : Bytes) : Option (Round1Package Scalar Scalar) :=
  match decodeTagged 1 b with
  | some (r :: z :: commitment) => some ⟨commitment, ⟨r, z⟩⟩
  | _ => none

def serializeRound2 (p : Round2Package Scalar) : Option Bytes :=
  some (2 :: encodeScalars [p.signingShare])

def deserializeRound2 (b : Bytes) : Option (Round2Package Scalar) :=
  match decodeTagged 2 b with
  | some [x] => some ⟨x⟩
  | _ => none

def deserializeIdentifier (b : Bytes) : Option (Identifier Scalar) :=
  match decodeScalars 1 b with
  | some [x] => if h : x ≠ 0 then some ⟨x, h⟩ else none
  | _ => none

def serializeVerifyingKey (g : Scalar) : Option Bytes :=
  if g ≠ 0 then some (encodeScalar g) else none

/-! ## Key generation -/

/-- A generator that never draws zero. -/
def random (rng : Nat) : Scalar × Nat := ((rng % 65536 + 1 : ℕ), rng + 1)

def draw : Nat → Nat → List Scalar
  | 0, _ => []
  | n + 1, rng => (random rng).1 :: draw n (rng + 1)

/-- The Schnorr challenge, with a sum for the hash. -/
def challenge (id : Identifier Scalar) (key r : Scalar) : Scalar := id.toScalar + key + r + 1

def computeProofOfKnowledge (id : Identifier Scalar) (coefficients commitment : List Scalar)
    (rng : Nat) : Except (FrostError Scalar) (Signature Scalar Scalar) :=
  match coefficients with
  | [] => .error ⟨none⟩
  | a :: _ =>
    if commitment.headD 0 = 0 then .error ⟨none⟩
    else
      let k := (random rng).1
      .ok ⟨k, k + a * challenge id (commitment.headD 0) k⟩

def verifyProofOfKnowledge (id : Identifier Scalar) (commitment : List Scalar)
    (σ : Signature Scalar Scalar) : Bool :=
  decide (σ.z - commitment.headD 0 * challenge id (commitment.headD 0) σ.r = σ.r)

def secretOf (id : Identifier Scalar) (maxSigners minSigners : UInt16) (rng : Nat) :
    Round1SecretPackage Scalar Scalar where
  identifier := id
  coefficients := draw minSigners.toNat rng
  commitment := draw minSigners.toNat rng
  minSigners := minSigners
  maxSigners := maxSigners

def part1 (id : Identifier Scalar) (maxSigners minSigners : UInt16) (rng : Nat) :
    Except (FrostError Scalar) (Round1SecretPackage Scalar Scalar × Round1Package Scalar Scalar) :=
  if 2 ≤ minSigners ∧ minSigners ≤ maxSigners then do
    let coefficients := draw minSigners.toNat rng
    let σ ← computeProofOfKnowledge id coefficients coefficients (rng + minSigners.toNat)
    return (secretOf id maxSigners minSigners rng, ⟨coefficients, σ⟩)
  else .error ⟨none⟩

abbrev Round1Map := BTreeMap (Identifier Scalar) (Round1Package Scalar Scalar)
abbrev Round2Map := BTreeMap (Identifier Scalar) (Round2Package Scalar)

def part2 (s : Round1SecretPackage Scalar Scalar) (r1 : Round1Map) :
    Except (FrostError Scalar) (Round2SecretPackage Scalar Scalar × Round2Map) :=
  if r1.size ≠ (s.maxSigners - 1).toNat then .error ⟨none⟩
  else if ∃ e ∈ r1.toList, e.2.commitment.length ≠ s.minSigners.toNat then .error ⟨none⟩
  else
    match r1.toList.find? fun e => !verifyProofOfKnowledge e.1 e.2.commitment e.2.proofOfKnowledge with
    | some e => .error ⟨some e.1⟩
    | none => .ok (
      { identifier := s.identifier
        commitment := s.commitment
        secretShare := evalPoly s.coefficients s.identifier.toScalar
        minSigners := s.minSigners
        maxSigners := s.maxSigners },
      r1.map fun id _ => { signingShare := evalPoly s.coefficients id.toScalar })

/-- The received share of `e` does not lie on its sender's committed polynomial. -/
def badShare (s : Round2SecretPackage Scalar Scalar) (r2 : Round2Map)
    (e : Identifier Scalar × Round1Package Scalar Scalar) : Bool :=
  match r2[e.1]? with
  | some q => decide (q.signingShare ≠ evalCommitment e.2.commitment s.identifier.toScalar)
  | none => false

def keyOf (s : Round2SecretPackage Scalar Scalar) (r1 : Round1Map) (r2 : Round2Map) :
    KeyPackage Scalar Scalar where
  identifier := s.identifier
  signingShare := FrostCore.longTermShare s r2
  verifyingShare := FrostCore.longTermShare s r2
  verifyingKey := FrostCore.groupKey s r1
  minSigners := s.minSigners

def part3 (s : Round2SecretPackage Scalar Scalar) (r1 : Round1Map) (r2 : Round2Map) :
    Except (FrostError Scalar) (KeyPackage Scalar Scalar × PublicKeyPackage Scalar Scalar) :=
  if r1.size ≠ (s.maxSigners - 1).toNat then .error ⟨none⟩
  else if ¬ ((∀ e ∈ r1.toList, e.1 ∈ r2) ∧ ∀ e ∈ r2.toList, e.1 ∈ r1) then .error ⟨none⟩
  else if s.commitment = [] ∨ ∃ e ∈ r1.toList, e.2.commitment.length ≠ s.commitment.length then
    .error ⟨none⟩
  else
    match r1.toList.find? (badShare s r2) with
    | some e => .error ⟨some e.1⟩
    | none => .ok (keyOf s r1 r2, FrostCore.publicKeys s r1)

def core : FrostCore Scalar Scalar Nat where
  generator := 1
  random := random
  part1 := part1
  part2 := part2
  part3 := part3
  computeProofOfKnowledge := computeProofOfKnowledge
  verifyProofOfKnowledge := verifyProofOfKnowledge
  serializeIdentifier id := encodeScalar id.toScalar
  deserializeIdentifier := deserializeIdentifier
  serializeRound1 := serializeRound1
  deserializeRound1 := deserializeRound1
  serializeRound2 := serializeRound2
  deserializeRound2 := deserializeRound2
  serializeVerifyingKey := serializeVerifyingKey

/-! ## It does what the ceremonies rely on -/

theorem map_smul_generator (cs : List Scalar) : cs.map (· • core.generator) = cs := by
  simp [core]

theorem natCast_ne_zero_of_lt {n : Nat} (h0 : n ≠ 0) (h : n < 65537) : (n : Scalar) ≠ 0 := by
  rw [Ne, ZMod.natCast_eq_zero_iff]
  exact fun hd => h0 (Nat.eq_zero_of_dvd_of_lt hd h)

theorem random_ne_zero (rng : Nat) : (random rng).1 ≠ 0 := by
  have hlt := Nat.mod_lt rng (show 0 < 65536 by norm_num)
  exact natCast_ne_zero_of_lt (Nat.succ_ne_zero _) (by omega)

theorem length_draw (n rng : Nat) : (draw n rng).length = n := by
  induction n generalizing rng with
  | zero => rfl
  | succ n ih => rw [draw, List.length_cons, ih]

theorem draw_ne_zero (n rng : Nat) : ∀ c ∈ draw n rng, c ≠ 0 := by
  induction n generalizing rng with
  | zero => nofun
  | succ n ih =>
    rw [draw, List.forall_mem_cons]
    exact ⟨random_ne_zero rng, ih (rng + 1)⟩

theorem natCast_injective (m n : UInt16) (h : (m.toNat : Scalar) = n.toNat) : m = n := by
  have hm := m.toNat_lt
  have hn := n.toNat_lt
  rw [ZMod.natCast_eq_natCast_iff, Nat.ModEq, Nat.mod_eq_of_lt (by omega),
    Nat.mod_eq_of_lt (by omega)] at h
  exact UInt16.toNat_inj.mp h

theorem proof_valid {id : Identifier Scalar} {cs : List Scalar} {rng : Nat}
    {σ : Signature Scalar Scalar} (h : computeProofOfKnowledge id cs cs rng = .ok σ) :
    verifyProofOfKnowledge id cs σ = true ∧
      ((∃ b, serializeRound1 ⟨cs, σ⟩ = some b) ↔ ∀ c ∈ cs, c ≠ 0) := by
  cases cs with
  | nil => simp [computeProofOfKnowledge] at h
  | cons a cs =>
    simp only [computeProofOfKnowledge] at h
    split at h
    · simp at h
    · obtain rfl := Except.ok.inj h
      refine ⟨?_, ?_⟩
      · unfold verifyProofOfKnowledge
        rw [decide_eq_true_eq, List.headD_cons, add_sub_cancel_right]
      · unfold serializeRound1
        constructor
        · rintro ⟨b, hb⟩
          split at hb
          · next hc => simpa using hc.2
          · simp at hb
        · intro hc
          exact ⟨_, if_pos ⟨random_ne_zero rng, by simpa using hc⟩⟩

theorem proof_ok_iff (id : Identifier Scalar) (a : Scalar) (cs : List Scalar) (rng : Nat) :
    (∃ σ, computeProofOfKnowledge id (a :: cs) (a :: cs) rng = .ok σ) ↔ a ≠ 0 := by
  by_cases ha : a = 0 <;> simp [computeProofOfKnowledge, ha]

theorem part1_ok (id : Identifier Scalar) (maxSigners minSigners : UInt16) (rng : Nat)
    (h2 : 2 ≤ minSigners) (hle : minSigners ≤ maxSigners) :
    ∃ s p, part1 id maxSigners minSigners rng = .ok (s, p) ∧
      core.IsRound1 id maxSigners minSigners s p ∧ ∃ b, serializeRound1 p = some b := by
  have hpos : 2 ≤ minSigners.toNat := UInt16.le_iff_toNat_le.mp h2
  obtain ⟨a, cs, hdraw⟩ := List.exists_cons_of_length_pos
    (show 0 < (draw minSigners.toNat rng).length by rw [length_draw]; omega)
  have hne := draw_ne_zero minSigners.toNat rng
  obtain ⟨σ, hσ⟩ := (proof_ok_iff id a cs (rng + minSigners.toNat)).mpr
    (hne a (hdraw ▸ List.mem_cons_self))
  rw [← hdraw] at hσ
  obtain ⟨hver, hser⟩ := proof_valid hσ
  refine ⟨secretOf id maxSigners minSigners rng, _, ?_, ?_, hser.mpr hne⟩
  · unfold part1
    rw [if_pos ⟨h2, hle⟩]
    simp only [hσ]
    rfl
  · exact {
      identifier := rfl
      length := length_draw _ _
      commitment := (map_smul_generator _).symm
      minSigners := rfl
      maxSigners := rfl
      published := rfl
      proof := hver }

theorem part2_ok_iff (s : Round1SecretPackage Scalar Scalar) (r1 : Round1Map) :
    (∃ r, part2 s r1 = .ok r) ↔ core.Part2Accepts s r1 := by
  constructor
  · rintro ⟨r, h⟩
    unfold part2 at h
    split at h
    · simp at h
    split at h
    · simp at h
    split at h
    · simp at h
    · next hsize hlen _ hfind =>
      rw [List.find?_eq_none] at hfind
      push Not at hlen hsize
      refine ⟨hsize, ?_, ?_⟩
      · intro id p hp
        exact hlen (id, p) (Std.ExtTreeMap.mem_toList_iff_getElem?_eq_some.mpr hp)
      · intro id p hp
        have hv := hfind (id, p) (Std.ExtTreeMap.mem_toList_iff_getElem?_eq_some.mpr hp)
        simp only [core]
        simpa using hv
  · rintro ⟨hsize, hlen, hproof⟩
    have hlen' : ¬ ∃ e ∈ r1.toList, e.2.commitment.length ≠ s.minSigners.toNat := by
      rintro ⟨⟨id, p⟩, he, hne⟩
      exact hne (hlen id p (Std.ExtTreeMap.mem_toList_iff_getElem?_eq_some.mp he))
    have hfind : r1.toList.find? (fun e =>
        !verifyProofOfKnowledge e.1 e.2.commitment e.2.proofOfKnowledge) = none := by
      rw [List.find?_eq_none]
      rintro ⟨id, p⟩ he
      have hv := hproof id p (Std.ExtTreeMap.mem_toList_iff_getElem?_eq_some.mp he)
      simp only [core] at hv
      simp [hv]
    unfold part2
    rw [if_neg (not_not.mpr hsize), if_neg hlen', hfind]
    exact ⟨_, rfl⟩

theorem part3_ok_iff (s : Round2SecretPackage Scalar Scalar) (r1 : Round1Map) (r2 : Round2Map) :
    (∃ r, part3 s r1 r2 = .ok r) ↔ core.Part3Accepts s r1 r2 := by
  have hmem1 : ∀ {id : Identifier Scalar} {p : Round1Package Scalar Scalar},
      (id, p) ∈ r1.toList ↔ r1[id]? = some p := Std.ExtTreeMap.mem_toList_iff_getElem?_eq_some
  have hmem2 : ∀ {id : Identifier Scalar} {q : Round2Package Scalar},
      (id, q) ∈ r2.toList ↔ r2[id]? = some q := Std.ExtTreeMap.mem_toList_iff_getElem?_eq_some
  have hkeys : ((∀ e ∈ r1.toList, e.1 ∈ r2) ∧ ∀ e ∈ r2.toList, e.1 ∈ r1) ↔
      ∀ id, id ∈ r1 ↔ id ∈ r2 := by
    constructor
    · rintro ⟨h₁, h₂⟩ id
      constructor
      · intro h
        exact h₁ (id, r1[id]) (hmem1.mpr (Std.ExtTreeMap.getElem?_eq_some_getElem h))
      · intro h
        exact h₂ (id, r2[id]) (hmem2.mpr (Std.ExtTreeMap.getElem?_eq_some_getElem h))
    · intro h
      refine ⟨?_, ?_⟩
      · rintro ⟨id, p⟩ he
        exact (h id).mp (Std.ExtTreeMap.mem_iff_isSome_getElem?.mpr (by rw [hmem1.mp he]; rfl))
      · rintro ⟨id, q⟩ he
        exact (h id).mpr (Std.ExtTreeMap.mem_iff_isSome_getElem?.mpr (by rw [hmem2.mp he]; rfl))
  constructor
  · rintro ⟨r, h⟩
    unfold part3 at h
    split at h
    · simp at h
    split at h
    · simp at h
    split at h
    · simp at h
    split at h
    · simp at h
    · next hsize hk hlen _ hfind =>
      rw [List.find?_eq_none] at hfind
      push Not at hlen hsize
      rw [not_not] at hk
      refine ⟨hsize, hkeys.mp hk, ⟨hlen.1, fun id p hp => hlen.2 (id, p) (hmem1.mpr hp)⟩, ?_⟩
      intro id p q hp hq
      have hb := hfind (id, p) (hmem1.mpr hp)
      simp only [badShare, hq, ne_eq, decide_not, Bool.not_eq_true', decide_eq_false_iff_not,
        not_not] at hb
      simpa [core] using hb
  · rintro ⟨hsize, hk, ⟨hnil, hlen⟩, hshare⟩
    have hlen' : ¬ (s.commitment = [] ∨
        ∃ e ∈ r1.toList, e.2.commitment.length ≠ s.commitment.length) := by
      rintro (h | ⟨⟨id, p⟩, he, hne⟩)
      · exact hnil h
      · exact hne (hlen id p (hmem1.mp he))
    have hfind : r1.toList.find? (badShare s r2) = none := by
      rw [List.find?_eq_none]
      rintro ⟨id, p⟩ he hbad
      unfold badShare at hbad
      split at hbad
      · next q hq =>
        have hs := hshare id p q (hmem1.mp he) hq
        simp only [core, smul_eq_mul, mul_one] at hs
        exact (decide_eq_true_eq.mp hbad) hs
      · simp at hbad
    unfold part3
    rw [if_neg (not_not.mpr hsize), if_neg (not_not.mpr (hkeys.mpr hk)), if_neg hlen', hfind]
    exact ⟨_, rfl⟩

theorem part1_params {id : Identifier Scalar} {maxSigners minSigners : UInt16} {rng : Nat}
    {r : Round1SecretPackage Scalar Scalar × Round1Package Scalar Scalar}
    (h : part1 id maxSigners minSigners rng = .ok r) : 2 ≤ minSigners ∧ minSigners ≤ maxSigners := by
  unfold part1 at h
  split at h
  · assumption
  · simp at h

theorem part2_eq {s : Round1SecretPackage Scalar Scalar} {r1 : Round1Map}
    {s2 : Round2SecretPackage Scalar Scalar} {r2 : Round2Map} (h : part2 s r1 = .ok (s2, r2)) :
    s2 = {
      identifier := s.identifier
      commitment := s.commitment
      secretShare := evalPoly s.coefficients s.identifier.toScalar
      minSigners := s.minSigners
      maxSigners := s.maxSigners } ∧
    r2 = r1.map fun id _ => { signingShare := evalPoly s.coefficients id.toScalar } := by
  unfold part2 at h
  split at h
  · simp at h
  split at h
  · simp at h
  split at h
  · simp at h
  · obtain ⟨rfl, rfl⟩ := Prod.mk.inj (Except.ok.inj h)
    exact ⟨rfl, rfl⟩

theorem part3_eq {s : Round2SecretPackage Scalar Scalar} {r1 : Round1Map} {r2 : Round2Map}
    {k : KeyPackage Scalar Scalar} {p : PublicKeyPackage Scalar Scalar}
    (h : part3 s r1 r2 = .ok (k, p)) : k = core.keyOf s r1 r2 ∧ p = FrostCore.publicKeys s r1 := by
  have hkey : keyOf s r1 r2 = core.keyOf s r1 r2 := by
    simp [keyOf, FrostCore.keyOf, core]
  unfold part3 at h
  split at h
  · simp at h
  split at h
  · simp at h
  split at h
  · simp at h
  split at h
  · simp at h
  · obtain ⟨rfl, rfl⟩ := Prod.mk.inj (Except.ok.inj h)
    exact ⟨hkey, rfl⟩

theorem round1_roundtrip {p : Round1Package Scalar Scalar} {b : Bytes}
    (h : serializeRound1 p = some b) : deserializeRound1 b = some p ∧ deserializeRound2 b = none := by
  unfold serializeRound1 at h
  split at h
  · obtain rfl := Option.some.inj h
    unfold deserializeRound1 deserializeRound2
    rw [decodeTagged_encode, decodeTagged_of_ne (by decide)]
    exact ⟨rfl, rfl⟩
  · simp at h

theorem round2_roundtrip {p : Round2Package Scalar} {b : Bytes} (h : serializeRound2 p = some b) :
    deserializeRound2 b = some p ∧ deserializeRound1 b = none := by
  obtain rfl := Option.some.inj h
  unfold deserializeRound1 deserializeRound2
  rw [decodeTagged_encode, decodeTagged_of_ne (by decide)]
  exact ⟨rfl, rfl⟩

theorem encodeScalar_injective {x y : Scalar} (h : encodeScalar x = encodeScalar y) : x = y := by
  refine ZMod.val_injective _ ?_
  rw [← value_encodeScalar, h, value_encodeScalar]

theorem deserializeIdentifier_serialize (id : Identifier Scalar) :
    deserializeIdentifier (encodeScalar id.toScalar) = some id := by
  have h := decodeScalars_encode [id.toScalar]
  rw [encodeScalars, List.flatMap_singleton] at h
  unfold deserializeIdentifier
  rw [show decodeScalars 1 (encodeScalar id.toScalar) = some [id.toScalar] from h]
  exact dif_pos id.ne_zero

theorem documented : core.Documented where
  natCast_injective := natCast_injective
  generator_ne_zero := one_ne_zero
  part1_ok := part1_ok
  part1_params := fun _ _ _ _ _ h => part1_params h
  part2_ok_iff := fun s r1 _ => part2_ok_iff s r1
  part2_eq := fun _ _ _ _ h => part2_eq h
  part3_ok_iff := fun s r1 r2 _ => part3_ok_iff s r1 r2
  part3_eq := fun _ _ _ _ _ h => part3_eq h
  proof_ok_iff := by
    intro id a cs rng
    rw [map_smul_generator]
    exact proof_ok_iff id a cs rng
  proof_valid := by
    intro id cs rng σ h
    rw [map_smul_generator] at h ⊢
    exact proof_valid h
  identifier_injective := fun _ _ h => Identifier.ext (encodeScalar_injective h)
  identifier_roundtrip := by
    intro id
    simp only [core]
    exact deserializeIdentifier_serialize id
  round1_roundtrip := fun p b (h : serializeRound1 p = some b) => (round1_roundtrip h).1
  round2_ok := fun _ => ⟨_, rfl⟩
  round2_roundtrip := fun p b (h : serializeRound2 p = some b) => (round2_roundtrip h).1
  round1_not_round2 := fun p b (h : serializeRound1 p = some b) => (round1_roundtrip h).2
  round2_not_round1 := fun p b (h : serializeRound2 p = some b) => (round2_roundtrip h).2
  verifyingKey_injective := by
    intro g g' b h h'
    simp only [core, serializeVerifyingKey] at h h'
    split at h
    · split at h'
      · exact encodeScalar_injective ((Option.some.inj h).trans (Option.some.inj h').symm)
      · simp at h'
    · simp at h
  verifyingKey_ok_iff := by
    intro g
    by_cases hg : g = 0 <;> simp [core, serializeVerifyingKey, hg]

end Reference
