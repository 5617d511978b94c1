import FrostZm.Frozt.ImportRuns
import FrostZm.Fromt.Reference
import FrostZm.Fromt.Sessions

/-!
# Whose Monero key is imported

The seed holder of a Monero key import announces the key that it has got, whatever that is.
-/

open Ceremony

set_option linter.unusedSectionVars false

variable {F G P Rng : Type} [Field F] [DecidableEq F] [Ord F] [Std.TransOrd F] [Std.LawfulEqOrd F]
  [AddCommGroup G] [Module F G] [AddCommGroup P]

namespace Fromt

variable (lib : FromtLib F G P Rng)

/-- The spend key as a scalar. -/
def importedSecret (spendKey : Bytes) : Result F := do
  failIf (spendKey.length ≠ 32) .invalidBufferSize
  okOr .serializationError (lib.deserializeScalar spendKey)

def storedKeys (out : Bytes) : Option (KeyPackage F G × PublicKeyPackage F G) :=
  (KeyShareBundle.deserialize lib out).toOption.map fun bundle =>
    (bundle.keyPackage, bundle.pubKeyPackage)

variable {lib} {n minSigners p seedHolder : UInt16} {spendKey : UInt16 → Bytes}
  {network : UInt16 → UInt8} {birthday : UInt16 → UInt64} {rng : UInt16 → Rng}

theorem sessionTerm_true (n : UInt16) (spendKey : Bytes) :
    sessionTerm lib true n spendKey = (importedSecret lib spendKey).map fun s =>
      (deriveConstantTerm s n, viewKeyOf lib spendKey) := by
  unfold sessionTerm importedSecret failIf
  rw [if_pos rfl]
  split
  · rfl
  · cases hs : lib.deserializeScalar spendKey with
    | none => rfl
    | some s => rfl

theorem length_aggregate (doc : lib.Documented) {own viewKey : Bytes}
    {others : BTreeMap (Identifier F) Bytes}
    (h : aggregateViewKeyShares lib own others = .ok viewKey) : viewKey.length = 32 := by
  obtain ⟨_, -, h⟩ := bind_eq_ok.mp h
  obtain ⟨_, -, h⟩ := bind_eq_ok.mp h
  obtain rfl := Except.ok.inj h
  exact doc.length_scalar _

theorem packKeyShare_ok (doc : lib.Documented) {vkShare : Bytes}
    {compare : PublicKeyPackage F G → Ceremony Unit} {network : UInt8} {birthday : UInt64}
    {r1Map : BTreeMap (Identifier F) (Round1Package F G × Bytes)}
    {keys : KeyPackage F G × PublicKeyPackage F G} {log rest : List Bytes} {out : Bytes}
    (h : (packKeyShare lib vkShare compare network birthday r1Map keys).eval log =
      some (.ok out, rest)) :
    ∃ viewKey, aggregateViewKeyShares lib vkShare (sharesOf r1Map) = .ok viewKey ∧
      KeyShareBundle.deserialize lib out = .ok ⟨keys.1, keys.2, viewKey, network, birthday⟩ := by
  obtain ⟨⟨⟩, log', -, h⟩ := Proc.eval_bind_ok.mp h
  obtain ⟨viewKey, hview, h⟩ := Proc.eval_liftM_bind_ok.mp h
  rw [Proc.liftM_eq, Proc.eval_lift, Option.some.injEq, Prod.mk.injEq] at h
  exact ⟨viewKey, hview, KeyShareBundle.deserialize_serialize doc (length_aggregate doc hview) h.1⟩

theorem stores_packKeyShare (doc : lib.Documented) (vkShare : Bytes)
    (compare : PublicKeyPackage F G → Ceremony Unit) (network : UInt8) (birthday : UInt64) :
    Stores (storedKeys lib) (packKeyShare lib vkShare compare network birthday) := by
  intro r1Map keys log out rest h
  obtain ⟨viewKey, -, hread⟩ := packKeyShare_ok doc h
  rw [storedKeys, hread]
  rfl

/-- With what a party begins its session: its constant term and its share of the view key. -/
def beginning (lib : FromtLib F G P Rng) (seedHolder n : UInt16) (spendKey : UInt16 → Bytes)
    (q : UInt16) : F × Bytes :=
  (sessionTerm lib (decide (q = seedHolder)) n (spendKey q)).toOption.getD (0, [])

theorem importRun_opens (doc : lib.Documented) (n minSigners seedHolder : UInt16)
    (spendKey : UInt16 → Bytes) (network : UInt16 → UInt8) (birthday : UInt16 → UInt64)
    (rng : UInt16 → Rng) (q : UInt16) :
    Opens lib.toFrostCore (decodeRound1 lib) Prod.fst n minSigners q
      (fun o => sessionTerm lib (decide (q = seedHolder)) n (spendKey q) =
        .ok (o.secret1.coefficients.headD 0, o.own.2))
      (packKeyShare lib (beginning lib seedHolder n spendKey q).2
        (compareKey lib (decide (q = seedHolder))) (network q) (birthday q))
      (fromtKeyImportRun lib q n minSigners seedHolder (spendKey q) (network q) (birthday q)
        (rng q)) := by
  cases hterm : sessionTerm lib (decide (q = seedHolder)) n (spendKey q) with
  | error e => exact .inl (fromtKeyImportRun_of_error n minSigners q seedHolder _ _ _ _ hterm)
  | ok begin =>
    have hbegin : beginning lib seedHolder n spendKey q = begin := by
      rw [beginning, hterm]
      rfl
    rw [hbegin]
    refine (fromtKeyImportRun_opens doc n minSigners q seedHolder (spendKey q) (network q)
      (birthday q) (rng q) hterm).mono fun o ho => ?_
    rw [ho.1, ho.2]

theorem importSound_iff (doc : lib.Documented) {w : Setting} (hids : w.ids = (upTo n).toFinset)
    (hholder : seedHolder ∈ w.honestIds) {acts : List Net.Action} {net : Net Bytes}
    (hrun : Net.run w (fun q => fromtKeyImportRun lib q n minSigners seedHolder (spendKey q)
      (network q) (birthday q) (rng q)) acts = some net) (hp : p ∈ w.honestIds) :
    ImportSound lib.toFrostCore (decodeRound1 lib) Prod.fst w net
        (fun q => (beginning lib seedHolder n spendKey q).1)
        (importedSecret lib (spendKey seedHolder)).toOption (storedKeys lib) p ↔
      BringsOnes lib.toFrostCore (decodeRound1 lib) Prod.fst w net p := by
  refine Ceremony.importSound_iff doc.toCore hids hrun hholder
    (fun q _ => (importRun_opens doc n minSigners seedHolder spendKey network birthday rng q).mono
      fun o ho => ⟨?_, ?_⟩) ?_ (fun q => stores_packKeyShare doc _ _ (network q) (birthday q)) hp
  · rw [beginning, ho]
    rfl
  · rintro rfl
    rw [decide_eq_true rfl, sessionTerm_true] at ho
    cases hs : importedSecret lib (spendKey q) with
    | error e =>
      rw [hs] at ho
      cases ho
    | ok s => rfl
  · intro s hs q
    by_cases hq : q = seedHolder
    · subst hq
      rw [beginning, decide_eq_true rfl, sessionTerm_true, owedTerm, if_pos rfl]
      cases hsecret : importedSecret lib (spendKey q) with
      | error e =>
        rw [hsecret] at hs
        cases hs
      | ok s' =>
        rw [hsecret] at hs
        obtain rfl := Option.some.inj hs
        rfl
    · rw [beginning, decide_eq_false hq, owedTerm, if_neg hq]
      rfl

section BothChains

variable {F₁ G₁ Rng₁ : Type} [Field F₁] [DecidableEq F₁] [Ord F₁] [Std.TransOrd F₁]
  [Std.LawfulEqOrd F₁] [AddCommGroup G₁] [Module F₁ G₁]

/-- Whatever the corrupt parties send, on both chains a party that follows the protocol ends with
the key of the imported secret exactly if the constant terms that the corrupt parties committed
to before it sum to one for each of them. -/
theorem keyImport_sound_iff {zcash : FroztLib F₁ G₁ Rng₁} {monero : FromtLib F G P Rng}
    (zdoc : zcash.Documented) (mdoc : monero.Documented) (minSigners : UInt16) {w : Setting}
    (hids : w.ids = (upTo n).toFinset) (hholder : seedHolder ∈ w.honestIds) :
    (∀ (seed : UInt16 → Bytes) (accountIndex : UInt16 → UInt32) (birthday : UInt16 → UInt64)
        (rng : UInt16 → Rng₁) acts net,
      Net.run w (fun q => Frozt.froztKeyImportRun zcash q n minSigners seedHolder (seed q)
        (accountIndex q) (birthday q) (rng q)) acts = some net → ∀ p ∈ w.honestIds,
      (ImportSound zcash.toFrostCore zcash.deserializeRound1 id w net
          (Frozt.termOf zcash seedHolder n seed accountIndex)
          (Frozt.importedSecret zcash (seed seedHolder) (accountIndex seedHolder)).toOption
          (Frozt.storedKeys zcash) p ↔
        BringsOnes zcash.toFrostCore zcash.deserializeRound1 id w net p)) ∧
    ∀ (spendKey : UInt16 → Bytes) (network : UInt16 → UInt8) (birthday : UInt16 → UInt64)
        (rng : UInt16 → Rng) acts net,
      Net.run w (fun q => fromtKeyImportRun monero q n minSigners seedHolder (spendKey q)
        (network q) (birthday q) (rng q)) acts = some net → ∀ p ∈ w.honestIds,
      (ImportSound monero.toFrostCore (decodeRound1 monero) Prod.fst w net
          (fun q => (beginning monero seedHolder n spendKey q).1)
          (importedSecret monero (spendKey seedHolder)).toOption (storedKeys monero) p ↔
        BringsOnes monero.toFrostCore (decodeRound1 monero) Prod.fst w net p) :=
  ⟨fun _ _ _ _ _ _ hrun _ hp => Frozt.importSound_iff zdoc hids hholder hrun hp,
    fun _ _ _ _ _ _ hrun _ hp => importSound_iff mdoc hids hholder hrun hp⟩

end BothChains

/-! ## A greedy party -/

section Samples

open Reference

/-- Party 2 is corrupt. -/
def sampleSetting : Setting := ⟨(upTo 2).toFinset, {2}⟩

/-- Round 1 of party 2 with the constant term two. -/
def greedyRound1 : Round1SecretPackage Scalar Scalar × Bytes :=
  ((Ceremony.keyImportPart1 core 2 2 2 2 0).toOption).getD default

/-- The share of party 2 for party 1. -/
def greedyRound2 : Bytes :=
  (serializeRound2 ⟨Shamir.evalPoly greedyRound1.1.coefficients 1⟩).getD []

def sampleSeed : Bytes := List.replicate 64 0

/-- Party 1 imports the spending key five of a seed. -/
def froztSample (q : UInt16) : Ceremony Bytes :=
  Frozt.froztKeyImportRun frozt q 2 2 1 sampleSeed 5 0 q.toNat

/-- Party 1 imports the spend key five. -/
def fromtSample (q : UInt16) : Ceremony Bytes :=
  fromtKeyImportRun fromt q 2 2 1 (encodeScalar 5) 0 0 q.toNat

/-- The hash of the metadata of party 1. -/
def sampleHash : Bytes :=
  frozt.blake2b (Frozt.metadataVersion :: u64ToLeBytes 0 ++ frozt.accountExtras sampleSeed 5)

def froztGreedy : List Net.Action :=
  [.inject 2 1 greedyRound1.2, .deliver 2 1, .inject 2 1 greedyRound2, .deliver 2 1,
    .inject 2 1 sampleHash, .deliver 2 1]

def fromtGreedy : List Net.Action :=
  [.inject 2 1 (greedyRound1.2 ++ zeroShare), .deliver 2 1, .inject 2 1 greedyRound2, .deliver 2 1]

/-- The verifying key with which a party has ended well. -/
def keyAt (storedKeys : Bytes → Option (KeyPackage Scalar Scalar × PublicKeyPackage Scalar Scalar))
    (net : Net Bytes) (p : UInt16) : Option Scalar :=
  (net.party p).outcome.bind fun r => r.toOption.bind fun out =>
    (storedKeys out).map fun keys => keys.2.verifyingKey

theorem unsound_of_key {α : Type} [Inhabited α] {net : Net Bytes} {decode : Bytes → Option α}
    {project : α → Round1Package Scalar Scalar}
    {storedKeys : Bytes → Option (KeyPackage Scalar Scalar × PublicKeyPackage Scalar Scalar)}
    {secret : Option Scalar} (hsecret : secret = some 5) (hkey : keyAt storedKeys net 1 = some 6)
    (term : UInt16 → Scalar) :
    ¬ ImportSound core decode project sampleSetting net term secret storedKeys 1 := by
  intro h
  obtain ⟨r, hr, hkey⟩ := Option.bind_eq_some_iff.mp hkey
  obtain ⟨out, hout, hkey⟩ := Option.bind_eq_some_iff.mp hkey
  cases r with
  | error e => nomatch hout
  | ok out' =>
    obtain rfl := Option.some.inj hout
    obtain ⟨s, keys, rfl, hstored, hvk, -⟩ := h _ hr
    obtain rfl := Option.some.inj hsecret
    rw [hstored, Option.map_some, hvk] at hkey
    exact absurd hkey (by decide +kernel)

/-- On both chains the holder of the secret five ends well with the key of six. -/
theorem keyImport_greedy :
    (∃ net, Net.run sampleSetting froztSample froztGreedy = some net ∧
      ∀ term, ¬ ImportSound core deserializeRound1 id sampleSetting net term
        (Frozt.importedSecret frozt sampleSeed 5).toOption (Frozt.storedKeys frozt) 1) ∧
    ∃ net, Net.run sampleSetting fromtSample fromtGreedy = some net ∧
      ∀ term, ¬ ImportSound core (decodeRound1 fromt) Prod.fst sampleSetting net term
        (importedSecret fromt (encodeScalar 5)).toOption (storedKeys fromt) 1 := by
  have hzcash : ((Net.run sampleSetting froztSample froztGreedy).bind fun net =>
      keyAt (Frozt.storedKeys frozt) net 1) = some 6 := by
    decide +kernel
  have hmonero : ((Net.run sampleSetting fromtSample fromtGreedy).bind fun net =>
      keyAt (storedKeys fromt) net 1) = some 6 := by
    decide +kernel
  obtain ⟨net, hnet, hkey⟩ := Option.bind_eq_some_iff.mp hzcash
  obtain ⟨net', hnet', hkey'⟩ := Option.bind_eq_some_iff.mp hmonero
  exact ⟨⟨net, hnet, unsound_of_key (by decide +kernel) hkey⟩,
    ⟨net', hnet', unsound_of_key (by decide +kernel) hkey'⟩⟩

theorem keyImport_sound_greedy :
    ∃ net net', Net.run sampleSetting froztSample froztGreedy = some net ∧
      Net.run sampleSetting fromtSample fromtGreedy = some net' ∧
      (ImportSound core deserializeRound1 id sampleSetting net
          (Frozt.termOf frozt 1 2 (fun _ => sampleSeed) fun _ => 5)
          (Frozt.importedSecret frozt sampleSeed 5).toOption (Frozt.storedKeys frozt) 1 ↔
        BringsOnes core deserializeRound1 id sampleSetting net 1) ∧
      (ImportSound core (decodeRound1 fromt) Prod.fst sampleSetting net'
          (fun q => (beginning fromt 1 2 (fun _ => encodeScalar 5) q).1)
          (importedSecret fromt (encodeScalar 5)).toOption (storedKeys fromt) 1 ↔
        BringsOnes core (decodeRound1 fromt) Prod.fst sampleSetting net' 1) := by
  obtain ⟨net, hnet⟩ := Option.isSome_iff_exists.mp (show (Net.run sampleSetting froztSample
    froztGreedy).isSome by decide +kernel)
  obtain ⟨net', hnet'⟩ := Option.isSome_iff_exists.mp (show (Net.run sampleSetting fromtSample
    fromtGreedy).isSome by decide +kernel)
  have h := keyImport_sound_iff frozt_documented fromt_documented 2
    (show sampleSetting.ids = (upTo 2).toFinset from rfl)
    (show (1 : UInt16) ∈ sampleSetting.honestIds by decide)
  exact ⟨net, net', hnet, hnet',
    h.1 (fun _ => sampleSeed) (fun _ => 5) (fun _ => 0) UInt16.toNat _ net hnet 1 (by decide),
    h.2 (fun _ => encodeScalar 5) (fun _ => 0) (fun _ => 0) UInt16.toNat _ net' hnet' 1 (by decide)⟩

end Samples

end Fromt
