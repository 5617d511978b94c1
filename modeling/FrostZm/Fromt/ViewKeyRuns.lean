import FrostZm.Fromt.ImportRuns

/-!
# The view keys of a run

Each party adds up the shares of the view key that it was sent. Nobody compares the sums.
-/

open Ceremony

set_option linter.unusedSectionVars false

variable {F G P Rng : Type} [Field F] [DecidableEq F] [Ord F] [Std.TransOrd F] [Std.LawfulEqOrd F]
  [AddCommGroup G] [Module F G] [AddCommGroup P]

namespace Fromt

variable (lib : FromtLib F G P Rng)

/-- The view key in a stored bundle. -/
def storedViewKey (out : Bytes) : Option Bytes :=
  (KeyShareBundle.deserialize lib out).toOption.map KeyShareBundle.viewKey

/-- A share of the view key that can be read. -/
def shareOf (share : Bytes) : F := (lib.deserializeScalar share).getD 0

/-- The share of the view key that `q` sent to `p`. -/
def shareTo {β : Type} (net : Net β) (q p : UInt16) : F :=
  receivedFrom (decodeRound1 lib) (fun a => shareOf lib a.2) net q p

variable {lib} {n minSigners p seedHolder : UInt16} {w : Setting} {acts : List Net.Action}
  {net : Net Bytes}

theorem foldlM_addShare_ok {l : List (Identifier F × Bytes)} {sum total : F}
    (h : l.foldlM (addShare lib) sum = .ok total) :
    total = sum + (l.map fun e => shareOf lib e.2).sum := by
  induction l generalizing sum with
  | nil =>
    obtain rfl := Except.ok.inj h
    exact (add_zero sum).symm
  | cons e l ih =>
    rw [List.foldlM_cons] at h
    obtain ⟨sum', hstep, h⟩ := bind_eq_ok.mp h
    obtain ⟨s, hs, hstep⟩ := bind_eq_ok.mp hstep
    rw [okOr_eq_ok] at hs
    obtain rfl := Except.ok.inj hstep
    have hshare : shareOf lib e.2 = s := by rw [shareOf, hs, Option.getD_some]
    rw [ih h, List.map_cons, List.sum_cons, hshare, add_assoc]

theorem aggregate_eq {own viewKey : Bytes} {others : BTreeMap (Identifier F) Bytes}
    (h : aggregateViewKeyShares lib own others = .ok viewKey) :
    viewKey =
      lib.serializeScalar (shareOf lib own + FrostCore.sumValues others (shareOf lib)) := by
  obtain ⟨s, hs, h⟩ := bind_eq_ok.mp h
  obtain ⟨total, hfold, h⟩ := bind_eq_ok.mp h
  rw [okOr_eq_ok] at hs
  obtain rfl := Except.ok.inj h
  have hshare : shareOf lib own = s := by rw [shareOf, hs, Option.getD_some]
  rw [foldlM_addShare_ok hfold, hshare]
  rfl

theorem serializeScalar_inj (doc : lib.Documented) {x y : F} :
    lib.serializeScalar x = lib.serializeScalar y ↔ x = y := by
  constructor
  · intro h
    exact Option.some.inj ((doc.scalar_roundtrip x).symm.trans (h ▸ doc.scalar_roundtrip y))
  · exact congrArg lib.serializeScalar

/-- Whoever has ended well has stored the sum of the shares of the honest parties and of those
that the corrupt ones sent to it. -/
theorem storedViewKey_eq (doc : lib.Documented) (hids : w.ids = (upTo n).toFinset)
    {vkShare : UInt16 → Bytes} (share : UInt16 → F)
    {property : (q : UInt16) →
      Opening lib.toFrostCore (decodeRound1 lib) Prod.fst n minSigners q → Prop}
    {compare : UInt16 → PublicKeyPackage F G → Ceremony Unit} {network : UInt16 → UInt8}
    {birthday : UInt16 → UInt64} {body : UInt16 → Ceremony Bytes}
    (hopen : AllOpen w property
      (fun q => packKeyShare lib (vkShare q) (compare q) (network q) (birthday q)) body)
    (hshare : ∀ q ∈ w.honestIds, ∀ o, property q o →
      o.own.2 = vkShare q ∧ shareOf lib o.own.2 = share q)
    (hrun : Net.run w body acts = some net) (hp : p ∈ w.honestIds) {out : Bytes}
    (hout : (net.party p).outcome = some (.ok out)) :
    storedViewKey lib out = some (lib.serializeScalar
      (∑ q ∈ w.honestIds, share q + ∑ q ∈ w.corruptIds, shareTo lib net q p)) := by
  obtain ⟨o, l₁, l₂, log, keys, ho, -, hfin⟩ := hopen.finished hrun hp hout
  obtain ⟨rest, hend⟩ := hfin.ending
  obtain ⟨viewKey, hview, hread⟩ := packKeyShare_ok doc hend
  have hsum := hfin.sum_eq doc.toCore hids hopen hrun hp (fun a => shareOf lib a.2)
    share (fun q hq o' ho' => (hshare q hq o' ho').2) ho
  have hstored : FrostCore.sumValues (sharesOf (Ceremony.stored (decodeRound1 lib) l₁))
      (shareOf lib) = _ :=
    hfin.roundsOver.sumValues_stored doc.toCore hfin.others Prod.snd (shareOf lib)
  rw [storedViewKey, hread, aggregate_eq hview, ← (hshare p hp o ho).1, hstored, hsum]
  rfl

/-! ## Key generation -/

theorem storedViewKey_dkg (doc : lib.Documented) (hids : w.ids = (upTo n).toFinset)
    {network : UInt16 → UInt8} {birthday : UInt16 → UInt64} {rng rng' : UInt16 → Rng}
    (hrun : Net.run w (fun q => fromtDkgRun lib q n minSigners (network q) (birthday q) (rng q)
      (rng' q)) acts = some net) (hp : p ∈ w.honestIds) {out : Bytes}
    (hout : (net.party p).outcome = some (.ok out)) :
    storedViewKey lib out = some (lib.serializeScalar
      (∑ q ∈ w.honestIds, (lib.random (rng' q)).1 +
        ∑ q ∈ w.corruptIds, shareTo lib net q p)) := by
  refine storedViewKey_eq doc hids (fun q => (lib.random (rng' q)).1)
    (fun q _ => fromtDkgRun_opens doc n minSigners q (network q) (birthday q) (rng q) (rng' q))
    (fun q _ o ho => ⟨ho.2, ?_⟩) hrun hp hout
  rw [ho.2, shareOf, doc.scalar_roundtrip, Option.getD_some]

/-! ## Key import -/

/-- The share of the view key that a party of a key import owes. -/
def owedShare (lib : FromtLib F G P Rng) (seedHolder : UInt16) (spendKey : Bytes) (q : UInt16) : F :=
  if q = seedHolder then lib.fromBytesModOrder (lib.keccak256 spendKey) else 0

theorem storedViewKey_import (doc : lib.Documented) (hzero : lib.serializeScalar 0 = zeroShare)
    (hids : w.ids = (upTo n).toFinset) (hholder : seedHolder ∈ w.honestIds)
    {spendKey : UInt16 → Bytes} {network : UInt16 → UInt8} {birthday : UInt16 → UInt64}
    {rng : UInt16 → Rng}
    (hrun : Net.run w (fun q => fromtKeyImportRun lib q n minSigners seedHolder (spendKey q)
      (network q) (birthday q) (rng q)) acts = some net) (hp : p ∈ w.honestIds) {out : Bytes}
    (hout : (net.party p).outcome = some (.ok out)) :
    storedViewKey lib out = some (lib.serializeScalar
      (lib.fromBytesModOrder (lib.keccak256 (spendKey seedHolder)) +
        ∑ q ∈ w.corruptIds, shareTo lib net q p)) := by
  have hshare := storedViewKey_eq doc hids (owedShare lib seedHolder (spendKey seedHolder))
    (fun q _ => importRun_opens doc n minSigners seedHolder spendKey network birthday rng q)
    (fun q _ o ho => ⟨?_, ?_⟩) hrun hp hout
  · rw [hshare]
    unfold owedShare
    rw [Finset.sum_ite_eq_of_mem' _ _ _ hholder]
  · rw [beginning, ho]
    rfl
  · unfold owedShare
    by_cases hq : q = seedHolder
    · subst hq
      rw [decide_eq_true rfl, sessionTerm_true] at ho
      cases hsecret : importedSecret lib (spendKey q) with
      | error e =>
        rw [hsecret] at ho
        cases ho
      | ok s =>
        rw [hsecret] at ho
        obtain ⟨-, hown⟩ := Prod.mk.inj (Except.ok.inj ho)
        rw [if_pos rfl, ← hown, viewKeyOf, shareOf, doc.scalar_roundtrip, Option.getD_some]
    · rw [decide_eq_false hq] at ho
      obtain ⟨-, hown⟩ := Prod.mk.inj (Except.ok.inj ho)
      rw [if_neg hq, ← hown, ← hzero, shareOf, doc.scalar_roundtrip, Option.getD_some]

/-- Two parties that have ended a key generation well hold the same view key exactly if the
shares that the corrupt parties sent to one have the same sum as those that they sent to the
other. Whoever has ended a key import well holds the view key of the spend key exactly if the
shares that the corrupt parties sent to it sum to zero. -/
theorem viewKeys_agree_iff (doc : lib.Documented) (hzero : lib.serializeScalar 0 = zeroShare)
    (minSigners : UInt16) (hids : w.ids = (upTo n).toFinset) :
    (∀ (network : UInt16 → UInt8) (birthday : UInt16 → UInt64) (rng rng' : UInt16 → Rng) acts net,
      Net.run w (fun q => fromtDkgRun lib q n minSigners (network q) (birthday q) (rng q) (rng' q))
        acts = some net → ∀ p ∈ w.honestIds, ∀ p' ∈ w.honestIds, ∀ out out',
      (net.party p).outcome = some (.ok out) → (net.party p').outcome = some (.ok out') →
        ((∃ viewKey, storedViewKey lib out = some viewKey ∧
            storedViewKey lib out' = some viewKey) ↔
          ∑ q ∈ w.corruptIds, shareTo lib net q p = ∑ q ∈ w.corruptIds, shareTo lib net q p')) ∧
    ∀ seedHolder ∈ w.honestIds, ∀ (spendKey : UInt16 → Bytes) (network : UInt16 → UInt8)
        (birthday : UInt16 → UInt64) (rng : UInt16 → Rng) acts net,
      Net.run w (fun q => fromtKeyImportRun lib q n minSigners seedHolder (spendKey q) (network q)
        (birthday q) (rng q)) acts = some net → ∀ p ∈ w.honestIds, ∀ out,
      (net.party p).outcome = some (.ok out) →
        (storedViewKey lib out = some (lib.serializeScalar
            (lib.fromBytesModOrder (lib.keccak256 (spendKey seedHolder)))) ↔
          ∑ q ∈ w.corruptIds, shareTo lib net q p = 0) := by
  constructor
  · intro network birthday rng rng' acts net hrun p hp p' hp' out out' hout hout'
    rw [storedViewKey_dkg doc hids hrun hp hout, storedViewKey_dkg doc hids hrun hp' hout']
    constructor
    · rintro ⟨viewKey, h, h'⟩
      exact add_left_cancel ((serializeScalar_inj doc).mp (Option.some.inj (h.trans h'.symm)))
    · intro h
      rw [h]
      exact ⟨_, rfl, rfl⟩
  · intro seedHolder hholder spendKey network birthday rng acts net hrun p hp out hout
    rw [storedViewKey_import doc hzero hids hholder hrun hp hout, Option.some_inj,
      serializeScalar_inj doc, add_eq_left]

/-! ## Two shares of one party -/

section Samples

open Reference

/-- Party 3 is corrupt. -/
def splitSetting : Setting := ⟨(upTo 3).toFinset, {3}⟩

def splitRound1 : Round1SecretPackage Scalar Scalar × Bytes :=
  ((Ceremony.keyImportPart1 core 3 3 2 9 0).toOption).getD default

/-- The share of party 3 for party `p`. -/
def splitRound2 (p : Scalar) : Bytes :=
  (serializeRound2 ⟨Shamir.evalPoly splitRound1.1.coefficients p⟩).getD []

def splitDkg (q : UInt16) : Ceremony Bytes := fromtDkgRun fromt q 3 2 0 0 q.toNat q.toNat

/-- Party 3 sends party 1 the share zero and party 2 the share one. -/
def splitShares : List Net.Action :=
  [.inject 3 1 (splitRound1.2 ++ encodeScalar 0), .inject 3 2 (splitRound1.2 ++ encodeScalar 1),
    .drain 1, .drain 2, .deliver 2 1, .deliver 3 1, .deliver 1 2, .deliver 3 2,
    .drain 1, .drain 1, .drain 2, .drain 2,
    .inject 3 1 (splitRound2 1), .inject 3 2 (splitRound2 2),
    .deliver 2 1, .deliver 3 1, .deliver 1 2, .deliver 3 2]

/-- Party 2 of a key import sends the share one. -/
def strayShare : List Net.Action :=
  [.inject 2 1 (greedyRound1.2 ++ encodeScalar 1), .deliver 2 1, .inject 2 1 greedyRound2,
    .deliver 2 1]

/-- With what a party has ended well. -/
def resultOf (net : Net Bytes) (p : UInt16) : Option Bytes :=
  (net.party p).outcome.bind Except.toOption

theorem outcome_of_resultOf {net : Net Bytes} {p : UInt16} {out : Bytes}
    (h : resultOf net p = some out) : (net.party p).outcome = some (.ok out) := by
  obtain ⟨r, hr, hout⟩ := Option.bind_eq_some_iff.mp h
  rw [hr, toOption_eq_some.mp hout]

theorem exists_splitRun :
    ∃ net out out', Net.run splitSetting splitDkg splitShares = some net ∧
      (net.party 1).outcome = some (.ok out) ∧ (net.party 2).outcome = some (.ok out') ∧
      storedViewKey fromt out ≠ storedViewKey fromt out' := by
  have hrun : ((Net.run splitSetting splitDkg splitShares).bind fun net =>
      (resultOf net 1).bind fun out => (resultOf net 2).bind fun out' =>
        if storedViewKey fromt out ≠ storedViewKey fromt out' then some () else none) = some () := by
    decide +kernel
  obtain ⟨net, hnet, hrun⟩ := Option.bind_eq_some_iff.mp hrun
  obtain ⟨out, hout, hrun⟩ := Option.bind_eq_some_iff.mp hrun
  obtain ⟨out', hout', hrun⟩ := Option.bind_eq_some_iff.mp hrun
  refine ⟨net, out, out', hnet, outcome_of_resultOf hout, outcome_of_resultOf hout', ?_⟩
  intro h
  rw [if_neg (not_not.mpr h)] at hrun
  nomatch hrun

theorem exists_strayRun :
    ∃ net out, Net.run sampleSetting fromtSample strayShare = some net ∧
      (net.party 1).outcome = some (.ok out) ∧
      storedViewKey fromt out ≠ some (viewKeyOf fromt (encodeScalar 5)) := by
  have hrun : ((Net.run sampleSetting fromtSample strayShare).bind fun net =>
      (resultOf net 1).bind fun out =>
        if storedViewKey fromt out ≠ some (viewKeyOf fromt (encodeScalar 5)) then some ()
        else none) = some () := by
    decide +kernel
  obtain ⟨net, hnet, hrun⟩ := Option.bind_eq_some_iff.mp hrun
  obtain ⟨out, hout, hrun⟩ := Option.bind_eq_some_iff.mp hrun
  refine ⟨net, out, hnet, outcome_of_resultOf hout, ?_⟩
  intro h
  rw [if_neg (not_not.mpr h)] at hrun
  nomatch hrun

/-- Two parties of a key generation store different view keys, and a seed holder stores another
view key than that of its spend key. -/
theorem viewKeys_apart :
    (∃ net out out', Net.run splitSetting splitDkg splitShares = some net ∧
      (net.party 1).outcome = some (.ok out) ∧ (net.party 2).outcome = some (.ok out') ∧
      ¬ ∃ viewKey, storedViewKey fromt out = some viewKey ∧
        storedViewKey fromt out' = some viewKey) ∧
    ∃ net out, Net.run sampleSetting fromtSample strayShare = some net ∧
      (net.party 1).outcome = some (.ok out) ∧
      storedViewKey fromt out ≠ some (viewKeyOf fromt (encodeScalar 5)) := by
  obtain ⟨net, out, out', hrun, hout, hout', hne⟩ := exists_splitRun
  refine ⟨⟨net, out, out', hrun, hout, hout', ?_⟩, exists_strayRun⟩
  rintro ⟨viewKey, h, h'⟩
  exact hne (h.trans h'.symm)

theorem viewKeys_agree_sample :
    (∃ net out out', Net.run splitSetting splitDkg splitShares = some net ∧
      ((∃ viewKey, storedViewKey fromt out = some viewKey ∧
          storedViewKey fromt out' = some viewKey) ↔
        ∑ q ∈ splitSetting.corruptIds, shareTo fromt net q 1 =
          ∑ q ∈ splitSetting.corruptIds, shareTo fromt net q 2)) ∧
    ∃ net out, Net.run sampleSetting fromtSample strayShare = some net ∧
      (storedViewKey fromt out = some (viewKeyOf fromt (encodeScalar 5)) ↔
        ∑ q ∈ sampleSetting.corruptIds, shareTo fromt net q 1 = 0) := by
  have hzero : fromt.serializeScalar 0 = zeroShare := by decide
  refine ⟨?_, ?_⟩
  · obtain ⟨net, out, out', hrun, hout, hout', -⟩ := exists_splitRun
    have h := viewKeys_agree_iff fromt_documented hzero 2
      (show splitSetting.ids = (upTo 3).toFinset from rfl)
    exact ⟨net, out, out', hrun, h.1 (fun _ => 0) (fun _ => 0) UInt16.toNat UInt16.toNat _ net hrun
      1 (by decide) 2 (by decide) out out' hout hout'⟩
  · obtain ⟨net, out, hrun, hout, -⟩ := exists_strayRun
    have h := viewKeys_agree_iff fromt_documented hzero 2
      (show sampleSetting.ids = (upTo 2).toFinset from rfl)
    exact ⟨net, out, hrun, h.2 1 (by decide) (fun _ => encodeScalar 5) (fun _ => 0) (fun _ => 0)
      UInt16.toNat _ net hrun 1 (by decide) out hout⟩

end Samples

end Fromt
