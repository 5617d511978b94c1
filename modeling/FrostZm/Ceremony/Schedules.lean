import FrostZm.Ceremony.Reshare
import FrostZm.Ceremony.Rounds
import FrostZm.Frost.Reference

/-!
# Key generation and resharing under every schedule

Both sessions survive a schedule exactly when it delivers no round-2 package to a party
that still collects round 1.
-/

open Phases Polynomial

set_option linter.unusedSectionVars false

variable {F G Rng : Type} [Field F] [DecidableEq F] [Ord F] [Std.TransOrd F] [Std.LawfulEqOrd F]
  [AddCommGroup G] [Module F G]

namespace Ceremony

/-- `n` honest parties. -/
def honest (n : UInt16) : Setting := ⟨(upTo n).toFinset, ∅⟩

/-- Two rounds, each with a message from every other party. -/
def twoRounds (n p : UInt16) : List (Finset UInt16) :=
  [(upTo n).toFinset.erase p, (upTo n).toFinset.erase p]

/-- No session ended in an error, and the finished ones hold the same group key and shares
of one polynomial of degree below the threshold. -/
structure Healthy (n minSigners : UInt16) (net : Net (KeyPackage F G × PublicKeyPackage F G)) :
    Prop where
  noError : ∀ p ∈ upTo n, ∀ e, (net.party p).outcome ≠ some (.error e)
  agree : ∃ (vk : G) (f : F[X]), f.degree < minSigners.toNat ∧
    ∀ p ∈ upTo n, ∀ key pub, (net.party p).outcome = some (.ok (key, pub)) →
      Identifier.tryFrom p = some key.identifier ∧ key.verifyingKey = vk ∧ pub.verifyingKey = vk ∧
      key.signingShare = f.eval key.identifier.toScalar

/-- Every state of the run is healthy. -/
def StaysHealthy (n minSigners : UInt16)
    (body : UInt16 → Ceremony (KeyPackage F G × PublicKeyPackage F G)) (acts : List Net.Action) :
    Prop :=
  ∀ pre, pre <+: acts → ∀ net, Net.run (honest n) body pre = some net → Healthy n minSigners net

variable {core : FrostCore F G Rng}

/-! ## Sessions of one deal -/

namespace Deal

variable {n minSigners : UInt16} {deal : Deal core n minSigners} {bytes : UInt16 → Bytes}
  {idMap : IdMap} {body : UInt16 → Ceremony (KeyPackage F G × PublicKeyPackage F G)}
  {acts : List Net.Action} {net : Net (KeyPackage F G × PublicKeyPackage F G)}

theorem planOf_rounds (hids : deal.ids = upTo n) :
    Net.planOf (deal.rounds bytes idMap) = twoRounds n := by
  funext p
  have hothers : (deal.others p).toFinset = (upTo n).toFinset.erase p := by
    ext x
    rw [List.mem_toFinset, mem_others, hids, Finset.mem_erase, List.mem_toFinset]
  simp [Net.planOf, rounds, round2Phase, twoRounds, hothers]

theorem scripted (doc : core.Documented)
    (hlookup : ∀ s ∈ deal.ids, lookupU16 core idMap (deal.ident s) = .ok s)
    (hfollows : ∀ p ∈ deal.ids, Follows FrostChannel.frame (deal.rounds bytes idMap p) []
      (deal.key p, deal.publicKey p) (body p)) :
    Net.Scripted ⟨deal.ids.toFinset, ∅⟩ body (deal.rounds bytes idMap) (fun _ => [])
      fun p => (deal.key p, deal.publicKey p) where
  honest := rfl
  follows p hp := hfollows p (List.mem_toFinset.mp hp)
  script s hs r hr hne := by
    rw [copies_rounds doc (List.mem_toFinset.mp hs) (List.mem_toFinset.mp hr) hne hlookup]

theorem healthy_of_outcomes (doc : core.Documented) (hids : deal.ids = upTo n)
    (h : ∀ p ∈ upTo n, (net.party p).outcome = none ∨
      (net.party p).outcome = some (.ok (deal.key p, deal.publicKey p))) :
    Healthy n minSigners net := by
  refine ⟨?_, deal.groupSecret • core.generator, deal.groupPoly, groupPoly_degree_lt, ?_⟩
  · intro p hp e
    rcases h p hp with ho | ho
    · rw [ho]
      nofun
    · rw [ho]
      nofun
  · intro p hp key pub hkey
    rcases h p hp with ho | ho
    · rw [ho] at hkey
      nomatch hkey
    · rw [ho, Option.some.injEq, Except.ok.injEq, Prod.mk.injEq] at hkey
      obtain ⟨rfl, rfl⟩ := hkey
      rw [← hids] at hp
      exact ⟨deal.tryFrom p hp, key_verifyingKey doc hp, publicKey_verifyingKey doc hp,
        key_signingShare doc hp⟩

theorem staysHealthy_iff (doc : core.Documented) (hids : deal.ids = upTo n)
    (hlookup : ∀ s ∈ deal.ids, lookupU16 core idMap (deal.ident s) = .ok s)
    (hfollows : ∀ p ∈ deal.ids, Follows FrostChannel.frame (deal.rounds bytes idMap p) []
      (deal.key p, deal.publicKey p) (body p))
    (hr : Net.run (honest n) body acts = some net) :
    StaysHealthy n minSigners body acts ↔ Net.KeepsPhase (honest n) body (twoRounds n) acts := by
  have hset : honest n = ⟨deal.ids.toFinset, ∅⟩ := by rw [hids, honest]
  have hs := scripted doc hlookup hfollows
  rw [← hset] at hs
  rw [← (planOf_rounds hids : Net.planOf (deal.rounds bytes idMap) = twoRounds n)]
  constructor
  · intro h
    by_contra hbreak
    obtain ⟨pre, u, hpre, hu, p, hp, e, he⟩ := hs.error_of_not_keepsPhase hr hbreak
    exact (h pre hpre u hu).noError p (List.mem_toFinset.mp hp) e he
  · intro hkeep pre hpre u hu
    refine healthy_of_outcomes doc hids fun p hp => ?_
    exact hs.planned.outcome_of_keepsPhase hu (hkeep.mono hpre) (List.mem_toFinset.mpr hp)

end Deal

/-! ## The two sessions -/

variable {n minSigners : UInt16}

theorem dkgRun_deal (doc : core.Documented) (h2 : 2 ≤ minSigners) (hle : minSigners ≤ n)
    (rng : UInt16 → Rng) :
    ∃ (deal : Deal core n minSigners) (bytes : UInt16 → Bytes) (idMap : IdMap),
      deal.ids = upTo n ∧
      (∀ s ∈ deal.ids, lookupU16 core idMap (deal.ident s) = .ok s) ∧
      ∀ p ∈ deal.ids, Follows FrostChannel.frame (deal.rounds bytes idMap p) []
        (deal.key p, deal.publicKey p) (dkgRun core p n minSigners (rng p)) := by
  have hmin : minSigners ≠ 0 := by
    rintro rfl
    exact absurd h2 (by decide)
  have hround1 : ∀ p ∈ upTo n, ∃ ident s pkg b, Identifier.tryFrom p = some ident ∧
      core.part1 ident n minSigners (rng p) = .ok (s, pkg) ∧
      core.IsRound1 ident n minSigners s pkg ∧ core.serializeRound1 pkg = some b := by
    intro p hp
    obtain ⟨ident, hident⟩ := doc.exists_tryFrom (mem_upTo.mp hp).1
    obtain ⟨s, pkg, hpart1, hwf, b, hb⟩ := doc.part1_ok ident n minSigners (rng p) h2 hle
    exact ⟨ident, s, pkg, b, hident, hpart1, hwf, hb⟩
  choose! ident secret package bytes htry hpart1 hwf hser using hround1
  obtain ⟨idMap, hidMap, hlookup⟩ := buildIdMap_ok doc htry
  let deal : Deal core n minSigners :=
    ⟨upTo n, ident, secret, package, nodup_upTo n, length_upTo n, htry, hwf⟩
  refine ⟨deal, bytes, idMap, rfl, hlookup, fun p hp => ?_⟩
  have hbody : dkgRun core p n minSigners (rng p) =
      runRounds core n idMap (deal.secret p) (bytes p) := by
    unfold dkgRun
    rw [hidMap, htry p hp]
    simp only [okOr_some, Proc.monadLift_eq, Proc.lift_ok, Proc.ret_bind, hpart1 p hp, blameErr_ok,
      hser p hp]
    rfl
  rw [hbody]
  exact Deal.follows_rounds doc hmin hp hser hlookup

theorem exists_idMap (doc : core.Documented) (n : UInt16) :
    ∃ (idMap : IdMap) (ident : UInt16 → Identifier F), buildIdMap core n = .ok idMap ∧
      (∀ p ∈ upTo n, Identifier.tryFrom p = some (ident p)) ∧
      ∀ p ∈ upTo n, lookupU16 core idMap (ident p) = .ok p := by
  have hident : ∀ p ∈ upTo n, ∃ ident : Identifier F, Identifier.tryFrom p = some ident :=
    fun p hp => doc.exists_tryFrom (mem_upTo.mp hp).1
  choose! ident hident using hident
  obtain ⟨idMap, hidMap, hlookup⟩ := buildIdMap_ok doc hident
  exact ⟨idMap, ident, hidMap, hident, hlookup⟩

theorem reshareRun_starts (doc : core.Documented) {p : UInt16} (hp : p ∈ upTo n) {share : F}
    (vk : Bytes) {rng : Rng}
    (hstart : ∀ e, ((reshareRun core p n minSigners share vk rng).eval []).map Prod.fst ≠
      some (.error e)) : ∀ c ∈ contribution core minSigners share rng, c ≠ 0 := by
  obtain ⟨idMap, -, hidMap, -, -⟩ := exists_idMap doc n
  have hiff : (∃ r, resharePart1 core p n minSigners share rng = .ok r) ↔ _ :=
    constantPart1_isOk_iff doc (mem_upTo.mp hp).1
  rw [← hiff]
  cases hpart1 : resharePart1 core p n minSigners share rng with
  | ok r => exact ⟨r, rfl⟩
  | error e =>
    refine absurd ?_ (hstart e)
    unfold reshareRun
    rw [hidMap, hpart1]
    rfl

theorem Deal.follows_reshareRun (doc : core.Documented) (hmin : minSigners ≠ 0)
    {deal : Deal core n minSigners} {bytes : UInt16 → Bytes} {idMap : IdMap} {p : UInt16}
    (hp : p ∈ deal.ids) (hidMap : buildIdMap core n = .ok idMap)
    (hlookup : ∀ s ∈ deal.ids, lookupU16 core idMap (deal.ident s) = .ok s) {share : F} {rng : Rng}
    (hpart1 : resharePart1 core p n minSigners share rng = .ok (deal.secret p, bytes p))
    (hbytes : ∀ s ∈ deal.ids, core.serializeRound1 (deal.package s) = some (bytes s)) {vk : Bytes}
    (hvk : core.serializeVerifyingKey (deal.groupSecret • core.generator) = some vk) :
    Follows FrostChannel.frame (deal.rounds bytes idMap p) [] (deal.key p, deal.publicKey p)
      (reshareRun core p n minSigners share vk rng) := by
  unfold reshareRun
  rw [hidMap, hpart1]
  refine (Deal.follows_rounds doc hmin hp hbytes hlookup).bind_ret ?_
  simp only [Deal.publicKey_verifyingKey doc hp, hvk, okOr_some, Proc.monadLift_eq, Proc.lift_ok,
    Proc.ret_bind, ne_eq, not_true_eq_false, if_false]
  rfl

/-- The sessions of a resharing without zero coefficients follow the deal of their round-1
packages, when the expected key is the one behind their contributions. -/
theorem reshareRun_deal (doc : core.Documented) (hmin : minSigners ≠ 0) {share : UInt16 → F}
    {vk : Bytes} {rng : UInt16 → Rng}
    (hvk : core.serializeVerifyingKey (((upTo n).map share).sum • core.generator) = some vk)
    (hne : ∀ p ∈ upTo n, ∀ c ∈ contribution core minSigners (share p) (rng p), c ≠ 0) :
    ∃ (deal : Deal core n minSigners) (bytes : UInt16 → Bytes) (idMap : IdMap),
      deal.ids = upTo n ∧
      (∀ s ∈ deal.ids, lookupU16 core idMap (deal.ident s) = .ok s) ∧
      ∀ p ∈ deal.ids, Follows FrostChannel.frame (deal.rounds bytes idMap p) []
        (deal.key p, deal.publicKey p) (reshareRun core p n minSigners (share p) vk (rng p)) := by
  obtain ⟨idMap, ident, hidMap, hident, hlookup⟩ := exists_idMap doc n
  have hpart1 : ∀ p ∈ upTo n, ∃ s b,
      resharePart1 core p n minSigners (share p) (rng p) = .ok (s, b) := by
    intro p hp
    obtain ⟨⟨s, b⟩, h⟩ := (constantPart1_isOk_iff doc (mem_upTo.mp hp).1).mpr (hne p hp)
    exact ⟨s, b, h⟩
  choose! secret bytes hpart1 using hpart1
  obtain ⟨deal, hids, rfl, hdeal⟩ := exists_deal doc hmin (nodup_upTo n) (length_upTo n) hpart1
  rw [← hids] at hident hlookup hdeal
  have hsame : ∀ p ∈ deal.ids, ident p = deal.ident p := fun p hp =>
    Option.some.inj ((hident p hp).symm.trans (deal.tryFrom p hp))
  have hlookup' : ∀ s ∈ deal.ids, lookupU16 core idMap (deal.ident s) = .ok s :=
    fun s hs => hsame s hs ▸ hlookup s hs
  have hsum : deal.groupSecret = ((upTo n).map share).sum := by
    rw [Deal.groupSecret, hids]
    exact congrArg List.sum (List.map_congr_left fun p hp => (hdeal p (hids ▸ hp)).2)
  refine ⟨deal, bytes, idMap, hids, hlookup', fun p hp => ?_⟩
  exact Deal.follows_reshareRun doc hmin hp hidMap hlookup' (hpart1 p (hids ▸ hp))
    (fun s hs => (hdeal s hs).1) (hsum ▸ hvk)

/-- Honest key generation, and honest resharing of a key whose additive shares fit it, stay
healthy exactly as long as every delivery is in the round that its recipient is reading. A
resharing must further not have drawn a zero coefficient. -/
theorem sessions_stay_healthy_iff (doc : core.Documented) (h2 : 2 ≤ minSigners)
    (hle : minSigners ≤ n) :
    (∀ (rng : UInt16 → Rng) acts net,
      Net.run (honest n) (fun p => dkgRun core p n minSigners (rng p)) acts = some net →
      (StaysHealthy n minSigners (fun p => dkgRun core p n minSigners (rng p)) acts ↔
        Net.KeepsPhase (honest n) (fun p => dkgRun core p n minSigners (rng p)) (twoRounds n) acts)) ∧
    ∀ (share : UInt16 → F) (vk : Bytes) (rng : UInt16 → Rng) acts net,
      core.serializeVerifyingKey (((upTo n).map share).sum • core.generator) = some vk →
      Net.run (honest n) (fun p => reshareRun core p n minSigners (share p) vk (rng p)) acts =
        some net →
      (StaysHealthy n minSigners (fun p => reshareRun core p n minSigners (share p) vk (rng p)) acts ↔
        (∀ p ∈ upTo n, ∀ c ∈ contribution core minSigners (share p) (rng p), c ≠ 0) ∧
        Net.KeepsPhase (honest n) (fun p => reshareRun core p n minSigners (share p) vk (rng p))
          (twoRounds n) acts) := by
  have hmin : minSigners ≠ 0 := by
    rintro rfl
    exact absurd h2 (by decide)
  refine ⟨?_, ?_⟩
  · intro rng acts net hr
    obtain ⟨deal, bytes, idMap, hids, hlookup, hfollows⟩ := dkgRun_deal doc h2 hle rng
    exact Deal.staysHealthy_iff doc hids hlookup hfollows hr
  · intro share vk rng acts net hvk hr
    constructor
    · intro h
      have hne : ∀ p ∈ upTo n, ∀ c ∈ contribution core minSigners (share p) (rng p), c ≠ 0 := by
        intro p hp
        refine reshareRun_starts doc hp vk fun e he => ?_
        refine (h [] (List.prefix_iff_eq_append.mpr rfl) _ rfl).noError p hp e ?_
        exact (Net.outcome_eq (rfl : Net.run (honest n) _ [] = some _) p).trans he
      obtain ⟨deal, bytes, idMap, hids, hlookup, hfollows⟩ := reshareRun_deal doc hmin hvk hne
      exact ⟨hne, (Deal.staysHealthy_iff doc hids hlookup hfollows hr).mp h⟩
    · rintro ⟨hne, hkeep⟩
      obtain ⟨deal, bytes, idMap, hids, hlookup, hfollows⟩ := reshareRun_deal doc hmin hvk hne
      exact (Deal.staysHealthy_iff doc hids hlookup hfollows hr).mpr hkeep

/-! ## A slow party -/

/-- Parties 1 and 2 exchange round 1 with each other, and party 1 already sends its round-2
packages; party 3 is handed both packages of party 1 before the one of party 2. -/
def slowParty : List Net.Action :=
  [.drain 1, .drain 2, .drain 3, .deliver 2 1, .deliver 3 1, .drain 1, .drain 1, .deliver 1 3,
    .deliver 1 3]

theorem dkgRun_slowParty :
    ∃ net, Net.run (honest 3) (fun p => dkgRun Reference.core p 3 2 p.toNat) slowParty = some net ∧
      ¬ StaysHealthy 3 2 (fun p => dkgRun Reference.core p 3 2 p.toNat) slowParty := by
  have herr : ((Net.run (honest 3) (fun p => dkgRun Reference.core p 3 2 p.toNat) slowParty).bind
      fun net => (net.party 3).outcome.bind fun r => r.toOption.elim (some ()) fun _ => none) =
      some () := by decide +kernel
  obtain ⟨net, hnet, hout⟩ := Option.bind_eq_some_iff.mp herr
  obtain ⟨r, hr, hnone⟩ := Option.bind_eq_some_iff.mp hout
  refine ⟨net, hnet, fun h => ?_⟩
  cases r with
  | ok a => simp [Except.toOption] at hnone
  | error e => exact (h _ (List.prefix_refl _) net hnet).noError 3 (by decide) e hr

/-- Every package of both rounds, each delivered in its round. -/
def roundByRound : List Net.Action :=
  let exchange := [.deliver 1 2, .deliver 1 3, .deliver 2 1, .deliver 2 3, .deliver 3 1, .deliver 3 2]
  [.drain 1, .drain 2, .drain 3] ++ exchange ++
    ([.drain 1, .drain 1, .drain 2, .drain 2, .drain 3, .drain 3] ++ exchange)

/-- Three parties that keep to the rounds have their keys in the end. -/
theorem sessions_stay_healthy_three :
    ∃ net net', Net.run (honest 3) (fun p => dkgRun Reference.core p 3 2 p.toNat) roundByRound =
        some net ∧
      Net.run (honest 3) (fun p => reshareRun Reference.core p 3 2 5 (Reference.encodeScalar 15)
        p.toNat) roundByRound = some net' ∧
      (∀ p ∈ upTo 3, (net.party p).outcome.isSome ∧ (net'.party p).outcome.isSome) ∧
      StaysHealthy 3 2 (fun p => dkgRun Reference.core p 3 2 p.toNat) roundByRound ∧
      StaysHealthy 3 2 (fun p => reshareRun Reference.core p 3 2 5 (Reference.encodeScalar 15) p.toNat)
        roundByRound := by
  obtain ⟨net, hnet, hended⟩ := (Option.any_eq_true _ _).mp (show ((Net.run (honest 3)
    (fun p => dkgRun Reference.core p 3 2 p.toNat) roundByRound).any fun net =>
      (upTo 3).all fun p => (net.party p).outcome.isSome) = true by decide +kernel)
  obtain ⟨net', hnet', hended'⟩ := (Option.any_eq_true _ _).mp (show ((Net.run (honest 3)
    (fun p => reshareRun Reference.core p 3 2 5 (Reference.encodeScalar 15) p.toNat)
    roundByRound).any fun net => (upTo 3).all fun p => (net.party p).outcome.isSome) = true by
      decide +kernel)
  have h := sessions_stay_healthy_iff Reference.documented (show (2 : UInt16) ≤ 2 by decide)
    (show (2 : UInt16) ≤ 3 by decide)
  refine ⟨net, net', hnet, hnet', fun p hp => ?_, ?_, ?_⟩
  · exact ⟨List.all_eq_true.mp hended p hp, List.all_eq_true.mp hended' p hp⟩
  · exact (h.1 _ _ _ hnet).mpr (by decide +kernel)
  · have hne : ((upTo 3).all fun p => (contribution Reference.core 2 5 p.toNat).all (· ≠ 0)) = true := by
      decide +kernel
    refine (h.2 (fun _ => 5) (Reference.encodeScalar 15) (fun p => p.toNat) _ _ (by decide +kernel)
      hnet').mpr ⟨fun p hp c hc => ?_, by decide +kernel⟩
    exact of_decide_eq_true (List.all_eq_true.mp (List.all_eq_true.mp hne p hp) c hc)

end Ceremony
