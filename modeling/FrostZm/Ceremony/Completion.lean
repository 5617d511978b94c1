import FrostZm.Ceremony.Schedules
import FrostZm.Ceremony.Signatures
import FrostZm.Session.Progress

/-!
# Honest ceremonies that come to an end

Key generation, resharing and both signing sessions do not get stuck: when nothing is on its way
any more, everyone has a result, unless a message came out of its round.
-/

open Phases

set_option linter.unusedSectionVars false

variable {F G Rng : Type} [Field F] [DecidableEq F] [Ord F] [Std.TransOrd F] [Std.LawfulEqOrd F]
  [AddCommGroup G] [Module F G]

namespace Ceremony

/-! ## Who waits for whom -/

theorem Deal.clocked {core : FrostCore F G Rng} {n minSigners : UInt16} {deal : Deal core n minSigners}
    {bytes : UInt16 → Bytes} {idMap : IdMap} (doc : core.Documented)
    (hlookup : ∀ s ∈ deal.ids, lookupU16 core idMap (deal.ident s) = .ok s) :
    Net.Clocked ⟨deal.ids.toFinset, ∅⟩ (deal.rounds bytes idMap) (fun _ => []) fun _ k => k := by
  intro r hr k ph hget s hs
  have hri : r ∈ deal.ids := List.mem_toFinset.mp hr
  have hlen : ∀ p, (deal.rounds bytes idMap p).length = 2 := fun _ => rfl
  have hother : s ∈ deal.others r := by
    rcases k with - | - | k
    · obtain rfl := Option.some.inj hget
      exact List.mem_toFinset.mp hs
    · obtain rfl := Option.some.inj hget
      exact List.mem_toFinset.mp hs
    · nomatch hget
  obtain ⟨hne, hsi⟩ := mem_others.mp hother
  refine ⟨List.mem_toFinset.mpr hsi, k, ?_, fun j hj => hj, ?_⟩
  · rw [hlen]
    rcases k with - | - | k
    · omega
    · omega
    · nomatch hget
  · rcases k with - | - | k
    · have hmem : s ∈ (deal.others r).toFinset := List.mem_toFinset.mpr hother
      simp [rounds, blocks, expected, Net.copies, Net.route_broadcast hr hne.symm, hmem]
    · have hcopies : Net.copies deal.ids.toFinset s r (written (deal.rounds bytes idMap s) []) =
          expected (deal.rounds bytes idMap r) s := copies_rounds doc hsi hri hne.symm hlookup
      have hall := flatten_blocks (deal.rounds bytes idMap s) []
      rw [hlen] at hall
      rw [hall, List.take_of_length_le (hlen r).le, ← hcopies]
    · nomatch hget

end Ceremony

namespace Signers

variable {frost : FrostSigning F G Rng} {signers : Signers frost} {rng : UInt16 → Rng}
  {message : Bytes}

theorem clocked_sign : Net.Clocked signers.setting (signers.signPhases rng message) (fun _ => [])
    fun _ k => k := by
  intro r hr k ph hget s hs
  have hother : s ∈ signers.others r := by
    rcases k with - | - | k
    · obtain rfl := Option.some.inj hget
      exact hs
    · obtain rfl := Option.some.inj hget
      exact hs
    · nomatch hget
  obtain ⟨hne, hsi⟩ := mem_others.mp hother
  refine ⟨List.mem_toFinset.mpr hsi, k, ?_, fun j hj => hj, ?_⟩
  · have hlen : (signers.signPhases rng message s).length = 2 := rfl
    rcases k with - | - | k
    · omega
    · omega
    · nomatch hget
  · have hroute := Net.route_broadcast hr hne.symm
    rcases k with - | - | k
    · simp [signPhases, commitPhase, sharePhase, blocks, expected, Net.copies, hroute, hother]
    · simp [signPhases, commitPhase, sharePhase, blocks, expected, Net.copies, hroute, hother]
    · nomatch hget

/-- The coordinator's second phase is the third of the others. -/
def froztTime (coord p : UInt16) (k : ℕ) : ℕ := if p = coord then 2 * k else k

theorem froztPhases_coord (coord : UInt16) (r : F) : signers.froztPhases rng message coord r coord =
    [signers.commitPhase rng coord,
      ⟨[u16ToLeBytes 0 ++ signers.combined rng message r,
          u16ToLeBytes 0 ++ (signers.randomize r).shareBytes (signers.drawn rng) message coord],
        signers.others coord, (signers.randomize r).shareBytes (signers.drawn rng) message⟩] := by
  unfold froztPhases
  rw [if_pos rfl]
  rfl

theorem froztPhases_of_ne {coord p : UInt16} (h : p ≠ coord) (r : F) :
    signers.froztPhases rng message coord r p =
      [signers.commitPhase rng p, fromOne coord (signers.combined rng message r),
        ⟨[u16ToLeBytes 0 ++ (signers.randomize r).shareBytes (signers.drawn rng) message p],
          signers.others p, (signers.randomize r).shareBytes (signers.drawn rng) message⟩] := by
  unfold froztPhases
  rw [if_neg h]
  rfl

theorem copies_froztPhases {coord s q : UInt16} (r : F) (hs : s ∈ signers.others q)
    (hq : q ∈ signers.setting.ids) :
    expected (signers.froztPhases rng message coord r q) s =
      Net.copies signers.setting.ids s q (written (signers.froztPhases rng message coord r s) []) := by
  have hne := (mem_others.mp hs).1
  have hroute := Net.route_broadcast hq hne.symm
  by_cases hqc : q = coord
  · subst hqc
    simp [froztPhases_coord, froztPhases_of_ne hne, Net.copies, written, expected, commitPhase,
      fromOne, hroute, hs]
  · by_cases hsc : s = coord
    · subst hsc
      simp [froztPhases_coord, froztPhases_of_ne hqc, Net.copies, written, expected, commitPhase,
        fromOne, hroute, hs]
    · simp [froztPhases_of_ne hqc, froztPhases_of_ne hsc, Net.copies, written, expected, commitPhase,
        fromOne, hroute, hs, hsc]

theorem froztPhases_senders {coord q s : UInt16} {r : F} {k : ℕ} {ph : Phase UInt16 Bytes Bytes}
    (hget : (signers.froztPhases rng message coord r q)[k]? = some ph) (hs : s ∈ ph.senders) :
    (k = 0 ∧ s ∈ signers.others q) ∨ (k = 1 ∧ q ≠ coord ∧ s = coord) ∨
      (froztTime coord q k = 2 ∧ k + 1 = (signers.froztPhases rng message coord r q).length ∧
        s ∈ signers.others q) := by
  unfold froztTime
  by_cases hq : q = coord
  · subst hq
    rw [froztPhases_coord] at hget ⊢
    rcases k with - | - | k
    · obtain rfl := Option.some.inj hget
      exact .inl ⟨rfl, hs⟩
    · obtain rfl := Option.some.inj hget
      exact .inr (.inr ⟨if_pos rfl, rfl, hs⟩)
    · nomatch hget
  · rw [froztPhases_of_ne hq] at hget ⊢
    rcases k with - | - | - | k
    · obtain rfl := Option.some.inj hget
      exact .inl ⟨rfl, hs⟩
    · obtain rfl := Option.some.inj hget
      exact .inr (.inl ⟨rfl, hq, Finset.mem_singleton.mp hs⟩)
    · obtain rfl := Option.some.inj hget
      exact .inr (.inr ⟨if_neg hq, rfl, hs⟩)
    · nomatch hget

theorem froztTime_lt_two {coord s : UInt16} {r : F} {j : ℕ}
    (hj : j + 1 < (signers.froztPhases rng message coord r s).length) : froztTime coord s j < 2 := by
  unfold froztTime
  by_cases hs : s = coord
  · subst hs
    rw [froztPhases_coord, List.length_cons, List.length_singleton] at hj
    rw [if_pos rfl]
    omega
  · rw [froztPhases_of_ne hs, List.length_cons, List.length_cons, List.length_singleton] at hj
    rw [if_neg hs]
    omega

/-- Everyone waits for the coordinator, which waits for nobody's later phases. -/
theorem clocked_frozt {coord : UInt16} (hcoord : coord ∈ signers.ids) (r : F) :
    Net.Clocked signers.setting (signers.froztPhases rng message coord r) (fun _ => [])
      (froztTime coord) := by
  intro q hq k ph hget s hs
  rcases froztPhases_senders hget hs with ⟨rfl, hother⟩ | ⟨rfl, hqc, rfl⟩ | ⟨htime, hlen, hother⟩
  · obtain ⟨hne, hsi⟩ := mem_others.mp hother
    refine ⟨List.mem_toFinset.mpr hsi, 0, Nat.zero_le _, fun j hj => absurd hj (Nat.not_lt_zero j), ?_⟩
    have hroute := Net.route_broadcast hq hne.symm
    have hfirst : ∀ p, ∃ rest, signers.froztPhases rng message coord r p =
        signers.commitPhase rng p :: rest := by
      intro p
      by_cases hp : p = coord
      · subst hp
        exact ⟨_, froztPhases_coord p r⟩
      · exact ⟨_, froztPhases_of_ne hp r⟩
    obtain ⟨restq, hrestq⟩ := hfirst q
    obtain ⟨rests, hrests⟩ := hfirst s
    simp [hrestq, hrests, commitPhase, blocks, expected, Net.copies, hroute, hother]
  · refine ⟨List.mem_toFinset.mpr hcoord, 1, ?_, ?_, ?_⟩
    · rw [froztPhases_coord]
      exact Nat.le_succ 1
    · intro j hj
      obtain rfl := Nat.lt_one_iff.mp hj
      simp [froztTime, hqc]
    · have hroute := Net.route_broadcast hq hqc
      have hother : s ∈ signers.others q := mem_others.mpr ⟨Ne.symm hqc, hcoord⟩
      rw [froztPhases_coord, froztPhases_of_ne hqc]
      simp [commitPhase, fromOne, blocks, expected, Net.copies, hroute, hother]
  · refine ⟨List.mem_toFinset.mpr (mem_others.mp hother).2,
      (signers.froztPhases rng message coord r s).length - 1, Nat.sub_le _ _, ?_, ?_⟩
    · intro j hj
      have hbefore : j + 1 < (signers.froztPhases rng message coord r s).length := by omega
      rw [htime]
      exact froztTime_lt_two hbefore
    · have hpos : 1 ≤ (signers.froztPhases rng message coord r s).length := by
        unfold froztPhases
        split <;> simp
      rw [hlen, List.take_length, Nat.sub_add_cancel hpos, flatten_blocks,
        copies_froztPhases r hother hq]

end Signers

namespace Ceremony

variable {n minSigners : UInt16}

/-! ## The sessions -/

section Keys

variable {core : FrostCore F G Rng} {body : UInt16 → Ceremony (KeyPackage F G × PublicKeyPackage F G)}
  {acts : List Net.Action} {net : Net (KeyPackage F G × PublicKeyPackage F G)}

theorem Deal.ended_iff {deal : Deal core n minSigners} {bytes : UInt16 → Bytes} {idMap : IdMap}
    (doc : core.Documented) (hids : deal.ids = upTo n)
    (hlookup : ∀ s ∈ deal.ids, lookupU16 core idMap (deal.ident s) = .ok s)
    (hfollows : ∀ p ∈ deal.ids, Follows FrostChannel.frame (deal.rounds bytes idMap p) []
      (deal.key p, deal.publicKey p) (body p))
    (hr : Net.run (honest n) body acts = some net) (hq : Net.Quiet (honest n) net) :
    (Net.Ended (honest n) net ∧ Healthy n minSigners net) ↔
      Net.KeepsPhase (honest n) body (twoRounds n) acts := by
  have hset : honest n = ⟨deal.ids.toFinset, ∅⟩ := by rw [hids, honest]
  have hs := scripted doc hlookup hfollows
  have hc : Net.Clocked ⟨deal.ids.toFinset, ∅⟩ (deal.rounds bytes idMap) (fun _ => [])
      fun _ k => k := clocked doc hlookup
  rw [← hset] at hs hc
  rw [← (planOf_rounds hids : Net.planOf (deal.rounds bytes idMap) = twoRounds n),
    ← hs.ended_iff hc hr hq, and_iff_left_iff_imp]
  intro hended
  have hkeep := (hs.ended_iff hc hr hq).mp hended
  apply healthy_of_outcomes doc hids
  intro p hp
  exact .inr (hs.planned.finished hc hr hkeep hq p (List.mem_toFinset.mpr hp))

end Keys

section Signing

variable {frost : FrostSigning F G Rng} {signers signers' : Signers frost} {message : Bytes}
  {nonces : UInt16 → SigningNonces F} {body : UInt16 → Ceremony Bytes} {acts : List Net.Action}
  {net : Net Bytes}

theorem signed_ended_iff (doc : frost.Documented)
    (henc : frost.Encodable (signers'.package nonces message))
    {phases : UInt16 → List (Phase UInt16 Bytes Bytes)} {time : UInt16 → ℕ → ℕ}
    (hs : Net.Scripted signers.setting body phases (fun _ => [])
      fun _ => signers'.sigBytes nonces message)
    (hc : Net.Clocked signers.setting phases (fun _ => []) time)
    (hr : Net.run signers.setting body acts = some net) (hq : Net.Quiet signers.setting net) :
    (Net.Ended signers.setting net ∧
        Signed frost signers.ids signers'.publicKey.verifyingKey message net) ↔
      Net.KeepsPhase signers.setting body (Net.planOf phases) acts := by
  rw [← hs.ended_iff hc hr hq, and_iff_left_iff_imp]
  intro hended
  have hkeep := (hs.ended_iff hc hr hq).mp hended
  apply signed_of_outcomes doc henc
  intro p hp
  exact .inr (hs.planned.finished hc hr hkeep hq p (List.mem_toFinset.mpr hp))

end Signing

/-- When nothing is on its way to a party that goes on, honest parties have all ended, with keys of
one group or with one valid signature, exactly if each delivery was in the round that its
recipient was reading. A resharing must further not have drawn a zero coefficient, and the
coordinator of a rerandomized signature must be one of the signers. -/
theorem quiet_sessions_end_iff {frost : FrostSigning F G Rng} (doc : frost.Documented) :
    (∀ n minSigners : UInt16, 2 ≤ minSigners → minSigners ≤ n →
      (∀ (rng : UInt16 → Rng) acts net,
        Net.run (honest n) (fun p => dkgRun frost.toFrostCore p n minSigners (rng p)) acts = some net →
        Net.Quiet (honest n) net →
        ((Net.Ended (honest n) net ∧ Healthy n minSigners net) ↔
          Net.KeepsPhase (honest n) (fun p => dkgRun frost.toFrostCore p n minSigners (rng p))
            (twoRounds n) acts)) ∧
      ∀ (share : UInt16 → F) (vk : Bytes) (rng : UInt16 → Rng) acts net,
        frost.serializeVerifyingKey (((upTo n).map share).sum • frost.generator) = some vk →
        Net.run (honest n)
          (fun p => reshareRun frost.toFrostCore p n minSigners (share p) vk (rng p)) acts = some net →
        Net.Quiet (honest n) net →
        ((Net.Ended (honest n) net ∧ Healthy n minSigners net) ↔
          (∀ p ∈ upTo n, ∀ c ∈ contribution frost.toFrostCore minSigners (share p) (rng p), c ≠ 0) ∧
          Net.KeepsPhase (honest n)
            (fun p => reshareRun frost.toFrostCore p n minSigners (share p) vk (rng p))
            (twoRounds n) acts)) ∧
    ∀ (signers : Signers frost) (message : Bytes) (rng : UInt16 → Rng),
      (∀ acts net, Net.run signers.setting (signers.signBody rng message) acts = some net →
        Net.Quiet signers.setting net →
        ((Net.Ended signers.setting net ∧
            Signed frost signers.ids signers.publicKey.verifyingKey message net) ↔
          Net.KeepsPhase signers.setting (signers.signBody rng message) signers.signPlan acts)) ∧
      ∀ coord ∈ signers.ids, ∀ alpha, (signers.spBytes rng message).length < 2 ^ 32 →
        ∃ r, (∀ a, alpha coord = some a → r = a) ∧ ∀ acts net,
          Net.run signers.setting (signers.froztBody rng message coord alpha) acts = some net →
          Net.Quiet signers.setting net →
          ((Net.Ended signers.setting net ∧ Signed frost signers.ids
              (signers.publicKey.verifyingKey + r • frost.generator) message net) ↔
            Net.KeepsPhase signers.setting (signers.froztBody rng message coord alpha)
              (signers.froztPlan coord) acts) := by
  have hcore := doc.toDocumented
  refine ⟨fun n minSigners h2 hle => ⟨?_, ?_⟩, fun signers message rng => ⟨?_, ?_⟩⟩
  · intro rng acts net hr hq
    obtain ⟨deal, bytes, idMap, hids, hlookup, hfollows⟩ := dkgRun_deal hcore h2 hle rng
    exact Deal.ended_iff hcore hids hlookup hfollows hr hq
  · intro share vk rng acts net hvk hr hq
    have hmin : minSigners ≠ 0 := by
      rintro rfl
      exact absurd h2 (by decide)
    constructor
    · rintro ⟨hended, hhealthy⟩
      have hne : ∀ p ∈ upTo n,
          ∀ c ∈ contribution frost.toFrostCore minSigners (share p) (rng p), c ≠ 0 := by
        intro p hp
        apply reshareRun_starts hcore hp vk
        intro e he
        have hstart := Net.outcome_stays (List.nil_prefix) rfl hr
          ((Net.outcome_eq (rfl : Net.run (honest n) _ [] = some _) p).trans he)
        obtain ⟨keys, hkeys⟩ := hended p (List.mem_toFinset.mpr hp)
        rw [hkeys] at hstart
        nomatch hstart
      obtain ⟨deal, bytes, idMap, hids, hlookup, hfollows⟩ := reshareRun_deal hcore hmin hvk hne
      exact ⟨hne, (Deal.ended_iff hcore hids hlookup hfollows hr hq).mp ⟨hended, hhealthy⟩⟩
    · rintro ⟨hne, hkeep⟩
      obtain ⟨deal, bytes, idMap, hids, hlookup, hfollows⟩ := reshareRun_deal hcore hmin hvk hne
      exact (Deal.ended_iff hcore hids hlookup hfollows hr hq).mpr hkeep
  · intro acts net hr hq
    rw [← Signers.planOf_signPhases]
    exact signed_ended_iff doc (Signers.encodable doc signers rng message) (Signers.scripted_sign doc)
      Signers.clocked_sign hr hq
  · intro coord hcoord alpha hlen
    obtain ⟨r, halpha, hchoose⟩ := Signers.exists_randomizer doc signers rng message (alpha coord)
      (frost.commit (signers.key coord).signingShare (rng coord)).2.2
    refine ⟨r, halpha, fun acts net hr hq => ?_⟩
    rw [← Signers.planOf_froztPhases]
    have henc : frost.Encodable ((signers.randomize r).package (signers.drawn rng) message) :=
      Signers.encodable doc signers rng message
    exact signed_ended_iff doc henc (Signers.scripted_frozt doc hlen hchoose)
      (Signers.clocked_frozt hcoord r) hr hq

/-! ## Runs to the end -/

/-- Everyone sends one message, and the other gets it. -/
def exchangeTwo : List Net.Action := [.drain 1, .drain 2, .deliver 1 2, .deliver 2 1]

def exchangeThree : List Net.Action :=
  [.drain 1, .drain 2, .drain 3, .deliver 1 2, .deliver 1 3, .deliver 2 1, .deliver 2 3, .deliver 3 1,
    .deliver 3 2]

/-- The first party tells the others something. -/
def tellThree : List Net.Action := [.drain 1, .deliver 1 2, .deliver 1 3]

theorem exists_quiet {α : Type} {w : Setting} {body : UInt16 → Ceremony α} {acts : List Net.Action}
    {ids : List UInt16} (hids : w.ids = ids.toFinset)
    (h : ((Net.run w body acts).any fun net => ids.all fun p =>
      (net.party p).outbox.isEmpty && (net.party p).outcome.isSome) = true) :
    ∃ net, Net.run w body acts = some net ∧ Net.Quiet w net := by
  obtain ⟨net, hnet, hall⟩ := (Option.any_eq_true _ _).mp h
  have hdone : ∀ p ∈ w.ids, (net.party p).outbox = [] ∧ (net.party p).outcome.isSome = true := by
    intro p hp
    rw [hids, List.mem_toFinset] at hp
    simpa using List.all_eq_true.mp hall p hp
  refine ⟨net, hnet, fun p hp => (hdone p hp).1, fun r hr hopen => ?_⟩
  have hsome := (hdone r hr).2
  rw [hopen] at hsome
  nomatch hsome

theorem quiet_sessions_end_sample :
    (∃ net, Net.run (honest 2) (fun p => dkgRun Reference.signing.toFrostCore p 2 2 p.toNat)
        (exchangeTwo ++ exchangeTwo) = some net ∧
      ((Net.Ended (honest 2) net ∧ Healthy 2 2 net) ↔
        Net.KeepsPhase (honest 2) (fun p => dkgRun Reference.signing.toFrostCore p 2 2 p.toNat)
          (twoRounds 2) (exchangeTwo ++ exchangeTwo))) ∧
    ∃ net, Net.run sampleSigners.setting
        (sampleSigners.froztBody UInt16.toNat [9] 1 fun _ => some 4)
        (exchangeThree ++ (tellThree ++ exchangeThree)) = some net ∧
      ∃ r : Reference.Scalar, r = 4 ∧ ((Net.Ended sampleSigners.setting net ∧
          Signed Reference.signing sampleSigners.ids (5 + r • Reference.signing.generator) [9] net) ↔
        Net.KeepsPhase sampleSigners.setting
          (sampleSigners.froztBody UInt16.toNat [9] 1 fun _ => some 4) (sampleSigners.froztPlan 1)
          (exchangeThree ++ (tellThree ++ exchangeThree))) := by
  obtain ⟨hkeys, hsigning⟩ := quiet_sessions_end_iff Reference.signing_documented
  constructor
  · have hids : (honest 2).ids = (upTo 2).toFinset := rfl
    obtain ⟨net, hnet, hquiet⟩ := exists_quiet hids (show ((Net.run (honest 2)
      (fun p => dkgRun Reference.signing.toFrostCore p 2 2 p.toNat) (exchangeTwo ++ exchangeTwo)).any
        fun net => (upTo 2).all fun p =>
          (net.party p).outbox.isEmpty && (net.party p).outcome.isSome) = true by decide +kernel)
    exact ⟨net, hnet, (hkeys 2 2 (by decide) (by decide)).1 _ _ _ hnet hquiet⟩
  · have hids : sampleSigners.setting.ids = ([1, 2, 3] : List UInt16).toFinset := rfl
    obtain ⟨net, hnet, hquiet⟩ := exists_quiet hids (show ((Net.run
      sampleSigners.setting (sampleSigners.froztBody UInt16.toNat [9] 1 fun _ => some 4)
        (exchangeThree ++ (tellThree ++ exchangeThree))).any
        fun net => [1, 2, 3].all fun p =>
          (net.party p).outbox.isEmpty && (net.party p).outcome.isSome) = true by decide +kernel)
    obtain ⟨r, hr, hiff⟩ := (hsigning sampleSigners [9] UInt16.toNat).2 1 (by decide) (fun _ => some 4)
      (by decide +kernel)
    exact ⟨net, hnet, r, hr 4 rfl, hiff _ _ hnet hquiet⟩

end Ceremony
