import FrostZm.Ceremony.Sign
import FrostZm.Frost.ReferenceSigning

/-!
# Signing under every schedule

Honest signing sessions agree on one valid signature as long as each message is delivered
in the round that its recipient is reading. The rounds carry no tag, so a message that
comes early ends its recipient's session.
-/

open FrostChannel Phases Polynomial

set_option linter.unusedSectionVars false

variable {F G Rng : Type} [Field F] [DecidableEq F] [Ord F] [Std.TransOrd F] [Std.LawfulEqOrd F]
  [AddCommGroup G] [Module F G]

variable {frost : FrostSigning F G Rng}

/-! ## What the coordinator's message holds -/

namespace Ceremony

theorem readRandomizer_combine (doc : frost.Documented) {spSer : Bytes} (r : F)
    (hlen : spSer.length < 2 ^ 32) :
    readRandomizer frost (combine spSer (frost.serializeRandomizer r)) = .ok r := by
  have hval : (UInt32.ofNat spSer.length).toNat = spSer.length := by
    rw [UInt32.toNat_ofNat']
    exact Nat.mod_eq_of_lt hlen
  have htake : (combine spSer (frost.serializeRandomizer r)).take 4 =
      u32ToLeBytes (.ofNat spSer.length) := by
    rw [combine, List.append_assoc, List.take_left' (length_u32ToLeBytes _)]
  have hdrop : (combine spSer (frost.serializeRandomizer r)).drop (4 + spSer.length) =
      frost.serializeRandomizer r := by
    rw [combine]
    refine List.drop_left' ?_
    rw [List.length_append, length_u32ToLeBytes]
  have hge : 4 + spSer.length ≤ (combine spSer (frost.serializeRandomizer r)).length := by
    rw [combine, List.length_append, List.length_append, length_u32ToLeBytes]
    omega
  unfold readRandomizer splitCombined
  rw [if_neg (by omega), htake, u32FromLeBytes_toLeBytes, hval, if_neg (by omega), hdrop]
  simp only [bind, Except.bind, doc.randomizer_roundtrip, okOr_some]

/-- What is left of a share behind a length is too short for a randomizer. -/
theorem readRandomizer_share (doc : frost.Documented) (s : SignatureShare F) :
    ∃ e, readRandomizer frost (frost.serializeShare s) = .error e := by
  unfold readRandomizer splitCombined
  have hlen := doc.length_share s
  rw [if_neg (by omega)]
  simp only
  split
  · exact ⟨_, rfl⟩
  · next spLen =>
    cases hr : frost.deserializeRandomizer
        ((frost.serializeShare s).drop (4 + (u32FromLeBytes ((frost.serializeShare s).take 4)).toNat)) with
    | none =>
      simp only [bind, Except.bind, hr]
      exact ⟨_, rfl⟩
    | some r =>
      have hshort := doc.length_randomizer _ _ hr
      rw [List.length_drop] at hshort
      omega

theorem share_not_commitments (doc : frost.Documented) (s : SignatureShare F) :
    frost.deserializeCommitments (frost.serializeShare s) = none := by
  rw [Option.eq_none_iff_forall_ne_some]
  intro c hc
  have hlen := (doc.commitments_header _ _ hc).2
  rw [doc.length_share] at hlen
  omega

/-- The length in front of a package stands where commitments have their header. -/
theorem combined_not_commitments (doc : frost.Documented) {sp : SigningPackage F G}
    {spSer randSer : Bytes} (hsp : frost.serializeSigningPackage sp = some spSer) :
    frost.deserializeCommitments (combine spSer randSer) = none := by
  rw [Option.eq_none_iff_forall_ne_some]
  intro c hc
  obtain ⟨version, a, b, d, e, hheader, hne⟩ := doc.header_eq
  have hpre := (doc.commitments_header _ _ hc).1
  have hpkg := doc.signingPackage_header _ _ hsp
  rw [hheader] at hpre hpkg
  obtain ⟨t, rfl⟩ := hpkg
  obtain ⟨x₀, x₁, x₂, x₃, hx⟩ := List.length_eq_four.mp
    (length_u32ToLeBytes (.ofNat ([version, a, b, d, e] ++ t).length))
  rw [combine, hx] at hpre
  simp only [List.cons_append, List.nil_append, List.cons_prefix_cons] at hpre
  exact hne hpre.2.2.2.2.1

/-! ## The two exchanges -/

theorem exchangeCommitments_bind {α : Type} {myIdent : Identifier F} {c : SigningCommitments G}
    {b : Bytes} (h : frost.serializeCommitments c = some b) (message : Bytes) (n : Nat)
    (f : SigningPackage F G → Ceremony α) :
    exchangeCommitments frost myIdent c message n >>= f =
      .emit (u16ToLeBytes 0 ++ b) (recvEach (n - 1)
        ((∅ : BTreeMap (Identifier F) (SigningCommitments G)).insert myIdent c)
        (store frost.deserializeCommitments) >>= fun m => f ⟨m, message⟩) := by
  unfold exchangeCommitments
  rw [h]
  simp only [okOr_some, Proc.monadLift_eq, Proc.lift_ok, Proc.ret_bind, broadcast, Proc.output,
    Proc.emit_bind, Proc.bind_bind, Proc.pure_eq]

end Ceremony

/-! ## Honest signers -/

namespace Signers

variable (signers : Signers frost) (rng : UInt16 → Rng) (nonces : UInt16 → SigningNonces F)
  (message : Bytes)

def others (p : UInt16) : Finset UInt16 := signers.ids.toFinset.erase p

/-- The nonces that everyone draws. -/
def drawn (p : UInt16) : SigningNonces F := (frost.commit (signers.key p).signingShare (rng p)).1

def commitBytes (p : UInt16) : Bytes :=
  (frost.serializeCommitments (frost.commit (signers.key p).signingShare (rng p)).2.1).getD []

def shareBytes (p : UInt16) : Bytes := frost.serializeShare (signers.share nonces message p)

def sigBytes : Bytes := (frost.serializeSignature (signers.signature nonces message)).getD []

def commitPhase (p : UInt16) : Phase UInt16 Bytes Bytes :=
  ⟨[u16ToLeBytes 0 ++ signers.commitBytes rng p], signers.others p, signers.commitBytes rng⟩

def sharePhase (p : UInt16) : Phase UInt16 Bytes Bytes :=
  ⟨[u16ToLeBytes 0 ++ signers.shareBytes nonces message p], signers.others p,
    signers.shareBytes nonces message⟩

/-- One message from a single sender. -/
def fromOne (s : UInt16) (message : Bytes) : Phase UInt16 Bytes Bytes := ⟨[], {s}, fun _ => message⟩

variable {signers rng nonces message} {p s : UInt16}

theorem mem_others : s ∈ signers.others p ↔ s ≠ p ∧ s ∈ signers.ids := by
  rw [others, Finset.mem_erase, List.mem_toFinset]

theorem card_others (hp : p ∈ signers.ids) : (signers.others p).card = signers.ids.length - 1 := by
  rw [others, Finset.card_erase_of_mem (List.mem_toFinset.mpr hp),
    List.toFinset_card_of_nodup signers.nodup]

theorem mem_ids_iff (hp : p ∈ signers.ids) : s ∈ signers.ids ↔ s ∈ [p] ∨ s ∈ signers.others p := by
  rw [List.mem_singleton, mem_others]
  constructor
  · intro hs
    exact (eq_or_ne s p).imp id fun h => ⟨h, hs⟩
  · rintro (rfl | h)
    · exact hp
    · exact h.2

theorem serialize_commitments (doc : frost.Documented) (signers : Signers frost)
    (rng : UInt16 → Rng) (p : UInt16) :
    frost.serializeCommitments ((signers.drawn rng p).commitments frost.generator) =
      some (signers.commitBytes rng p) := by
  obtain ⟨b, hb⟩ := doc.commit_ok (signers.key p).signingShare (rng p)
  rw [commitBytes, hb, drawn, ← doc.commit_eq, hb]
  rfl

theorem encodable (doc : frost.Documented) (signers : Signers frost) (rng : UInt16 → Rng)
    (message : Bytes) : frost.Encodable (signers.package (signers.drawn rng) message) :=
  encodable_package doc fun p _ => ⟨_, serialize_commitments doc signers rng p⟩

theorem serialize_signature (doc : frost.Documented) (signers : Signers frost)
    (henc : frost.Encodable (signers.package nonces message)) :
    frost.serializeSignature (signers.signature nonces message) =
      some (signers.sigBytes nonces message) := by
  obtain ⟨b, hb⟩ := (doc.aggregate_verifies _ _ _ _ (aggregate_ok doc henc)).2
  rw [sigBytes, hb]
  rfl

open Ceremony

theorem follows_exchangeCommitments (doc : frost.Documented) (hp : p ∈ signers.ids)
    {phases : List (Phase UInt16 Bytes Bytes)} {b : Bytes}
    {f : SigningPackage F G → Ceremony Bytes}
    (hrest : Follows frame phases [] b (f (signers.package (signers.drawn rng) message)))
    (hlater : ∀ ph' ∈ phases, ∀ s ∈ ph'.senders,
      frost.deserializeCommitments (ph'.message s) = none) :
    Follows frame (signers.commitPhase rng p :: phases) [] b
      (exchangeCommitments frost (signers.key p).identifier
        (frost.commit (signers.key p).signingShare (rng p)).2.1 message signers.ids.length >>= f) := by
  have hcommit := serialize_commitments doc signers rng p
  rw [drawn] at hcommit
  rw [doc.commit_eq, exchangeCommitments_bind hcommit, signers.identifier p hp, ← card_others hp]
  refine follows_store (fun s => (signers.drawn rng s).commitments frost.generator) [p] signers.ids
    (fun m => f ⟨m, message⟩) (fun h => ⟨rfl, rfl⟩)
    (fun s hs => signers.tryFrom s (mem_others.mp hs).2)
    (fun s _ => doc.commitments_roundtrip _ _ (serialize_commitments doc signers rng s))
    (ident_injective doc) (fun s => mem_ids_iff hp) hlater hrest

theorem follows_exchangeShares (signers : Signers frost) (doc : frost.Documented) (hp : p ∈ signers.ids)
    (aggregate : BTreeMap (Identifier F) (SignatureShare F) →
      Except (FrostError F) (Signature F G))
    (hagg : aggregate (signers.shares nonces message) =
      .ok (signers.signature nonces message))
    (hser : frost.serializeSignature (signers.signature nonces message) =
      some (signers.sigBytes nonces message)) :
    Follows frame [signers.sharePhase nonces message p] [] (signers.sigBytes nonces message)
      (exchangeShares frost (signers.key p).identifier signers.ids.length
        (signers.share nonces message p) aggregate) := by
  let finish := fun m : BTreeMap (Identifier F) (SignatureShare F) => (do
    let signature ← blameErr frost.toFrostCore .signingError (aggregate m)
    let sigBytes ← okOr .serializationError (frost.serializeSignature signature)
    return sigBytes : Ceremony Bytes)
  unfold exchangeShares
  rw [signers.identifier p hp, ← card_others hp]
  refine follows_store (signers.share nonces message) [p] signers.ids finish
    (fun h => ⟨rfl, rfl⟩) (fun s hs => signers.tryFrom s (mem_others.mp hs).2)
    (fun s _ => doc.share_roundtrip _) (ident_injective doc) (fun s => mem_ids_iff hp)
    (fun ph' hph' => absurd hph' List.not_mem_nil) ?_
  rw [shares] at hagg
  simp only [finish, hagg, blameErr_ok, hser, okOr_some, Proc.monadLift_eq, Proc.lift_ok,
    Proc.ret_bind]
  exact ⟨rfl, rfl⟩

/-! ## The plain session -/

variable (signers rng message) in
def signBody (p : UInt16) : Ceremony Bytes :=
  signRun frost (signers.key p) signers.publicKey message signers.ids.length (rng p)

variable (signers rng message) in
def signPhases (p : UInt16) : List (Phase UInt16 Bytes Bytes) :=
  [signers.commitPhase rng p, signers.sharePhase (signers.drawn rng) message p]

theorem follows_signRun (doc : frost.Documented) (hp : p ∈ signers.ids) :
    Follows frame (signers.signPhases rng message p) [] (signers.sigBytes (signers.drawn rng) message)
      (signers.signBody rng message p) := by
  have henc := encodable doc signers rng message
  refine follows_exchangeCommitments doc hp ?_ ?_
  · have hsign := sign_ok doc henc hp
    have hshares := follows_exchangeShares signers doc hp
      (fun m => frost.aggregate (signers.package (signers.drawn rng) message) m signers.publicKey)
      (aggregate_ok doc henc) (serialize_signature doc signers henc)
    rw [drawn] at hsign
    simp only [hsign, blameErr_ok, Proc.monadLift_eq, Proc.lift_ok, Proc.ret_bind]
    exact hshares
  · intro ph' hph' s _
    obtain rfl := List.mem_singleton.mp hph'
    exact share_not_commitments doc _

/-! ## The rerandomized session -/

variable (signers rng message) in
/-- The session of `p` when `coord` coordinates and `alpha` are the given randomizers. -/
def froztBody (coord : UInt16) (alpha : UInt16 → Option F) (p : UInt16) : Ceremony Bytes :=
  froztSignRun frost (signers.key p) signers.publicKey message (p = coord) signers.ids.length
    ((alpha p).map frost.serializeRandomizer) (rng p)

variable (signers rng message) in
def spBytes : Bytes :=
  (frost.serializeSigningPackage (signers.package (signers.drawn rng) message)).getD []

variable (signers rng message) in
/-- What the coordinator broadcasts for the randomizer `r`. -/
def combined (r : F) : Bytes := combine (signers.spBytes rng message) (frost.serializeRandomizer r)

variable (signers rng message) in
def froztPhases (coord : UInt16) (r : F) (p : UInt16) : List (Phase UInt16 Bytes Bytes) :=
  let shares := (signers.randomize r).sharePhase (signers.drawn rng) message p
  if p = coord then
    [signers.commitPhase rng p,
      { shares with writes := (u16ToLeBytes 0 ++ signers.combined rng message r) :: shares.writes }]
  else [signers.commitPhase rng p, fromOne coord (signers.combined rng message r), shares]

theorem serialize_package (doc : frost.Documented) (signers : Signers frost) (rng : UInt16 → Rng)
    (message : Bytes) :
    frost.serializeSigningPackage (signers.package (signers.drawn rng) message) =
      some (signers.spBytes rng message) := by
  obtain ⟨b, hb⟩ := doc.signingPackage_ok _ (encodable doc signers rng message)
  rw [spBytes, hb]
  rfl

theorem exists_randomizer (doc : frost.Documented) (signers : Signers frost) (rng : UInt16 → Rng)
    (message : Bytes) (alpha : Option F) (rng' : Rng) :
    ∃ r, (∀ a, alpha = some a → r = a) ∧
      chooseRandomizer frost signers.publicKey.verifyingKey
        (signers.package (signers.drawn rng) message) (alpha.map frost.serializeRandomizer) rng' =
        .ok r := by
  cases alpha with
  | some a =>
    refine ⟨a, fun _ h => Option.some.inj h, ?_⟩
    simp only [chooseRandomizer, Option.map_some, doc.randomizer_roundtrip, okOr_some]
  | none =>
    obtain ⟨r, hr⟩ := doc.newRandomizer_ok signers.publicKey.verifyingKey _ rng'
      ⟨_, serialize_package doc signers rng message⟩
    refine ⟨r, nofun, ?_⟩
    simp only [chooseRandomizer, Option.map_none, hr, okOr_some]

theorem follows_randomizedShares (doc : frost.Documented) (hp : p ∈ signers.ids)
    (rng : UInt16 → Rng) (message : Bytes) (r : F) :
    Follows frame [(signers.randomize r).sharePhase (signers.drawn rng) message p] []
      ((signers.randomize r).sigBytes (signers.drawn rng) message)
      (Proc.lift (blameErr frost.toFrostCore .signingError (frost.signRandomized
          (signers.package (signers.drawn rng) message) (signers.drawn rng p) (signers.key p) r)) >>=
        fun share => exchangeShares frost (signers.key p).identifier signers.ids.length share
          fun shares => frost.aggregateRandomized (signers.package (signers.drawn rng) message)
            shares signers.publicKey r) := by
  have henc := encodable doc signers rng message
  have hshares := follows_exchangeShares (signers.randomize r) doc hp
    (fun m => frost.aggregateRandomized (signers.package (signers.drawn rng) message) m
      signers.publicKey r)
    (aggregateRandomized_ok doc henc) (serialize_signature doc (signers.randomize r) henc)
  rw [signRandomized_ok doc henc hp]
  exact hshares

theorem follows_froztSignRun (doc : frost.Documented) (hp : p ∈ signers.ids) {coord : UInt16}
    {alpha : UInt16 → Option F} {r : F} (hlen : (signers.spBytes rng message).length < 2 ^ 32)
    (hr : chooseRandomizer frost signers.publicKey.verifyingKey
      (signers.package (signers.drawn rng) message) ((alpha coord).map frost.serializeRandomizer)
      (frost.commit (signers.key coord).signingShare (rng coord)).2.2 = .ok r) :
    Follows frame (signers.froztPhases rng message coord r p) []
      ((signers.randomize r).sigBytes (signers.drawn rng) message)
      (signers.froztBody rng message coord alpha p) := by
  have hshares := follows_randomizedShares doc hp rng message r
  have hsp := serialize_package doc signers rng message
  have hnot : ∀ s, frost.deserializeCommitments
      ((signers.randomize r).shareBytes (signers.drawn rng) message s) = none :=
    fun s => share_not_commitments doc _
  unfold froztPhases
  by_cases hcoord : p = coord
  · subst hcoord
    rw [if_pos rfl]
    refine follows_exchangeCommitments doc hp ?_ ?_
    · simp only [agreeRandomizer, decide_true, if_true, hr, hsp, okOr_some, Proc.monadLift_eq,
        Proc.lift_ok, Proc.ret_bind, broadcast, Proc.output, Proc.emit_bind, Proc.pure_eq]
      exact hshares.emit
    · intro ph' hph' s _
      obtain rfl := List.mem_singleton.mp hph'
      exact hnot s
  · rw [if_neg hcoord]
    refine follows_exchangeCommitments doc hp ?_ ?_
    · simp only [agreeRandomizer, decide_eq_true_eq, hcoord, if_false]
      refine Follows.of_input (fun i => readRandomizer frost (unframe i).2) _ rfl rfl ?_ hshares ?_
      · rw [unframe_frame]
        exact readRandomizer_combine doc r hlen
      · intro ph' hph' s _
        obtain rfl := List.mem_singleton.mp hph'
        rw [unframe_frame]
        exact readRandomizer_share doc _
    · intro ph' hph' s _
      rcases List.mem_cons.mp hph' with rfl | hph'
      · exact combined_not_commitments doc hsp
      · obtain rfl := List.mem_singleton.mp hph'
        exact hnot s

/-! ## Schedules -/

variable (signers) in
def setting : Setting := ⟨signers.ids.toFinset, ∅⟩

variable (signers) in
/-- Commitments and shares, each from every other signer. -/
def signPlan (p : UInt16) : List (Finset UInt16) := [signers.others p, signers.others p]

variable (signers) in
/-- The coordinator's message comes between the two. -/
def froztPlan (coord p : UInt16) : List (Finset UInt16) :=
  if p = coord then signers.signPlan p else [signers.others p, {coord}, signers.others p]

theorem planOf_signPhases : Net.planOf (signers.signPhases rng message) = signers.signPlan := rfl

theorem planOf_froztPhases (coord : UInt16) (r : F) :
    Net.planOf (signers.froztPhases rng message coord r) = signers.froztPlan coord := by
  funext p
  unfold Net.planOf froztPhases froztPlan
  split <;> rfl

theorem scripted_sign (doc : frost.Documented) :
    Net.Scripted signers.setting (signers.signBody rng message) (signers.signPhases rng message)
      (fun _ => []) fun _ => signers.sigBytes (signers.drawn rng) message where
  honest := rfl
  follows p hp := follows_signRun doc (List.mem_toFinset.mp hp)
  script s hs r hr hne := by
    have hsr : s ∈ signers.others r := mem_others.mpr ⟨hne.symm, List.mem_toFinset.mp hs⟩
    rw [List.prefix_iff_eq_append]
    simp [Net.copies, written, expected, signPhases, commitPhase, sharePhase,
      Net.route_broadcast hr hne, hsr]

theorem scripted_frozt (doc : frost.Documented) {coord : UInt16} {alpha : UInt16 → Option F} {r : F}
    (hlen : (signers.spBytes rng message).length < 2 ^ 32)
    (hr : chooseRandomizer frost signers.publicKey.verifyingKey
      (signers.package (signers.drawn rng) message) ((alpha coord).map frost.serializeRandomizer)
      (frost.commit (signers.key coord).signingShare (rng coord)).2.2 = .ok r) :
    Net.Scripted signers.setting (signers.froztBody rng message coord alpha)
      (signers.froztPhases rng message coord r) (fun _ => [])
      fun _ => (signers.randomize r).sigBytes (signers.drawn rng) message where
  honest := rfl
  follows p hp := follows_froztSignRun doc (List.mem_toFinset.mp hp) hlen hr
  script s hs q hq hne := by
    have hsq : s ∈ signers.others q := mem_others.mpr ⟨hne.symm, List.mem_toFinset.mp hs⟩
    have hsq' : s ∈ (signers.randomize r).others q := hsq
    rw [List.prefix_iff_eq_append]
    have hroute := Net.route_broadcast hq hne
    by_cases hs' : s = coord
    · -- the coordinator has a message between its commitments and its share
      have hq' : q ≠ coord := fun h => hne (h.trans hs'.symm)
      subst hs'
      simp [Net.copies, written, expected, froztPhases, commitPhase, sharePhase, fromOne, hq',
        hroute, hsq, hsq']
    · by_cases hq' : q = coord
      · subst hq'
        simp [Net.copies, written, expected, froztPhases, commitPhase, sharePhase, fromOne, hs', hroute,
          hsq, hsq']
      · simp [Net.copies, written, expected, froztPhases, commitPhase, sharePhase, fromOne, hs', hq',
          hroute, hsq, hsq']

end Signers

/-! ## The two sessions -/

namespace Ceremony

/-- No session ended in an error, and the finished ones return one signature, valid for the
message under the key `vk`. -/
structure Signed (frost : FrostSigning F G Rng) (ids : List UInt16) (vk : G) (message : Bytes)
    (net : Net Bytes) : Prop where
  noError : ∀ p ∈ ids, ∀ e, (net.party p).outcome ≠ some (.error e)
  agree : ∃ σ b, frost.deserializeSignature b = some σ ∧ frost.verify vk message σ = true ∧
    ∀ p ∈ ids, ∀ out, (net.party p).outcome = some (.ok out) → out = b

/-- Every state of the run is like that. -/
def StaysSigned (signers : Signers frost) (vk : G) (message : Bytes)
    (body : UInt16 → Ceremony Bytes) (acts : List Net.Action) : Prop :=
  ∀ pre, pre <+: acts → ∀ net, Net.run signers.setting body pre = some net →
    Signed frost signers.ids vk message net

variable {signers signers' : Signers frost} {message : Bytes} {rng : UInt16 → Rng}
  {nonces : UInt16 → SigningNonces F} {body : UInt16 → Ceremony Bytes} {acts : List Net.Action}
  {net : Net Bytes}

theorem signed_of_outcomes (doc : frost.Documented)
    (henc : frost.Encodable (signers'.package nonces message))
    (h : ∀ p ∈ signers.ids, (net.party p).outcome = none ∨
      (net.party p).outcome = some (.ok (signers'.sigBytes nonces message))) :
    Signed frost signers.ids signers'.publicKey.verifyingKey message net := by
  have hser := Signers.serialize_signature doc signers' henc
  refine ⟨?_, _, _, doc.signature_roundtrip _ _ hser, Signers.verify_signature doc, ?_⟩
  · intro p hp e
    rcases h p hp with ho | ho
    · rw [ho]
      nofun
    · rw [ho]
      nofun
  · intro p hp out hout
    rcases h p hp with ho | ho
    · rw [ho] at hout
      nomatch hout
    · rw [ho] at hout
      exact (Except.ok.inj (Option.some.inj hout)).symm

theorem staysSigned_iff (doc : frost.Documented)
    (henc : frost.Encodable (signers'.package nonces message))
    {phases : UInt16 → List (Phase UInt16 Bytes Bytes)}
    (hs : Net.Scripted signers.setting body phases (fun _ => [])
      fun _ => signers'.sigBytes nonces message)
    (hr : Net.run signers.setting body acts = some net) :
    StaysSigned signers signers'.publicKey.verifyingKey message body acts ↔
      Net.KeepsPhase signers.setting body (Net.planOf phases) acts := by
  constructor
  · intro h
    by_contra hbreak
    obtain ⟨pre, u, hpre, hu, p, hp, e, he⟩ := hs.error_of_not_keepsPhase hr hbreak
    exact (h pre hpre u hu).noError p (List.mem_toFinset.mp hp) e he
  · intro hkeep pre hpre u hu
    refine signed_of_outcomes doc henc fun p hp => ?_
    exact hs.planned.outcome_of_keepsPhase hu (hkeep.mono hpre) (List.mem_toFinset.mpr hp)

/-- Honest signing sessions stay signed exactly as long as every delivery is in the round
that its recipient is reading; in the rerandomized session under the key shifted by a
randomizer, the given one if there is one. -/
theorem signing_stays_signed_iff (doc : frost.Documented) (signers : Signers frost)
    (message : Bytes) (rng : UInt16 → Rng) :
    (∀ acts net, Net.run signers.setting (signers.signBody rng message) acts = some net →
      (StaysSigned signers signers.publicKey.verifyingKey message (signers.signBody rng message)
          acts ↔
        Net.KeepsPhase signers.setting (signers.signBody rng message) signers.signPlan acts)) ∧
    ∀ coord alpha, (signers.spBytes rng message).length < 2 ^ 32 →
      ∃ r, (∀ a, alpha coord = some a → r = a) ∧ ∀ acts net,
        Net.run signers.setting (signers.froztBody rng message coord alpha) acts = some net →
        (StaysSigned signers (signers.publicKey.verifyingKey + r • frost.generator) message
            (signers.froztBody rng message coord alpha) acts ↔
          Net.KeepsPhase signers.setting (signers.froztBody rng message coord alpha)
            (signers.froztPlan coord) acts) := by
  have henc := Signers.encodable doc signers rng message
  refine ⟨?_, ?_⟩
  · intro acts net hr
    rw [← Signers.planOf_signPhases]
    exact staysSigned_iff doc henc (Signers.scripted_sign doc) hr
  · intro coord alpha hlen
    obtain ⟨r, halpha, hchoose⟩ := Signers.exists_randomizer doc signers rng message (alpha coord)
      (frost.commit (signers.key coord).signingShare (rng coord)).2.2
    refine ⟨r, halpha, fun acts net hr => ?_⟩
    rw [← Signers.planOf_froztPhases]
    have henc' : frost.Encodable ((signers.randomize r).package (signers.drawn rng) message) := henc
    exact staysSigned_iff doc henc' (Signers.scripted_frozt doc hlen hchoose) hr

/-! ## A slow signer -/

theorem sample_tryFrom {p : UInt16} (hp : p ∈ [1, 2, 3]) :
    (Identifier.tryFrom p : Option (Identifier Reference.Scalar)) =
      some ((Identifier.tryFrom p).getD default) := by
  have hne : p ≠ 0 := by
    rintro rfl
    simp at hp
  obtain ⟨id, hid⟩ := Reference.documented.exists_tryFrom hne
  rw [hid]
  rfl

/-- Three holders of the secret 5, any two of which can sign. -/
def sampleSigners : Signers Reference.signing where
  ids := [1, 2, 3]
  ident p := (Identifier.tryFrom p).getD default
  key p := {
    identifier := (Identifier.tryFrom p).getD default
    signingShare := Shamir.evalPoly [5, 7] p.toNat
    verifyingShare := Shamir.evalPoly [5, 7] p.toNat
    verifyingKey := 5
    minSigners := 2 }
  publicKey := {
    verifyingShares := BTreeMap.tabulate (fun p : UInt16 => (Identifier.tryFrom p).getD default)
      (fun p => Shamir.evalPoly [5, 7] p.toNat) [1, 2, 3]
    verifyingKey := 5 }
  minSigners := 2
  nonempty := by decide
  nodup := Reference.nodup_sampleIds
  enough := by decide
  tryFrom _ := sample_tryFrom
  identifier _ _ := rfl
  threshold _ _ := rfl
  verifyingKey _ _ := rfl
  verifyingShares p hp := BTreeMap.mem_tabulate.mpr ⟨p, hp, rfl⟩
  shared := by
    refine ⟨Shamir.polyOf [5, 7], (Shamir.degree_polyOf_lt _).trans (by decide), ?_, ?_⟩
    · rw [Shamir.eval_polyOf, Shamir.evalPoly_zero]
      simp [Reference.signing, Reference.unsigned, Reference.core]
    · intro p hp
      have hid : ((Identifier.tryFrom p).getD default : Identifier Reference.Scalar).toScalar =
          p.toNat := Reference.documented.tryFrom_eq_some_iff.mp (sample_tryFrom hp)
      rw [Shamir.eval_polyOf, hid]

/-- Party 1 has everyone's commitments and broadcasts its share; party 3 is handed that share
before the commitments of party 2. -/
def slowSigner : List Net.Action :=
  [.drain 1, .drain 2, .drain 3, .deliver 2 1, .deliver 3 1, .drain 1, .deliver 1 3, .deliver 1 3]

theorem signRun_slowSigner :
    ∃ net, Net.run sampleSigners.setting (sampleSigners.signBody UInt16.toNat [9]) slowSigner =
        some net ∧
      ¬ StaysSigned sampleSigners 5 [9] (sampleSigners.signBody UInt16.toNat [9]) slowSigner := by
  have herr : ((Net.run sampleSigners.setting (sampleSigners.signBody UInt16.toNat [9])
      slowSigner).bind fun net => (net.party 3).outcome.bind fun r =>
        r.toOption.elim (some ()) fun _ => none) = some () := by decide +kernel
  obtain ⟨net, hnet, hout⟩ := Option.bind_eq_some_iff.mp herr
  obtain ⟨r, hr, hnone⟩ := Option.bind_eq_some_iff.mp hout
  refine ⟨net, hnet, fun h => ?_⟩
  cases r with
  | ok a => simp [Except.toOption] at hnone
  | error e => exact (h _ (List.prefix_refl _) net hnet).noError 3 (by decide) e hr

/-- The first delivery of the plain and of the rerandomized session. -/
theorem signing_stays_signed_sample :
    ∃ net, Net.run sampleSigners.setting (sampleSigners.signBody UInt16.toNat [9])
        [.drain 1, .deliver 1 2] = some net ∧
      (StaysSigned sampleSigners 5 [9] (sampleSigners.signBody UInt16.toNat [9])
          [.drain 1, .deliver 1 2] ↔
        Net.KeepsPhase sampleSigners.setting (sampleSigners.signBody UInt16.toNat [9])
          sampleSigners.signPlan [.drain 1, .deliver 1 2]) ∧
      ∃ r : Reference.Scalar, r = 4 ∧ ∀ acts net,
        Net.run sampleSigners.setting
          (sampleSigners.froztBody UInt16.toNat [9] 1 fun _ => some 4) acts = some net →
        (StaysSigned sampleSigners (5 + r • Reference.signing.generator) [9]
            (sampleSigners.froztBody UInt16.toNat [9] 1 fun _ => some 4) acts ↔
          Net.KeepsPhase sampleSigners.setting
            (sampleSigners.froztBody UInt16.toNat [9] 1 fun _ => some 4)
            (sampleSigners.froztPlan 1) acts) := by
  obtain ⟨net, hnet⟩ := Option.isSome_iff_exists.mp (show (Net.run sampleSigners.setting
    (sampleSigners.signBody UInt16.toNat [9]) [.drain 1, .deliver 1 2]).isSome by decide +kernel)
  have h := signing_stays_signed_iff Reference.signing_documented sampleSigners [9] UInt16.toNat
  obtain ⟨r, hr, hiff⟩ := h.2 1 (fun _ => some 4) (by decide +kernel)
  exact ⟨net, hnet, h.1 _ _ hnet, r, hr 4 rfl, hiff⟩

end Ceremony
