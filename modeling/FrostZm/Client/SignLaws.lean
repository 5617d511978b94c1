import FrostZm.Client.SignRuns

/-!
# Whether a signer signs and returns what it was asked for

What a signer signs is up to the first package message, what it returns up to the first result
message, whoever posts them.
-/

set_option linter.unusedSectionVars false

namespace Signing

open Relay Relay.RelayClient Collect Firsts

variable {F G P Rng Nonces : Type} [Field F] [DecidableEq F] [Ord F] [Std.TransOrd F]
  [Std.LawfulEqOrd F] [AddCommGroup G] [Module F G] [AddCommGroup P]

/-! ## What is asked for -/

section Asked

variable (prims : Primitives) (json : Json) (network : Network) (frost : FrostSigning F G Rng)
  (chain : Chain Nonces Rng) (phases : SignPhases) (party : Party) (client : RelayClient)
  (rng : Rng) (message : Bytes) (alpha : Option Bytes)

/-- A package of these commitments and the message, with the randomizer if one is given. -/
structure IsFor (commitmentsEncoded : Bytes) (use : Use) : Prop where
  package : ∃ commitments,
    SignPackages.decodeCommitmentsMap frost commitmentsEncoded = .ok commitments ∧
      frost.deserializeSigningPackage use.signingPackage = some ⟨commitments, message⟩
  randomizer : ∀ a, alpha = some a → use.randomizer = a

/-- The run signed for the message of its caller and the commitments that it collected. -/
def SignsAsked (final : State) : Prop :=
  ∃ nonces commitmentsEncoded st use,
    commitRound prims json network chain phases party rng (.init client) =
      (.ok (nonces, commitmentsEncoded), st) ∧
    final.used = some use ∧ IsFor frost message alpha commitmentsEncoded use

/-- The first message of the package phase holds a package for the message of the caller, the
first commitments of each id, and one's own. -/
def SentAsked : Prop :=
  ∀ nonces own read d, chain.signCommit rng = .ok (nonces, own) →
    ReadsCommitments prims json network phases party client read →
    firstDelivery (network.polls phases.package) = some d →
    ∃ text use entries, client.verifyBody prims d.message = .ok text ∧
      chain.readPackage text = .ok use ∧
      mapEntries prims chain .decodeCommitment (commitmentsOf prims json party client own read) =
        .ok entries ∧
      IsFor frost message alpha (encodeFields entries) use

/-- The signature verifies under the randomizer that the run signed with. -/
def Verifies (verify : Bytes → Bytes → Result Unit) (sig : Bytes) (final : State) : Prop :=
  ∃ use, final.used = some use ∧ verify use.randomizer sig = .ok ()

/-- The first message of the result phase holds a signature that verifies under the randomizer
in the first message of the package phase. -/
def SentVerifies (verify : Bytes → Bytes → Result Unit) : Prop :=
  ∀ d d', firstDelivery (network.polls phases.package) = some d →
    firstDelivery (network.polls phases.result) = some d' →
    ∃ text use text' sig, client.verifyBody prims d.message = .ok text ∧
      chain.readPackage text = .ok use ∧ client.verifyBody prims d'.message = .ok text' ∧
      prims.base64Decode text' = some sig ∧ verify use.randomizer sig = .ok ()

end Asked

/-! ## Any chain -/

section Runs

variable {prims : Primitives} {json : Json} {network : Network} {frost : FrostSigning F G Rng}
  {chain : Chain Nonces Rng} {phases : SignPhases} {party : Party} {client : RelayClient}
  {rng rng' : Rng} {message : Bytes} {alpha : Option Bytes} {sig : Bytes} {st' : State}

theorem not_released_init : ¬ Released (.init client) := nofun

/-- Only signers post a share. -/
theorem released_runSign
    (h : Released (runSign prims json network chain phases party rng rng' (.init client)).2) :
    ∃ nonces enc st d text use,
      commitRound prims json network chain phases party rng (.init client) =
        (.ok (nonces, enc), st) ∧
      firstDelivery (network.polls phases.package) = some d ∧
      client.verifyBody prims d.message = .ok text ∧ chain.readPackage text = .ok use ∧
      (runSign prims json network chain phases party rng rng' (.init client)).2.used = some use := by
  unfold runSign at h ⊢
  cases hcoord : party.coordinator with
  | none =>
    rw [hcoord] at h
    exact absurd h not_released_init
  | some coordinatorID =>
    rw [hcoord] at h
    obtain ⟨⟨nonces, enc⟩, st, hround, h₁, hst⟩ := quiet_commitRound.released h not_released_init
    obtain ⟨hkey, -⟩ := leaves_commitRound.of_ok hround
    dsimp only at h₁ ⊢
    rw [bind_run, hround]
    dsimp only
    by_cases hparty : party.partyID = coordinatorID
    · rw [if_pos hparty] at h₁
      exact absurd ((quiet_runCoordinator _).mp h₁) hst
    · rw [if_neg hparty] at h₁ ⊢
      obtain ⟨d, text, use, hd, hverify, hread, hused⟩ := released_runSigner hkey hst h₁
      exact ⟨nonces, enc, st, d, text, use, rfl, hd, hverify, hread, hused⟩

theorem signsAsked_iff
    (h : Released (runSign prims json network chain phases party rng rng' (.init client)).2) :
    SignsAsked prims json network frost chain phases party client rng message alpha
        (runSign prims json network chain phases party rng rng' (.init client)).2 ↔
      SentAsked prims json network frost chain phases party client rng message alpha := by
  obtain ⟨nonces, enc, st, d, text, use, hround, hd, hverify, hread, hused⟩ := released_runSign h
  obtain ⟨own, read, entries, hcommit, hreads, hentries, rfl⟩ := commitRound_ok rfl hround
  constructor
  · rintro ⟨nonces', enc', st', use', hround', hused', hfor⟩ nonces'' own' read' d' hcommit' hreads' hd'
    obtain ⟨hok, rfl⟩ := Prod.mk.inj (hround.symm.trans hround')
    obtain ⟨rfl, rfl⟩ := Prod.mk.inj (Except.ok.inj hok)
    obtain rfl := Option.some.inj (hused.symm.trans hused')
    obtain ⟨rfl, rfl⟩ := Prod.mk.inj (Except.ok.inj (hcommit.symm.trans hcommit'))
    obtain rfl := Option.some.inj (hd.symm.trans hd')
    obtain rfl := hreads.unique hreads'
    exact ⟨text, use, entries, hverify, hread, hentries, hfor⟩
  · intro hasked
    obtain ⟨text', use', entries', hverify', hread', hentries', hfor⟩ :=
      hasked nonces own read d hcommit hreads hd
    obtain rfl := Except.ok.inj (hverify.symm.trans hverify')
    obtain rfl := Except.ok.inj (hread.symm.trans hread')
    obtain rfl := Except.ok.inj (hentries.symm.trans hentries')
    exact ⟨nonces, _, st, use, hround, hused, hfor⟩

theorem verifies_iff (verify : Bytes → Bytes → Result Unit)
    (hcoordinator : ∀ enc use shares sig, chain.newPackage enc rng' = .ok use →
      chain.aggregate use shares = .ok sig → verify use.randomizer sig = .ok ())
    (h : runSign prims json network chain phases party rng rng' (.init client) = (.ok sig, st')) :
    Verifies verify sig st' ↔ party.coordinator = some party.partyID ∨
      SentVerifies prims network chain phases client verify := by
  unfold runSign at h
  cases hcoord : party.coordinator with
  | none =>
    rw [hcoord] at h
    nomatch (Prod.mk.inj h).1
  | some coordinatorID =>
    rw [hcoord] at h
    obtain ⟨⟨nonces, enc⟩, st, hround, h₁⟩ := bind_run_ok.mp h
    obtain ⟨hkey, -⟩ := leaves_commitRound.of_ok hround
    dsimp only at h₁
    by_cases hparty : party.partyID = coordinatorID
    · rw [if_pos hparty] at h₁
      obtain ⟨use, shares, hpackage, hadded, hused⟩ := runCoordinator_ok h₁
      apply iff_of_true
      · exact ⟨use, hused, hcoordinator enc use shares sig hpackage hadded⟩
      · exact .inl (congrArg some hparty.symm)
    · rw [if_neg hparty] at h₁
      obtain ⟨d, text, use, d', text', hd, hverify, hread, hd', hverify', hsig, hused⟩ :=
        runSigner_ok hkey h₁
      have hnot : some coordinatorID ≠ some party.partyID :=
        fun heq => hparty (Option.some.inj heq).symm
      rw [or_iff_right hnot]
      constructor
      · rintro ⟨use', hused', hvalid⟩ e e' he he'
        obtain rfl := Option.some.inj (hused.symm.trans hused')
        obtain rfl := Option.some.inj (hd.symm.trans he)
        obtain rfl := Option.some.inj (hd'.symm.trans he')
        exact ⟨text, use, text', sig, hverify, hread, hverify', hsig, hvalid⟩
      · intro hsent
        obtain ⟨t, use', t', sig', ht, hread', ht', hsig', hvalid⟩ := hsent d d' hd hd'
        obtain rfl := Except.ok.inj (hverify.symm.trans ht)
        obtain rfl := Except.ok.inj (hread.symm.trans hread')
        obtain rfl := Except.ok.inj (hverify'.symm.trans ht')
        obtain rfl := Option.some.inj (hsig.symm.trans hsig')
        exact ⟨use, hused, hvalid⟩

end Runs

/-! ## The three functions -/

section Functions

variable {F' G' Rng' : Type} [Field F'] [DecidableEq F'] [Ord F'] [Std.TransOrd F']
  [Std.LawfulEqOrd F'] [AddCommGroup G'] [Module F' G']

/-- The barrier behind a run of the Monero client changes nothing of what it did. -/
theorem fromtRunSign_state (prims : Primitives) (json : Json) (network : Network)
    (frost : FrostSigning F G Rng) (lib : FromtLib F G P Rng) (party : Party)
    (keyShare message : Bytes) (rng rng' : Rng) (st : State) :
    (fromtRunSign prims json network frost lib party keyShare message rng rng' st).2 =
      (runSign prims json network (fromtChain prims json frost lib keyShare message) signPhases
        party rng rng' st).2 := by
  unfold fromtRunSign
  rw [bind_run]
  split
  · next sig st' hrun =>
    rw [hrun, bind_run]
    unfold waitForBarrier
    split
    · next heq =>
      split at heq
      · obtain ⟨-, rfl⟩ := Prod.mk.inj heq
        rfl
      · nomatch (Prod.mk.inj heq).1
    · next heq =>
      split at heq
      · nomatch (Prod.mk.inj heq).1
      · obtain ⟨-, rfl⟩ := Prod.mk.inj heq
        rfl
  · next hrun => rw [hrun]

/-- A run of any of the three that posts a share has signed what its caller asked for, if and
only if that is what the first package message holds. -/
theorem signers_sign_asked_iff (prims : Primitives) (json : Json) (network : Network)
    (frozt : FrostSigning F G Rng) (keys : FrostKeys F G Rng) (fromt : FrostSigning F' G' Rng')
    (lib : FromtLib F' G' P Rng') (party : Party) (client : RelayClient)
    (keyPackage pubKeyPackage keyShare message alpha : Bytes) (roundIndex : Int) (rng₁ rng₂ : Rng)
    (rng₁' rng₂' : Rng') :
    (Released (froztRunSign prims json network frozt keys party keyPackage pubKeyPackage message
        rng₁ rng₂ (.init client)).2 →
      (SignsAsked prims json network frozt
          (froztChain prims json frozt keys keyPackage pubKeyPackage message none) signPhases party
          client rng₁ message none
          (froztRunSign prims json network frozt keys party keyPackage pubKeyPackage message
            rng₁ rng₂ (.init client)).2 ↔
        SentAsked prims json network frozt
          (froztChain prims json frozt keys keyPackage pubKeyPackage message none) signPhases party
          client rng₁ message none)) ∧
    (Released (runSpendSign prims json network frozt keys party keyPackage pubKeyPackage message
        alpha roundIndex rng₁ rng₂ (.init client)).2 →
      (SignsAsked prims json network frozt
          (froztChain prims json frozt keys keyPackage pubKeyPackage message (some alpha))
          (spendPhases roundIndex) party client rng₁ message (some alpha)
          (runSpendSign prims json network frozt keys party keyPackage pubKeyPackage message
            alpha roundIndex rng₁ rng₂ (.init client)).2 ↔
        SentAsked prims json network frozt
          (froztChain prims json frozt keys keyPackage pubKeyPackage message (some alpha))
          (spendPhases roundIndex) party client rng₁ message (some alpha))) ∧
    (Released (fromtRunSign prims json network fromt lib party keyShare message rng₁' rng₂'
        (.init client)).2 →
      (SignsAsked prims json network fromt (fromtChain prims json fromt lib keyShare message)
          signPhases party client rng₁' message none
          (fromtRunSign prims json network fromt lib party keyShare message rng₁' rng₂'
            (.init client)).2 ↔
        SentAsked prims json network fromt (fromtChain prims json fromt lib keyShare message)
          signPhases party client rng₁' message none)) := by
  refine ⟨signsAsked_iff, signsAsked_iff, ?_⟩
  rw [fromtRunSign_state]
  exact signsAsked_iff

theorem goSlice_eq_some {b b' : Bytes} (h : goSlice b = some b') : b' = b := by
  unfold goSlice at h
  split at h
  · nomatch h
  · exact (Option.some.inj h).symm

theorem froztChain_verifies {prims : Primitives} {json : Json} {frost : FrostSigning F G Rng}
    {keys : FrostKeys F G Rng} {keyPackage pubKeyPackage message : Bytes} {alpha : Option Bytes}
    {rng : Rng} (doc : frost.Documented) (hread : SignPackages.ReadsPackages frost)
    (enc : Bytes) (use : Use) (shares sig : Bytes)
    (hpackage : (froztChain prims json frost keys keyPackage pubKeyPackage message alpha).newPackage
      enc rng = .ok use)
    (hadded : (froztChain prims json frost keys keyPackage pubKeyPackage message alpha).aggregate
      use shares = .ok sig) :
    SignPackages.froztVerifySignature frost keys (some message) (some sig) (some pubKeyPackage)
      (some use.randomizer) = .ok () := by
  obtain ⟨⟨sp, r⟩, hnew, huse⟩ := bind_eq_ok.mp hpackage
  obtain rfl := Except.ok.inj huse
  obtain ⟨commitments, msg, hmsg, hsp⟩ := SignPackages.froztSignNewPackage_reads hread hnew
  obtain rfl := goSlice_eq_some hmsg
  have hgiven : ∀ {a b c d : Option Bytes},
      SignPackages.froztSignAggregate frost keys a b c d = .ok sig →
      ∃ a' b' c' d', a = some a' ∧ b = some b' ∧ c = some c' ∧ d = some d' := by
    intro a b c d h
    simp only [SignPackages.froztSignAggregate, bind_eq_ok, okOr_eq_ok] at h
    obtain ⟨a', ha, b', hb, c', hc, d', hd, -⟩ := h
    exact ⟨a', b', c', d', ha, hb, hc, hd⟩
  unfold froztChain at hadded
  dsimp only at hadded
  obtain ⟨a, b, c, d, ha, hb, hc, hd⟩ := hgiven hadded
  rw [ha, hb, hc, hd] at hadded
  obtain rfl := goSlice_eq_some ha
  obtain rfl := goSlice_eq_some hc
  obtain rfl := goSlice_eq_some hd
  exact SignPackages.froztVerifySignature_aggregate doc hsp hadded

theorem fromtChain_verifies {prims : Primitives} {json : Json} {frost : FrostSigning F G Rng}
    {lib : FromtLib F G P Rng} {keyShare message : Bytes} {rng : Rng} (doc : frost.Documented)
    (hread : SignPackages.ReadsPackages frost) (enc : Bytes) (use : Use) (shares sig : Bytes)
    (hpackage : (fromtChain prims json frost lib keyShare message).newPackage enc rng = .ok use)
    (hadded : (fromtChain prims json frost lib keyShare message).aggregate use shares = .ok sig) :
    SignPackages.fromtVerifySignature frost lib (some message) (some sig) (some keyShare) =
      .ok () := by
  obtain ⟨sp, hnew, huse⟩ := bind_eq_ok.mp hpackage
  obtain rfl := Except.ok.inj huse
  obtain ⟨commitments, msg, hmsg, hsp⟩ := SignPackages.fromtSignCreatePackage_reads hread hnew
  obtain rfl := Option.some.inj hmsg
  exact SignPackages.fromtVerifySignature_aggregate doc hsp hadded

/-- A run of any of the three that returns a signature returns one that verifies for the message
of its caller, if and only if it is the coordinator's or the first result message holds one that
does. -/
theorem returned_signatures_verify_iff (prims : Primitives) (json : Json) (network : Network)
    {frozt : FrostSigning F G Rng} (doc : frozt.Documented)
    (hread : SignPackages.ReadsPackages frozt) (keys : FrostKeys F G Rng)
    {fromt : FrostSigning F' G' Rng'} (doc' : fromt.Documented)
    (hread' : SignPackages.ReadsPackages fromt) (lib : FromtLib F' G' P Rng') (party : Party)
    (client : RelayClient) (keyPackage pubKeyPackage keyShare message alpha : Bytes)
    (roundIndex : Int) (rng₁ rng₂ : Rng) (rng₁' rng₂' : Rng') :
    let froztVerify randomizer sig := SignPackages.froztVerifySignature frozt keys (some message)
      (some sig) (some pubKeyPackage) (some randomizer)
    let fromtVerify (_ : Bytes) sig := SignPackages.fromtVerifySignature fromt lib (some message)
      (some sig) (some keyShare)
    (∀ sig st, froztRunSign prims json network frozt keys party keyPackage pubKeyPackage message
        rng₁ rng₂ (.init client) = (.ok sig, st) →
      (Verifies froztVerify sig st ↔ party.coordinator = some party.partyID ∨
        SentVerifies prims network
          (froztChain prims json frozt keys keyPackage pubKeyPackage message none) signPhases client
          froztVerify)) ∧
    (∀ sig st, runSpendSign prims json network frozt keys party keyPackage pubKeyPackage message
        alpha roundIndex rng₁ rng₂ (.init client) = (.ok sig, st) →
      (Verifies froztVerify sig st ↔ party.coordinator = some party.partyID ∨
        SentVerifies prims network
          (froztChain prims json frozt keys keyPackage pubKeyPackage message (some alpha))
          (spendPhases roundIndex) client froztVerify)) ∧
    (∀ sig st, fromtRunSign prims json network fromt lib party keyShare message rng₁' rng₂'
        (.init client) = (.ok sig, st) →
      (Verifies fromtVerify sig st ↔ party.coordinator = some party.partyID ∨
        SentVerifies prims network (fromtChain prims json fromt lib keyShare message) signPhases
          client fromtVerify)) := by
  intro froztVerify fromtVerify
  refine ⟨?_, ?_, ?_⟩
  · intro sig st h
    exact verifies_iff froztVerify (froztChain_verifies doc hread) h
  · intro sig st h
    exact verifies_iff froztVerify (froztChain_verifies doc hread) h
  · intro sig st h
    obtain ⟨sig', st₁, hrun, h₁⟩ := bind_run_ok.mp h
    obtain ⟨_, st₂, hbarrier, h₂⟩ := bind_run_ok.mp h₁
    obtain ⟨hok, rfl⟩ := Prod.mk.inj h₂
    obtain rfl := Except.ok.inj hok
    obtain ⟨-, hused⟩ := leaves_waitForBarrier.of_ok hbarrier
    have hiff := verifies_iff fromtVerify (fromtChain_verifies doc' hread') hrun
    unfold Verifies at hiff ⊢
    rw [hused]
    exact hiff

end Functions

/-! ## A signer that is sent another message -/

section Sample

open Reference

/-- The share of party 2 of the secret 5, any two of whose holders can sign. -/
def sampleKeyPackage : Bytes :=
  (serializeKeyPackage {
    identifier := sampleIdent 2
    signingShare := Shamir.evalPoly [5, 7] 2
    verifyingShare := Shamir.evalPoly [5, 7] 2
    verifyingKey := 5
    minSigners := 2 }).getD []

def samplePublicKeys : Bytes :=
  (serializePublicKeyPackage {
    verifyingShares := BTreeMap.tabulate sampleIdent (fun p => Shamir.evalPoly [5, 7] p.toNat)
      [1, 2]
    verifyingKey := 5 }).getD []

/-- The commitments that party 1 draws from 10, and party 2 from 20. -/
def sampleCommitments (p : UInt16) : SigningCommitments Scalar :=
  (signing.commit 0 (10 * p.toNat)).2.1

def samplePackage (message : Bytes) : Bytes :=
  (serializeSigningPackage ⟨BTreeMap.tabulate sampleIdent sampleCommitments [1, 2], message⟩).getD []

def sampleRandomizer : Bytes := encodeScalar 3

def commitText : GoString := ascii "\x7b\"sender_id\":1,\"commitment\":\"\"\x7d"

def packageText (message : Bytes) : GoString :=
  ascii "\x7b\"signing_package\":\"" ++ samplePackage message ++ ascii "\",\"randomizer\":\"" ++
    sampleRandomizer ++ ascii "\"\x7d"

def signJson (message : Bytes) : Json where
  toJson := { sampleJson with
    commitmentMessage := fun body =>
      if body = commitText then some ⟨1, (serializeCommitments (sampleCommitments 1)).getD []⟩
      else none }
  froztPackage body :=
    if body = packageText message then some (samplePackage message, sampleRandomizer) else none
  fromtPackage _ := none

/-- The message of "a" with this number. -/
def fromA (sequenceNo : UInt64) (body : GoString) : List Poll :=
  [.messages [⟨ascii "a", ⟨ascii "s", ascii "a", [ascii "b"], body, [], sequenceNo⟩⟩]]

/-- Every request succeeds. What "b" is sent: the commitments of "a", a package for this
message, and this signature. -/
def signNetwork (message signature : Bytes) : Network where
  sends _ := true
  barriers _ := true
  polls messageID :=
    if messageID = signPhases.commit then fromA 1 commitText
    else if messageID = signPhases.package then fromA 2 (packageText message)
    else if messageID = signPhases.result then fromA 3 signature
    else []

/-- The second of the two parties, in their order the one that does not coordinate. -/
def sampleParty : Party := ⟨ascii "b", 2, [ascii "a", ascii "b"]⟩

/-- "b" is asked for the message 9. -/
def sampleRun (message signature : Bytes) : Except Stop Bytes × State :=
  froztRunSign samplePrims (signJson message) (signNetwork message signature) signing Reference.keys
    sampleParty sampleKeyPackage samplePublicKeys [9] 20 0 (.init plainClient)

theorem released_sampleRun {message signature : Bytes}
    (h : ((sampleRun message signature).2.posts.any fun p =>
      match p.body with
      | .share _ => true
      | _ => false) = true) : Released (sampleRun message signature).2 := by
  obtain ⟨p, hp, hbody⟩ := List.any_eq_true.mp h
  cases hkind : p.body with
  | share m => exact ⟨p, hp, m, hkind⟩
  | commitment m => simp [hkind] at hbody
  | signingPackage sp r => simp [hkind] at hbody
  | signature sig => simp [hkind] at hbody

/-- "b" signs the message 1 that it is sent. -/
theorem other_message_signed : Released (sampleRun [1] [1]).2 ∧
    ¬ SignsAsked samplePrims (signJson [1]) (signNetwork [1] [1]) signing
      (froztChain samplePrims (signJson [1]) signing Reference.keys sampleKeyPackage
        samplePublicKeys [9] none) signPhases sampleParty plainClient 20 [9] none
      (sampleRun [1] [1]).2 := by
  refine ⟨released_sampleRun (by decide +kernel), ?_⟩
  rintro ⟨nonces, enc, st, use, -, hused, hfor⟩
  obtain ⟨commitments, -, hpackage⟩ := hfor.package
  have hmessage : ((sampleRun [1] [1]).2.used.bind fun use =>
      (signing.deserializeSigningPackage use.signingPackage).map SigningPackage.message) =
        some [1] := by decide +kernel
  rw [hused, Option.bind_some, hpackage, Option.map_some] at hmessage
  simp at hmessage

/-- A signer that is sent the package that it was asked for. -/
theorem signers_sign_asked_sample : Released (sampleRun [9] [1]).2 ∧
    (SignsAsked samplePrims (signJson [9]) (signNetwork [9] [1]) signing
        (froztChain samplePrims (signJson [9]) signing Reference.keys sampleKeyPackage
          samplePublicKeys [9] none) signPhases sampleParty plainClient 20 [9] none
        (sampleRun [9] [1]).2 ↔
      SentAsked samplePrims (signJson [9]) (signNetwork [9] [1]) signing
        (froztChain samplePrims (signJson [9]) signing Reference.keys sampleKeyPackage
          samplePublicKeys [9] none) signPhases sampleParty plainClient 20 [9] none) := by
  have hreleased : Released (sampleRun [9] [1]).2 := released_sampleRun (by decide +kernel)
  refine ⟨hreleased, ?_⟩
  exact (signers_sign_asked_iff samplePrims (signJson [9]) (signNetwork [9] [1]) signing
    Reference.keys signing Reference.fromt sampleParty plainClient sampleKeyPackage samplePublicKeys
    [] [9] [] 0 20 0 0 0).1 hreleased

/-- One byte is not a signature. -/
def sampleVerify (randomizer sig : Bytes) : Result Unit :=
  SignPackages.froztVerifySignature signing Reference.keys (some [9]) (some sig)
    (some samplePublicKeys) (some randomizer)

/-- "b" returns the byte 1 that it is sent. -/
theorem other_bytes_returned : (sampleRun [9] [1]).1 = .ok [1] ∧
    ¬ Verifies sampleVerify [1] (sampleRun [9] [1]).2 := by
  refine ⟨by decide +kernel, ?_⟩
  rintro ⟨use, hused, hverify⟩
  have hfails : ((sampleRun [9] [1]).2.used.map fun use =>
      (sampleVerify use.randomizer [1]).toOption) = some none := by decide +kernel
  rw [hused, Option.map_some, hverify] at hfails
  nomatch Option.some.inj hfails

theorem returned_signatures_verify_sample : ∃ st,
    sampleRun [9] [1] = (.ok [1], st) ∧
      (Verifies sampleVerify [1] st ↔ sampleParty.coordinator = some sampleParty.partyID ∨
        SentVerifies samplePrims (signNetwork [9] [1])
          (froztChain samplePrims (signJson [9]) signing Reference.keys sampleKeyPackage
            samplePublicKeys [9] none) signPhases plainClient sampleVerify) := by
  have hread : SignPackages.ReadsPackages signing := fun _ _ h => signingPackage_roundtrip h
  have hok : (sampleRun [9] [1]).1 = .ok [1] := by decide +kernel
  have hrun : sampleRun [9] [1] = (.ok [1], (sampleRun [9] [1]).2) := by rw [← hok]
  refine ⟨(sampleRun [9] [1]).2, hrun, ?_⟩
  exact (returned_signatures_verify_iff samplePrims (signJson [9]) (signNetwork [9] [1])
    signing_documented hread Reference.keys signing_documented hread Reference.fromt sampleParty
    plainClient sampleKeyPackage samplePublicKeys [] [9] [] 0 20 0 0 0).1 _ _ hrun

end Sample

end Signing
