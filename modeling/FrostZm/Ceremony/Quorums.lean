import FrostZm.Ceremony.Contributions
import FrostZm.Ceremony.Signatures

/-!
# From keys to signatures

Whatever the corrupt parties of a key ceremony send, those that end it with the same public keys
hold shares of one secret, and as many of them as the threshold asks for can sign under its key.
-/

open FrostChannel Phases Polynomial Shamir

set_option linter.unusedSectionVars false

variable {F G Rng : Type} [Field F] [DecidableEq F] [Ord F] [Std.TransOrd F] [Std.LawfulEqOrd F]
  [AddCommGroup G] [Module F G]

namespace Ceremony

/-! ## The shares of a quorum -/

/-- The keys of a quorum, with the public keys that all of its members have. -/
structure SharesKey (core : FrostCore F G Rng) (minSigners : UInt16) (quorum : List UInt16)
    (key : UInt16 → KeyPackage F G) (pub : PublicKeyPackage F G) : Prop where
  identifier : ∀ p ∈ quorum, Identifier.tryFrom p = some (key p).identifier
  threshold : ∀ p ∈ quorum, (key p).minSigners = minSigners
  verifyingKey : ∀ p ∈ quorum, (key p).verifyingKey = pub.verifyingKey
  named : ∀ p ∈ quorum, (key p).identifier ∈ pub.verifyingShares
  /-- One polynomial has all shares and the secret, and is published in the verifying shares. -/
  shared : ∃ f : F[X], f.degree < (max 1 minSigners.toNat : ℕ) ∧
    pub.verifyingKey = f.eval 0 • core.generator ∧
    (∀ p ∈ quorum, (key p).signingShare = f.eval (key p).identifier.toScalar) ∧
    ∀ (id : Identifier F) (v : G), pub.verifyingShares[id]? = some v →
      v = f.eval id.toScalar • core.generator

variable {core : FrostCore F G Rng} {α β : Type} [Inhabited α] {n minSigners p : UInt16}
  {decode : Bytes → Option α} {project : α → Round1Package F G} {l₁ l₂ : List (UInt16 × Bytes)}
  {keys : KeyPackage F G × PublicKeyPackage F G}
  {o : Opening core decode project n minSigners p}

namespace RoundsOver

theorem verifyingShare_eq (doc : core.Documented) (h : RoundsOver o l₁ l₂ keys)
    (hothers : ∀ m ∈ l₁, m.1 ≠ p) {id : Identifier F} {v : G}
    (hv : keys.2.verifyingShares[id]? = some v) :
    v = (((commitments o l₁).toList.map Prod.snd).map fun c => evalCommitment c id.toScalar).sum := by
  obtain ⟨-, -, hpub⟩ := h.part3Accepts doc hothers
  rw [hpub, FrostCore.publicKeys, Std.ExtTreeMap.getElem?_map] at hv
  obtain ⟨c, -, rfl⟩ := Option.map_eq_some_iff.mp hv
  rw [List.map_map]
  rfl

theorem own_verifyingShare (doc : core.Documented) (h : RoundsOver o l₁ l₂ keys)
    (hothers : ∀ m ∈ l₁, m.1 ≠ p) :
    keys.1.identifier = o.secret1.identifier ∧ keys.1.verifyingKey = keys.2.verifyingKey ∧
      keys.2.verifyingShares[keys.1.identifier]? =
        some (keys.1.signingShare • core.generator) := by
  obtain ⟨-, hkey, hpub⟩ := h.part3Accepts doc hothers
  have hident : keys.1.identifier = o.secret2.identifier := by
    rw [hkey]
    rfl
  refine ⟨hident, by rw [hkey, hpub]; rfl, ?_⟩
  rw [h.signingShare_eq doc hothers, hident, hpub, FrostCore.publicKeys, Std.ExtTreeMap.getElem?_map,
    FrostCore.groupCommitments, Std.ExtTreeMap.getElem?_insert_self]
  rfl

theorem verifyingKey_eq_zero (doc : core.Documented) (h : RoundsOver o l₁ l₂ keys)
    (hothers : ∀ m ∈ l₁, m.1 ≠ p) :
    keys.2.verifyingKey =
      (((commitments o l₁).toList.map Prod.snd).map fun c => evalCommitment c (0 : F)).sum := by
  obtain ⟨-, -, hpub⟩ := h.part3Accepts doc hothers
  rw [hpub, List.map_map]
  refine congrArg List.sum (List.map_congr_left fun e _ => ?_)
  exact (evalCommitment_zero e.2).symm

end RoundsOver

variable {w : Setting} {body : UInt16 → Ceremony β} {acts : List Net.Action} {net : Net β}
  {property : (q : UInt16) → Opening core decode project n minSigners q → Prop}
  {f : UInt16 → BTreeMap (Identifier F) α → KeyPackage F G × PublicKeyPackage F G → Ceremony β}
  {storedKeys : β → Option (KeyPackage F G × PublicKeyPackage F G)}
  {quorum : List UInt16} {key : UInt16 → KeyPackage F G} {pub : PublicKeyPackage F G}

/-- Parties that follow the protocol have ended well, all with the same public keys. -/
def EndsWith (w : Setting) (net : Net β)
    (storedKeys : β → Option (KeyPackage F G × PublicKeyPackage F G)) (quorum : List UInt16)
    (key : UInt16 → KeyPackage F G) (pub : PublicKeyPackage F G) : Prop :=
  ∀ p ∈ quorum, p ∈ w.honestIds ∧
    ∃ out, (net.party p).outcome = some (.ok out) ∧ storedKeys out = some (key p, pub)

theorem EndsWith.roundsOver (hopen : AllOpen w property f body) (hrun : Net.run w body acts = some net)
    (hstores : ∀ q, Stores storedKeys (f q)) (hend : EndsWith w net storedKeys quorum key pub)
    (hp : p ∈ quorum) :
    ∃ (o : Opening core decode project n minSigners p) (l₁ l₂ : List (UInt16 × Bytes)),
      RoundsOver o l₁ l₂ (key p, pub) ∧ ∀ m ∈ l₁, m.1 ≠ p := by
  obtain ⟨hhonest, out, hout, hstored⟩ := hend p hp
  obtain ⟨o, l₁, l₂, log, keys, -, -, hfin⟩ := hopen.finished hrun hhonest hout
  obtain ⟨rest, heval⟩ := hfin.ending
  obtain rfl := Option.some.inj ((hstores p _ _ _ _ _ heval).symm.trans hstored)
  exact ⟨o, l₁, l₂, hfin.roundsOver, hfin.others⟩

theorem EndsWith.sharesKey (doc : core.Documented) (hopen : AllOpen w property f body)
    (hrun : Net.run w body acts = some net) (hstores : ∀ q, Stores storedKeys (f q))
    (hend : EndsWith w net storedKeys quorum key pub) (hnodup : quorum.Nodup)
    (henough : max 1 minSigners.toNat ≤ quorum.length) :
    SharesKey core minSigners quorum key pub := by
  have hover := fun p hp => hend.roundsOver hopen hrun hstores (p := p) hp
  have hident : ∀ p ∈ quorum, Identifier.tryFrom p = some (key p).identifier := by
    intro p hp
    obtain ⟨o, l₁, l₂, h, hothers⟩ := hover p hp
    rw [(h.own_verifyingShare doc hothers).1, o.ident]
  have hown : ∀ p ∈ quorum, pub.verifyingShares[(key p).identifier]? =
      some ((key p).signingShare • core.generator) := by
    intro p hp
    obtain ⟨o, l₁, l₂, h, hothers⟩ := hover p hp
    exact (h.own_verifyingShare doc hothers).2.2
  obtain ⟨p₀, hp₀⟩ : ∃ p, p ∈ quorum :=
    List.exists_mem_of_length_pos (le_trans (le_max_left 1 _) henough)
  -- what one member was sent is what all of them have published
  obtain ⟨o, l₁, l₂, h, hothers⟩ := hover p₀ hp₀
  have hinj : Set.InjOn (fun p => (key p).identifier.toScalar) quorum.toFinset := by
    intro p hp q hq heq
    rw [List.coe_toFinset] at hp hq
    have hsame : (key p).identifier = (key q).identifier := Identifier.ext heq
    exact doc.tryFrom_inj (hident p hp) (hsame ▸ hident q hq)
  have hcommitted : ∀ p ∈ quorum.toFinset, (key p).signingShare • core.generator =
      (((RoundsOver.commitments o l₁).toList.map Prod.snd).map fun c =>
        evalCommitment c (key p).identifier.toScalar).sum := fun p hp =>
    h.verifyingShare_eq doc hothers (hown p (List.mem_toFinset.mp hp))
  have hcard : max 1 minSigners.toNat ≤ quorum.toFinset.card := by
    rwa [List.toFinset_card_of_nodup hnodup]
  obtain ⟨f, hdeg, hpublished, hshares⟩ := exists_poly_of_committed doc.generator_ne_zero hinj hcard
    (fun c hc => by
      obtain ⟨e, he, rfl⟩ := List.mem_map.mp hc
      exact (h.length_commitments doc hothers he).le) hcommitted
  refine ⟨hident, fun p hp => ?_, fun p hp => ?_, fun p hp => ?_, f, hdeg, ?_, fun p hp => ?_,
    fun id v hv => ?_⟩
  · obtain ⟨o, l₁, l₂, h, hothers⟩ := hover p hp
    exact h.minSigners_eq doc hothers
  · obtain ⟨o, l₁, l₂, h, hothers⟩ := hover p hp
    exact (h.own_verifyingShare doc hothers).2.1
  · rw [Std.ExtTreeMap.mem_iff_isSome_getElem?, hown p hp]
    rfl
  · rw [hpublished, ← h.verifyingKey_eq_zero doc hothers]
  · exact hshares p (List.mem_toFinset.mpr hp)
  · rw [hpublished]
    exact h.verifyingShare_eq doc hothers hv

/-! ## Their signatures -/

section Signers

variable (frost : FrostSigning F G Rng)

/-- The quorum as signers. -/
def SharesKey.toSigners (h : SharesKey frost.toFrostCore minSigners quorum key pub)
    (hnodup : quorum.Nodup) (henough : max 1 minSigners.toNat ≤ quorum.length) : Signers frost where
  ids := quorum
  ident p := (key p).identifier
  key := key
  publicKey := pub
  minSigners := minSigners
  nonempty := List.ne_nil_of_length_pos (le_trans (le_max_left 1 _) henough)
  nodup := hnodup
  enough := (le_max_right 1 _).trans henough
  tryFrom := h.identifier
  identifier _ _ := rfl
  threshold := h.threshold
  verifyingKey := h.verifyingKey
  verifyingShares := h.named
  shared := by
    obtain ⟨f, hdeg, hvk, hshares, -⟩ := h.shared
    exact ⟨f, hdeg.trans_le (by exact_mod_cast henough), hvk, hshares⟩

end Signers

/-! ## The key ceremonies -/

/-- How the members of a group come to their keys. Each brings a constant term to a key import
and to a resharing, and draws it in a key generation. -/
inductive KeyCeremony (F : Type) where
  | dkg
  | keyImport (constantTerm : UInt16 → F)
  | reshare (additiveShare : UInt16 → F) (expectedVk : Bytes)

namespace KeyCeremony

variable (core) (rng : UInt16 → Rng) (n minSigners)

/-- The session of `p`. -/
def session (p : UInt16) : KeyCeremony F → Ceremony (KeyPackage F G × PublicKeyPackage F G)
  | dkg => dkgRun core p n minSigners (rng p)
  | keyImport constantTerm => keyImportRun core p n minSigners (constantTerm p) (rng p)
  | reshare additiveShare expectedVk =>
    reshareRun core p n minSigners (additiveShare p) expectedVk (rng p)

/-- The constant term of `p`. -/
def term (p : UInt16) : KeyCeremony F → F
  | dkg => dkgTerm core n minSigners p (rng p)
  | keyImport constantTerm => constantTerm p
  | reshare additiveShare _ => additiveShare p

/-- What comes behind the rounds. -/
def check (keys : KeyPackage F G × PublicKeyPackage F G) :
    KeyCeremony F → Ceremony (KeyPackage F G × PublicKeyPackage F G)
  | reshare _ expectedVk => checkReshared core expectedVk keys
  | _ => pure keys

variable {core rng n minSigners}

theorem opens (doc : core.Documented) (c : KeyCeremony F) (p : UInt16) :
    Opens core core.deserializeRound1 id n minSigners p
      (fun o => o.secret1.coefficients.headD 0 = c.term core n minSigners rng p)
      (fun _ keys => c.check core keys) (c.session core n minSigners rng p) := by
  cases c with
  | dkg =>
    rw [session, ← Proc.bind_ret (dkgRun core p n minSigners (rng p))]
    exact (dkgRun_opens doc n minSigners p (rng p) pure).mono fun o ho => ho.2
  | keyImport constantTerm =>
    rw [session, ← Proc.bind_ret (keyImportRun core p n minSigners (constantTerm p) (rng p))]
    exact keyImportRun_opens doc n minSigners p (constantTerm p) (rng p) pure
  | reshare additiveShare expectedVk =>
    exact reshareRun_opens doc n minSigners p (additiveShare p) expectedVk (rng p)

theorem eval_checkReshared {expectedVk : Bytes} {keys out : KeyPackage F G × PublicKeyPackage F G}
    {log rest : List Bytes}
    (h : (checkReshared core expectedVk keys).eval log = some (.ok out, rest)) :
    out = keys ∧ core.serializeVerifyingKey keys.2.verifyingKey = some expectedVk := by
  obtain ⟨vkBytes, hvk, h⟩ := Proc.eval_liftM_bind_ok.mp h
  rw [okOr_eq_ok] at hvk
  split at h
  · cases h
  · next heq =>
    rw [not_not] at heq
    cases h
    exact ⟨rfl, heq ▸ hvk⟩

theorem stores (c : KeyCeremony F) :
    Stores (α := Round1Package F G) some fun _ keys => c.check core keys := by
  intro r1Map keys log out rest h
  cases c with
  | reshare additiveShare expectedVk => rw [(eval_checkReshared h).1]
  | dkg | keyImport constantTerm =>
    cases h
    rfl

theorem allOpen (doc : core.Documented) (c : KeyCeremony F) (w : Setting) :
    AllOpen w (fun q (o : Opening core core.deserializeRound1 id n minSigners q) =>
        o.secret1.coefficients.headD 0 = c.term core n minSigners rng q)
      (fun _ _ keys => c.check core keys) fun q => c.session core n minSigners rng q :=
  fun q _ => c.opens doc q

end KeyCeremony

/-! ## From the keys to a signature -/

/-- Whatever the corrupt parties of a key ceremony sent, honest parties that ended it with the
same public keys have shares of its secret. As many of them as the threshold asks for sign under
its key, exactly as long as each message is delivered in the round that its recipient is reading. -/
theorem keys_sign {frost : FrostSigning F G Rng} (doc : frost.Documented) (c : KeyCeremony F)
    {rng : UInt16 → Rng} {w : Setting} {acts : List Net.Action}
    {net : Net (KeyPackage F G × PublicKeyPackage F G)}
    (hrun : Net.run w (fun p => c.session frost.toFrostCore n minSigners rng p) acts = some net)
    {quorum : List UInt16} {key : UInt16 → KeyPackage F G} {pub : PublicKeyPackage F G}
    (hend : EndsWith w net some quorum key pub) (hnodup : quorum.Nodup)
    (henough : max 1 minSigners.toNat ≤ quorum.length) :
    ∃ h : SharesKey frost.toFrostCore minSigners quorum key pub,
      ∀ (message : Bytes) (signRng : UInt16 → Rng) (signActs : List Net.Action) (signNet : Net Bytes),
        let signers := h.toSigners frost hnodup henough
        let body := fun p => signRun frost (key p) pub message quorum.length (signRng p)
        Net.run ⟨quorum.toFinset, ∅⟩ body signActs = some signNet →
          (StaysSigned signers pub.verifyingKey message body signActs ↔
            Net.KeepsPhase ⟨quorum.toFinset, ∅⟩ body signers.signPlan signActs) := by
  have h : SharesKey frost.toFrostCore minSigners quorum key pub :=
    hend.sharesKey doc.toDocumented (c.allOpen doc.toDocumented w) hrun (fun _ => c.stores) hnodup
      henough
  refine ⟨h, fun message signRng signActs signNet hsign => ?_⟩
  rw [← Signers.planOf_signPhases]
  exact staysSigned_iff doc (Signers.encodable doc (h.toSigners frost hnodup henough) signRng message)
    (Signers.scripted_sign doc) hsign

/-! ## Three parties, one of them corrupt -/

def sampleSetting : Setting := ⟨{1, 2, 3}, {3}⟩

/-- Everyone keeps the rounds of a key generation. -/
def sampleCeremony : List Net.Action :=
  [.drain 1, .drain 2, .drain 3, .deliver 1 2, .deliver 1 3, .deliver 2 1, .deliver 2 3,
    .deliver 3 1, .deliver 3 2, .drain 1, .drain 1, .drain 2, .drain 2, .drain 3, .drain 3,
    .deliver 1 2, .deliver 1 3, .deliver 2 1, .deliver 2 3, .deliver 3 1, .deliver 3 2]

/-- What a party has ended well with. -/
def ended (net : Net β) (p : UInt16) : Option β := (net.party p).outcome.bind Except.toOption

theorem outcome_of_ended {net : Net β} {out : β} (h : ended net p = some out) :
    (net.party p).outcome = some (.ok out) := by
  obtain ⟨r, hr, hout⟩ := Option.bind_eq_some_iff.mp h
  cases r with
  | error e => cases hout
  | ok out' =>
    cases hout
    exact hr

/-- The public keys as lists. -/
def listed (pub : PublicKeyPackage F G) : List (F × G) × G :=
  (pub.verifyingShares.toList.map fun e => (e.1.toScalar, e.2), pub.verifyingKey)

theorem listed_injective : Function.Injective (listed : PublicKeyPackage F G → _) := by
  intro a b h
  have hinj : Function.Injective fun e : Identifier F × G => (e.1.toScalar, e.2) := by
    intro e e' he
    exact Prod.ext (Identifier.ext (Prod.mk.inj he).1) (Prod.mk.inj he).2
  have hshares := hinj.list_map (Prod.mk.inj h).1
  cases a
  cases b
  obtain rfl := (Prod.mk.inj h).2
  obtain rfl := Std.ExtTreeMap.ext_toList (List.Perm.of_eq hshares)
  rfl

theorem keys_sign_sample :
    ∃ (net : Net (KeyPackage Reference.Scalar Reference.Scalar ×
        PublicKeyPackage Reference.Scalar Reference.Scalar))
      (key : UInt16 → KeyPackage Reference.Scalar Reference.Scalar)
      (pub : PublicKeyPackage Reference.Scalar Reference.Scalar),
      Net.run sampleSetting (fun p => KeyCeremony.dkg.session Reference.core 3 2 UInt16.toNat p)
          sampleCeremony = some net ∧
        EndsWith sampleSetting net some [1, 2] key pub ∧
        ∃ h : SharesKey Reference.core 2 [1, 2] key pub,
          ∀ (message : Bytes) (signRng : UInt16 → Nat) (acts : List Net.Action) (signNet : Net Bytes),
            let signers := h.toSigners Reference.signing (by decide) (by decide)
            let body := fun p => signRun Reference.signing (key p) pub message 2 (signRng p)
            Net.run ⟨[1, 2].toFinset, ∅⟩ body acts = some signNet →
              (StaysSigned signers pub.verifyingKey message body acts ↔
                Net.KeepsPhase ⟨[1, 2].toFinset, ∅⟩ body signers.signPlan acts) := by
  have hends : ((Net.run sampleSetting (fun p => KeyCeremony.dkg.session Reference.core 3 2
      UInt16.toNat p) sampleCeremony).bind fun net => (ended net 1).bind fun a =>
        (ended net 2).bind fun b => if listed a.2 = listed b.2 then some () else none) =
      some () := by decide +kernel
  obtain ⟨net, hnet, hends⟩ := Option.bind_eq_some_iff.mp hends
  obtain ⟨a, ha, hends⟩ := Option.bind_eq_some_iff.mp hends
  obtain ⟨b, hb, hends⟩ := Option.bind_eq_some_iff.mp hends
  have hsame : a.2 = b.2 := listed_injective (by
    by_contra hne
    rw [if_neg hne] at hends
    cases hends)
  have hend : EndsWith sampleSetting net some [1, 2] (fun p => if p = 1 then a.1 else b.1) a.2 := by
    intro p hp
    rcases List.mem_cons.mp hp with rfl | hp
    · exact ⟨by decide, a, outcome_of_ended ha, rfl⟩
    · obtain rfl := List.mem_singleton.mp hp
      exact ⟨by decide, b, outcome_of_ended hb, by rw [hsame]; rfl⟩
  exact ⟨net, _, a.2, hnet, hend, keys_sign Reference.signing_documented .dkg hnet hend (by decide)
    (by decide)⟩

end Ceremony
