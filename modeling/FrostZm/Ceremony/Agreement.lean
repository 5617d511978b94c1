import FrostZm.Ceremony.Quorums

/-!
# Who ends with the same public keys

Nothing is echoed in the rounds: what a corrupt party commits to may differ from one recipient to
the next. Two parties that end well have the same public keys exactly if that makes no difference.
-/

open FrostChannel Phases Shamir

set_option linter.unusedSectionVars false

variable {F G Rng : Type} [Field F] [DecidableEq F] [Ord F] [Std.TransOrd F] [Std.LawfulEqOrd F]
  [AddCommGroup G] [Module F G]

namespace Ceremony

variable {core : FrostCore F G Rng} {α β : Type} [Inhabited α] {n minSigners p q : UInt16}
  {decode : Bytes → Option α} {project : α → Round1Package F G} {l₁ l₂ log : List (UInt16 × Bytes)}
  {keys : KeyPackage F G × PublicKeyPackage F G} {b : β} {x : F}

/-! ## What a session announces -/

/-- The first message that a session writes, before it has read any. -/
def announced (decode : Bytes → Option α) (body : Ceremony β) : α :=
  ((((body.outs []).head?).map payload).bind decode).getD default

theorem announced_eq {o : Opening core decode project n minSigners p} {body : Ceremony β}
    {f : BTreeMap (Identifier F) α → KeyPackage F G × PublicKeyPackage F G → Ceremony β}
    (h : body = o.rounds f) : announced decode body = o.own := by
  subst h
  unfold Opening.rounds roundsWith broadcast Proc.output announced
  rw [Proc.emit_bind, Proc.outs_emit, List.head?_cons, Option.map_some, payload_append,
    Option.bind_some, o.decoded, Option.getD_some]

section Runs

variable {w : Setting} {body : UInt16 → Ceremony β} {acts : List Net.Action} {net : Net β}
  {property : (q : UInt16) → Opening core decode project n minSigners q → Prop}
  {f : UInt16 → BTreeMap (Identifier F) α → KeyPackage F G × PublicKeyPackage F G → Ceremony β}
  {o : Opening core decode project n minSigners p}

theorem AllOpen.announced (h : AllOpen w property f body) :
    AllOpen w (fun q (o : Opening core decode project n minSigners q) =>
      announced decode (body q) = o.own) f body := by
  intro q hq
  rcases h q hq with hfail | ⟨o, -, hbody⟩
  · exact .inl hfail
  · exact .inr ⟨o, announced_eq hbody, hbody⟩

theorem Finished.sum_announced (doc : core.Documented) (hids : w.ids = (upTo n).toFinset)
    (hopen : AllOpen w property f body) (hrun : Net.run w body acts = some net)
    (h : Finished net o (f p) l₁ l₂ log keys b) (hp : p ∈ w.honestIds) (hbody : body p = o.rounds (f p))
    {A : Type} [AddCommMonoid A] (g : α → A) :
    g o.own + (l₁.map fun m => g ((decode m.2).getD default)).sum =
      ∑ q ∈ w.honestIds, g (Ceremony.announced decode (body q)) +
        ∑ q ∈ w.corruptIds, receivedFrom decode g net q p :=
  h.sum_eq doc hids hopen.announced hrun hp g (fun q => g (Ceremony.announced decode (body q)))
    (fun _ _ _ ho' => congrArg g ho'.symm) (announced_eq hbody)

end Runs

/-! ## What the public keys are made of -/

namespace RoundsOver

variable {o : Opening core decode project n minSigners p}

theorem sum_commitments (doc : core.Documented) (h : RoundsOver o l₁ l₂ keys)
    (hothers : ∀ m ∈ l₁, m.1 ≠ p) (x : F) :
    (((commitments o l₁).toList.map Prod.snd).map fun c => evalCommitment c x).sum =
      evalCommitment (project o.own).commitment x +
        (l₁.map fun m => evalCommitment (project ((decode m.2).getD default)).commitment x).sum := by
  have hsum := sumValues_groupCommitments (s := o.secret2) (h.not_mem doc hothers)
    fun c => evalCommitment c x
  rw [h.sumValues_stored doc hothers] at hsum
  rw [List.map_map, o.published]
  exact hsum

theorem mem_verifyingShares (doc : core.Documented) (h : RoundsOver o l₁ l₂ keys)
    (hothers : ∀ m ∈ l₁, m.1 ≠ p) (hp : p ∈ upTo n) {id : Identifier F} :
    id ∈ keys.2.verifyingShares ↔ ∃ k ∈ upTo n, senderId k = id := by
  obtain ⟨-, -, hpub⟩ := h.part3Accepts doc hothers
  have hsenders : ∀ k, k ∈ upTo n ↔ k = p ∨ ∃ m ∈ l₁, m.1 = k := by
    intro k
    have hiff := Finset.ext_iff.mp (h.senders_eq doc hothers hp) k
    rw [List.mem_toFinset, List.mem_map, Finset.mem_erase, List.mem_toFinset] at hiff
    rw [hiff]
    constructor
    · intro hk
      exact (eq_or_ne k p).imp (fun h => h) fun hne => ⟨hne, hk⟩
    · rintro (rfl | ⟨-, hk⟩)
      · exact hp
      · exact hk
  rw [hpub, FrostCore.publicKeys, Std.ExtTreeMap.mem_map, FrostCore.groupCommitments,
    Std.ExtTreeMap.mem_insert, Std.ExtTreeMap.mem_map, Std.ExtTreeMap.mem_map, mem_stored,
    Std.LawfulEqCmp.compare_eq_iff_eq]
  constructor
  · rintro (hid | ⟨m, hm, hid⟩)
    · exact ⟨p, hp, o.identifier.symm.trans hid⟩
    · exact ⟨m.1, (hsenders _).mpr (.inr ⟨m, hm, rfl⟩), hid⟩
  · rintro ⟨k, hk, hid⟩
    rcases (hsenders k).mp hk with rfl | ⟨m, hm, rfl⟩
    · exact .inl (o.identifier.trans hid)
    · exact .inr ⟨m, hm, hid⟩

end RoundsOver

/-! ## Agreement -/

namespace KeyCeremony

variable {rng : UInt16 → Rng} {w : Setting} {acts : List Net.Action}
  {net : Net (KeyPackage F G × PublicKeyPackage F G)}
  {out out' : KeyPackage F G × PublicKeyPackage F G}

/-- What the commitments of `q` make at `x`, in the first message of `q` to `p`. -/
def committedTo (core : FrostCore F G Rng) (net : Net β) (q p : UInt16) (x : F) : G :=
  receivedFrom core.deserializeRound1 (fun package => evalCommitment package.commitment x) net q p

/-- What the honest parties commit to at `x`. -/
def honestAt (core : FrostCore F G Rng) (n minSigners : UInt16) (rng : UInt16 → Rng) (w : Setting)
    (c : KeyCeremony F) (x : F) : G :=
  ∑ q ∈ w.honestIds,
    evalCommitment (announced core.deserializeRound1 (c.session core n minSigners rng q)).commitment x

/-- A party that has ended well has at `x` what the honest parties announced and the corrupt ones
sent to it. -/
structure EndsAt (core : FrostCore F G Rng) (n minSigners : UInt16) (rng : UInt16 → Rng)
    (w : Setting) (net : Net β) (c : KeyCeremony F) (p : UInt16) (pub : PublicKeyPackage F G) :
    Prop where
  verifyingKey : pub.verifyingKey = honestAt core n minSigners rng w c 0 +
    ∑ q ∈ w.corruptIds, committedTo core net q p 0
  mem_shares : ∀ id : Identifier F, id ∈ pub.verifyingShares ↔ ∃ k ∈ upTo n, senderId k = id
  shares : ∀ (id : Identifier F) (v : G), pub.verifyingShares[id]? = some v →
    v = honestAt core n minSigners rng w c id.toScalar +
      ∑ q ∈ w.corruptIds, committedTo core net q p id.toScalar

theorem endsAt (doc : core.Documented) (c : KeyCeremony F) (hids : w.ids = (upTo n).toFinset)
    (hrun : Net.run w (fun p => c.session core n minSigners rng p) acts = some net)
    (hp : p ∈ w.honestIds) (hout : (net.party p).outcome = some (.ok out)) :
    EndsAt core n minSigners rng w net c p out.2 := by
  obtain ⟨o, l₁, l₂, log, keys, -, hbody, hfin⟩ :=
    (c.allOpen doc w).finished hrun hp hout
  obtain ⟨rest, heval⟩ := hfin.ending
  obtain rfl := Option.some.inj (c.stores (stored core.deserializeRound1 l₁) _ _ _ _ heval)
  have hover := hfin.roundsOver
  have hat : ∀ x : F, (((RoundsOver.commitments o l₁).toList.map Prod.snd).map
      fun c => evalCommitment c x).sum = honestAt core n minSigners rng w c x +
        ∑ q ∈ w.corruptIds, committedTo core net q p x := fun x => by
    rw [hover.sum_commitments doc hfin.others]
    exact hfin.sum_announced doc hids (c.allOpen doc w) hrun hp hbody
      fun package => evalCommitment package.commitment x
  have hpn : p ∈ upTo n := by
    have hpid := (Setting.mem_honestIds.mp hp).1
    rwa [hids, List.mem_toFinset] at hpid
  exact ⟨(hover.verifyingKey_eq_zero doc hfin.others).trans (hat 0),
    fun id => hover.mem_verifyingShares doc hfin.others hpn,
    fun id v hv => (hover.verifyingShare_eq doc hfin.others hv).trans (hat _)⟩

theorem checked_verifyingKey (doc : core.Documented) {additiveShare : UInt16 → F}
    {expectedVk : Bytes}
    (hrun : Net.run w (fun p => (reshare additiveShare expectedVk).session core n minSigners rng p)
      acts = some net)
    (hp : p ∈ w.honestIds) (hout : (net.party p).outcome = some (.ok out)) :
    core.serializeVerifyingKey out.2.verifyingKey = some expectedVk := by
  obtain ⟨o, l₁, l₂, log, keys, -, -, hfin⟩ :=
    ((reshare additiveShare expectedVk).allOpen doc w).finished hrun hp hout
  obtain ⟨rest, heval⟩ := hfin.ending
  obtain ⟨rfl, hvk⟩ := eval_checkReshared heval
  exact hvk

/-- The corrupt parties have committed to the same towards both. -/
def SameAt (core : FrostCore F G Rng) (w : Setting) (net : Net β) (p q : UInt16) (x : F) : Prop :=
  ∑ r ∈ w.corruptIds, committedTo core net r p x = ∑ r ∈ w.corruptIds, committedTo core net r q x

theorem EndsAt.verifyingKey_eq_iff {c : KeyCeremony F} {pub pub' : PublicKeyPackage F G}
    (h : EndsAt core n minSigners rng w net c p pub) (h' : EndsAt core n minSigners rng w net c q pub') :
    pub.verifyingKey = pub'.verifyingKey ↔ SameAt core w net p q 0 := by
  rw [h.verifyingKey, h'.verifyingKey, add_right_inj, SameAt]

theorem EndsAt.verifyingShares_eq_iff (doc : core.Documented) {c : KeyCeremony F}
    {pub pub' : PublicKeyPackage F G} (h : EndsAt core n minSigners rng w net c p pub)
    (h' : EndsAt core n minSigners rng w net c q pub') :
    pub.verifyingShares = pub'.verifyingShares ↔
      ∀ k ∈ upTo n, SameAt core w net p q (k.toNat : F) := by
  have hget : ∀ k ∈ upTo n,
      pub.verifyingShares[(senderId k : Identifier F)]? =
        some (honestAt core n minSigners rng w c k.toNat +
          ∑ r ∈ w.corruptIds, committedTo core net r p (k.toNat : F)) ∧
      pub'.verifyingShares[(senderId k : Identifier F)]? =
        some (honestAt core n minSigners rng w c k.toNat +
          ∑ r ∈ w.corruptIds, committedTo core net r q (k.toNat : F)) := by
    intro k hk
    have hid : (senderId k : Identifier F).toScalar = k.toNat :=
      doc.tryFrom_eq_some_iff.mp (tryFrom_senderId doc (mem_upTo.mp hk).1)
    obtain ⟨v, hv⟩ := Option.isSome_iff_exists.mp
      (Std.ExtTreeMap.mem_iff_isSome_getElem?.mp ((h.mem_shares _).mpr ⟨k, hk, rfl⟩))
    obtain ⟨v', hv'⟩ := Option.isSome_iff_exists.mp
      (Std.ExtTreeMap.mem_iff_isSome_getElem?.mp ((h'.mem_shares _).mpr ⟨k, hk, rfl⟩))
    rw [hv, hv', h.shares _ v hv, h'.shares _ v' hv', hid]
    exact ⟨rfl, rfl⟩
  constructor
  · intro heq k hk
    obtain ⟨hp, hq⟩ := hget k hk
    rw [heq, hq, Option.some.injEq, add_right_inj] at hp
    exact hp.symm
  · intro hsame
    refine Std.ExtTreeMap.ext_getElem? fun id => ?_
    by_cases hid : ∃ k ∈ upTo n, senderId k = id
    · obtain ⟨k, hk, rfl⟩ := hid
      obtain ⟨hp, hq⟩ := hget k hk
      rw [hp, hq, hsame k hk]
    · have hnone := mt (h.mem_shares id).mp hid
      have hnone' := mt (h'.mem_shares id).mp hid
      rw [Std.ExtTreeMap.getElem?_eq_none hnone, Std.ExtTreeMap.getElem?_eq_none hnone']

/-- Two honest parties that end a key ceremony well have the same group key exactly if the corrupt
parties' first messages to them commit to the same sum at zero, and the same share of everyone
exactly if they do so at every number of a signer. A resharing leaves no choice at zero. -/
theorem publicKeys_agree_iff (doc : core.Documented) (c : KeyCeremony F)
    (hids : w.ids = (upTo n).toFinset)
    (hrun : Net.run w (fun p => c.session core n minSigners rng p) acts = some net)
    (hp : p ∈ w.honestIds) (hq : q ∈ w.honestIds) (hout : (net.party p).outcome = some (.ok out))
    (hout' : (net.party q).outcome = some (.ok out')) :
    (out.2.verifyingKey = out'.2.verifyingKey ↔ SameAt core w net p q 0) ∧
      (out.2.verifyingShares = out'.2.verifyingShares ↔
        ∀ k ∈ upTo n, SameAt core w net p q (k.toNat : F)) ∧
      ∀ additiveShare expectedVk, c = .reshare additiveShare expectedVk → SameAt core w net p q 0 := by
  have h := c.endsAt doc hids hrun hp hout
  have h' := c.endsAt doc hids hrun hq hout'
  refine ⟨h.verifyingKey_eq_iff h', h.verifyingShares_eq_iff doc h', ?_⟩
  rintro additiveShare expectedVk rfl
  rw [← h.verifyingKey_eq_iff h']
  have hvk := checked_verifyingKey doc hrun hp hout
  exact doc.verifyingKey_injective _ _ _ hvk (checked_verifyingKey doc hrun hq hout')

/-! ## A party with two polynomials -/

/-- What party 3 draws from a seed, and how it announces it. -/
def drawnBy (seed : ℕ) : Round1SecretPackage Reference.Scalar Reference.Scalar × Bytes :=
  (((Reference.core.part1 ((Identifier.tryFrom 3).getD default) 3 2 seed).toOption).map fun r =>
    (r.1, (Reference.serializeRound1 r.2).getD [])).getD default

/-- The share of `p` on it. -/
def shareBy (seed : ℕ) (p : UInt16) : Bytes :=
  (Reference.serializeRound2 ⟨evalPoly (drawnBy seed).1.coefficients p.toNat⟩).getD []

/-- Party 3 draws once for party 1 and once more for party 2. -/
def twoFaced : List Net.Action :=
  [.drain 1, .drain 2, .inject 3 1 (drawnBy 0).2, .inject 3 2 (drawnBy 4).2, .deliver 2 1,
    .deliver 3 1, .deliver 1 2, .deliver 3 2, .drain 1, .drain 1, .drain 2, .drain 2,
    .inject 3 1 (shareBy 0 1), .inject 3 2 (shareBy 4 2), .deliver 2 1, .deliver 3 1, .deliver 1 2,
    .deliver 3 2]

theorem publicKeys_agree_twoFaced :
    ∃ (net : Net (KeyPackage Reference.Scalar Reference.Scalar ×
        PublicKeyPackage Reference.Scalar Reference.Scalar))
      (out out' : KeyPackage Reference.Scalar Reference.Scalar ×
        PublicKeyPackage Reference.Scalar Reference.Scalar),
      Net.run sampleSetting (fun p => dkg.session Reference.core 3 2 UInt16.toNat p) twoFaced =
          some net ∧
        (net.party 1).outcome = some (.ok out) ∧ (net.party 2).outcome = some (.ok out') ∧
        out.2.verifyingKey ≠ out'.2.verifyingKey ∧
        (out.2.verifyingKey = out'.2.verifyingKey ↔
          SameAt Reference.core sampleSetting net 1 2 0) := by
  have hends : ((Net.run sampleSetting (fun p => dkg.session Reference.core 3 2 UInt16.toNat p)
      twoFaced).bind fun net => (ended net 1).bind fun a => (ended net 2).bind fun b =>
        if a.2.verifyingKey = b.2.verifyingKey then none else some ()) = some () := by
    decide +kernel
  obtain ⟨net, hnet, hends⟩ := Option.bind_eq_some_iff.mp hends
  obtain ⟨a, ha, hends⟩ := Option.bind_eq_some_iff.mp hends
  obtain ⟨b, hb, hends⟩ := Option.bind_eq_some_iff.mp hends
  have hne : a.2.verifyingKey ≠ b.2.verifyingKey := by
    intro heq
    rw [if_pos heq] at hends
    cases hends
  have ha' := outcome_of_ended ha
  have hb' := outcome_of_ended hb
  exact ⟨net, a, b, hnet, ha', hb', hne, (publicKeys_agree_iff Reference.documented dkg
    (by decide) hnet (by decide) (by decide) ha' hb').1⟩

end KeyCeremony

end Ceremony
