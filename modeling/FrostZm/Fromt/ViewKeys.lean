import FrostZm.Fromt.Reference
import FrostZm.Fromt.Reshare

/-!
# Whose view key a resharing keeps

A participant takes the first view key that the others sent, in the order of their
identifiers, for the group's.
-/

set_option linter.unusedSectionVars false

variable {F G P Rng : Type} [Field F] [DecidableEq F] [Ord F] [Std.TransOrd F] [Std.LawfulEqOrd F]
  [AddCommGroup G] [Module F G] [AddCommGroup P]

open Ceremony

namespace Fromt

/-- Everything that a participant of a resharing brings and receives. -/
structure ReshareInputs (Rng : Type) where
  id : UInt16
  maxSigners : UInt16
  minSigners : UInt16
  oldKeyShare : Option Bytes
  oldIdsData : Option Bytes
  rng : Rng
  r1Data : Bytes
  r2Data : Bytes
  expectedVk : Bytes
  network : UInt8
  birthday : UInt64

variable (lib : FromtLib F G P Rng) (i : ReshareInputs Rng)

/-- The three rounds of an honest participant. -/
def reshare : Result (Bytes × Bytes) := do
  let (secret1, _) ← resharePart1 lib i.id i.maxSigners i.minSigners i.oldKeyShare i.oldIdsData i.rng
  let (secret2, _) ← dkgPart2 lib secret1 i.r1Data
  resharePart3 lib secret2 i.r1Data i.r2Data i.expectedVk i.network i.birthday

/-- The participant is an old one with this bundle. -/
def HeldBundle (bundle : KeyShareBundle F G) : Prop :=
  ∃ data, i.oldKeyShare = some data ∧ data ≠ [] ∧ KeyShareBundle.deserialize lib data = .ok bundle

/-- The first of the others, in the order of their identifiers, that did not send zeros sent
`v`; or all of them sent zeros, and `v` is the view key that the participant held. -/
def WasSent (v : Bytes) : Prop :=
  ∃ packages shares, decodeR1MapWithVk lib i.r1Data = .ok (packages, shares) ∧
    ((∃ l₁ e l₂, shares.toList = l₁ ++ e :: l₂ ∧ (∀ x ∈ l₁, x.2 = zeroShare) ∧
        e.2 ≠ zeroShare ∧ e.2 = v) ∨
      (∀ x ∈ shares.toList, x.2 = zeroShare) ∧ ∃ bundle, HeldBundle lib i bundle ∧ bundle.viewKey = v)

/-- What honest participants are promised: those that end well keep their old view key, and
all of them end with one. -/
structure KeepsViewKey (honest : List (ReshareInputs Rng)) : Prop where
  old : ∀ i ∈ honest, ∀ out, reshare lib i = .ok out → ∀ bundle, HeldBundle lib i bundle →
    ∃ new, KeyShareBundle.deserialize lib out.1 = .ok new ∧ new.viewKey = bundle.viewKey
  same : ∀ i ∈ honest, ∀ j ∈ honest, ∀ out out', reshare lib i = .ok out → reshare lib j = .ok out' →
    ∃ new new', KeyShareBundle.deserialize lib out.1 = .ok new ∧
      KeyShareBundle.deserialize lib out'.1 = .ok new' ∧ new.viewKey = new'.viewKey

/-- The honest participants that end well were all sent `v` first, and it is the old ones'
view key. -/
structure AllWereSent (honest : List (ReshareInputs Rng)) (v : Bytes) : Prop where
  sent : ∀ i ∈ honest, ∀ out, reshare lib i = .ok out → WasSent lib i v
  held : ∀ i ∈ honest, ∀ out, reshare lib i = .ok out → ∀ bundle, HeldBundle lib i bundle →
    bundle.viewKey = v

/-! ## What the rounds pick -/

variable {lib} {i}

theorem of_reshareTerm {term : F} {own : Bytes}
    (h : reshareTerm lib i.maxSigners i.oldKeyShare i.oldIdsData = .ok (term, own)) :
    (∃ bundle, HeldBundle lib i bundle ∧ bundle.viewKey = own) ∨
      own = zeroShare ∧ ∀ bundle, ¬ HeldBundle lib i bundle := by
  unfold reshareTerm at h
  split at h
  · next data hdata =>
    split at h
    · next hempty =>
      refine .inr ⟨(Prod.mk.inj (Except.ok.inj h)).2.symm, ?_⟩
      rintro bundle ⟨data', hdata', hne, -⟩
      exact hne ((Option.some.inj (hdata.symm.trans hdata')).symm.trans hempty)
    · next hne =>
      obtain ⟨bundle, hbundle, h⟩ := bind_eq_ok.mp h
      obtain ⟨_, -, h⟩ := bind_eq_ok.mp h
      obtain ⟨_, -, h⟩ := bind_eq_ok.mp h
      obtain ⟨_, -, h⟩ := bind_eq_ok.mp h
      exact .inl ⟨bundle, ⟨data, hdata, hne, hbundle⟩, (Prod.mk.inj (Except.ok.inj h)).2⟩
  · next hnone =>
    refine .inr ⟨(Prod.mk.inj (Except.ok.inj h)).2.symm, ?_⟩
    rintro bundle ⟨data, hdata, -⟩
    simp [hnone] at hdata

theorem HeldBundle.unique {b b' : KeyShareBundle F G} (h : HeldBundle lib i b)
    (h' : HeldBundle lib i b') : b = b' := by
  obtain ⟨data, hdata, -, hb⟩ := h
  obtain ⟨data', hdata', -, hb'⟩ := h'
  obtain rfl := Option.some.inj (hdata.symm.trans hdata')
  exact Except.ok.inj (hb.symm.trans hb')

theorem of_aggregate {own v : Bytes} {shares : BTreeMap (Identifier F) Bytes}
    (h : aggregateReshareViewKey own shares = .ok v) :
    (∃ l₁ e l₂, shares.toList = l₁ ++ e :: l₂ ∧ (∀ x ∈ l₁, x.2 = zeroShare) ∧
        e.2 ≠ zeroShare ∧ e.2 = v) ∨
      (∀ x ∈ shares.toList, x.2 = zeroShare) ∧ own ≠ zeroShare ∧ own = v := by
  unfold aggregateReshareViewKey at h
  split at h
  · next e he =>
    obtain ⟨hne, l₁, l₂, hl, hzero⟩ := List.find?_eq_some_iff_append.mp he
    refine .inl ⟨l₁, e, l₂, hl, fun x hx => ?_, of_decide_eq_true hne, Except.ok.inj h⟩
    have hx := hzero x hx
    simpa using hx
  · next hnone =>
    refine .inr ⟨fun x hx => ?_, ?_⟩
    · have hx := List.find?_eq_none.mp hnone x hx
      simpa using hx
    · split at h
      · next hne => exact ⟨hne, Except.ok.inj h⟩
      · simp at h

theorem length_shares {entries : List (Identifier F × Bytes)}
    {maps maps' : BTreeMap (Identifier F) (Round1Package F G) × BTreeMap (Identifier F) Bytes}
    (hmaps : ∀ e ∈ maps.2.toList, e.2.length = vkShareLen)
    (h : entries.foldlM (insertPackage lib) maps = .ok maps') :
    ∀ e ∈ maps'.2.toList, e.2.length = vkShareLen := by
  induction entries generalizing maps with
  | nil =>
    obtain rfl := Except.ok.inj h
    exact hmaps
  | cons entry entries ih =>
    rw [List.foldlM_cons] at h
    obtain ⟨next, hnext, h⟩ := bind_eq_ok.mp h
    refine ih ?_ h
    obtain ⟨⟨frostData, vkBytes⟩, hsplit, hnext⟩ := bind_eq_ok.mp hnext
    obtain ⟨_, -, hnext⟩ := bind_eq_ok.mp hnext
    obtain rfl := Except.ok.inj hnext
    obtain ⟨_, hlen, hsplit⟩ := bind_eq_ok.mp hsplit
    rw [failIf_eq_ok] at hlen
    obtain ⟨-, rfl⟩ := Prod.mk.inj (Except.ok.inj hsplit)
    intro e he
    rw [Std.ExtTreeMap.mem_toList_iff_getElem?_eq_some, Std.ExtTreeMap.getElem?_insert] at he
    split at he
    · obtain he := Option.some.inj he
      rw [← he, List.length_drop]
      omega
    · exact hmaps e (Std.ExtTreeMap.mem_toList_iff_getElem?_eq_some.mpr he)

theorem of_reshare (doc : lib.Documented) {out : Bytes × Bytes} (h : reshare lib i = .ok out) :
    ∃ new, KeyShareBundle.deserialize lib out.1 = .ok new ∧ WasSent lib i new.viewKey := by
  obtain ⟨⟨secret1, _⟩, hpart1, h⟩ := bind_eq_ok.mp h
  obtain ⟨⟨secret2, _⟩, hpart2, h⟩ := bind_eq_ok.mp h
  obtain ⟨_, -, hpart1⟩ := bind_eq_ok.mp hpart1
  obtain ⟨⟨term, own⟩, hterm, hpart1⟩ := bind_eq_ok.mp hpart1
  obtain ⟨_, -, hpart1⟩ := bind_eq_ok.mp hpart1
  obtain ⟨rfl, -⟩ := Prod.mk.inj (Except.ok.inj hpart1)
  obtain ⟨_, -, hpart2⟩ := bind_eq_ok.mp hpart2
  obtain ⟨_, -, hpart2⟩ := bind_eq_ok.mp hpart2
  obtain ⟨_, -, hpart2⟩ := bind_eq_ok.mp hpart2
  obtain ⟨rfl, -⟩ := Prod.mk.inj (Except.ok.inj hpart2)
  obtain ⟨⟨keyPackage, pubKeyPackage, shares⟩, hfrost, h⟩ := bind_eq_ok.mp h
  obtain ⟨_, -, h⟩ := bind_eq_ok.mp h
  obtain ⟨_, -, h⟩ := bind_eq_ok.mp h
  obtain ⟨viewKey, hview, h⟩ := bind_eq_ok.mp h
  obtain ⟨data, hdata, h⟩ := bind_eq_ok.mp h
  obtain rfl := Except.ok.inj h
  obtain ⟨⟨packages, shares'⟩, hmaps, hfrost⟩ := bind_eq_ok.mp hfrost
  obtain ⟨_, -, hfrost⟩ := bind_eq_ok.mp hfrost
  obtain ⟨_, -, hfrost⟩ := bind_eq_ok.mp hfrost
  obtain rfl := (Prod.mk.inj (Prod.mk.inj (Except.ok.inj hfrost)).2).2
  have hshares : ∀ e ∈ shares'.toList, e.2.length = vkShareLen := by
    obtain ⟨_, -, hfold⟩ := bind_eq_ok.mp hmaps
    exact length_shares (by simp) hfold
  have hsent : WasSent lib i viewKey ∧ viewKey.length = 32 := by
    rcases of_aggregate hview with hfirst | ⟨hzero, hne, rfl⟩
    · refine ⟨⟨packages, shares', hmaps, .inl hfirst⟩, ?_⟩
      obtain ⟨l₁, e, l₂, hl, -, -, rfl⟩ := hfirst
      exact hshares e (by simp [hl])
    · rcases of_reshareTerm hterm with ⟨bundle, hheld, hown⟩ | ⟨hown, -⟩
      · refine ⟨⟨packages, shares', hmaps, .inr ⟨hzero, bundle, hheld, hown⟩⟩, ?_⟩
        obtain ⟨_, -, -, hbundle⟩ := hheld
        rw [← hown]
        exact KeyShareBundle.length_viewKey hbundle
      · exact absurd hown hne
  exact ⟨_, KeyShareBundle.deserialize_serialize doc hsent.2 hdata, hsent.1⟩

theorem WasSent.unique {v w : Bytes} (hv : WasSent lib i v) (hw : WasSent lib i w) : v = w := by
  obtain ⟨packages, shares, hmaps, hv⟩ := hv
  obtain ⟨packages', shares', hmaps', hw⟩ := hw
  obtain ⟨-, rfl⟩ := Prod.mk.inj (Except.ok.inj (hmaps.symm.trans hmaps'))
  have hfind : ∀ {l₁ e l₂ v}, shares.toList = l₁ ++ e :: l₂ → (∀ x ∈ l₁, x.2 = zeroShare) →
      e.2 ≠ zeroShare → e.2 = v →
      (shares.toList.find? fun e => e.2 ≠ zeroShare).map Prod.snd = some v := by
    intro l₁ e l₂ v hl hzero hne hval
    rw [hl, List.find?_append, List.find?_eq_none.mpr (by simpa using hzero), Option.none_or,
      List.find?_cons_of_pos (by simpa using hne), Option.map_some, hval]
  rcases hv with ⟨l₁, e, l₂, hl, hzero, hne, hval⟩ | ⟨hzero, b, hb, rfl⟩
  · have hv := hfind hl hzero hne hval
    rcases hw with ⟨m₁, e', m₂, hm, hzero', hne', hval'⟩ | ⟨hzero', -⟩
    · exact Option.some.inj (hv.symm.trans (hfind hm hzero' hne' hval'))
    · exact absurd (hzero' e (by simp [hl])) hne
  · rcases hw with ⟨m₁, e', m₂, hm, -, hne', -⟩ | ⟨-, b', hb', rfl⟩
    · exact absurd (hzero e' (by simp [hm])) hne'
    · rw [hb.unique hb']

/-- The honest participants that end well keep the view key exactly if all of them were sent
one first, and it is the one that the old ones of them held. -/
theorem reshare_keepsViewKey_iff (doc : lib.Documented) (honest : List (ReshareInputs Rng)) :
    KeepsViewKey lib honest ↔ ∃ v, AllWereSent lib honest v := by
  constructor
  · rintro ⟨hold, hsame⟩
    by_cases hsome : ∃ i ∈ honest, ∃ out, reshare lib i = .ok out
    · obtain ⟨i, hi, out, hout⟩ := hsome
      obtain ⟨new, hnew, -⟩ := of_reshare doc hout
      have hall : ∀ j ∈ honest, ∀ out', reshare lib j = .ok out' → ∀ new',
          KeyShareBundle.deserialize lib out'.1 = .ok new' → new'.viewKey = new.viewKey := by
        intro j hj out' hout' new' hnew'
        obtain ⟨n, n', hn, hn', heq⟩ := hsame i hi j hj out out' hout hout'
        rw [Except.ok.inj (hnew'.symm.trans hn'), Except.ok.inj (hnew.symm.trans hn), heq]
      refine ⟨new.viewKey, ⟨fun j hj out' hout' => ?_, fun j hj out' hout' b hb => ?_⟩⟩
      · obtain ⟨new', hnew', hsent⟩ := of_reshare doc hout'
        rwa [hall j hj out' hout' new' hnew'] at hsent
      · obtain ⟨new', hnew', heq⟩ := hold j hj out' hout' b hb
        rw [← heq, hall j hj out' hout' new' hnew']
    · refine ⟨[], ⟨fun i hi out hout => ?_, fun i hi out hout => ?_⟩⟩
      · exact absurd ⟨i, hi, out, hout⟩ hsome
      · exact absurd ⟨i, hi, out, hout⟩ hsome
  · rintro ⟨v, hsent, hheld⟩
    have hnew : ∀ i ∈ honest, ∀ out, reshare lib i = .ok out →
        ∃ new, KeyShareBundle.deserialize lib out.1 = .ok new ∧ new.viewKey = v := by
      intro i hi out hout
      obtain ⟨new, hnew, hw⟩ := of_reshare doc hout
      exact ⟨new, hnew, hw.unique (hsent i hi out hout)⟩
    refine ⟨fun i hi out hout b hb => ?_, fun i hi j hj out out' hout hout' => ?_⟩
    · obtain ⟨new, hread, hv⟩ := hnew i hi out hout
      exact ⟨new, hread, hv.trans (hheld i hi out hout b hb).symm⟩
    · obtain ⟨new, hread, hv⟩ := hnew i hi out hout
      obtain ⟨new', hread', hv'⟩ := hnew j hj out' hout'
      exact ⟨new, new', hread, hread', hv.trans hv'.symm⟩

section Samples

open Reference

/-- The view key of the sample participants. -/
def sampleViewKey : Bytes := List.replicate 32 1

def sampleHeldBundle (p : UInt16) : KeyShareBundle Scalar Scalar :=
  { sampleBundle p with viewKey := sampleViewKey }

def sampleHeld (p : UInt16) : Bytes := (((sampleHeldBundle p).serialize fromt).toOption).getD []

def sampleOldIds : Bytes := u16ToLeBytes 1 ++ u16ToLeBytes 2

def sampleReshare1 (p : UInt16) : DkgRound1Secret Scalar Scalar × Bytes :=
  ((resharePart1 fromt p 2 2 (some (sampleHeld p)) (some sampleOldIds) p.toNat).toOption).getD
    (⟨default, []⟩, [])

/-- Party `p` is resharing with party `q`, which sends `share` for the view key and follows the
rounds in everything else. -/
def inputsFrom (p q : UInt16) (share : Bytes) : ReshareInputs Nat where
  id := p
  maxSigners := 2
  minSigners := 2
  oldKeyShare := some (sampleHeld p)
  oldIdsData := some sampleOldIds
  rng := p.toNat
  r1Data := encodeFields
    [(encodeScalar q.toNat,
      (sampleReshare1 q).2.take ((sampleReshare1 q).2.length - vkShareLen) ++ share)]
  r2Data := encodeFields [(encodeScalar q.toNat, (serializeRound2
    ⟨Shamir.evalPoly (sampleReshare1 q).1.frostSecret.coefficients p.toNat⟩).getD [])]
  expectedVk := (serializeVerifyingKey sampleDeal.groupSecret).getD []
  network := 0
  birthday := 0

/-- The view key that the party stores in the end. -/
def sampleNewViewKey (i : ReshareInputs Nat) : Option Bytes :=
  (reshare fromt i).toOption.bind fun out =>
    (KeyShareBundle.deserialize fromt out.1).toOption.map fun bundle => bundle.viewKey

/-- The view keys that the party is sent. -/
def sampleSent (i : ReshareInputs Nat) : Option (List Bytes) :=
  (decodeR1MapWithVk fromt i.r1Data).toOption.map fun r => r.2.toList.map Prod.snd

theorem of_toOption {α : Type} {x : Result α} {a : α} (h : x.toOption = some a) : x = .ok a := by
  cases x with
  | error e => simp [Except.toOption] at h
  | ok b => exact congrArg Except.ok (Option.some.inj h)

theorem exists_of_sampleNewViewKey {i : ReshareInputs Nat} {v : Bytes}
    (h : sampleNewViewKey i = some v) :
    ∃ out new, reshare fromt i = .ok out ∧
      KeyShareBundle.deserialize fromt out.1 = .ok new ∧ new.viewKey = v := by
  obtain ⟨out, hout, h⟩ := Option.bind_eq_some_iff.mp h
  obtain ⟨new, hnew, hv⟩ := Option.map_eq_some_iff.mp h
  exact ⟨out, new, of_toOption hout, of_toOption hnew, hv⟩

theorem held_inputsFrom {p : UInt16} (hp : p = 1 ∨ p = 2) (q : UInt16) (share : Bytes) :
    ∃ bundle, HeldBundle fromt (inputsFrom p q share) bundle ∧ bundle.viewKey = sampleViewKey := by
  have hread : ((KeyShareBundle.deserialize fromt (sampleHeld p)).toOption.map
      fun bundle => bundle.viewKey) = some sampleViewKey := by
    rcases hp with rfl | rfl
    · decide +kernel
    · decide +kernel
  have hne : sampleHeld p ≠ [] := by
    rcases hp with rfl | rfl
    · decide +kernel
    · decide +kernel
  obtain ⟨bundle, hbundle, hv⟩ := Option.map_eq_some_iff.mp hread
  exact ⟨bundle, ⟨_, rfl, hne, of_toOption hbundle⟩, hv⟩

/-- Party 1 makes party 2 store another view key, and no check fails. -/
theorem reshare_changesViewKey :
    (∃ out, reshare fromt (inputsFrom 2 1 (List.replicate 32 7)) = .ok out) ∧
      ¬ KeepsViewKey fromt [inputsFrom 2 1 (List.replicate 32 7)] := by
  obtain ⟨out, new, hout, hnew, hv⟩ := exists_of_sampleNewViewKey (show
    sampleNewViewKey (inputsFrom 2 1 (List.replicate 32 7)) = some (List.replicate 32 7) by
      decide +kernel)
  refine ⟨⟨out, hout⟩, fun hkeeps => ?_⟩
  obtain ⟨bundle, hheld, hbundle⟩ := held_inputsFrom (.inr rfl) 1 (List.replicate 32 7)
  obtain ⟨new', hnew', heq⟩ := hkeeps.old _ List.mem_cons_self out hout bundle hheld
  rw [← Except.ok.inj (hnew.symm.trans hnew'), hv, hbundle] at heq
  exact absurd heq (by decide)

theorem wasSent_inputsFrom {i : ReshareInputs Nat} (h : sampleSent i = some [sampleViewKey]) :
    WasSent fromt i sampleViewKey := by
  obtain ⟨r, hr, hshares⟩ := Option.map_eq_some_iff.mp h
  obtain ⟨e, he, hval⟩ := List.map_eq_singleton_iff.mp hshares
  refine ⟨r.1, r.2, of_toOption hr, .inl ⟨[], e, [], he, by simp, ?_, hval⟩⟩
  rw [hval]
  decide

/-- Both parties of a resharing keep the view key that they send each other. -/
theorem reshare_keepsViewKey_sample :
    let honest := [inputsFrom 1 2 sampleViewKey, inputsFrom 2 1 sampleViewKey]
    (∀ i ∈ honest, ∃ out, reshare fromt i = .ok out) ∧ KeepsViewKey fromt honest := by
  intro honest
  have hsent : ∀ i ∈ honest, sampleSent i = some [sampleViewKey] := by decide +kernel
  have hnew : ∀ i ∈ honest, sampleNewViewKey i = some sampleViewKey := by decide +kernel
  have hheld : ∀ i ∈ honest, ∃ bundle, HeldBundle fromt i bundle ∧ bundle.viewKey = sampleViewKey :=
    List.forall_mem_cons.mpr ⟨held_inputsFrom (.inl rfl) 2 _,
      List.forall_mem_singleton.mpr (held_inputsFrom (.inr rfl) 1 _)⟩
  refine ⟨fun i hi => ?_, (reshare_keepsViewKey_iff fromt_documented _).mpr ⟨sampleViewKey, ?_, ?_⟩⟩
  · obtain ⟨out, -, hout, -⟩ := exists_of_sampleNewViewKey (hnew i hi)
    exact ⟨out, hout⟩
  · exact fun i hi _ _ => wasSent_inputsFrom (hsent i hi)
  · intro i hi _ _ bundle hbundle
    obtain ⟨bundle', hbundle', hv⟩ := hheld i hi
    rw [hbundle.unique hbundle', hv]

end Samples

end Fromt
