import FrostZm.Ceremony.ReshareSession
import FrostZm.Client.PartyOrder
import FrostZm.Fromt.ImportRuns
import FrostZm.Frozt.MetadataRuns

/-!
# Thresholds

A setup message names a threshold, a number of signers and the parties. Only a key generation
looks at the first two; nothing compares them with the third.
-/

open Ceremony FrostChannel Phases

set_option linter.unusedSectionVars false

/-! ## The sessions of a setup message -/

section Sessions

variable {F G P Rng : Type} [Field F] [DecidableEq F] [Ord F] [Std.TransOrd F] [Std.LawfulEqOrd F]
  [AddCommGroup G] [Module F G] [AddCommGroup P]

/-- `frozt_dkg_session_from_setup`: the setup, the own number and the session. -/
def Frozt.froztDkgSessionFromSetup (lib : FroztLib F G Rng) (setupData myPartyName : Option Bytes)
    (rng rng' : Rng) : Result (SetupMsg × UInt16 × Ceremony Bytes) := do
  let sd ← okOr .nullPtr setupData
  let name ← okOr .nullPtr myPartyName
  let (setup, birthday) ← froztDkgFields sd
  let myId ← okOr .invalidIdentifier (setup.frostIdByName name)
  let isCoordinator := decide (PartyOrder.coordinatorId setup = some myId)
  return (setup, myId,
    froztDkgRun lib myId setup.maxSigners setup.minSigners birthday isCoordinator rng rng')

def Frozt.froztKeyImportSessionFromSetup (lib : FroztLib F G Rng)
    (setupData myPartyName : Option Bytes) (rng : Rng) :
    Result (SetupMsg × UInt16 × Ceremony Bytes) := do
  let sd ← okOr .nullPtr setupData
  let name ← okOr .nullPtr myPartyName
  let (kiSetup, birthday) ← froztKeyImportFields sd
  let setup := kiSetup.base
  let myId ← okOr .invalidIdentifier (setup.frostIdByName name)
  return (setup, myId, froztKeyImportRun lib myId setup.maxSigners setup.minSigners
    kiSetup.seedHolderId kiSetup.secretData kiSetup.accountIndex birthday rng)

def Fromt.fromtDkgSessionFromSetup (lib : FromtLib F G P Rng)
    (setupData myPartyName : Option Bytes) (rng rng' : Rng) :
    Result (SetupMsg × UInt16 × Ceremony Bytes) := do
  let sd ← okOr .nullPtr setupData
  let name ← okOr .nullPtr myPartyName
  let (setup, network, birthday) ← fromtDkgFields sd
  let myId ← okOr .invalidIdentifier (setup.frostIdByName name)
  return (setup, myId,
    fromtDkgRun lib myId setup.maxSigners setup.minSigners network birthday rng rng')

def Fromt.fromtKeyImportSessionFromSetup (lib : FromtLib F G P Rng)
    (setupData myPartyName : Option Bytes) (rng : Rng) :
    Result (SetupMsg × UInt16 × Ceremony Bytes) := do
  let sd ← okOr .nullPtr setupData
  let name ← okOr .nullPtr myPartyName
  let (kiSetup, network, birthday) ← fromtKeyImportFields sd
  let setup := kiSetup.base
  let myId ← okOr .invalidIdentifier (setup.frostIdByName name)
  return (setup, myId, fromtKeyImportRun lib myId setup.maxSigners setup.minSigners
    kiSetup.seedHolderId kiSetup.secretData network birthday rng)

end Sessions

variable {F G Rng : Type} [Field F] [DecidableEq F] [Ord F] [Std.TransOrd F] [Std.LawfulEqOrd F]
  [AddCommGroup G] [Module F G]

namespace Ceremony

/-- The reshare session with the setup and the number that are kept beside it. -/
def numberedReshare (keys : FrostKeys F G Rng) (setupData name oldKeyPackage : Bytes) (rng : Rng) :
    Result (SetupMsg × UInt16 × Ceremony (KeyPackage F G × PublicKeyPackage F G)) := do
  let reshareSetup ← ReshareSetup.decode setupData
  let myId ← okOr .invalidIdentifier (reshareSetup.base.frostIdByName name)
  let body ← reshareSessionFromSetup keys (some setupData) (some name) (some oldKeyPackage) rng
  return (reshareSetup.base, myId, body)

variable {core : FrostCore F G Rng} {α β : Type} [Inhabited α] {n minSigners p : UInt16}
  {decode : Bytes → Option α} {project : α → Round1Package F G} {w : Setting}
  {body : UInt16 → Ceremony β} {acts : List Net.Action} {net : Net β} {out : β}
  {property : (q : UInt16) → Opening core decode project n minSigners q → Prop}
  {f : UInt16 → BTreeMap (Identifier F) α → KeyPackage F G × PublicKeyPackage F G → Ceremony β}
  {storedKeys : β → Option (KeyPackage F G × PublicKeyPackage F G)}
  {keys : KeyPackage F G × PublicKeyPackage F G} {setup : SetupMsg}

/-! ## What a party ends with -/

/-- The keys of a party of a setup that is safe: more than one share is needed, there are enough
of them, and one for each party of the setup. -/
def ThresholdSafe (setup : SetupMsg) (keys : KeyPackage F G × PublicKeyPackage F G) : Prop :=
  2 ≤ keys.1.minSigners ∧ keys.1.minSigners.toNat ≤ keys.2.verifyingShares.size ∧
    keys.2.verifyingShares.size = setup.parties.length

/-- What the keys of a party take over from its setup message. -/
structure TakesOver (core : FrostCore F G Rng) (w : Setting) (n minSigners : UInt16)
    (keys : KeyPackage F G × PublicKeyPackage F G) : Prop where
  threshold : keys.1.minSigners = minSigners
  shares : keys.2.verifyingShares.size = n.toNat
  parties : n.toNat ≤ w.ids.card
  /-- The share is the secret unless the threshold is two. -/
  alone : minSigners ≤ 1 → keys.1.signingShare • core.generator = keys.2.verifyingKey

theorem AllOpen.takesOver (doc : core.Documented) (hopen : AllOpen w property f body)
    (hstores : ∀ q, Stores storedKeys (f q)) (hrun : Net.run w body acts = some net)
    (hp : p ∈ w.honestIds) (hout : (net.party p).outcome = some (.ok out))
    (hstored : storedKeys out = some keys) : TakesOver core w n minSigners keys := by
  obtain ⟨o, l₁, l₂, log, keys', -, -, hfin⟩ := hopen.finished hrun hp hout
  obtain ⟨rest, heval⟩ := hfin.ending
  obtain rfl := Option.some.inj (hstored.symm.trans (hstores p _ _ _ _ _ heval))
  have hover := hfin.roundsOver
  refine ⟨hover.minSigners_eq doc hfin.others, hover.size_verifyingShares doc hfin.others, ?_,
    hover.alone doc hfin.others⟩
  have hne := hover.maxSigners_ne_zero doc
  have hpos : (1 : UInt16) ≤ n := by
    rw [UInt16.le_iff_toNat_le]
    exact Nat.one_le_iff_ne_zero.mpr fun h0 => hne (UInt16.toNat_inj.mp h0)
  have hcount : (insert p (l₁.map Prod.fst).toFinset).card = n.toNat := by
    rw [Finset.card_insert_of_notMem, List.toFinset_card_of_nodup (hover.nodup₁ doc hfin.others),
      List.length_map, hover.length₁, UInt16.toNat_sub_of_le _ _ hpos]
    · exact Nat.sub_add_cancel (UInt16.le_iff_toNat_le.mp hpos)
    · intro hmem
      obtain ⟨m, hm, hfst⟩ := List.mem_map.mp (List.mem_toFinset.mp hmem)
      exact hfin.others m hm hfst
  rw [← hcount]
  refine Finset.card_le_card fun s hs => ?_
  rcases Finset.mem_insert.mp hs with rfl | hs
  · exact (Setting.mem_honestIds.mp hp).1
  · obtain ⟨m, hm, rfl⟩ := List.mem_map.mp (List.mem_toFinset.mp hs)
    exact (Net.mem_fed hrun (m := m.2) (hfin.fed ▸ List.mem_append_left _ hm)).1

/-- The parties of a run are those of a setup, and the sessions of those that follow the protocol
were made from it. -/
structure StartedFrom (w : Setting) (setup : SetupMsg)
    (session : UInt16 → Bytes → Result (SetupMsg × UInt16 × Ceremony β))
    (body : UInt16 → Ceremony β) : Prop where
  ids : w.ids = setup.ids.toFinset
  sessions : ∀ q ∈ w.honestIds, ∃ name, session q name = .ok (setup, q, body q)

theorem TakesOver.thresholdSafe_iff (h : TakesOver core w setup.maxSigners setup.minSigners keys)
    (hids : w.ids = setup.ids.toFinset) :
    ThresholdSafe setup keys ↔ 2 ≤ setup.minSigners ∧ setup.minSigners ≤ setup.maxSigners ∧
      setup.parties.length ≤ setup.maxSigners.toNat := by
  have hcard : setup.maxSigners.toNat ≤ setup.parties.length := by
    refine (h.parties.trans_eq (congrArg _ hids)).trans ((List.toFinset_card_le _).trans_eq ?_)
    rw [SetupMsg.ids, List.length_map]
  rw [ThresholdSafe, h.threshold, h.shares, UInt16.le_iff_toNat_le (a := setup.minSigners)
    (b := setup.maxSigners)]
  refine and_congr_right fun _ => and_congr_right fun _ => ?_
  omega

/-- In every run of sessions made from a setup, the keys of a party that ends well are safe
exactly if the setup passes `checked`; with a threshold of one or none its share is the secret. -/
def SafeExactlyIf (core : FrostCore F G Rng) (checked : SetupMsg → Prop)
    (storedKeys : β → Option (KeyPackage F G × PublicKeyPackage F G))
    (session : UInt16 → Bytes → Result (SetupMsg × UInt16 × Ceremony β)) : Prop :=
  ∀ w setup body acts net, StartedFrom w setup session body → Net.run w body acts = some net →
    ∀ p ∈ w.honestIds, ∀ out keys, (net.party p).outcome = some (.ok out) →
      storedKeys out = some keys →
      (ThresholdSafe setup keys ↔ checked setup) ∧
        (setup.minSigners ≤ 1 → keys.1.signingShare • core.generator = keys.2.verifyingKey)

/-- The setup asks for more than one share, but for no more than there are signers, and has no
more parties than signers. -/
def Consistent (setup : SetupMsg) : Prop :=
  2 ≤ setup.minSigners ∧ setup.minSigners ≤ setup.maxSigners ∧
    setup.parties.length ≤ setup.maxSigners.toNat

variable {session : UInt16 → Bytes → Result (SetupMsg × UInt16 × Ceremony β)}
  {checked : SetupMsg → Prop}

theorem started_eq {γ : Type} (fields : Bytes → Result γ) (setupOf : γ → SetupMsg)
    (run : γ → UInt16 → Ceremony β) {data name : Bytes} {setup : SetupMsg} {q : UInt16}
    {body : Ceremony β}
    (h : (do
      let sd ← okOr .nullPtr (some data)
      let name ← okOr .nullPtr (some name)
      let c ← fields sd
      let myId ← okOr .invalidIdentifier ((setupOf c).frostIdByName name)
      return (setupOf c, myId, run c myId) : Result (SetupMsg × UInt16 × Ceremony β)) =
        .ok (setup, q, body)) : ∃ c, setupOf c = setup ∧ body = run c q := by
  obtain ⟨_, -, h⟩ := bind_eq_ok.mp h
  obtain ⟨_, -, h⟩ := bind_eq_ok.mp h
  obtain ⟨c, -, h⟩ := bind_eq_ok.mp h
  obtain ⟨myId, -, h⟩ := bind_eq_ok.mp h
  obtain ⟨hsetup, hpair⟩ := Prod.mk.inj (Except.ok.inj h)
  obtain ⟨rfl, hbody⟩ := Prod.mk.inj hpair
  exact ⟨c, hsetup, hbody.symm⟩

theorem safeExactlyIf (doc : core.Documented) (decode : Bytes → Option α)
    (project : α → Round1Package F G)
    (hopen : ∀ w setup body, StartedFrom w setup session body →
      ∃ (property : (q : UInt16) →
          Opening core decode project setup.maxSigners setup.minSigners q → Prop)
        (f : UInt16 → BTreeMap (Identifier F) α → KeyPackage F G × PublicKeyPackage F G → Ceremony β),
        AllOpen w property f body ∧ (∀ q, Stores storedKeys (f q)) ∧
          ∀ q o, property q o → (Consistent setup ↔ checked setup)) :
    SafeExactlyIf core checked storedKeys session := by
  intro w setup body acts net hstart hrun p hp out keys hout hstored
  obtain ⟨property, f, hall, hstores, hchecked⟩ := hopen w setup body hstart
  have h := hall.takesOver doc hstores hrun hp hout hstored
  obtain ⟨o, l₁, l₂, log, keys', ho, -, -⟩ := hall.finished hrun hp hout
  exact ⟨(h.thresholdSafe_iff hstart.ids).trans (hchecked p o ho), h.alone⟩

end Ceremony

/-! ## The five sessions -/

section Kinds

variable {P : Type} [AddCommGroup P] {zcash : FroztLib F G Rng} {monero : FromtLib F G P Rng}
  {keys : FrostKeys F G Rng} {data oldKeyPackage : UInt16 → Bytes} {rng rng' : UInt16 → Rng}

theorem consistent_iff_of_checked {setup : SetupMsg}
    (h : 2 ≤ setup.minSigners ∧ setup.minSigners ≤ setup.maxSigners) :
    Consistent setup ↔ setup.parties.length ≤ setup.maxSigners.toNat :=
  ⟨fun hc => hc.2.2, fun hlen => ⟨h.1, h.2, hlen⟩⟩

theorem Frozt.dkg_safeExactlyIf (doc : zcash.Documented) :
    SafeExactlyIf zcash.toFrostCore (fun setup => setup.parties.length ≤ setup.maxSigners.toNat)
      (Frozt.storedKeys zcash) fun q name =>
        Frozt.froztDkgSessionFromSetup zcash (some (data q)) (some name) (rng q) (rng' q) := by
  refine safeExactlyIf doc.toCore zcash.deserializeRound1 id fun w setup body hstart => ?_
  have hbody : ∀ q ∈ w.honestIds, ∃ birthday isCoordinator, body q = Frozt.froztDkgRun zcash q
      setup.maxSigners setup.minSigners birthday isCoordinator (rng q) (rng' q) := by
    intro q hq
    obtain ⟨name, h⟩ := hstart.sessions q hq
    obtain ⟨c, rfl, hbody⟩ := started_eq froztDkgFields Prod.fst
      (fun c myId => Frozt.froztDkgRun zcash myId c.1.maxSigners c.1.minSigners c.2
        (decide (PartyOrder.coordinatorId c.1 = some myId)) (rng q) (rng' q)) h
    exact ⟨_, _, hbody⟩
  choose! birthday isCoordinator hbody using hbody
  refine ⟨fun _ _ => 2 ≤ setup.minSigners ∧ setup.minSigners ≤ setup.maxSigners, _, ?_,
    fun q => Frozt.stores_dkgMetadata doc setup.maxSigners (birthday q) (isCoordinator q) (rng' q),
    fun q o ho => consistent_iff_of_checked ho⟩
  intro q hq
  rw [hbody q hq]
  exact Frozt.froztDkgRun_opens doc _ _ q _ _ _ _

theorem Fromt.dkg_safeExactlyIf (doc : monero.Documented) :
    SafeExactlyIf monero.toFrostCore (fun setup => setup.parties.length ≤ setup.maxSigners.toNat)
      (Fromt.storedKeys monero) fun q name =>
        Fromt.fromtDkgSessionFromSetup monero (some (data q)) (some name) (rng q) (rng' q) := by
  refine safeExactlyIf doc.toCore (Fromt.decodeRound1 monero) Prod.fst fun w setup body hstart => ?_
  have hbody : ∀ q ∈ w.honestIds, ∃ network birthday, body q = Fromt.fromtDkgRun monero q
      setup.maxSigners setup.minSigners network birthday (rng q) (rng' q) := by
    intro q hq
    obtain ⟨name, h⟩ := hstart.sessions q hq
    obtain ⟨c, rfl, hbody⟩ := started_eq fromtDkgFields Prod.fst
      (fun c myId => Fromt.fromtDkgRun monero myId c.1.maxSigners c.1.minSigners c.2.1 c.2.2
        (rng q) (rng' q)) h
    exact ⟨_, _, hbody⟩
  choose! network birthday hbody using hbody
  refine ⟨fun _ _ => 2 ≤ setup.minSigners ∧ setup.minSigners ≤ setup.maxSigners, _, ?_,
    fun q => Fromt.stores_packKeyShare doc (monero.serializeScalar (monero.random (rng' q)).1)
      (fun _ => return ()) (network q) (birthday q),
    fun q o ho => consistent_iff_of_checked ho⟩
  intro q hq
  rw [hbody q hq]
  exact (Fromt.fromtDkgRun_opens doc _ _ q _ _ _ _).mono fun o ho => ho.1

theorem Frozt.keyImport_safeExactlyIf (doc : zcash.Documented) :
    SafeExactlyIf zcash.toFrostCore Consistent (Frozt.storedKeys zcash) fun q name =>
      Frozt.froztKeyImportSessionFromSetup zcash (some (data q)) (some name) (rng q) := by
  refine safeExactlyIf doc.toCore zcash.deserializeRound1 id fun w setup body hstart => ?_
  have hbody : ∀ q ∈ w.honestIds, ∃ seedHolder seed accountIndex birthday, body q =
      Frozt.froztKeyImportRun zcash q setup.maxSigners setup.minSigners seedHolder seed accountIndex
        birthday (rng q) := by
    intro q hq
    obtain ⟨name, h⟩ := hstart.sessions q hq
    obtain ⟨c, rfl, hbody⟩ := started_eq froztKeyImportFields (fun c => c.1.base)
      (fun c myId => Frozt.froztKeyImportRun zcash myId c.1.base.maxSigners c.1.base.minSigners
        c.1.seedHolderId c.1.secretData c.1.accountIndex c.2 (rng q)) h
    exact ⟨_, _, _, _, hbody⟩
  choose! seedHolder seed accountIndex birthday hbody using hbody
  refine ⟨fun _ _ => True, _, ?_, fun q => Frozt.stores_importMetadata doc setup.maxSigners
    (decide (q = seedHolder q)) (seed q) (accountIndex q) (birthday q), fun _ _ _ => Iff.rfl⟩
  intro q hq
  rw [hbody q hq]
  exact (Frozt.froztKeyImportRun_opens doc _ _ q _ _ _ _ _).mono fun _ _ => trivial

theorem Fromt.keyImport_safeExactlyIf (doc : monero.Documented) :
    SafeExactlyIf monero.toFrostCore Consistent (Fromt.storedKeys monero) fun q name =>
      Fromt.fromtKeyImportSessionFromSetup monero (some (data q)) (some name) (rng q) := by
  refine safeExactlyIf doc.toCore (Fromt.decodeRound1 monero) Prod.fst fun w setup body hstart => ?_
  have hbody : ∀ q ∈ w.honestIds, ∃ seedHolder spendKey network birthday, body q =
      Fromt.fromtKeyImportRun monero q setup.maxSigners setup.minSigners seedHolder spendKey network
        birthday (rng q) := by
    intro q hq
    obtain ⟨name, h⟩ := hstart.sessions q hq
    obtain ⟨c, rfl, hbody⟩ := started_eq fromtKeyImportFields (fun c => c.1.base)
      (fun c myId => Fromt.fromtKeyImportRun monero myId c.1.base.maxSigners c.1.base.minSigners
        c.1.seedHolderId c.1.secretData c.2.1 c.2.2 (rng q)) h
    exact ⟨_, _, _, _, hbody⟩
  choose! seedHolder spendKey network birthday hbody using hbody
  refine ⟨fun _ _ => True, _, ?_, fun q => Fromt.stores_packKeyShare doc
    (Fromt.beginning monero (seedHolder q) setup.maxSigners spendKey q).2
    (Fromt.compareKey monero (decide (q = seedHolder q))) (network q) (birthday q),
    fun _ _ _ => Iff.rfl⟩
  intro q hq
  rw [hbody q hq]
  exact (Fromt.importRun_opens doc _ _ (seedHolder q) spendKey network birthday rng q).mono
    fun _ _ => trivial

theorem Ceremony.reshare_safeExactlyIf (doc : keys.Documented) :
    SafeExactlyIf keys.toFrostCore Consistent some fun q name =>
      numberedReshare keys (data q) name (oldKeyPackage q) (rng q) := by
  refine safeExactlyIf doc.toCore keys.deserializeRound1 id fun w setup body hstart => ?_
  have hbody : ∀ q ∈ w.honestIds, ∃ additiveShare expectedVk, body q =
      reshareRun keys.toFrostCore q setup.maxSigners setup.minSigners additiveShare expectedVk
        (rng q) := by
    intro q hq
    obtain ⟨name, h⟩ := hstart.sessions q hq
    obtain ⟨reshareSetup, hdecode, h⟩ := bind_eq_ok.mp h
    obtain ⟨myId, hname, h⟩ := bind_eq_ok.mp h
    obtain ⟨body', hsession, h⟩ := bind_eq_ok.mp h
    cases h
    obtain ⟨_, hsome, hsession⟩ := bind_eq_ok.mp hsession
    cases hsome
    obtain ⟨_, hsome, hsession⟩ := bind_eq_ok.mp hsession
    cases hsome
    obtain ⟨_, hsome, hsession⟩ := bind_eq_ok.mp hsession
    cases hsome
    obtain ⟨_, hdecode', hsession⟩ := bind_eq_ok.mp hsession
    cases hdecode.symm.trans hdecode'
    obtain ⟨_, hname', hsession⟩ := bind_eq_ok.mp hsession
    cases hname.symm.trans hname'
    obtain ⟨_, -, hsession⟩ := bind_eq_ok.mp hsession
    obtain ⟨_, -, hsession⟩ := bind_eq_ok.mp hsession
    obtain ⟨_, -, hsession⟩ := bind_eq_ok.mp hsession
    exact ⟨_, _, (Except.ok.inj hsession).symm⟩
  choose! additiveShare expectedVk hbody using hbody
  refine ⟨fun _ _ => True, fun q _ => checkReshared keys.toFrostCore (expectedVk q), ?_,
    fun q => KeyCeremony.stores (.reshare (fun _ => 0) (expectedVk q)), fun _ _ _ => Iff.rfl⟩
  intro q hq
  rw [hbody q hq]
  exact (reshareRun_opens doc.toCore _ _ q _ _ _).mono fun _ _ => trivial

/-- Whatever the corrupt parties send, the keys of a party that ends a session well are safe
exactly if its setup was consistent. A key generation lets no other setup through unless it has
too many parties. -/
theorem Fromt.sessions_thresholdSafe_iff (zdoc : zcash.Documented) (mdoc : monero.Documented)
    (kdoc : keys.Documented) (data oldKeyPackage : UInt16 → Bytes) (rng rng' : UInt16 → Rng) :
    (SafeExactlyIf zcash.toFrostCore (fun setup => setup.parties.length ≤ setup.maxSigners.toNat)
        (Frozt.storedKeys zcash) fun q name =>
          Frozt.froztDkgSessionFromSetup zcash (some (data q)) (some name) (rng q) (rng' q)) ∧
      (SafeExactlyIf monero.toFrostCore (fun setup => setup.parties.length ≤ setup.maxSigners.toNat)
        (Fromt.storedKeys monero) fun q name =>
          Fromt.fromtDkgSessionFromSetup monero (some (data q)) (some name) (rng q) (rng' q)) ∧
      (SafeExactlyIf zcash.toFrostCore Consistent (Frozt.storedKeys zcash) fun q name =>
        Frozt.froztKeyImportSessionFromSetup zcash (some (data q)) (some name) (rng q)) ∧
      (SafeExactlyIf monero.toFrostCore Consistent (Fromt.storedKeys monero) fun q name =>
        Fromt.fromtKeyImportSessionFromSetup monero (some (data q)) (some name) (rng q)) ∧
      SafeExactlyIf keys.toFrostCore Consistent some fun q name =>
        numberedReshare keys (data q) name (oldKeyPackage q) (rng q) :=
  ⟨Frozt.dkg_safeExactlyIf zdoc, Fromt.dkg_safeExactlyIf mdoc, Frozt.keyImport_safeExactlyIf zdoc,
    Fromt.keyImport_safeExactlyIf mdoc, reshare_safeExactlyIf kdoc⟩

end Kinds

/-! ## A threshold of one -/

namespace Fromt

open Reference

/-- Two parties, each of which is to hold the whole key. -/
def loneSetup : SetupMsg := { maxSigners := 2, minSigners := 1, parties := [⟨1, [97]⟩, ⟨2, [98]⟩] }

/-- The import of the spend key five. -/
def loneData : Bytes :=
  KeyImportSetup.encode
      { base := loneSetup, seedHolderId := 1, secretData := encodeScalar 5, accountIndex := 0 } ++
    fromtTrailing 0 0

def loneSession (q : UInt16) (name : Bytes) : Result (SetupMsg × UInt16 × Ceremony Bytes) :=
  fromtKeyImportSessionFromSetup fromt (some loneData) (some name) q.toNat

def loneBody (q : UInt16) : Ceremony Bytes :=
  fromtKeyImportRun fromt q 2 1 1 (encodeScalar 5) 0 0 q.toNat

def loneImport : List Net.Action :=
  [.drain 1, .drain 2, .deliver 1 2, .deliver 2 1, .drain 1, .drain 2, .deliver 1 2, .deliver 2 1,
    .drain 1, .deliver 1 2]

theorem startedFrom_loneSetup :
    StartedFrom ⟨loneSetup.ids.toFinset, ∅⟩ loneSetup loneSession loneBody := by
  refine ⟨rfl, fun q hq => ?_⟩
  have hmem : q ∈ [(1 : UInt16), 2] :=
    List.mem_toFinset.mp (Setting.mem_honestIds.mp hq).1
  rcases List.mem_cons.mp hmem with rfl | hmem
  · exact ⟨[97], rfl⟩
  · obtain rfl := List.mem_singleton.mp hmem
    exact ⟨[98], rfl⟩

/-- The party that imports nothing ends with a share that is the secret. -/
theorem sessions_thresholdSafe_lone :
    ∃ net out keys, Net.run ⟨loneSetup.ids.toFinset, ∅⟩ loneBody loneImport = some net ∧
      (net.party 2).outcome = some (.ok out) ∧ storedKeys fromt out = some keys ∧
      ¬ ThresholdSafe loneSetup keys ∧ keys.1.signingShare • core.generator = keys.2.verifyingKey := by
  have hends : ((Net.run ⟨loneSetup.ids.toFinset, ∅⟩ loneBody loneImport).bind fun net =>
      (ended net 2).bind fun out => (storedKeys fromt out).map fun _ => ()) = some () := by
    decide +kernel
  obtain ⟨net, hnet, hends⟩ := Option.bind_eq_some_iff.mp hends
  obtain ⟨out, hout, hends⟩ := Option.bind_eq_some_iff.mp hends
  obtain ⟨keys, hstored, -⟩ := Option.map_eq_some_iff.mp hends
  obtain ⟨hiff, halone⟩ := (sessions_thresholdSafe_iff frozt_documented fromt_documented
    keys_documented (fun _ => loneData) (fun _ => []) UInt16.toNat UInt16.toNat).2.2.2.1 _ _ _ _ _
    startedFrom_loneSetup hnet 2 (by decide) out keys (outcome_of_ended hout) hstored
  exact ⟨net, out, keys, hnet, outcome_of_ended hout, hstored,
    fun hsafe => absurd (hiff.mp hsafe).1 (by decide), halone (by decide)⟩

end Fromt
