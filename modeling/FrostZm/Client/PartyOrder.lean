import FrostZm.Client.Collect
import FrostZm.Client.Runner
import FrostZm.Session.SetupCodec

/-!
# Who is party 1

Each party sorts the names of its own list and numbers them. The coordinator is the first of the
sorted names, but for a Monero spend it is the first of the list.
-/

namespace PartyOrder

open RunSession Collect

/-! ## The coordinators -/

/-- Without parties it panics. -/
def getCoordinatorPartyID (parties : List GoString) : Option GoString := (sortStrings parties).head?

/-- `encodeParties`: the count and the lengths are cast to their fields. -/
def encodeParties (parties : List PartyEntry) : Bytes :=
  u16ToLeBytes (.ofNat parties.length) ++ parties.flatMap PartyEntry.encode

/-- `parties[0].frost_id`. Without parties it panics. -/
def coordinatorId (setup : SetupMsg) : Option UInt16 := setup.parties.head?.map PartyEntry.frostId

/-- The party that coordinates `runSpend`: `signers[0]`. -/
def spendCoordinator (signers : List GoString) : Option GoString := signers.head?

/-! ## What the parties should agree on -/

/-- The two lists give the same numbers. -/
structure NumbersAlike (parties parties' : List GoString) : Prop where
  info : buildPartyInfo parties = buildPartyInfo parties'
  names : nameToFrostID parties = nameToFrostID parties'
  ids : buildPartyIdentifierMap parties = buildPartyIdentifierMap parties'

/-- The numbers are 1 to n, each for one of the names, and the maps are inverse to each other. -/
structure Numbers (parties : List GoString) : Prop where
  gapless : (buildPartyInfo parties).map (·.frostId.toNat) = List.range' 1 parties.length
  all : ((buildPartyInfo parties).map PartyEntry.name).Perm parties
  names : ∀ name id, nameToFrostID parties name = some id ↔ ⟨id, name⟩ ∈ buildPartyInfo parties
  ids : ∀ name id, buildPartyIdentifierMap parties id = some name ↔
    ⟨id, name⟩ ∈ buildPartyInfo parties

/-- All pick party 1 as the coordinator. -/
structure PicksFirst (parties : List GoString) : Prop where
  relay : getCoordinatorPartyID parties = buildPartyIdentifierMap parties 1
  setup : ∀ maxSigners minSigners setup,
    newSetupMsg maxSigners minSigners (some (encodeParties (buildPartyInfo parties))) = .ok setup →
      (coordinatorId setup).bind (buildPartyIdentifierMap parties) =
        buildPartyIdentifierMap parties 1
  spend : spendCoordinator parties = buildPartyIdentifierMap parties 1

/-- No name comes before the first of the list. -/
def LeastFirst (parties : List GoString) : Prop :=
  ∀ first, parties.head? = some first → ∀ name ∈ parties, first ≤ name

/-! ## Sorting -/

variable {parties parties' : List GoString} {name : GoString} {id : UInt16}

theorem perm_sortStrings (parties : List GoString) : (sortStrings parties).Perm parties :=
  List.perm_insertionSort _ _

theorem sorted_sortStrings (parties : List GoString) : (sortStrings parties).Pairwise (· ≤ ·) :=
  List.pairwise_insertionSort _ _

theorem sortStrings_perm (h : parties.Perm parties') : sortStrings parties = sortStrings parties' :=
  List.Perm.eq_of_pairwise (fun _ _ _ _ => List.le_antisymm) (sorted_sortStrings parties)
    (sorted_sortStrings parties')
    ((perm_sortStrings parties).trans (h.trans (perm_sortStrings parties').symm))

theorem head?_sortStrings_iff : parties.head? = (sortStrings parties).head? ↔ LeastFirst parties := by
  cases hs : sortStrings parties with
  | nil =>
    have hnil : parties = [] := List.nil_perm.mp (hs ▸ perm_sortStrings parties)
    rw [hnil]
    exact ⟨fun _ => nofun, fun _ => rfl⟩
  | cons least rest =>
    have hperm := perm_sortStrings parties
    have hsorted := sorted_sortStrings parties
    rw [hs] at hperm hsorted
    have hleast : ∀ name ∈ parties, least ≤ name := by
      intro name hname
      rcases List.mem_cons.mp (hperm.mem_iff.mpr hname) with rfl | hrest
      · exact List.le_refl _
      · exact List.rel_of_pairwise_cons hsorted hrest
    rw [List.head?_cons]
    constructor
    · intro hhead first hfirst
      obtain rfl := Option.some.inj (hhead.symm.trans hfirst)
      exact hleast
    · intro h
      have hmem : least ∈ parties := hperm.mem_iff.mp List.mem_cons_self
      cases parties with
      | nil => nomatch hmem
      | cons first others =>
        have hle := h first rfl least hmem
        rw [List.head?_cons, List.le_antisymm hle (hleast first List.mem_cons_self)]

/-! ## Numbers -/

theorem length_buildPartyInfo (parties : List GoString) :
    (buildPartyInfo parties).length = parties.length := by
  unfold buildPartyInfo
  rw [List.length_map, List.length_zipIdx, (perm_sortStrings parties).length_eq]

theorem mem_buildPartyInfo :
    ⟨id, name⟩ ∈ buildPartyInfo parties ↔
      ∃ i, (sortStrings parties)[i]? = some name ∧ UInt16.ofNat (i + 1) = id := by
  unfold buildPartyInfo
  rw [List.mem_map]
  constructor
  · rintro ⟨⟨n, i⟩, hmem, h⟩
    obtain ⟨rfl, rfl⟩ := PartyEntry.mk.inj h
    exact ⟨i, List.mem_zipIdx_iff_getElem?.mp hmem, rfl⟩
  · rintro ⟨i, hi, rfl⟩
    exact ⟨(name, i), List.mem_zipIdx_iff_getElem?.mpr hi, rfl⟩

theorem gapless (hlen : parties.length < 65536) :
    (buildPartyInfo parties).map (·.frostId.toNat) = List.range' 1 parties.length := by
  have hsorted := (perm_sortStrings parties).length_eq
  apply List.ext_getElem
  · rw [List.length_map, length_buildPartyInfo, List.length_range']
  · intro i hi _
    rw [List.length_map, length_buildPartyInfo] at hi
    simp only [buildPartyInfo, List.getElem_map, List.getElem_zipIdx, List.getElem_range', Nat.zero_add,
      UInt16.toNat_ofNat']
    omega

theorem nodup_buildPartyInfo_ids (hlen : parties.length < 65536) :
    ((buildPartyInfo parties).map PartyEntry.frostId).Nodup := by
  have h : ((buildPartyInfo parties).map (·.frostId.toNat)).Nodup := by
    rw [gapless hlen]
    exact List.nodup_range'
  rw [← Function.comp_def UInt16.toNat, ← List.map_map] at h
  exact h.of_map

theorem nodup_buildPartyInfo_names (hnodup : parties.Nodup) :
    ((buildPartyInfo parties).map PartyEntry.name).Nodup := by
  rw [map_name_buildPartyInfo]
  exact (perm_sortStrings parties).nodup_iff.mpr hnodup

theorem find?_map_eq_some {β κ γ : Type} [DecidableEq κ] (key : β → κ) {val : β → γ} {l : List β}
    (hl : (l.map key).Nodup) {k : κ} {v : γ} :
    (l.reverse.find? (key · = k)).map val = some v ↔ ∃ e ∈ l, key e = k ∧ val e = v := by
  rw [Option.map_eq_some_iff]
  constructor
  · rintro ⟨e, he, rfl⟩
    exact ⟨e, List.mem_reverse.mp (List.mem_of_find?_eq_some he), by simpa using List.find?_some he, rfl⟩
  · rintro ⟨e, he, rfl, rfl⟩
    refine ⟨e, find?_of_nodup ?_ (List.mem_reverse.mpr he), rfl⟩
    rw [List.map_reverse, List.nodup_reverse]
    exact hl

theorem nameToFrostID_eq_some (hnodup : parties.Nodup) :
    nameToFrostID parties name = some id ↔ ⟨id, name⟩ ∈ buildPartyInfo parties := by
  unfold nameToFrostID
  rw [find?_map_eq_some _ (nodup_buildPartyInfo_names hnodup)]
  constructor
  · rintro ⟨e, he, rfl, rfl⟩
    exact he
  · intro h
    exact ⟨_, h, rfl, rfl⟩

theorem buildPartyIdentifierMap_eq_some (hlen : parties.length < 65536) :
    buildPartyIdentifierMap parties id = some name ↔ ⟨id, name⟩ ∈ buildPartyInfo parties := by
  have hids := nodup_buildPartyInfo_ids hlen
  unfold buildPartyInfo at hids
  rw [List.map_map] at hids
  unfold buildPartyIdentifierMap BlameExchange.partyIdentifierMap
  rw [find?_map_eq_some (fun e : GoString × Nat => UInt16.ofNat (e.2 + 1)) hids]
  unfold buildPartyInfo
  rw [List.mem_map]
  constructor
  · rintro ⟨e, he, rfl, rfl⟩
    exact ⟨e, he, rfl⟩
  · rintro ⟨e, he, h⟩
    obtain ⟨rfl, rfl⟩ := PartyEntry.mk.inj h
    exact ⟨e, he, rfl, rfl⟩

/-! ## Party 1 -/

theorem getCoordinatorPartyID_eq (hlen : parties.length < 65536) :
    getCoordinatorPartyID parties = buildPartyIdentifierMap parties 1 := by
  refine Option.ext fun name => ?_
  have hsorted := (perm_sortStrings parties).length_eq
  rw [buildPartyIdentifierMap_eq_some hlen, mem_buildPartyInfo, getCoordinatorPartyID,
    List.head?_eq_getElem?]
  constructor
  · intro h
    exact ⟨0, h, rfl⟩
  · rintro ⟨i, hi, hone⟩
    have hlt := (List.getElem?_eq_some_iff.mp hi).1
    have hi0 : i = 0 := by
      have h := congrArg UInt16.toNat hone
      rw [UInt16.toNat_ofNat', UInt16.toNat_one] at h
      omega
    rwa [hi0] at hi

theorem coordinatorId_encodeParties {p : PartyEntry} {rest : List PartyEntry}
    {maxSigners minSigners : UInt16} {setup : SetupMsg} (hlen : (p :: rest).length < 65536)
    (h : newSetupMsg maxSigners minSigners (some (encodeParties (p :: rest))) = .ok setup) :
    coordinatorId setup = some p.frostId := by
  obtain ⟨tail, hdata⟩ : ∃ tail, encodeParties (p :: rest) =
      u16ToLeBytes (.ofNat (p :: rest).length) ++ (u16ToLeBytes p.frostId ++ tail) := by
    refine ⟨u16ToLeBytes (.ofNat p.name.length) ++ p.name ++ rest.flatMap PartyEntry.encode, ?_⟩
    simp only [encodeParties, List.flatMap_cons, PartyEntry.encode, List.append_assoc]
  have hcount : u16FromLeBytes (slice (encodeParties (p :: rest)) 0 2) = .ofNat (p :: rest).length := by
    rw [slice, List.drop_zero, hdata, List.take_left' (length_u16ToLeBytes _), u16FromLeBytes_toLeBytes]
  have hfirst : u16FromLeBytes (slice (encodeParties (p :: rest)) 2 2) = p.frostId := by
    rw [slice, hdata, List.drop_left' (length_u16ToLeBytes _), List.take_left' (length_u16ToLeBytes _),
      u16FromLeBytes_toLeBytes]
  obtain ⟨pd, hpd, h⟩ := bind_eq_ok.mp h
  obtain rfl := Except.ok.inj hpd
  obtain ⟨ps, hps, h⟩ := bind_eq_ok.mp h
  obtain rfl := Except.ok.inj h
  obtain ⟨-, -, hps⟩ := bind_eq_ok.mp hps
  rw [hcount, toNat_ofNat16 hlen, List.length_cons, decodePartiesFrom] at hps
  simp only [bind_eq_ok] at hps
  obtain ⟨-, -, -, -, others, -, hps⟩ := hps
  obtain rfl := Except.ok.inj hps
  rw [coordinatorId, List.head?_cons, Option.map_some, hfirst]

theorem setup_picks (hlen : parties.length < 65536) {maxSigners minSigners : UInt16} {setup : SetupMsg}
    (h : newSetupMsg maxSigners minSigners (some (encodeParties (buildPartyInfo parties))) = .ok setup) :
    (coordinatorId setup).bind (buildPartyIdentifierMap parties) = buildPartyIdentifierMap parties 1 := by
  have hgapless := gapless hlen
  cases hinfo : buildPartyInfo parties with
  | nil =>
    have hnone : ∀ id, buildPartyIdentifierMap parties id = none := by
      intro id
      rw [Option.eq_none_iff_forall_ne_some]
      intro name hname
      rw [buildPartyIdentifierMap_eq_some hlen, hinfo] at hname
      nomatch hname
    rw [hnone 1]
    cases coordinatorId setup with
    | none => rfl
    | some id => exact hnone id
  | cons p rest =>
    have hlength := length_buildPartyInfo parties
    rw [hinfo] at h hgapless hlength
    have hone : p.frostId = 1 := by
      rw [← hlength, List.length_cons, List.range'_succ, List.map_cons] at hgapless
      exact UInt16.toNat_inj.mp (List.cons.inj hgapless).1
    rw [coordinatorId_encodeParties (hlength.trans_lt hlen) h, hone]
    rfl

theorem numbers_of_nodup (hnodup : parties.Nodup) (hlen : parties.length < 65536) :
    Numbers parties where
  gapless := gapless hlen
  all := by
    rw [map_name_buildPartyInfo]
    exact perm_sortStrings parties
  names _ _ := nameToFrostID_eq_some hnodup
  ids _ _ := buildPartyIdentifierMap_eq_some hlen

theorem picksFirst_iff (hlen : parties.length < 65536) : PicksFirst parties ↔ LeastFirst parties := by
  have hfirst := getCoordinatorPartyID_eq hlen
  rw [← head?_sortStrings_iff, ← getCoordinatorPartyID, hfirst]
  exact ⟨fun h => h.spend, fun h => ⟨hfirst, fun _ _ _ => setup_picks hlen, h⟩⟩

theorem numbersAlike_of_perm (hperm : parties.Perm parties') : NumbersAlike parties parties' := by
  have hsort := sortStrings_perm hperm
  have hinfo : buildPartyInfo parties = buildPartyInfo parties' := by
    unfold buildPartyInfo
    rw [hsort]
  refine ⟨hinfo, ?_, ?_⟩
  · unfold nameToFrostID
    rw [hinfo]
  · unfold buildPartyIdentifierMap
    rw [hsort]

/-- Two parties with the same names in any order number each other alike. They pick the same
coordinator everywhere if and only if each has the least of the names first in its list. -/
theorem parties_agree_iff (hnodup : parties.Nodup) (hlen : parties.length < 65536)
    (hperm : parties.Perm parties') :
    (NumbersAlike parties parties' ∧ Numbers parties ∧ Numbers parties' ∧
      PicksFirst parties ∧ PicksFirst parties') ↔ LeastFirst parties ∧ LeastFirst parties' := by
  have hnodup' := hperm.nodup_iff.mp hnodup
  have hlen' := hperm.length_eq ▸ hlen
  rw [picksFirst_iff hlen, picksFirst_iff hlen']
  constructor
  · exact fun h => h.2.2.2
  · exact fun h => ⟨numbersAlike_of_perm hperm, numbers_of_nodup hnodup hlen,
      numbers_of_nodup hnodup' hlen', h⟩

theorem parties_agree_sample :
    NumbersAlike [[97], [98], [99]] [[97], [99], [98]] ∧ Numbers [[97], [98], [99]] ∧
      Numbers [[97], [99], [98]] ∧ PicksFirst [[97], [98], [99]] ∧ PicksFirst [[97], [99], [98]] := by
  refine (parties_agree_iff (by decide) (by decide) (by decide)).mpr ⟨?_, ?_⟩
  · rintro first h
    obtain rfl := Option.some.inj h
    decide
  · rintro first h
    obtain rfl := Option.some.inj h
    decide

/-- Each of two parties has itself first, and both coordinate the spend. -/
theorem two_coordinators :
    spendCoordinator [[98], [97]] = some [98] ∧ spendCoordinator [[97], [98]] = some [97] ∧
      ¬ PicksFirst [[98], [97]] := by
  refine ⟨rfl, rfl, fun h => ?_⟩
  exact absurd h.spend (by decide)

end PartyOrder
