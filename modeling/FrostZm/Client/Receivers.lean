import FrostZm.Client.Runner
import FrostZm.Session.SetupCodec
import Mathlib.Data.List.TakeWhile

/-!
# The receivers of a frame

`drainOutbox` asks the library for receiver 0, 1 and so on of each frame, until the name that it
gets is empty.
-/

namespace RunSession

/-! ## The loop over the receivers -/

/-- The names that the loop sends to from index `i` on, if it ends within so many turns. -/
def drainReceivers (setup : SetupMsg) (myId : UInt16) (msg : Bytes) : Nat → Nat → Option (List Bytes)
  | 0, _ => none
  | turns + 1, i =>
    match copyBuffer (msgReceiverImpl setup myId msg (.ofNat i)) with
    | none => some []
    | some name => (drainReceivers setup myId msg turns (i + 1)).map (name :: ·)

/-- The loop ends and has sent to these names. -/
def SendsTo (setup : SetupMsg) (myId : UInt16) (msg : Bytes) (names : List Bytes) : Prop :=
  ∃ turns, drainReceivers setup myId msg turns 0 = some names

/-! ## Who should receive -/

/-- The names of the other parties for a broadcast, those of the addressed party otherwise. -/
def intended (setup : SetupMsg) (myId : UInt16) (msg : Bytes) : List Bytes :=
  if readRecipient msg = 0 then (setup.parties.eraseP (·.frostId = myId)).map PartyEntry.name
  else (setup.parties.filter (·.frostId = readRecipient msg)).map PartyEntry.name

/-- The loop ends, and it has sent to each intended receiver exactly once and to no one else. -/
def ReachesOnce (setup : SetupMsg) (myId : UInt16) (msg : Bytes) : Prop :=
  ∃ names, SendsTo setup myId msg names ∧ names.Perm (intended setup myId msg) ∧ names.Nodup

/-- The setup tells its parties apart. -/
structure TellsApart (setup : SetupMsg) (myId : UInt16) : Prop where
  ids : setup.ids.Nodup
  named : ∀ p ∈ setup.parties, p.frostId ≠ myId → p.name ≠ []
  names : ((setup.parties.filter (·.frostId ≠ myId)).map PartyEntry.name).Nodup

/-- At most one party has the id, and it has a name. -/
structure NamesOne (setup : SetupMsg) (id : UInt16) : Prop where
  one : (setup.parties.filter (·.frostId = id)).length ≤ 1
  named : ∀ p ∈ setup.parties, p.frostId = id → p.name ≠ []

/-! ## The names that the library gives -/

variable {setup : SetupMsg} {myId : UInt16} {msg : Bytes}

variable (myId msg) in
theorem length_receiverNames_lt (hsetup : setup.parties.length < 2 ^ 16) :
    (receiverNames setup myId msg).length < 2 ^ 16 := by
  unfold receiverNames
  split
  · rw [List.length_map, SetupMsg.otherPartyIds, List.length_map]
    exact (List.length_filter_le _ _).trans_lt hsetup
  · cases setup.partyName (readRecipient msg) <;> simp

/-- The names that come before the first empty one. -/
def reached (setup : SetupMsg) (myId : UInt16) (msg : Bytes) : List Bytes :=
  (receiverNames setup myId msg).takeWhile (· ≠ [])

theorem drainReceivers_eq {left : List Bytes} {i : Nat} (hleft : i + left.length < 2 ^ 32)
    (h : (receiverNames setup myId msg).drop i = left) :
    ∃ turns, drainReceivers setup myId msg turns i = some (left.takeWhile (· ≠ [])) := by
  induction left generalizing i with
  | nil =>
    refine ⟨1, ?_⟩
    have hnone : (receiverNames setup myId msg)[i]? = none :=
      List.getElem?_eq_none (List.drop_eq_nil_iff.mp h)
    unfold drainReceivers
    rw [msgReceiverImpl_eq_getElem? (by omega), hnone]
    rfl
  | cons name left ih =>
    rw [List.length_cons] at hleft
    have hname : (receiverNames setup myId msg)[i]? = some name := by
      rw [← List.head?_drop, h, List.head?_cons]
    by_cases hempty : name = []
    · refine ⟨1, ?_⟩
      unfold drainReceivers
      rw [msgReceiverImpl_eq_getElem? (by omega), hname, hempty]
      rfl
    · have hrest : (receiverNames setup myId msg).drop (i + 1) = left := by
        rw [← List.tail_drop, h, List.tail_cons]
      obtain ⟨turns, hturns⟩ := ih (by omega) hrest
      refine ⟨turns + 1, ?_⟩
      have hcopy : copyBuffer (some name) = some name := by
        unfold copyBuffer
        rw [Option.filter_some_pos (by simpa using hempty)]
      unfold drainReceivers
      rw [msgReceiverImpl_eq_getElem? (by omega), hname, hcopy,
        List.takeWhile_cons_of_pos (by simpa using hempty)]
      simp only [hturns, Option.map_some]

theorem drainReceivers_unique {turns turns' i : Nat} {names names' : List Bytes}
    (h : drainReceivers setup myId msg turns i = some names)
    (h' : drainReceivers setup myId msg turns' i = some names') : names = names' := by
  induction turns generalizing turns' i names names' with
  | zero => nomatch h
  | succ turns ih =>
    cases turns' with
    | zero => nomatch h'
    | succ turns' =>
      unfold drainReceivers at h h'
      split at h
      · next hnone =>
        rw [hnone] at h'
        exact (Option.some.inj h).symm.trans (Option.some.inj h')
      · next name hsome =>
        rw [hsome] at h'
        obtain ⟨rest, hrest, rfl⟩ := Option.map_eq_some_iff.mp h
        obtain ⟨rest', hrest', rfl⟩ := Option.map_eq_some_iff.mp h'
        rw [ih hrest hrest']

theorem sendsTo_iff (hsetup : setup.parties.length < 2 ^ 16) {names : List Bytes} :
    SendsTo setup myId msg names ↔ names = reached setup myId msg := by
  have hlen := length_receiverNames_lt myId msg hsetup
  have hdrain : ∃ turns, drainReceivers setup myId msg turns 0 = some (reached setup myId msg) :=
    drainReceivers_eq (by omega) List.drop_zero
  obtain ⟨turns, hturns⟩ := hdrain
  constructor
  · rintro ⟨turns', h⟩
    exact drainReceivers_unique h hturns
  · rintro rfl
    exact ⟨turns, hturns⟩

theorem reachesOnce_iff (hsetup : setup.parties.length < 2 ^ 16) :
    ReachesOnce setup myId msg ↔
      (reached setup myId msg).Perm (intended setup myId msg) ∧ (reached setup myId msg).Nodup := by
  unfold ReachesOnce
  simp only [sendsTo_iff hsetup, exists_eq_left]

/-! ## Broadcasts -/

theorem nodup_of_filter {β : Type} [DecidableEq β] {l : List β} {x : β} (hx : l.count x ≤ 1)
    (h : (l.filter (· ≠ x)).Nodup) : l.Nodup := by
  rw [List.nodup_iff_count_le_one] at *
  intro a
  by_cases ha : a = x
  · rw [ha]
    exact hx
  · have hcount := h a
    rwa [List.count_filter (by simpa using ha)] at hcount

theorem otherPartyIds_eq : setup.otherPartyIds myId = setup.ids.filter (· ≠ myId) := by
  unfold SetupMsg.otherPartyIds SetupMsg.ids
  rw [List.filter_map]
  rfl

theorem eraseP_eq_filter (h : setup.ids.Nodup) :
    setup.parties.eraseP (·.frostId = myId) = setup.parties.filter (·.frostId ≠ myId) := by
  unfold SetupMsg.ids at h
  generalize setup.parties = parties at h ⊢
  induction parties with
  | nil => rfl
  | cons p ps ih =>
    rw [List.map_cons, List.nodup_cons] at h
    by_cases hp : p.frostId = myId
    · rw [List.eraseP_cons_of_pos (by simpa using hp), List.filter_cons_of_neg (by simpa using hp),
        List.filter_eq_self.mpr]
      intro q hq
      rw [decide_eq_true_eq]
      rintro rfl
      exact h.1 (hp ▸ List.mem_map_of_mem hq)
    · rw [List.eraseP_cons_of_neg (by simpa using hp), List.filter_cons_of_pos (by simpa using hp),
        ih h.2]

variable (myId) in
theorem receiverNames_of_nodup (hall : readRecipient msg = 0) (h : setup.ids.Nodup) :
    receiverNames setup myId msg =
      (setup.parties.filter (·.frostId ≠ myId)).map PartyEntry.name := by
  unfold receiverNames
  rw [if_pos hall, SetupMsg.otherPartyIds, List.map_map]
  refine List.map_congr_left fun p hp => ?_
  have hfind := find?_of_nodup h (List.mem_filter.mp hp).1
  simp only [Function.comp_apply, SetupMsg.partyName, hfind, Option.map_some, Option.getD_some]

theorem reachesOnce_broadcast (hsetup : setup.parties.length < 2 ^ 16) (hmy : myId ∈ setup.ids)
    (hall : readRecipient msg = 0) : ReachesOnce setup myId msg ↔ TellsApart setup myId := by
  have hintended : intended setup myId msg =
      (setup.parties.eraseP (·.frostId = myId)).map PartyEntry.name := if_pos hall
  rw [reachesOnce_iff hsetup, hintended]
  constructor
  · rintro ⟨hperm, hnodup⟩
    have hlen : (reached setup myId msg).length = setup.ids.length - 1 := by
      obtain ⟨p, hp, hid⟩ := List.mem_map.mp hmy
      rw [hperm.length_eq, List.length_map, List.length_eraseP_of_mem hp (decide_eq_true hid),
        SetupMsg.ids, List.length_map]
    have hnames : (receiverNames setup myId msg).length = (setup.otherPartyIds myId).length := by
      unfold receiverNames
      rw [if_pos hall, List.length_map]
    have hothers : setup.ids.length = setup.ids.count myId + (setup.otherPartyIds myId).length := by
      rw [otherPartyIds_eq, ← List.countP_eq_length_filter,
        List.length_eq_countP_add_countP (· == myId)]
      congr 2
      simp
    have hcount : 1 ≤ setup.ids.count myId := List.one_le_count_iff.mpr hmy
    have hprefix : reached setup myId msg <+: receiverNames setup myId msg :=
      List.takeWhile_prefix _
    have hle := hprefix.length_le
    -- only the own entry is left out, and no name stops the loop
    have heq : reached setup myId msg = receiverNames setup myId msg :=
      hprefix.eq_of_length (by omega)
    have hids : setup.ids.Nodup := by
      refine nodup_of_filter (x := myId) (by omega) ?_
      rw [heq, receiverNames, if_pos hall] at hnodup
      rw [← otherPartyIds_eq]
      exact hnodup.of_map
    have hown := receiverNames_of_nodup myId hall hids
    refine ⟨hids, ?_, hown ▸ heq ▸ hnodup⟩
    intro p hp hne
    have hmem : p.name ∈ receiverNames setup myId msg := by
      rw [hown]
      exact List.mem_map_of_mem (List.mem_filter.mpr ⟨hp, decide_eq_true hne⟩)
    exact of_decide_eq_true (List.takeWhile_eq_self_iff.mp heq _ hmem)
  · intro h
    rw [eraseP_eq_filter h.ids, reached, receiverNames_of_nodup myId hall h.ids,
      List.takeWhile_eq_self_iff.mpr]
    · exact ⟨List.Perm.refl _, h.names⟩
    · intro name hname
      obtain ⟨p, hp, rfl⟩ := List.mem_map.mp hname
      obtain ⟨hp, hother⟩ := List.mem_filter.mp hp
      exact decide_eq_true (h.named p hp (of_decide_eq_true hother))

/-! ## Direct messages -/

theorem reachesOnce_direct (hsetup : setup.parties.length < 2 ^ 16) (hone : readRecipient msg ≠ 0) :
    ReachesOnce setup myId msg ↔ NamesOne setup (readRecipient msg) := by
  have hintended : intended setup myId msg =
      (setup.parties.filter (·.frostId = readRecipient msg)).map PartyEntry.name := if_neg hone
  have hreached : reached setup myId msg =
      ((setup.parties.filter (·.frostId = readRecipient msg)).map PartyEntry.name).head?.toList.takeWhile
        (· ≠ []) := by
    unfold reached receiverNames SetupMsg.partyName
    rw [if_neg hone, ← List.head?_filter, List.head?_map]
  rw [reachesOnce_iff hsetup, hintended, hreached]
  have hmem : ∀ p, p ∈ setup.parties.filter (·.frostId = readRecipient msg) ↔
      p ∈ setup.parties ∧ p.frostId = readRecipient msg := by
    intro p
    rw [List.mem_filter, decide_eq_true_eq]
  have hiff : NamesOne setup (readRecipient msg) ↔
      (setup.parties.filter (·.frostId = readRecipient msg)).length ≤ 1 ∧
        ∀ p ∈ setup.parties.filter (·.frostId = readRecipient msg), p.name ≠ [] := by
    simp only [hmem, and_imp]
    exact ⟨fun h => ⟨h.one, h.named⟩, fun h => ⟨h.1, h.2⟩⟩
  rw [hiff]
  generalize setup.parties.filter (·.frostId = readRecipient msg) = addressed
  match addressed with
  | [] => simp
  | [p] =>
    by_cases hname : p.name = []
    · simp [hname]
    · simp [hname]
  | p :: q :: rest =>
    constructor
    · rintro ⟨hperm, -⟩
      have hlen := hperm.length_eq
      rw [List.map_cons, List.head?_cons, Option.toList_some, List.length_cons, List.map_cons,
        List.length_cons] at hlen
      have hle := hlen.symm.trans_le (List.takeWhile_sublist _).length_le
      rw [List.length_singleton] at hle
      omega
    · rintro ⟨hlen, -⟩
      simp at hlen

/-! ## The frames of a session -/

theorem length_parties_of_decode {data : Bytes} {n : Nat} (h : SetupMsg.decode data = .ok (setup, n)) :
    setup.parties.length < 2 ^ 16 := by
  obtain ⟨_, ⟨⟨hfits, -⟩, -⟩, -⟩ := (accepts_setupMsg data (Nat.zero_le _) (setup, n)).mp h
  exact hfits.parties

/-- A broadcast reaches the other parties, each once, exactly if the setup tells its parties apart.
A direct message reaches its party exactly if only that one has the id, and a name. -/
theorem frame_reaches_iff {data : Bytes} {n : Nat} (hsetup : SetupMsg.decode data = .ok (setup, n))
    (hmy : myId ∈ setup.ids) (recipient : UInt16) (payload : Bytes) :
    ReachesOnce setup myId (u16ToLeBytes recipient ++ payload) ↔
      if recipient = 0 then TellsApart setup myId else NamesOne setup recipient := by
  have hlen := length_parties_of_decode hsetup
  have hrecipient := readRecipient_append recipient payload
  split
  · next hall => exact reachesOnce_broadcast hlen hmy (hrecipient.trans hall)
  · next hone =>
    rw [reachesOnce_direct hlen (by rwa [hrecipient]), hrecipient]

def namedSetup : SetupMsg := ⟨3, 2, [⟨1, [97]⟩, ⟨2, [98]⟩, ⟨3, [99]⟩]⟩

theorem namedSetup_reaches : ReachesOnce namedSetup 1 (u16ToLeBytes 0 ++ [7]) :=
  have hdecode : SetupMsg.decode namedSetup.encode = .ok (namedSetup, 21) := rfl
  (frame_reaches_iff hdecode (by decide) 0 [7]).mpr ⟨by decide, by decide, by decide⟩

/-- The second party has no name. -/
def namelessSetup : SetupMsg := ⟨3, 2, [⟨1, [97]⟩, ⟨2, []⟩, ⟨3, [99]⟩]⟩

/-- The loop stops at the empty name, and the third party is not sent the broadcast. -/
theorem broadcast_stops :
    SetupMsg.decode namelessSetup.encode = .ok (namelessSetup, 20) ∧ 1 ∈ namelessSetup.ids ∧
      SendsTo namelessSetup 1 (u16ToLeBytes 0 ++ [7]) [] ∧
        ¬ ReachesOnce namelessSetup 1 (u16ToLeBytes 0 ++ [7]) := by
  refine ⟨rfl, by decide, ⟨1, by decide⟩, ?_⟩
  rw [reachesOnce_iff (by decide)]
  decide

end RunSession
