import FrostZm.Client.Relay
import FrostZm.Lib.Polling
import FrostZm.Lib.Runs
import FrostZm.Session.Relay
import FrostZm.Session.Setup

/-!
# Sessions over the relay

Each party runs the loop of `RunSession`: it sends what its session has put out, polls the relay,
and feeds the session with what is new.
-/

namespace RunSession

open Relay Relay.RelayClient

/-! ## Parties and recipients -/

/-- `BuildPartyInfo`. The numbers wrap. -/
def buildPartyInfo (parties : List GoString) : List PartyEntry :=
  (sortStrings parties).zipIdx.map fun (name, i) => ⟨.ofNat (i + 1), name⟩

/-- What `buildNameToFrostID` has for a name: of equal names the last one counts. -/
def nameToFrostID (parties : List GoString) (name : GoString) : Option UInt16 :=
  ((buildPartyInfo parties).reverse.find? (·.name = name)).map PartyEntry.frostId

def msgReceiverImpl (setup : SetupMsg) (myId : UInt16) (msg : Bytes) (index : UInt32) :
    Option Bytes :=
  let recipient := readRecipient msg
  if recipient = 0 then
    let others := setup.otherPartyIds myId
    others[index.toNat]?.bind setup.partyName
  else if index = 0 then setup.partyName recipient
  else none

/-- What the client gets of a buffer that the library leaves empty or fills: `nil` if it has
length 0. -/
def copyBuffer (buf : Option Bytes) : Option Bytes := buf.filter (· ≠ [])

/-! ## The loop -/

inductive LoopError where
  | cancelled
  | sliceBounds
  | decrypt (e : RelayError)
  | base64
  | unknownSender
deriving DecidableEq

/-- Where a loop stands. After the session has finished, the outbox is drained once more. -/
inductive Pc where
  | top
  | drain (final : Bool)
  | send (final : Bool) (msg : Bytes) (i : Nat)
  | poll
  | inbox
  | stopped (error : Option LoopError)
deriving DecidableEq

def seenKey (m : Message) : GoString × UInt64 := (m.fromParty, m.sequenceNo)

structure Party (α : Type) where
  pc : Pc
  client : RelayClient
  session : Protocol α
  /-- The messages of the last poll and the set `seen`, with what the relay has returned. -/
  reader : Polling.Reader Message (GoString × UInt64)
  /-- The frames that were taken from the outbox, and the frames that were fed. -/
  taken : List Bytes
  fed : List Bytes

/-- The parties, their sessions and their clients. The setup message has room for fewer
than 2^16 parties. -/
structure Setting (α : Type) where
  sessionID : GoString
  allParties : List GoString
  distinct : allParties.Nodup
  setup : SetupMsg
  numbered : setup.parties <+: buildPartyInfo allParties
  small : setup.parties.length < 2 ^ 16
  body : GoString → Ceremony α
  /-- As `FrostChannel` writes them. -/
  framed : ∀ p fed, ∀ msg ∈ (body p).outs fed, 2 ≤ msg.length
  client : GoString → RelayClient
  key : Option Bytes
  sameKey : ∀ p, (client p).encryptionKey = key

/-- The salt and the nonce of a message. -/
structure Draw where
  salt : Bytes
  nonce : Bytes
  salt_length : salt.length = relaySaltLen
  nonce_length : nonce.length = gcmNonceSize

section Loop

variable (prims : Primitives) {α : Type} (w : Setting α)

def outgoing (p name msg : Bytes) : Message :=
  ⟨w.sessionID, p, [name], prims.base64Encode (msg.drop 2), [], 0⟩

/-- One message of a poll that was not seen before. -/
def process (q : Party α) (m : Message) : Party α :=
  match q.client.decryptAndVerify prims m with
  | (.error e, client) => { q with client, pc := .stopped (some (.decrypt e)) }
  | (.ok body, client) =>
    match prims.base64Decode body with
    | none => { q with client, pc := .stopped (some .base64) }
    | some payload =>
      match nameToFrostID w.allParties m.fromParty with
      | none => { q with client, pc := .stopped (some .unknownSender) }
      | some senderID =>
        let frame := wrapSender senderID payload
        { q with
          client
          session := (q.session.feed frame).2
          fed := q.fed ++ [frame]
          pc := if (q.session.feed frame).1 then .drain true else .inbox }

/-- The next step of the loop of `p` up to the next request. A message that is sent comes with its
recipient, as the relay reads both from JSON. A loop that polls or has returned makes no step. -/
def turn (p : GoString) (myId : UInt16) (draw : Draw) (q : Party α) :
    Option (Party α × Option (GoString × Message)) :=
  match q.pc with
  | .top => some ({ q with pc := .drain false }, none)
  | .drain final =>
    match copyBuffer q.session.takeMsg.1 with
    | none =>
      let pc := if final then .stopped none else .poll
      some ({ q with session := q.session.takeMsg.2, pc }, none)
    | some msg =>
      -- `msg[2:]`
      let pc := if msg.length < 2 then .stopped (some .sliceBounds) else .send final msg 0
      some ({ q with session := q.session.takeMsg.2, taken := q.taken ++ [msg], pc }, none)
  | .send final msg i =>
    match copyBuffer (msgReceiverImpl w.setup myId msg (.ofNat i)) with
    | none => some ({ q with pc := .drain final }, none)
    | some name =>
      let sent := q.client.sendMessage prims (outgoing prims w p name msg) draw.salt draw.nonce
      some ({ q with client := sent.2, pc := .send final msg (i + 1) },
        some (jsonString name, sent.1.overJson))
  | .poll => none
  | .inbox =>
    match q.reader.look seenKey with
    | none => some ({ q with pc := .top }, none)
    | some (none, reader) => some ({ q with reader }, none)
    | some (some m, reader) => some (process prims w { q with reader } m, none)
  | .stopped _ => none

end Loop

/-! ## The parties on a relay -/

/-- The relay keeps a log of messages for each recipient. -/
structure Net (α : Type) where
  party : GoString → Party α
  log : GoString → List Message

inductive Action where
  | turn (p : GoString) (draw : Draw)
  | getMessages (p : GoString) (whole : Bool) (k : Nat)
  /-- The context is done when the loop looks at it. -/
  | cancel (p : GoString)

section Net

variable (prims : Primitives) {α : Type} (w : Setting α)

def post (log : GoString → List Message) : Option (GoString × Message) → GoString → List Message
  | none => log
  | some (name, m) => Function.update log name (log name ++ [m])

def Net.setParty (net : Net α) (p : GoString) (q : Party α) : Net α :=
  { net with party := Function.update net.party p q }

def step (net : Net α) : Action → Option (Net α)
  | .turn p draw => do
    let myId ← w.setup.frostIdByName p
    let (q, posted) ← turn prims w p myId draw (net.party p)
    return { net.setParty p q with log := post net.log posted }
  | .getMessages p whole k => do
    let _ ← w.setup.frostIdByName p
    let reader ← (net.party p).reader.poll (net.log p) whole k
    if (net.party p).pc = .poll then
      some (net.setParty p { net.party p with reader, pc := .inbox })
    else none
  | .cancel p =>
    if (net.party p).pc = .top then
      some (net.setParty p { net.party p with pc := .stopped (some .cancelled) })
    else none

def init : Net α where
  party p := ⟨.top, w.client p, .start (w.body p), {}, [], []⟩
  log _ := []

abbrev run (acts : List Action) : Option (Net α) := Runs.run (step prims w) (init w) acts

/-! ## The recipients of a frame -/

/-- Those that the setup names. -/
def receivers (setup : SetupMsg) (myId : UInt16) (msg : Bytes) : List Bytes :=
  if readRecipient msg = 0 then (setup.parties.filter (·.frostId ≠ myId)).map PartyEntry.name
  else (setup.partyName (readRecipient msg)).toList

/-- The frames that `s` has put out for `r`, as `r` is to be fed with them. -/
def putOut (net : Net α) (s : GoString) (sid : UInt16) (r : GoString) : List Bytes :=
  (((net.party s).taken ++ (net.party s).session.outbox).filter
    fun msg => r ∈ receivers w.setup sid msg).map fun msg => wrapSender sid (payload msg)

/-- The frames with the id of the sender that `r` was fed with. -/
def fedFrom (net : Net α) (sid : UInt16) (r : GoString) : List Bytes :=
  (net.party r).fed.filter fun frame => (unframe frame).1 = sid

/-- Everything has been sent and looked at. -/
structure Settled (net : Net α) (s r : GoString) : Prop where
  outbox : (net.party s).session.outbox = []
  sent : ∀ final msg i, (net.party s).pc ≠ .send final msg i
  returned : (net.party r).reader.returned = (net.log r).length
  rest : (net.party r).reader.rest = []

/-- The recipient that comes next has a name, JSON leaves it and the name of the sender alone, and
neither the recipient's filter of duplicates nor that of its client knows the number that the
message gets. -/
def Deliverable (net : Net α) : Action → Prop
  | .turn p _ => ∀ myId, w.setup.frostIdByName p = some myId → ∀ final msg i,
    (net.party p).pc = .send final msg i → ∀ name, (receivers w.setup myId msg)[i]? = some name →
      (name ≠ [] ∧ ValidUtf8 name ∧ ValidUtf8 p) ∧
        (p, (net.party p).client.seqCounter + 1) ∉ (net.log name).map seenKey ∧
        (jsonString w.sessionID ++ 58 :: p, (net.party p).client.seqCounter + 1) ∉
          (net.party name).client.seenSeqs
  | _ => True

end Net

variable {α : Type} {w : Setting α}

/-! ## Names and ids -/

theorem find?_of_nodup {β κ : Type} [DecidableEq κ] {key : β → κ} {l : List β} {e : β}
    (hl : (l.map key).Nodup) (he : e ∈ l) : l.find? (key · = key e) = some e := by
  induction l with
  | nil => nomatch he
  | cons x l ih =>
    rw [List.map_cons, List.nodup_cons] at hl
    rcases List.mem_cons.mp he with rfl | he
    · exact List.find?_cons_of_pos (decide_eq_true rfl)
    · rw [List.find?_cons_of_neg, ih hl.2 he]
      rw [decide_eq_true_eq]
      exact fun heq => hl.1 (heq ▸ List.mem_map_of_mem he)

theorem map_name_buildPartyInfo (parties : List GoString) :
    (buildPartyInfo parties).map PartyEntry.name = sortStrings parties := by
  unfold buildPartyInfo
  rw [List.map_map]
  exact List.zipIdx_map_fst 0 (sortStrings parties)

theorem nodup_names (w : Setting α) : ((buildPartyInfo w.allParties).map PartyEntry.name).Nodup := by
  rw [map_name_buildPartyInfo]
  exact (List.perm_insertionSort _ _).nodup_iff.mpr w.distinct

theorem nodup_setup_names (w : Setting α) : (w.setup.parties.map PartyEntry.name).Nodup :=
  (nodup_names w).sublist (w.numbered.sublist.map _)

theorem nodup_setup_ids (w : Setting α) : (w.setup.parties.map PartyEntry.frostId).Nodup := by
  have hids : w.setup.parties.map PartyEntry.frostId =
      (List.range w.setup.parties.length).map fun i => UInt16.ofNat (i + 1) := by
    apply List.ext_getElem
    · simp
    · intro i hi hi'
      rw [List.length_map] at hi
      simp [w.numbered.getElem hi, buildPartyInfo]
  rw [hids]
  apply List.Nodup.map_on _ List.nodup_range
  intro i hi j hj heq
  have hsmall := w.small
  rw [List.mem_range] at hi hj
  rw [← UInt16.toNat_inj, UInt16.toNat_ofNat', UInt16.toNat_ofNat'] at heq
  omega

variable {e e' : PartyEntry}

theorem nameToFrostID_entry (he : e ∈ w.setup.parties) :
    nameToFrostID w.allParties e.name = some e.frostId := by
  have hmem : e ∈ (buildPartyInfo w.allParties).reverse :=
    List.mem_reverse.mpr (w.numbered.subset he)
  have hnodup : ((buildPartyInfo w.allParties).reverse.map PartyEntry.name).Nodup := by
    rw [List.map_reverse, List.nodup_reverse]
    exact nodup_names w
  unfold nameToFrostID
  rw [find?_of_nodup hnodup hmem]
  rfl

theorem partyName_entry (he : e ∈ w.setup.parties) : w.setup.partyName e.frostId = some e.name := by
  unfold SetupMsg.partyName
  rw [find?_of_nodup (nodup_setup_ids w) he]
  rfl

theorem entry_of_frostIdByName {name : GoString} {id : UInt16}
    (h : w.setup.frostIdByName name = some id) : ⟨id, name⟩ ∈ w.setup.parties := by
  obtain ⟨e, he, rfl⟩ := Option.map_eq_some_iff.mp h
  have hname : e.name = name := by simpa using List.find?_some he
  rw [← hname]
  exact List.mem_of_find?_eq_some he

theorem entry_of_partyName {name : Bytes} {id : UInt16} (h : w.setup.partyName id = some name) :
    ⟨id, name⟩ ∈ w.setup.parties := by
  obtain ⟨e, he, rfl⟩ := Option.map_eq_some_iff.mp h
  have hid : e.frostId = id := by simpa using List.find?_some he
  rw [← hid]
  exact List.mem_of_find?_eq_some he

/-! ## Recipients -/

section Names

variable {setup : SetupMsg} {myId : UInt16} {msg : Bytes}

/-- The names in the order of their indices, the empty ones among them. -/
def receiverNames (setup : SetupMsg) (myId : UInt16) (msg : Bytes) : List Bytes :=
  if readRecipient msg = 0 then
    (setup.otherPartyIds myId).map fun id => (setup.partyName id).getD []
  else (setup.partyName (readRecipient msg)).toList

theorem partyName_isSome {id : UInt16} (h : id ∈ setup.ids) : (setup.partyName id).isSome := by
  obtain ⟨p, hp, rfl⟩ := List.mem_map.mp h
  unfold SetupMsg.partyName
  rw [Option.isSome_map, List.find?_isSome]
  exact ⟨p, hp, decide_eq_true rfl⟩

theorem otherPartyIds_subset : setup.otherPartyIds myId ⊆ setup.ids := by
  unfold SetupMsg.otherPartyIds SetupMsg.ids
  exact List.map_subset _ List.filter_sublist.subset

theorem msgReceiverImpl_eq_getElem? {i : Nat} (hi : i < 2 ^ 32) :
    msgReceiverImpl setup myId msg (.ofNat i) = (receiverNames setup myId msg)[i]? := by
  have htoNat : (UInt32.ofNat i).toNat = i := UInt32.toNat_ofNat_of_lt' hi
  unfold msgReceiverImpl receiverNames
  by_cases hall : readRecipient msg = 0
  · simp only [if_pos hall]
    rw [htoNat, List.getElem?_map]
    cases hid : (setup.otherPartyIds myId)[i]? with
    | none => rfl
    | some id =>
      have hsome := partyName_isSome (otherPartyIds_subset (List.mem_of_getElem? hid))
      obtain ⟨name, hname⟩ := Option.isSome_iff_exists.mp hsome
      simp [hname]
  · simp only [if_neg hall]
    have hindex : UInt32.ofNat i = 0 ↔ i = 0 := by
      rw [← UInt32.toNat_inj, htoNat]
      rfl
    cases i with
    | zero =>
      rw [if_pos (hindex.mpr rfl)]
      cases setup.partyName (readRecipient msg) <;> rfl
    | succ j =>
      rw [if_neg fun h => nomatch hindex.mp h]
      cases setup.partyName (readRecipient msg) <;> rfl

end Names

variable {myId : UInt16} {msg name : Bytes}

theorem mem_receivers (h : name ∈ receivers w.setup myId msg) :
    ∃ id, ⟨id, name⟩ ∈ w.setup.parties := by
  unfold receivers at h
  split at h
  · obtain ⟨e, he, rfl⟩ := List.mem_map.mp h
    exact ⟨e.frostId, (List.mem_filter.mp he).1⟩
  · exact ⟨_, entry_of_partyName (Option.mem_toList.mp h)⟩

theorem nodup_receivers (w : Setting α) (myId : UInt16) (msg : Bytes) :
    (receivers w.setup myId msg).Nodup := by
  unfold receivers
  split
  · exact (nodup_setup_names w).sublist (List.filter_sublist.map _)
  · cases w.setup.partyName (readRecipient msg) with
    | none => exact List.nodup_nil
    | some name => exact List.nodup_singleton name

theorem length_receivers_lt (w : Setting α) (myId : UInt16) (msg : Bytes) :
    (receivers w.setup myId msg).length < 2 ^ 16 := by
  have hsmall := w.small
  unfold receivers
  split
  · rw [List.length_map]
    exact (List.length_filter_le _ _).trans_lt hsmall
  · cases w.setup.partyName (readRecipient msg) <;> simp

theorem receiverNames_eq (w : Setting α) (myId : UInt16) (msg : Bytes) :
    receiverNames w.setup myId msg = receivers w.setup myId msg := by
  unfold receiverNames receivers
  split
  · unfold SetupMsg.otherPartyIds
    rw [List.map_map]
    refine List.map_congr_left fun e he => ?_
    have hentry := partyName_entry (List.mem_filter.mp he).1
    simp [hentry]
  · rfl

theorem msgReceiverImpl_eq {i : Nat} (hi : i < 2 ^ 32) :
    msgReceiverImpl w.setup myId msg (.ofNat i) = (receivers w.setup myId msg)[i]? := by
  rw [msgReceiverImpl_eq_getElem? hi, receiverNames_eq]

end RunSession
