import FrostZm.Client.Blame
import FrostZm.Lib.Firsts

/-!
# Collecting the messages of a round

Three loops poll the relay until enough ids have spoken. The id of a message is the one in
its body, and the first message of an id is kept.
-/

namespace Collect

open Relay Relay.RelayClient Firsts

/-! ## The messages -/

structure RoundMessage where
  senderID : UInt16
  data : GoString
  receiverID : UInt16
deriving DecidableEq

structure CommitmentMessage where
  senderID : UInt16
  commitment : GoString
deriving DecidableEq

structure SignShareMessage where
  senderID : UInt16
  share : GoString
deriving DecidableEq

/-- `json.Unmarshal` into each of them. -/
structure Json where
  roundMessage : GoString → Option RoundMessage
  commitmentMessage : GoString → Option CommitmentMessage
  signShareMessage : GoString → Option SignShareMessage

/-- A message of a poll, with the party that posted it. -/
structure Delivery where
  sender : GoString
  message : Message
deriving DecidableEq

/-- What one turn of the loop finds. -/
inductive Poll where
  | cancelled
  | failed
  | messages (l : List Delivery)

inductive CollectError where
  | cancelled
  | getMessages
  | decrypt (e : RelayError)
  | unmarshal
deriving DecidableEq

/-! ## The loop -/

section Loop

variable (prims : Primitives) {Entry : Type} (unmarshal : GoString → Option Entry)
  (senderID : Entry → UInt16)

/-- The variables of the loop. Each entry is kept with the delivery that it came in. The code
keeps the entry alone. -/
structure State (Entry : Type) where
  client : RelayClient
  seen : List UInt16
  collected : List (Delivery × Entry)

def takeMessage (st : State Entry) (d : Delivery) : Except CollectError (State Entry) :=
  match st.client.decryptAndVerify prims d.message with
  | (.error e, _) => .error (.decrypt e)
  | (.ok body, client) =>
    match unmarshal body with
    | none => .error .unmarshal
    | some entry =>
      if senderID entry ∈ st.seen then .ok { st with client }
      else .ok {
        client
        seen := senderID entry :: st.seen
        collected := st.collected ++ [(d, entry)] }

/-- A loop that still polls has no result. -/
def collect (expected : Int) (st : State Entry) :
    List Poll → Option (Except CollectError (List (Delivery × Entry)))
  | [] => if (st.collected.length : Int) < expected then none else some (.ok st.collected)
  | poll :: rest =>
    if (st.collected.length : Int) < expected then
      match poll with
      | .cancelled => some (.error .cancelled)
      | .failed => some (.error .getMessages)
      | .messages l =>
        match l.foldlM (takeMessage prims unmarshal senderID) st with
        | .error e => some (.error e)
        | .ok st => collect expected st rest
    else some (.ok st.collected)

end Loop

section Functions

variable (prims : Primitives) (json : Json) (client : RelayClient) (expected : Int)
  (polls : List Poll)

def CollectMessages : Option (Except CollectError (List (Delivery × RoundMessage))) :=
  collect prims json.roundMessage RoundMessage.senderID expected ⟨client, [], []⟩ polls

def collectCommitments : Option (Except CollectError (List (Delivery × CommitmentMessage))) :=
  collect prims json.commitmentMessage CommitmentMessage.senderID expected ⟨client, [], []⟩ polls

def collectSignShares : Option (Except CollectError (List (Delivery × SignShareMessage))) :=
  collect prims json.signShareMessage SignShareMessage.senderID expected ⟨client, [], []⟩ polls

end Functions

/-! ## What the messages say, and who posted them -/

def buildPartyIdentifierMap (parties : List GoString) (id : UInt16) : Option GoString :=
  BlameExchange.partyIdentifierMap (sortStrings parties) id

section Senders

variable (prims : Primitives) {Entry : Type} (unmarshal : GoString → Option Entry)
  (senderID : Entry → UInt16) (client : RelayClient)

/-- The entry in a message whose text and hash are right. -/
def entryOf (d : Delivery) : Option Entry :=
  match client.verifyBody prims d.message with
  | .ok body => unmarshal body
  | .error _ => none

def named (l : List Delivery) : List UInt16 :=
  l.filterMap fun d => (entryOf prims unmarshal client d).map senderID

def Poll.deliveries : Poll → List Delivery
  | .messages l => l
  | _ => []

/-- The polls up to the first after which enough different ids were named. -/
structure Read (expected : Int) (polls read : List Poll) : Prop where
  initial : read <+: polls
  enough : expected ≤ (named prims unmarshal senderID client (read.flatMap Poll.deliveries)).dedup.length
  first : ∀ earlier, earlier <+: read → earlier ≠ read →
    ((named prims unmarshal senderID client (earlier.flatMap Poll.deliveries)).dedup.length : Int) <
      expected

/-- The first message that names an id was posted by the party with that id. -/
def FirstFromNamed (allParties : List GoString) (l : List Delivery) : Prop :=
  ∀ before d after entry, l = before ++ d :: after → entryOf prims unmarshal client d = some entry →
    senderID entry ∉ named prims unmarshal senderID client before →
    buildPartyIdentifierMap allParties (senderID entry) = some d.sender

/-- Every entry was posted by the party whose id it has. -/
def FromNamed (allParties : List GoString) (entries : List (Delivery × Entry)) : Prop :=
  ∀ e ∈ entries, buildPartyIdentifierMap allParties (senderID e.2) = some e.1.sender

end Senders

/-! ## The loop keeps the first entry of each id -/

section Keeps

variable {prims : Primitives} {Entry : Type} {unmarshal : GoString → Option Entry}
  {senderID : Entry → UInt16} {client : RelayClient} {st st' : State Entry} {d : Delivery}
  {l : List Delivery} {expected : Int} {polls : List Poll} {entries : List (Delivery × Entry)}

def entriesOf (prims : Primitives) (unmarshal : GoString → Option Entry) (client : RelayClient)
    (l : List Delivery) : List (Delivery × Entry) :=
  l.filterMap fun d => (entryOf prims unmarshal client d).map (d, ·)

theorem named_eq (l : List Delivery) : named prims unmarshal senderID client l =
    (entriesOf prims unmarshal client l).map fun e => senderID e.2 := by
  unfold named entriesOf
  rw [List.map_filterMap]
  congr 1
  funext d
  rw [Option.map_map]
  rfl

theorem entryOf_congr {client' : RelayClient} (h : client'.encryptionKey = client.encryptionKey)
    (d : Delivery) : entryOf prims unmarshal client' d = entryOf prims unmarshal client d := by
  unfold entryOf
  rw [verifyBody_congr h]

theorem takeMessage_ok (h : takeMessage prims unmarshal senderID st d = .ok st') :
    ∃ entry, entryOf prims unmarshal st.client d = some entry ∧
      st'.client.encryptionKey = st.client.encryptionKey ∧
      (senderID entry ∈ st.seen ∧ st'.seen = st.seen ∧ st'.collected = st.collected ∨
        senderID entry ∉ st.seen ∧ st'.seen = senderID entry :: st.seen ∧
          st'.collected = st.collected ++ [(d, entry)]) := by
  unfold takeMessage at h
  rcases decryptAndVerify_cases prims st.client d.message with
    ⟨e, hcall⟩ | ⟨body, client', hcall, hverify, hkey, -⟩
  · rw [hcall] at h
    nomatch h
  · rw [hcall] at h
    simp only at h
    cases hentry : unmarshal body with
    | none =>
      rw [hentry] at h
      nomatch h
    | some entry =>
      rw [hentry] at h
      refine ⟨entry, ?_, ?_⟩
      · unfold entryOf
        rw [hverify]
        exact hentry
      · simp only at h
        split at h
        · next hold =>
          obtain rfl := Except.ok.inj h
          exact ⟨hkey, .inl ⟨hold, rfl, rfl⟩⟩
        · next hnew =>
          obtain rfl := Except.ok.inj h
          exact ⟨hkey, .inr ⟨hnew, rfl, rfl⟩⟩

/-- The loop has gone through the messages `l`. -/
structure Tracks (prims : Primitives) (unmarshal : GoString → Option Entry)
    (senderID : Entry → UInt16) (client : RelayClient) (l : List Delivery) (st : State Entry) :
    Prop where
  key : st.client.encryptionKey = client.encryptionKey
  seen : ∀ id, id ∈ st.seen ↔ id ∈ named prims unmarshal senderID client l
  collected : st.collected = firsts (fun e => senderID e.2) (entriesOf prims unmarshal client l)

theorem tracks_nil : Tracks prims unmarshal senderID client [] ⟨client, [], []⟩ :=
  ⟨rfl, fun _ => Iff.rfl, rfl⟩

theorem Tracks.takeMessage (ht : Tracks prims unmarshal senderID client l st)
    (h : takeMessage prims unmarshal senderID st d = .ok st') :
    Tracks prims unmarshal senderID client (l ++ [d]) st' := by
  obtain ⟨entry, hentry, hkey, hcases⟩ := takeMessage_ok h
  rw [entryOf_congr ht.key] at hentry
  have hentries : entriesOf prims unmarshal client (l ++ [d]) =
      entriesOf prims unmarshal client l ++ [(d, entry)] := by
    simp [entriesOf, hentry]
  have hnamed : named prims unmarshal senderID client (l ++ [d]) =
      named prims unmarshal senderID client l ++ [senderID entry] := by
    rw [named_eq, hentries, List.map_append, ← named_eq]
    rfl
  have hseen := ht.seen (senderID entry)
  rw [named_eq, ← mem_map_firsts, ← ht.collected] at hseen
  refine ⟨hkey.trans ht.key, ?_, ?_⟩
  · intro id
    rw [hnamed, List.mem_append, List.mem_singleton, ← ht.seen id]
    rcases hcases with ⟨hold, hsame, -⟩ | ⟨-, hadd, -⟩
    · rw [hsame, iff_self_or]
      rintro rfl
      exact hold
    · rw [hadd, List.mem_cons, or_comm]
  · rw [hentries, firsts_concat, ← ht.collected, keep]
    rcases hcases with ⟨hold, -, hsame⟩ | ⟨hnew, -, hadd⟩
    · rw [if_pos (hseen.mp hold), hsame]
    · rw [if_neg fun hmem => hnew (hseen.mpr hmem), hadd]

theorem Tracks.foldlM {more : List Delivery} (ht : Tracks prims unmarshal senderID client l st)
    (h : more.foldlM (Collect.takeMessage prims unmarshal senderID) st = .ok st') :
    Tracks prims unmarshal senderID client (l ++ more) st' := by
  induction more generalizing l st with
  | nil =>
    obtain rfl := Except.ok.inj h
    rwa [List.append_nil]
  | cons d more ih =>
    rw [List.foldlM_cons] at h
    obtain ⟨st₁, hd, h⟩ := bind_eq_ok.mp h
    rw [List.append_cons]
    exact ih (ht.takeMessage hd) h

theorem Tracks.length (ht : Tracks prims unmarshal senderID client l st) :
    st.collected.length = (named prims unmarshal senderID client l).dedup.length := by
  rw [ht.collected, length_firsts, named_eq]

theorem Tracks.collect (ht : Tracks prims unmarshal senderID client l st)
    (h : collect prims unmarshal senderID expected st polls = some (.ok entries)) :
    ∃ read, read <+: polls ∧
      entries = firsts (fun e => senderID e.2)
        (entriesOf prims unmarshal client (l ++ read.flatMap Poll.deliveries)) ∧
      expected ≤ entries.length ∧
      ∀ earlier, earlier <+: read → earlier ≠ read →
        ((named prims unmarshal senderID client
          (l ++ earlier.flatMap Poll.deliveries)).dedup.length : Int) < expected := by
  induction polls generalizing l st with
  | nil =>
    unfold Collect.collect at h
    split at h
    · nomatch h
    · next henough =>
      obtain rfl := Except.ok.inj (Option.some.inj h)
      refine ⟨[], List.prefix_rfl, ?_, by omega, ?_⟩
      · rw [List.flatMap_nil, List.append_nil, ht.collected]
      · intro earlier hprefix hne
        exact absurd (List.prefix_nil.mp hprefix) hne
  | cons poll rest ih =>
    unfold Collect.collect at h
    split at h
    · next hfewer =>
      cases poll with
      | cancelled => nomatch h
      | failed => nomatch h
      | messages more =>
        simp only at h
        cases hfold : more.foldlM (Collect.takeMessage prims unmarshal senderID) st with
        | error e =>
          rw [hfold] at h
          nomatch h
        | ok st₁ =>
          rw [hfold] at h
          obtain ⟨read, hread, hentries, henough, hfirst⟩ := ih (ht.foldlM hfold) h
          refine ⟨.messages more :: read, List.cons_prefix_cons.mpr ⟨rfl, hread⟩, ?_, henough, ?_⟩
          · rw [hentries, List.flatMap_cons, ← List.append_assoc]
            rfl
          · intro earlier hprefix hne
            cases earlier with
            | nil =>
              rw [List.flatMap_nil, List.append_nil, ← ht.length]
              exact hfewer
            | cons poll earlier =>
              obtain ⟨rfl, hrest⟩ := List.cons_prefix_cons.mp hprefix
              rw [List.flatMap_cons, ← List.append_assoc]
              exact hfirst earlier hrest fun heq => hne (heq ▸ rfl)
    · next henough =>
      obtain rfl := Except.ok.inj (Option.some.inj h)
      refine ⟨[], List.nil_prefix, ?_, by omega, ?_⟩
      · rw [List.flatMap_nil, List.append_nil, ht.collected]
      · intro earlier hprefix hne
        exact absurd (List.prefix_nil.mp hprefix) hne

theorem entriesOf_eq_append {before after : List (Delivery × Entry)} {e : Delivery × Entry}
    (h : entriesOf prims unmarshal client l = before ++ e :: after) :
    ∃ l₁ l₂, l = l₁ ++ e.1 :: l₂ ∧ entryOf prims unmarshal client e.1 = some e.2 ∧
      entriesOf prims unmarshal client l₁ = before := by
  obtain ⟨l₁, l₂, rfl, hbefore, hrest⟩ := List.filterMap_eq_append_iff.mp h
  obtain ⟨l₃, d, l₄, rfl, hnone, hd, -⟩ := List.filterMap_eq_cons_iff.mp hrest
  obtain ⟨entry, hentry, rfl⟩ := Option.map_eq_some_iff.mp hd
  refine ⟨l₁ ++ l₃, l₄, ?_, hentry, ?_⟩
  · rw [List.append_assoc]
  · unfold entriesOf
    rw [List.filterMap_append, hbefore, List.filterMap_eq_nil_iff.mpr hnone, List.append_nil]

theorem fromNamed_firsts (allParties : List GoString) (l : List Delivery) :
    FromNamed senderID allParties
        (firsts (fun e => senderID e.2) (entriesOf prims unmarshal client l)) ↔
      FirstFromNamed prims unmarshal senderID client allParties l := by
  constructor
  · rintro h before d after entry rfl hentry hfirst
    apply h (d, entry)
    rw [mem_firsts_iff]
    refine ⟨entriesOf prims unmarshal client before, entriesOf prims unmarshal client after, ?_, ?_⟩
    · simp [entriesOf, hentry]
    · rwa [← named_eq]
  · intro h e he
    obtain ⟨before, after, heq, hfirst⟩ := mem_firsts_iff.mp he
    obtain ⟨l₁, l₂, hl, hentry, rfl⟩ := entriesOf_eq_append heq
    apply h l₁ e.1 l₂ e.2 hl hentry
    rwa [named_eq]

theorem Read.unique {read read' : List Poll}
    (h : Read prims unmarshal senderID client expected polls read)
    (h' : Read prims unmarshal senderID client expected polls read') : read = read' := by
  by_contra hne
  rcases List.prefix_or_prefix_of_prefix h.initial h'.initial with hle | hle
  · have hfewer := h'.first read hle hne
    have henough := h.enough
    omega
  · have hfewer := h.first read' hle fun heq => hne heq.symm
    have henough := h'.enough
    omega

theorem collect_fromNamed_iff (allParties : List GoString)
    (h : collect prims unmarshal senderID expected ⟨client, [], []⟩ polls = some (.ok entries)) :
    FromNamed senderID allParties entries ↔
      ∀ read, Read prims unmarshal senderID client expected polls read →
        FirstFromNamed prims unmarshal senderID client allParties
          (read.flatMap Poll.deliveries) := by
  obtain ⟨read, hread, rfl, henough, hfirst⟩ := tracks_nil.collect h
  simp only [List.nil_append] at henough hfirst ⊢
  rw [length_firsts, ← named_eq] at henough
  have hthis : Read prims unmarshal senderID client expected polls read := ⟨hread, henough, hfirst⟩
  rw [fromNamed_firsts]
  constructor
  · intro hnamed read' hread'
    rwa [← hthis.unique hread']
  · exact fun hall => hall read hthis

end Keeps

theorem firstFromNamed_of_own {prims : Primitives} {Entry : Type}
    {unmarshal : GoString → Option Entry} {senderID : Entry → UInt16} {client : RelayClient}
    {allParties : List GoString} {read polls : List Poll} (hread : read <+: polls)
    (h : ∀ d ∈ polls.flatMap Poll.deliveries, ∀ entry, entryOf prims unmarshal client d = some entry →
      buildPartyIdentifierMap allParties (senderID entry) = some d.sender) :
    FirstFromNamed prims unmarshal senderID client allParties (read.flatMap Poll.deliveries) := by
  intro before d after entry heq hentry _
  apply h d _ entry hentry
  obtain ⟨rest, rfl⟩ := hread
  rw [List.flatMap_append, heq]
  simp

/-- Each of the three returns entries of the named parties only, if and only if of the messages
that it reads the first of each id is from the party with that id. -/
theorem collected_named_iff (prims : Primitives) (json : Json) (client : RelayClient)
    (allParties : List GoString) (expected : Int) (polls : List Poll) :
    (∀ entries, CollectMessages prims json client expected polls = some (.ok entries) →
      (FromNamed RoundMessage.senderID allParties entries ↔ ∀ read,
        Read prims json.roundMessage RoundMessage.senderID client expected polls read →
        FirstFromNamed prims json.roundMessage RoundMessage.senderID client allParties
          (read.flatMap Poll.deliveries))) ∧
    (∀ entries, collectCommitments prims json client expected polls = some (.ok entries) →
      (FromNamed CommitmentMessage.senderID allParties entries ↔ ∀ read,
        Read prims json.commitmentMessage CommitmentMessage.senderID client expected polls read →
        FirstFromNamed prims json.commitmentMessage CommitmentMessage.senderID client allParties
          (read.flatMap Poll.deliveries))) ∧
    (∀ entries, collectSignShares prims json client expected polls = some (.ok entries) →
      (FromNamed SignShareMessage.senderID allParties entries ↔ ∀ read,
        Read prims json.signShareMessage SignShareMessage.senderID client expected polls read →
        FirstFromNamed prims json.signShareMessage SignShareMessage.senderID client allParties
          (read.flatMap Poll.deliveries))) := by
  refine ⟨?_, ?_, ?_⟩
  · intro entries h
    exact collect_fromNamed_iff allParties h
  · intro entries h
    exact collect_fromNamed_iff allParties h
  · intro entries h
    exact collect_fromNamed_iff allParties h

/-! ## Messages for one recipient -/

def roundText : GoString := ascii "\x7b\"sender_id\":1,\"data\":\"\"\x7d"
def laterRoundText : GoString := ascii "\x7b\"sender_id\":3,\"data\":\"\"\x7d"
def commitmentText : GoString := ascii "\x7b\"sender_id\":1,\"commitment\":\"\"\x7d"
def laterCommitmentText : GoString := ascii "\x7b\"sender_id\":3,\"commitment\":\"\"\x7d"
def shareText : GoString := ascii "\x7b\"sender_id\":1,\"share\":\"\"\x7d"
def laterShareText : GoString := ascii "\x7b\"sender_id\":3,\"share\":\"\"\x7d"

/-- What `json.Unmarshal` makes of these texts. -/
def sampleJson : Json where
  roundMessage body :=
    if body = roundText then some ⟨1, [], 0⟩
    else if body = laterRoundText then some ⟨3, [], 0⟩
    else none
  commitmentMessage body :=
    if body = commitmentText then some ⟨1, []⟩
    else if body = laterCommitmentText then some ⟨3, []⟩
    else none
  signShareMessage body :=
    if body = shareText then some ⟨1, []⟩
    else if body = laterShareText then some ⟨3, []⟩
    else none

def sampleParties : List GoString := [ascii "a", ascii "b", ascii "c"]

theorem sampleParties_one : buildPartyIdentifierMap sampleParties 1 = some (ascii "a") := by
  decide +kernel

theorem sampleParties_three : buildPartyIdentifierMap sampleParties 3 = some (ascii "c") := by
  decide +kernel

/-- A client without a key. -/
def plainClient : RelayClient := { encryptionKey := none }

/-- A message without hash, for "b". -/
def sampleDelivery (sender body : GoString) : Delivery :=
  ⟨sender, ⟨ascii "s", sender, [ascii "b"], body, [], 1⟩⟩

/-- A message of "c" takes the place of "a". -/
theorem slot_taken : ∃ entries, CollectMessages samplePrims sampleJson plainClient 1
      [.messages [sampleDelivery (ascii "c") roundText]] = some (.ok entries) ∧
    ¬ FromNamed RoundMessage.senderID sampleParties entries := by
  refine ⟨_, rfl, fun h => ?_⟩
  exact absurd (h _ (List.mem_singleton_self _)) (by decide +kernel)

/-- One poll with the messages of "a" and "c". -/
def samplePolls (body later : GoString) : List Poll :=
  [.messages [sampleDelivery (ascii "a") body, sampleDelivery (ascii "c") later]]

theorem collected_named_sample :
    (∃ entries, CollectMessages samplePrims sampleJson plainClient 2
      (samplePolls roundText laterRoundText) = some (.ok entries) ∧ entries.length = 2 ∧
        FromNamed RoundMessage.senderID sampleParties entries) ∧
    (∃ entries, collectCommitments samplePrims sampleJson plainClient 2
      (samplePolls commitmentText laterCommitmentText) = some (.ok entries) ∧ entries.length = 2 ∧
        FromNamed CommitmentMessage.senderID sampleParties entries) ∧
    (∃ entries, collectSignShares samplePrims sampleJson plainClient 2
      (samplePolls shareText laterShareText) = some (.ok entries) ∧ entries.length = 2 ∧
        FromNamed SignShareMessage.senderID sampleParties entries) := by
  have hiff := collected_named_iff samplePrims sampleJson plainClient sampleParties 2
  refine ⟨⟨_, rfl, rfl, ((hiff (samplePolls roundText laterRoundText)).1 _ rfl).mpr ?_⟩,
    ⟨_, rfl, rfl, ((hiff (samplePolls commitmentText laterCommitmentText)).2.1 _ rfl).mpr ?_⟩,
    ⟨_, rfl, rfl, ((hiff (samplePolls shareText laterShareText)).2.2 _ rfl).mpr ?_⟩⟩
  all_goals
    intro read hread
    apply firstFromNamed_of_own hread.initial
    intro d hd entry hentry
    rcases List.mem_cons.mp hd with rfl | hd
    · obtain rfl := Option.some.inj hentry
      exact sampleParties_one
    · obtain rfl := List.mem_singleton.mp hd
      obtain rfl := Option.some.inj hentry
      exact sampleParties_three

/-! ## Polls that return everything so far -/

section Repeats

variable (prims : Primitives) {Entry : Type} (unmarshal : GoString → Option Entry)
  (senderID : Entry → UInt16) (client : RelayClient)

/-- The envelope under the key of the clients, if they have one, as the relay has it. -/
def posted (s : Sent) : Message :=
  (sendMessage prims { encryptionKey := client.encryptionKey, seqCounter := s.sequenceNo - 1 }
    ⟨s.sessionID, s.fromParty, s.toParties, s.body, [], 0⟩ s.salt s.nonce).1.overJson

def delivery (p : Sent × Entry) : Delivery := ⟨p.1.fromParty, posted prims client p.1⟩

/-- One message of each of the other parties, in the order of arrival. Each has its sender's id
and a number that the client has not had from it, and JSON leaves the names alone. -/
structure Honest (allParties others : List GoString) (session : GoString)
    (posts : List (Sent × Entry)) : Prop where
  nodup : others.Nodup
  senders : (posts.map fun p => p.1.fromParty).Perm others
  utf8 : ∀ p ∈ posts, ValidUtf8 p.1.fromParty
  session : ∀ p ∈ posts, p.1.sessionID = session
  body : ∀ p ∈ posts, unmarshal p.1.body = some p.2
  own : ∀ p ∈ posts, buildPartyIdentifierMap allParties (senderID p.2) = some p.1.fromParty
  fresh : ∀ p ∈ posts, seqKey (posted prims client p.1) ∉ client.seenSeqs

/-- How many of the `n` messages each poll returns: never fewer than before, and all in the end. -/
structure Schedule (n : Nat) (counts : List Nat) : Prop where
  grows : counts.Pairwise (· ≤ ·)
  le : ∀ k ∈ counts, k ≤ n
  all : n ∈ counts

def pollsOf (posts : List (Sent × Entry)) (counts : List Nat) : List Poll :=
  counts.map fun k => .messages ((posts.take k).map (delivery prims client))

/-- There is one message of each expected sender. -/
def ReturnsAll (others : List GoString)
    (result : Option (Except CollectError (List (Delivery × Entry)))) : Prop :=
  ∃ entries, result = some (.ok entries) ∧ (entries.map fun e => e.1.sender).Perm others

variable {prims unmarshal senderID client} {st : State Entry} {posts : List (Sent × Entry)}
  {p : Sent × Entry} {allParties others : List GoString} {session : GoString} {counts : List Nat}

theorem posted_sequenceNo (s : Sent) : (posted prims client s).sequenceNo = s.sequenceNo :=
  UInt64.sub_add_cancel _ _

theorem verifyBody_posted (doc : prims.Documented) {c : RelayClient}
    (hkey : c.encryptionKey = client.encryptionKey) {s : Sent} (hutf8 : ValidUtf8 s.fromParty) :
    c.verifyBody prims (posted prims client s) = .ok s.body :=
  (verifyBody_overJson hutf8).trans
    (verifyBody_sendMessage doc hkey _ s.salt_length s.nonce_length)

theorem takeMessage_fresh (doc : prims.Documented)
    (hkey : st.client.encryptionKey = client.encryptionKey) (hutf8 : ValidUtf8 p.1.fromParty)
    (hbody : unmarshal p.1.body = some p.2) (hnew : senderID p.2 ∉ st.seen)
    (hfresh : seqKey (posted prims client p.1) ∉ st.client.seenSeqs) :
    ∃ st', takeMessage prims unmarshal senderID st (delivery prims client p) = .ok st' ∧
      st'.client.encryptionKey = client.encryptionKey ∧
      (∀ k, k ∈ st'.client.seenSeqs ↔
        k = seqKey (posted prims client p.1) ∨ k ∈ st.client.seenSeqs) ∧
      st'.seen = senderID p.2 :: st.seen ∧
      st'.collected = st.collected ++ [(delivery prims client p, p.2)] := by
  obtain ⟨c', hcall, hkey', -, hseen⟩ :=
    decryptAndVerify_fresh (verifyBody_posted doc hkey hutf8) hfresh
  refine ⟨⟨c', senderID p.2 :: st.seen, st.collected ++ [(delivery prims client p, p.2)]⟩, ?_,
    hkey'.trans hkey, ?_, rfl, rfl⟩
  · unfold takeMessage delivery
    simp only [hcall, hbody, if_neg hnew]
  · intro k
    rw [hseen, posted_sequenceNo]
    simp [p.1.numbered]

theorem takeMessage_replayed (doc : prims.Documented)
    (hkey : st.client.encryptionKey = client.encryptionKey) (hutf8 : ValidUtf8 p.1.fromParty)
    (hold : seqKey (posted prims client p.1) ∈ st.client.seenSeqs) :
    takeMessage prims unmarshal senderID st (delivery prims client p) =
      .error (.decrypt .replayDetected) := by
  have hpos : 0 < (posted prims client p.1).sequenceNo := by
    rw [posted_sequenceNo]
    exact p.1.numbered
  have hcall := decryptAndVerify_replayed (verifyBody_posted doc hkey hutf8) hpos hold
  unfold takeMessage delivery
  simp only [hcall]

theorem foldlM_fresh (doc : prims.Documented)
    (hkey : st.client.encryptionKey = client.encryptionKey)
    (hutf8 : ∀ p ∈ posts, ValidUtf8 p.1.fromParty)
    (hbody : ∀ p ∈ posts, unmarshal p.1.body = some p.2)
    (hids : (posts.map fun p => senderID p.2).Nodup)
    (hkeys : (posts.map fun p => seqKey (posted prims client p.1)).Nodup)
    (hnew : ∀ p ∈ posts, senderID p.2 ∉ st.seen)
    (hfresh : ∀ p ∈ posts, seqKey (posted prims client p.1) ∉ st.client.seenSeqs) :
    ∃ st', (posts.map (delivery prims client)).foldlM (takeMessage prims unmarshal senderID) st =
        .ok st' ∧ st'.client.encryptionKey = client.encryptionKey ∧
      (∀ p ∈ posts, seqKey (posted prims client p.1) ∈ st'.client.seenSeqs) ∧
      (∀ k ∈ st.client.seenSeqs, k ∈ st'.client.seenSeqs) ∧
      st'.collected = st.collected ++ posts.map fun p => (delivery prims client p, p.2) := by
  induction posts generalizing st with
  | nil => exact ⟨st, rfl, hkey, nofun, fun k hk => hk, (List.append_nil _).symm⟩
  | cons p posts ih =>
    rw [List.forall_mem_cons] at hutf8 hbody hnew hfresh
    rw [List.map_cons, List.nodup_cons] at hids hkeys
    obtain ⟨st₁, hstep, hkey₁, hseen₁, hids₁, hcollected₁⟩ :=
      takeMessage_fresh doc hkey hutf8.1 hbody.1 hnew.1 hfresh.1
    have hnew₁ : ∀ q ∈ posts, senderID q.2 ∉ st₁.seen := by
      intro q hq
      rw [hids₁, List.mem_cons, not_or]
      exact ⟨fun heq => hids.1 (heq ▸ List.mem_map_of_mem hq), hnew.2 q hq⟩
    have hfresh₁ : ∀ q ∈ posts, seqKey (posted prims client q.1) ∉ st₁.client.seenSeqs := by
      intro q hq
      rw [hseen₁, not_or]
      exact ⟨fun heq => hkeys.1 (heq ▸ List.mem_map_of_mem hq), hfresh.2 q hq⟩
    obtain ⟨st', hfold, hkey', hall, hmono, hcollected⟩ :=
      ih hkey₁ hutf8.2 hbody.2 hids.2 hkeys.2 hnew₁ hfresh₁
    refine ⟨st', ?_, hkey', ?_, ?_, ?_⟩
    · rw [List.map_cons, List.foldlM_cons, hstep]
      exact hfold
    · rw [List.forall_mem_cons]
      exact ⟨hmono _ ((hseen₁ _).mpr (.inl rfl)), hall⟩
    · exact fun k hk => hmono k ((hseen₁ k).mpr (.inr hk))
    · rw [hcollected, hcollected₁, List.map_cons, List.append_assoc]
      rfl

theorem Honest.nodup_ids (h : Honest prims unmarshal senderID client allParties others session posts) :
    (posts.map fun p => senderID p.2).Nodup := by
  have hsenders := h.senders.nodup_iff.mpr h.nodup
  unfold List.Nodup at hsenders ⊢
  rw [List.pairwise_map] at hsenders ⊢
  apply hsenders.imp_of_mem
  intro p q hp hq hne heq
  have hown := h.own p hp
  rw [heq, h.own q hq] at hown
  exact hne (Option.some.inj hown).symm

theorem Honest.nodup_keys (h : Honest prims unmarshal senderID client allParties others session posts) :
    (posts.map fun p => seqKey (posted prims client p.1)).Nodup := by
  have hsenders := h.senders.nodup_iff.mpr h.nodup
  unfold List.Nodup at hsenders ⊢
  rw [List.pairwise_map] at hsenders ⊢
  apply hsenders.imp_of_mem
  intro p q hp hq hne heq
  have hname : jsonString p.1.sessionID ++ 58 :: jsonString p.1.fromParty =
      jsonString q.1.sessionID ++ 58 :: jsonString q.1.fromParty := congrArg Prod.fst heq
  rw [h.session p hp, h.session q hq, show jsonString p.1.fromParty = _ from h.utf8 p hp,
    show jsonString q.1.fromParty = _ from h.utf8 q hq] at hname
  exact hne (List.cons.inj (List.append_cancel_left hname)).2

theorem collect_enough {expected : Int} {polls : List Poll}
    (h : ¬ (st.collected.length : Int) < expected) :
    collect prims unmarshal senderID expected st polls = some (.ok st.collected) := by
  unfold collect
  cases polls with
  | nil => exact if_neg h
  | cons poll rest => exact if_neg h

/-- The first poll with a message in it decides. -/
theorem collect_counts (doc : prims.Documented)
    (h : Honest prims unmarshal senderID client allParties others session posts)
    (hsched : Schedule posts.length counts) (hpos : 0 < posts.length) :
    ReturnsAll others (collect prims unmarshal senderID posts.length ⟨client, [], []⟩
      (pollsOf prims client posts counts)) ↔ ∀ k ∈ counts, k = 0 ∨ k = posts.length := by
  induction counts with
  | nil => nomatch hsched.all
  | cons k counts ih =>
    obtain ⟨hgrows, hle, hall⟩ := hsched
    rw [List.pairwise_cons] at hgrows
    rw [List.forall_mem_cons] at hle ⊢
    have hfewer : ((([] : List (Delivery × Entry)).length : Nat) : Int) < posts.length := by
      simpa using hpos
    unfold pollsOf collect
    rw [List.map_cons]
    simp only [if_pos hfewer]
    have hsub : List.Sublist (posts.take k) posts := List.take_sublist k posts
    have hbody : ∀ p ∈ posts.take k, unmarshal p.1.body = some p.2 :=
      fun p hp => h.body p (hsub.subset hp)
    have hnew : ∀ p ∈ posts.take k, senderID p.2 ∉ (⟨client, [], []⟩ : State Entry).seen :=
      fun _ _ => List.not_mem_nil
    have hfresh : ∀ p ∈ posts.take k, seqKey (posted prims client p.1) ∉
        (⟨client, [], []⟩ : State Entry).client.seenSeqs :=
      fun p hp => h.fresh p (hsub.subset hp)
    have hutf8 : ∀ p ∈ posts.take k, ValidUtf8 p.1.fromParty :=
      fun p hp => h.utf8 p (hsub.subset hp)
    obtain ⟨st', hfold, hkey, hseen, -, hcollected⟩ := foldlM_fresh doc rfl hutf8 hbody
      (h.nodup_ids.sublist (hsub.map _)) (h.nodup_keys.sublist (hsub.map _)) hnew hfresh
    rw [hfold]
    simp only
    rcases Nat.eq_zero_or_pos k with rfl | hk
    · -- nothing has come yet
      obtain rfl : (⟨client, [], []⟩ : State Entry) = st' := Except.ok.inj hfold
      have hrest : posts.length ∈ counts := (List.mem_cons.mp hall).resolve_left (by omega)
      rw [and_iff_right (.inl rfl)]
      exact ih ⟨hgrows.2, hle.2, hrest⟩
    · have hlen : st'.collected.length = k := by
        rw [hcollected, List.nil_append, List.length_map, List.length_take]
        omega
      by_cases hfull : k = posts.length
      · rw [collect_enough (by omega)]
        constructor
        · intro _
          refine ⟨.inr hfull, fun k' hk' => .inr ?_⟩
          have hge := hgrows.1 k' hk'
          have hle' := hle.2 k' hk'
          omega
        · intro _
          refine ⟨_, rfl, ?_⟩
          rw [hcollected, hfull, List.take_length, List.nil_append, List.map_map]
          exact h.senders
      · -- the next poll starts with a message that was read
        have hrest : posts.length ∈ counts := (List.mem_cons.mp hall).resolve_left fun heq =>
          hfull heq.symm
        obtain ⟨k', counts, rfl⟩ := List.exists_cons_of_ne_nil (List.ne_nil_of_mem hrest)
        obtain ⟨p, posts, rfl⟩ := List.exists_cons_of_length_pos hpos
        have hagain := hgrows.1 k' List.mem_cons_self
        obtain ⟨k, rfl⟩ := Nat.exists_eq_succ_of_ne_zero hk.ne'
        obtain ⟨k', rfl⟩ := Nat.exists_eq_succ_of_ne_zero (by omega : k' ≠ 0)
        have hreplayed : takeMessage prims unmarshal senderID st' (delivery prims client p) =
            .error (.decrypt .replayDetected) :=
          takeMessage_replayed doc hkey (h.utf8 p List.mem_cons_self) (hseen p List.mem_cons_self)
        have hfewer' : (st'.collected.length : Int) < (p :: posts).length := by omega
        unfold collect
        rw [List.map_cons]
        simp only [if_pos hfewer', List.take_succ_cons, List.map_cons, List.foldlM_cons, hreplayed]
        apply iff_of_false
        · rintro ⟨entries, heq, -⟩
          have herror : some (Except.error (CollectError.decrypt .replayDetected)) =
              some (Except.ok entries) := heq
          nomatch herror
        · rintro ⟨hno, -⟩
          omega

theorem collect_counts_iff (doc : prims.Documented)
    (h : Honest prims unmarshal senderID client allParties others session posts)
    (hsched : Schedule posts.length counts) :
    ReturnsAll others (collect prims unmarshal senderID posts.length ⟨client, [], []⟩
      (pollsOf prims client posts counts)) ↔ ∀ k ∈ counts, k = 0 ∨ k = posts.length := by
  rcases Nat.eq_zero_or_pos posts.length with hzero | hpos
  · rw [collect_enough (by simp [hzero])]
    obtain rfl := List.length_eq_zero_iff.mp hzero
    apply iff_of_true
    · exact ⟨[], rfl, h.senders⟩
    · exact fun k hk => .inr (Nat.le_zero.mp (hsched.le k hk))
  · exact collect_counts doc h hsched hpos

end Repeats

/-- A relay that returns everything so far makes each of the three fail, unless no poll returns a
part of the messages only. -/
theorem repeats_accepted_iff {prims : Primitives} (doc : prims.Documented) (json : Json)
    (client : RelayClient) (allParties others : List GoString) (session : GoString)
    (counts : List Nat) :
    (∀ posts, Honest prims json.roundMessage RoundMessage.senderID client allParties others session
        posts → Schedule posts.length counts →
      (ReturnsAll others
        (CollectMessages prims json client posts.length (pollsOf prims client posts counts)) ↔
        ∀ k ∈ counts, k = 0 ∨ k = posts.length)) ∧
    (∀ posts, Honest prims json.commitmentMessage CommitmentMessage.senderID client allParties others
        session posts → Schedule posts.length counts →
      (ReturnsAll others
        (collectCommitments prims json client posts.length (pollsOf prims client posts counts)) ↔
        ∀ k ∈ counts, k = 0 ∨ k = posts.length)) ∧
    (∀ posts, Honest prims json.signShareMessage SignShareMessage.senderID client allParties others
        session posts → Schedule posts.length counts →
      (ReturnsAll others
        (collectSignShares prims json client posts.length (pollsOf prims client posts counts)) ↔
        ∀ k ∈ counts, k = 0 ∨ k = posts.length)) := by
  refine ⟨?_, ?_, ?_⟩
  · intro posts h hsched
    exact collect_counts_iff doc h hsched
  · intro posts h hsched
    exact collect_counts_iff doc h hsched
  · intro posts h hsched
    exact collect_counts_iff doc h hsched

/-- The messages of "a" and "c" in session "s", their first. -/
def samplePosts {Entry : Type} (body later : GoString) (entry laterEntry : Entry) :
    List (Sent × Entry) :=
  [(sentAs (ascii "s") (ascii "a") body 1 numbered_one, entry),
    (sentAs (ascii "s") (ascii "c") later 1 numbered_one, laterEntry)]

theorem honest_samplePosts {Entry : Type} {unmarshal : GoString → Option Entry}
    {senderID : Entry → UInt16} {body later : GoString} {entry laterEntry : Entry}
    (hbody : unmarshal body = some entry) (hlater : unmarshal later = some laterEntry)
    (hid : senderID entry = 1) (hlaterId : senderID laterEntry = 3) :
    Honest samplePrims unmarshal senderID plainClient sampleParties [ascii "a", ascii "c"]
      (ascii "s") (samplePosts body later entry laterEntry) := by
  refine ⟨by decide, .refl _, ?_, ?_, ?_, ?_, ?_⟩
  all_goals
    unfold samplePosts
    rw [List.forall_mem_cons, List.forall_mem_singleton]
  · exact ⟨show ValidUtf8 (ascii "a") by decide, show ValidUtf8 (ascii "c") by decide⟩
  · exact ⟨rfl, rfl⟩
  · exact ⟨hbody, hlater⟩
  · rw [hid, hlaterId]
    exact ⟨sampleParties_one, sampleParties_three⟩
  · exact ⟨List.not_mem_nil, List.not_mem_nil⟩

theorem repeats_accepted_sample :
    ReturnsAll [ascii "a", ascii "c"] (CollectMessages samplePrims sampleJson plainClient 2
      (pollsOf samplePrims plainClient
        (samplePosts roundText laterRoundText (⟨1, [], 0⟩ : RoundMessage) ⟨3, [], 0⟩) [0, 2])) ∧
    ReturnsAll [ascii "a", ascii "c"] (collectCommitments samplePrims sampleJson plainClient 2
      (pollsOf samplePrims plainClient
        (samplePosts commitmentText laterCommitmentText (⟨1, []⟩ : CommitmentMessage) ⟨3, []⟩)
        [0, 2])) ∧
    ReturnsAll [ascii "a", ascii "c"] (collectSignShares samplePrims sampleJson plainClient 2
      (pollsOf samplePrims plainClient
        (samplePosts shareText laterShareText (⟨1, []⟩ : SignShareMessage) ⟨3, []⟩) [0, 2])) := by
  have hiff := repeats_accepted_iff samplePrims_documented sampleJson plainClient sampleParties
    [ascii "a", ascii "c"] (ascii "s") [0, 2]
  have hsched : Schedule 2 [0, 2] := ⟨by decide, by decide, by decide⟩
  refine ⟨?_, ?_, ?_⟩
  · exact (hiff.1 _ (honest_samplePosts rfl rfl rfl rfl) hsched).mpr (by decide)
  · exact (hiff.2.1 _ (honest_samplePosts rfl rfl rfl rfl) hsched).mpr (by decide)
  · exact (hiff.2.2 _ (honest_samplePosts rfl rfl rfl rfl) hsched).mpr (by decide)

/-- The messages of "a" and "c", of which the first poll returns one. -/
def roundPosts : List (Sent × RoundMessage) :=
  samplePosts roundText laterRoundText ⟨1, [], 0⟩ ⟨3, [], 0⟩

theorem second_poll_fails :
    Honest samplePrims sampleJson.roundMessage RoundMessage.senderID plainClient sampleParties
      [ascii "a", ascii "c"] (ascii "s") roundPosts ∧ Schedule roundPosts.length [1, 2] ∧
    ¬ ReturnsAll [ascii "a", ascii "c"] (CollectMessages samplePrims sampleJson plainClient
      roundPosts.length (pollsOf samplePrims plainClient roundPosts [1, 2])) := by
  have h : Honest samplePrims sampleJson.roundMessage RoundMessage.senderID plainClient sampleParties
      [ascii "a", ascii "c"] (ascii "s") roundPosts := honest_samplePosts rfl rfl rfl rfl
  have hsched : Schedule roundPosts.length [1, 2] := ⟨by decide, by decide, by decide⟩
  refine ⟨h, hsched, ?_⟩
  unfold CollectMessages
  rw [collect_counts_iff samplePrims_documented h hsched]
  decide

end Collect
