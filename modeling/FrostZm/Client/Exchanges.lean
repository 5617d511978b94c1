import FrostZm.Client.SignRuns

/-!
# What honest parties hand each other

A relay that hands over nothing but what the parties have posted, in any order and as often as it
likes. If the parties post the right texts under names that JSON leaves alone, each of them reads
the right texts, and it fails on none of them unless it gets one twice.
-/

namespace Exchanges

open Relay Relay.RelayClient Collect Firsts
open Signing (gather gather_collected gather_key)

/-! ## The relay -/

/-- A message as it was handed to `SendMessage`, with the number that it got there. -/
structure Wire where
  messageID : GoString
  toParties : List GoString
  text : GoString
  sequenceNo : UInt64
deriving DecidableEq

/-- The parties of a ceremony by their ids, and what their clients have in common. -/
structure Group where
  ids : List UInt16
  name : UInt16 → GoString
  sessionID : GoString
  key : Option Bytes

/-- The delivery is what the client of `q` made of the message. -/
def Carries (prims : Primitives) (g : Group) (q : UInt16) (w : Wire) (d : Delivery) : Prop :=
  ∃ s : Sent, s.sessionID = g.sessionID ∧ s.fromParty = g.name q ∧ s.toParties = w.toParties ∧
    s.body = w.text ∧ s.sequenceNo = w.sequenceNo ∧
    d = ⟨g.name q, posted prims { encryptionKey := g.key } s⟩

/-- Two of the deliveries are one message of one party. -/
def HandedTwice (prims : Primitives) (g : Group) (posted : UInt16 → List Wire) (l : List Delivery) :
    Prop :=
  ∃ q ∈ g.ids, ∃ w ∈ posted q, ∃ before d between d' after,
    l = before ++ d :: (between ++ d' :: after) ∧ Carries prims g q w d ∧ Carries prims g q w d'

/-- Whatever a party is handed under an id was posted to it under that id. -/
def Relayed (prims : Primitives) (g : Group) (posted : UInt16 → List Wire)
    (polls : UInt16 → GoString → List Poll) : Prop :=
  ∀ p ∈ g.ids, ∀ messageID, ∀ d ∈ (polls p messageID).flatMap Poll.deliveries,
    ∃ q ∈ g.ids, ∃ w ∈ posted q, w.messageID = messageID ∧ g.name p ∈ w.toParties ∧
      Carries prims g q w d

/-- What `q` tells `p` under an id. -/
abbrev Said := GoString → UInt16 → UInt16 → Option GoString

/-- To each recipient the message says what it should, and its sender is none of them. -/
def Right (g : Group) (said : Said) (q : UInt16) (w : Wire) : Prop :=
  ∀ p ∈ g.ids, g.name p ∈ w.toParties → p ≠ q ∧ said w.messageID q p = some w.text

/-- The deliveries say what they should. -/
def Tells (prims : Primitives) (g : Group) (said : Said) (messageID : GoString) (p : UInt16)
    (l : List Delivery) : Prop :=
  ∀ d ∈ l, ∃ q ∈ g.ids, q ≠ p ∧ ∃ text, said messageID q p = some text ∧
    ∀ c : RelayClient, c.encryptionKey = g.key → c.verifyBody prims d.message = .ok text

theorem Relayed.tells {prims : Primitives} {g : Group} {posted : UInt16 → List Wire}
    {polls : UInt16 → GoString → List Poll} {said : Said} (doc : prims.Documented)
    (hutf8 : ∀ q ∈ g.ids, ValidUtf8 (g.name q)) (h : Relayed prims g posted polls) {p : UInt16}
    (hp : p ∈ g.ids) {messageID : GoString}
    (hright : ∀ q ∈ g.ids, ∀ w ∈ posted q, w.messageID = messageID → Right g said q w) :
    Tells prims g said messageID p ((polls p messageID).flatMap Poll.deliveries) := by
  intro d hd
  obtain ⟨q, hq, w, hw, rfl, hto, s, -, hfrom, -, hbody, -, rfl⟩ := h p hp messageID d hd
  obtain ⟨hne, hsaid⟩ := hright q hq w hw rfl p hp hto
  refine ⟨q, hq, hne.symm, w.text, hsaid, fun c hc => ?_⟩
  have hsender : ValidUtf8 s.fromParty := by
    rw [hfrom]
    exact hutf8 q hq
  rw [← hbody]
  exact verifyBody_posted doc hc hsender

/-- The message as the client of `q` sends it, with a salt and a nonce of zeros. A message without
a number cannot come from a client. -/
def Wire.sent (g : Group) (q : UInt16) (w : Wire) (hnumber : 0 < w.sequenceNo) : Sent where
  sessionID := g.sessionID
  fromParty := g.name q
  toParties := w.toParties
  body := w.text
  sequenceNo := w.sequenceNo
  salt := List.replicate relaySaltLen 0
  nonce := List.replicate gcmNonceSize 0
  numbered := hnumber
  salt_length := List.length_replicate
  nonce_length := List.length_replicate

def Wire.delivery (prims : Primitives) (g : Group) (q : UInt16) (w : Wire) : Option Delivery :=
  if hnumber : 0 < w.sequenceNo then
    some ⟨g.name q, posted prims { encryptionKey := g.key } (w.sent g q hnumber)⟩
  else none

/-- All that was posted to a party, in one poll. -/
def handedOver (prims : Primitives) (g : Group) (posts : UInt16 → List Wire) (p : UInt16)
    (messageID : GoString) : List Poll :=
  [.messages (g.ids.flatMap fun q =>
    ((posts q).filter fun w => w.messageID = messageID ∧ g.name p ∈ w.toParties).filterMap
      (Wire.delivery prims g q))]

theorem relayed_handedOver (prims : Primitives) (g : Group) (posts : UInt16 → List Wire) :
    Relayed prims g posts (handedOver prims g posts) := by
  intro p _ messageID d hd
  simp only [handedOver, List.flatMap_cons, List.flatMap_nil, List.append_nil, Poll.deliveries,
    List.mem_flatMap, List.mem_filterMap, List.mem_filter, decide_eq_true_eq] at hd
  obtain ⟨q, hq, w, ⟨hw, hid, hto⟩, hd⟩ := hd
  obtain ⟨hnumber, hd⟩ := Option.dite_none_right_eq_some.mp hd
  exact ⟨q, hq, w, hw, hid, hto, w.sent g q hnumber, rfl, rfl, rfl, rfl, rfl,
    (Option.some.inj hd).symm⟩

/-! ## Collecting -/

/-- The relay refuses to answer, or it hands over a message twice. -/
def RelayFault (repeated : Prop) (e : CollectError) : Prop :=
  e = .cancelled ∨ e = .getMessages ∨ e = .decrypt .replayDetected ∧ repeated

section Collecting

variable {prims : Primitives} {Entry : Type} {unmarshal : GoString → Option Entry}
  {senderID : Entry → UInt16} {client : RelayClient} {st st' : State Entry} {d : Delivery}
  {expected : Int} {polls : List Poll}

/-- The message opens, and its text can be read. -/
def Readable (prims : Primitives) (unmarshal : GoString → Option Entry) (client : RelayClient)
    (d : Delivery) : Prop :=
  ∃ text entry, client.verifyBody prims d.message = .ok text ∧ unmarshal text = some entry

theorem Readable.congr {client' : RelayClient} (h : client'.encryptionKey = client.encryptionKey)
    (hd : Readable prims unmarshal client d) : Readable prims unmarshal client' d := by
  obtain ⟨text, entry, hverify, hentry⟩ := hd
  exact ⟨text, entry, (verifyBody_congr h _).trans hverify, hentry⟩

theorem readable_of_entryOf {entry : Entry} (h : entryOf prims unmarshal client d = some entry) :
    Readable prims unmarshal client d := by
  unfold entryOf at h
  split at h
  · next text hverify => exact ⟨text, entry, hverify, h⟩
  · simp at h

theorem decryptAndVerify_error {text : GoString} {e : RelayError} {c : RelayClient} {m : Message}
    (hverify : client.verifyBody prims m = .ok text)
    (h : client.decryptAndVerify prims m = (.error e, c)) :
    e = .replayDetected ∧ seqKey m ∈ client.seenSeqs := by
  unfold decryptAndVerify at h
  rw [hverify] at h
  simp only at h
  split at h
  · split at h
    · next hold => exact ⟨(Except.error.inj (Prod.mk.inj h).1).symm, hold⟩
    · simp at h
  · simp at h

theorem takeMessage_error (hd : Readable prims unmarshal st.client d) {e : CollectError}
    (h : takeMessage prims unmarshal senderID st d = .error e) :
    e = .decrypt .replayDetected ∧ seqKey d.message ∈ st.client.seenSeqs := by
  obtain ⟨text, entry, hverify, hentry⟩ := hd
  unfold takeMessage at h
  rcases decryptAndVerify_cases prims st.client d.message with
    ⟨e', hcall⟩ | ⟨body, c, hcall, hbody, -⟩
  · obtain ⟨rfl, hold⟩ := decryptAndVerify_error hverify hcall
    rw [hcall] at h
    exact ⟨(Except.error.inj h).symm, hold⟩
  · obtain rfl := Except.ok.inj (hverify.symm.trans hbody)
    rw [hcall] at h
    simp only [hentry] at h
    split at h <;> simp at h

/-- What a client is after these deliveries. -/
structure HasRead (l : List Delivery) (c c' : RelayClient) : Prop where
  key : c'.encryptionKey = c.encryptionKey
  counter : c'.seqCounter = c.seqCounter
  seen : ∀ k ∈ c'.seenSeqs, k ∈ c.seenSeqs ∨ ∃ d ∈ l, seqKey d.message = k

theorem HasRead.refl (l : List Delivery) (c : RelayClient) : HasRead l c c :=
  ⟨rfl, rfl, fun _ hk => .inl hk⟩

theorem HasRead.trans {l l' : List Delivery} {c c' c'' : RelayClient} (h : HasRead l c c')
    (h' : HasRead l' c' c'') : HasRead (l ++ l') c c'' := by
  refine ⟨h'.key.trans h.key, h'.counter.trans h.counter, fun k hk => ?_⟩
  rcases h'.seen k hk with hk | ⟨d, hd, heq⟩
  · rcases h.seen k hk with hk | ⟨d, hd, heq⟩
    · exact .inl hk
    · exact .inr ⟨d, List.mem_append_left _ hd, heq⟩
  · exact .inr ⟨d, List.mem_append_right _ hd, heq⟩

theorem hasRead_decryptAndVerify {text : GoString} {c : RelayClient}
    (h : client.decryptAndVerify prims d.message = (.ok text, c)) : HasRead [d] client c := by
  unfold decryptAndVerify at h
  split at h
  · simp at h
  · split at h
    · split at h
      · simp at h
      · obtain rfl := (Prod.mk.inj h).2
        refine ⟨rfl, rfl, fun k hk => ?_⟩
        rcases List.mem_cons.mp hk with rfl | hk
        · exact .inr ⟨d, List.mem_singleton_self d, rfl⟩
        · exact .inl hk
    · obtain rfl := (Prod.mk.inj h).2
      exact .refl _ _

theorem hasRead_takeMessage (h : takeMessage prims unmarshal senderID st d = .ok st') :
    HasRead [d] st.client st'.client := by
  unfold takeMessage at h
  split at h
  · simp at h
  · next hcall =>
    have hread := hasRead_decryptAndVerify hcall
    split at h
    · simp at h
    · split at h
      all_goals
        obtain rfl := Except.ok.inj h
        exact hread

theorem hasRead_foldlM {l : List Delivery}
    (h : l.foldlM (takeMessage prims unmarshal senderID) st = .ok st') :
    HasRead l st.client st'.client := by
  induction l generalizing st with
  | nil =>
    obtain rfl := Except.ok.inj h
    exact .refl _ _
  | cons d l ih =>
    rw [List.foldlM_cons] at h
    obtain ⟨st₁, hd, h⟩ := bind_eq_ok.mp h
    exact (hasRead_takeMessage hd).trans (ih h)

theorem hasRead_gather (h : gather prims unmarshal senderID expected st polls = some (.ok st')) :
    HasRead (polls.flatMap Poll.deliveries) st.client st'.client := by
  induction polls generalizing st with
  | nil =>
    unfold gather at h
    split at h
    · simp at h
    · obtain rfl := Except.ok.inj (Option.some.inj h)
      exact .refl _ _
  | cons poll rest ih =>
    unfold gather at h
    split at h
    · cases poll with
      | cancelled => simp at h
      | failed => simp at h
      | messages l =>
        simp only at h
        split at h
        · simp at h
        · next st₁ hfold => exact (hasRead_foldlM hfold).trans (ih h)
    · obtain rfl := Except.ok.inj (Option.some.inj h)
      exact .refl _ _

/-- A delivery whose number the client had before, or one before it in the list. -/
def Again (c : RelayClient) (l : List Delivery) : Prop :=
  ∃ before d after, l = before ++ d :: after ∧ (seqKey d.message ∈ c.seenSeqs ∨
    ∃ d' ∈ before, seqKey d'.message = seqKey d.message)

theorem Again.of_append {l l' : List Delivery} {c c' : RelayClient} (hread : HasRead l c c')
    (h : Again c' l') : Again c (l ++ l') := by
  obtain ⟨before, d, after, rfl, hold⟩ := h
  refine ⟨l ++ before, d, after, (List.append_assoc _ _ _).symm, ?_⟩
  rcases hold with hold | ⟨d', hd', heq⟩
  · exact (hread.seen _ hold).imp_right fun ⟨d', hd', heq⟩ =>
      ⟨d', List.mem_append_left _ hd', heq⟩
  · exact .inr ⟨d', List.mem_append_right _ hd', heq⟩

theorem Again.append_right {l : List Delivery} {c : RelayClient} (h : Again c l)
    (l' : List Delivery) : Again c (l ++ l') := by
  obtain ⟨before, d, after, rfl, hold⟩ := h
  exact ⟨before, d, after ++ l', by simp, hold⟩

theorem foldlM_error {l : List Delivery}
    (hl : ∀ d ∈ l, Readable prims unmarshal st.client d) {e : CollectError}
    (h : l.foldlM (takeMessage prims unmarshal senderID) st = .error e) :
    e = .decrypt .replayDetected ∧ Again st.client l := by
  induction l generalizing st with
  | nil => simp [pure, Except.pure] at h
  | cons d l ih =>
    rw [List.forall_mem_cons] at hl
    rw [List.foldlM_cons] at h
    cases hstep : takeMessage prims unmarshal senderID st d with
    | error e' =>
      rw [hstep] at h
      obtain ⟨he, hold⟩ := takeMessage_error hl.1 hstep
      exact ⟨(Except.error.inj h).symm.trans he, [], d, l, rfl, .inl hold⟩
    | ok st₁ =>
      rw [hstep] at h
      have hread := hasRead_takeMessage hstep
      obtain ⟨he, hagain⟩ := ih (fun x hx => (hl.2 x hx).congr hread.key) h
      exact ⟨he, hagain.of_append hread⟩

/-- A loop that can read all that it is handed fails by the relay only. -/
theorem gather_error
    (hall : ∀ d ∈ polls.flatMap Poll.deliveries, Readable prims unmarshal st.client d)
    {e : CollectError} (h : gather prims unmarshal senderID expected st polls = some (.error e)) :
    RelayFault (Again st.client (polls.flatMap Poll.deliveries)) e := by
  induction polls generalizing st with
  | nil =>
    unfold gather at h
    split at h <;> simp at h
  | cons poll rest ih =>
    unfold gather at h
    split at h
    · cases poll with
      | cancelled => exact .inl (Except.error.inj (Option.some.inj h)).symm
      | failed => exact .inr (.inl (Except.error.inj (Option.some.inj h)).symm)
      | messages l =>
        rw [List.flatMap_cons] at hall ⊢
        rw [List.forall_mem_append] at hall
        simp only at h
        split at h
        · next hfold =>
          obtain rfl := Except.error.inj (Option.some.inj h)
          obtain ⟨he, hagain⟩ := foldlM_error hall.1 hfold
          exact .inr (.inr ⟨he, hagain.append_right _⟩)
        · next loop hfold =>
          have hread := hasRead_foldlM hfold
          rcases ih (fun x hx => (hall.2 x hx).congr hread.key) h with he | he | ⟨he, hagain⟩
          · exact .inl he
          · exact .inr (.inl he)
          · exact .inr (.inr ⟨he, hagain.of_append hread⟩)
    · simp at h

/-- No number that a party is handed was known, and what has one number is one message. -/
structure Unseen (client : RelayClient) (polls : GoString → List Poll) (repeated : GoString → Prop) :
    Prop where
  fresh : ∀ messageID, ∀ d ∈ (polls messageID).flatMap Poll.deliveries,
    seqKey d.message ∉ client.seenSeqs
  apart : ∀ messageID, ∀ d ∈ (polls messageID).flatMap Poll.deliveries, ∀ messageID',
    ∀ d' ∈ (polls messageID').flatMap Poll.deliveries, seqKey d.message = seqKey d'.message →
      messageID = messageID'
  twice : ∀ messageID before d after,
    (polls messageID).flatMap Poll.deliveries = before ++ d :: after →
    ∀ d' ∈ before, seqKey d'.message = seqKey d.message → repeated messageID

/-- What is known comes from deliveries under other ids, so a known number is one of a message that
is handed over twice. -/
theorem Unseen.repeated {client' : RelayClient} {polls : GoString → List Poll}
    {repeated : GoString → Prop} (h : Unseen client polls repeated) {messageID : GoString}
    (hknown : ∀ k ∈ client'.seenSeqs, k ∈ client.seenSeqs ∨ ∃ other, other ≠ messageID ∧
      ∃ d ∈ (polls other).flatMap Poll.deliveries, seqKey d.message = k)
    (hagain : Again client' ((polls messageID).flatMap Poll.deliveries)) : repeated messageID := by
  obtain ⟨before, d, after, hsplit, hold⟩ := hagain
  have hd : d ∈ (polls messageID).flatMap Poll.deliveries := by
    rw [hsplit]
    simp
  rcases hold with hold | ⟨d', hd', heq⟩
  · rcases hknown _ hold with hclient | ⟨other, hne, d', hd', heq⟩
    · exact absurd hclient (h.fresh messageID d hd)
    · exact absurd (h.apart other d' hd' messageID d hd heq) hne
  · exact h.twice messageID before d after hsplit d' hd' heq

theorem Carries.seqKey_eq {g : Group} {q : UInt16} {w : Wire} (hutf8 : ValidUtf8 (g.name q))
    (h : Carries prims g q w d) :
    seqKey d.message = (jsonString g.sessionID ++ 58 :: g.name q, w.sequenceNo) := by
  obtain ⟨s, hsession, hfrom, -, -, hnumber, rfl⟩ := h
  have hname : jsonString s.fromParty = g.name q := by
    rw [hfrom]
    exact hutf8
  have hposted : (posted prims { encryptionKey := g.key } s).sequenceNo = s.sequenceNo :=
    posted_sequenceNo s
  rw [← hsession, ← hname, ← hnumber, ← hposted]
  rfl

theorem Relayed.unseen {g : Group} {posted : UInt16 → List Wire}
    {polls : UInt16 → GoString → List Poll} (h : Relayed prims g posted polls) {p : UInt16}
    (hp : p ∈ g.ids) (hnames : ∀ q ∈ g.ids, ∀ q' ∈ g.ids, g.name q = g.name q' → q = q')
    (hutf8 : ∀ q ∈ g.ids, ValidUtf8 (g.name q))
    (hnumbers : ∀ q ∈ g.ids, ((posted q).map Wire.sequenceNo).Nodup)
    (hfresh : ∀ q ∈ g.ids, ∀ w ∈ posted q,
      (jsonString g.sessionID ++ 58 :: g.name q, w.sequenceNo) ∉ client.seenSeqs) :
    Unseen client (polls p) fun messageID =>
      HandedTwice prims g posted ((polls p messageID).flatMap Poll.deliveries) := by
  have hsame : ∀ q ∈ g.ids, ∀ w ∈ posted q, ∀ d, Carries prims g q w d → ∀ q' ∈ g.ids,
      ∀ w' ∈ posted q', ∀ d', Carries prims g q' w' d' → seqKey d.message = seqKey d'.message →
        q = q' ∧ w = w' := by
    intro q hq w hw d hd q' hq' w' hw' d' hd' heq
    rw [hd.seqKey_eq (hutf8 q hq), hd'.seqKey_eq (hutf8 q' hq')] at heq
    obtain ⟨hname, hnumber⟩ := Prod.mk.inj heq
    obtain rfl := hnames q hq q' hq' (List.cons.inj (List.append_cancel_left hname)).2
    exact ⟨rfl, List.inj_on_of_nodup_map (hnumbers q hq) hw hw' hnumber⟩
  refine ⟨?_, ?_, ?_⟩
  · intro messageID d hd
    obtain ⟨q, hq, w, hw, -, -, hcarries⟩ := h p hp messageID d hd
    rw [hcarries.seqKey_eq (hutf8 q hq)]
    exact hfresh q hq w hw
  · intro messageID d hd messageID' d' hd' heq
    obtain ⟨q, hq, w, hw, rfl, -, hcarries⟩ := h p hp messageID d hd
    obtain ⟨q', hq', w', hw', rfl, -, hcarries'⟩ := h p hp messageID' d' hd'
    rw [(hsame q hq w hw d hcarries q' hq' w' hw' d' hcarries' heq).2]
  · intro messageID before d after hsplit d' hd' heq
    have hmem : ∀ x ∈ before ++ d :: after, x ∈ (polls p messageID).flatMap Poll.deliveries :=
      fun x hx => hsplit ▸ hx
    obtain ⟨q, hq, w, hw, -, -, hcarries⟩ := h p hp messageID d (hmem d (by simp))
    obtain ⟨q', hq', w', hw', -, -, hcarries'⟩ :=
      h p hp messageID d' (hmem d' (List.mem_append_left _ hd'))
    obtain ⟨rfl, rfl⟩ := hsame q' hq' w' hw' d' hcarries' q hq w hw d hcarries heq
    obtain ⟨first, between, rfl⟩ := List.append_of_mem hd'
    exact ⟨q', hq, w', hw, first, d', between, d, after, by simpa using hsplit, hcarries', hcarries⟩

theorem gather_ok {ids : List UInt16} {entry : UInt16 → Entry}
    (hentry : ∀ s ∈ ids, senderID (entry s) = s)
    (hall : ∀ d ∈ polls.flatMap Poll.deliveries,
      ∃ s ∈ ids, entryOf prims unmarshal client d = some (entry s))
    (hlen : (ids.length : Int) ≤ expected) {loop : State Entry}
    (h : gather prims unmarshal senderID expected ⟨client, [], []⟩ polls = some (.ok loop)) :
    expected ≤ ids.length ∧ ∃ order : List UInt16, order.Perm ids ∧
      loop.collected.map Prod.snd = order.map entry := by
  have hcollect : collect prims unmarshal senderID expected ⟨client, [], []⟩ polls =
      some (.ok loop.collected) := by
    rw [← gather_collected, h]
    rfl
  obtain ⟨read, hread, heq, henough, -⟩ := tracks_nil.collect hcollect
  rw [List.nil_append] at heq
  -- each entry is that of one of the ids
  have hmem : ∀ e ∈ loop.collected, ∃ s ∈ ids, e.2 = entry s := by
    intro e he
    rw [heq, mem_firsts_iff] at he
    obtain ⟨before, after, hsplit, -⟩ := he
    obtain ⟨l₁, l₂, hl, he, -⟩ := entriesOf_eq_append hsplit
    have hd : e.1 ∈ polls.flatMap Poll.deliveries := by
      obtain ⟨more, rfl⟩ := hread
      rw [List.flatMap_append, hl]
      simp
    obtain ⟨s, hs, hentry⟩ := hall e.1 hd
    exact ⟨s, hs, Option.some.inj (he.symm.trans hentry)⟩
  have hnodup : (loop.collected.map fun e => senderID e.2).Nodup := heq ▸ nodup_firsts _ _
  have hsub : loop.collected.map (fun e => senderID e.2) ⊆ ids := by
    intro k hk
    obtain ⟨e, he, rfl⟩ := List.mem_map.mp hk
    obtain ⟨s, hs, hes⟩ := hmem e he
    rw [hes, hentry s hs]
    exact hs
  have hsubperm := List.subperm_of_subset hnodup hsub
  have hle := hsubperm.length_le
  rw [List.length_map] at hle
  refine ⟨by omega, loop.collected.map fun e => senderID e.2, ?_, ?_⟩
  · apply hsubperm.perm_of_length_le
    rw [List.length_map]
    omega
  · rw [List.map_map]
    apply List.map_congr_left
    intro e he
    obtain ⟨s, hs, hes⟩ := hmem e he
    rw [Function.comp_apply, hes, hentry s hs]

end Collecting

end Exchanges
