import FrostZm.Client.Runner

/-!
# Channels between sessions

The frames of one session reach another once and in order, as long as each recipient has a name,
JSON leaves the names alone and each message has a number of its own.
-/

namespace RunSession

open Relay Relay.RelayClient

variable {prims : Primitives} {α : Type} {w : Setting α} {e : PartyEntry} {myId : UInt16}
  {msg : Bytes}

/-! ## Messages -/

/-- What a client of this key finds in a message. -/
def payloadOf (prims : Primitives) (w : Setting α) (m : Message) : Bytes :=
  match verifyBody prims { encryptionKey := w.key } m with
  | .ok body => (prims.base64Decode body).getD []
  | .error _ => []

/-- The frame that it is fed as. -/
def frameOf (prims : Primitives) (w : Setting α) (m : Message) : Bytes :=
  wrapSender ((nameToFrostID w.allParties m.fromParty).getD 0) (payloadOf prims w m)

/-- A party of the setup has sent the message with this payload. -/
structure Posted (prims : Primitives) (w : Setting α) (m : Message) : Prop where
  sender : ∃ e ∈ w.setup.parties, e.name = m.fromParty
  session : m.sessionID = jsonString w.sessionID
  body : ∀ c : RelayClient, c.encryptionKey = w.key →
    c.verifyBody prims m = .ok (prims.base64Encode (payloadOf prims w m))

/-- What a client posts for `name`, as the relay has it. -/
def posting (prims : Primitives) (w : Setting α) (c : RelayClient) (p name msg : Bytes)
    (draw : Draw) : Message :=
  (c.sendMessage prims (outgoing prims w p name msg) draw.salt draw.nonce).1.overJson

theorem posted_posting (doc : prims.Documented) {c : RelayClient} (hkey : c.encryptionKey = w.key)
    (he : e ∈ w.setup.parties) (hutf8 : ValidUtf8 e.name) (name msg : Bytes) (draw : Draw) :
    Posted prims w (posting prims w c e.name name msg draw) ∧
      payloadOf prims w (posting prims w c e.name name msg draw) = msg.drop 2 := by
  have hverify : ∀ c' : RelayClient, c'.encryptionKey = w.key →
      c'.verifyBody prims (posting prims w c e.name name msg draw) =
        .ok (prims.base64Encode (msg.drop 2)) := fun c' hkey' =>
    (verifyBody_overJson hutf8).trans
      (verifyBody_sendMessage doc (hkey'.trans hkey.symm) (outgoing prims w e.name name msg)
        draw.salt_length draw.nonce_length)
  have hpayload : payloadOf prims w (posting prims w c e.name name msg draw) = msg.drop 2 := by
    unfold payloadOf
    rw [hverify _ rfl]
    simp only [doc.base64_roundtrip, Option.getD_some]
  refine ⟨⟨⟨e, he, hutf8.symm⟩, rfl, fun c' hkey' => ?_⟩, hpayload⟩
  rw [hverify c' hkey', hpayload]

theorem seqKey_eq {m m' : Message} (h : m.sessionID = m'.sessionID) (hkey : seqKey m = seqKey m') :
    seenKey m = seenKey m' := by
  obtain ⟨hname, hnumber⟩ := Prod.mk.inj hkey
  rw [h] at hname
  unfold seenKey
  rw [(List.cons.inj (List.append_cancel_left hname)).2, hnumber]

/-! ## One party and its log -/

/-- The session has finished, or the loop has. -/
def Finishing : Pc → Bool
  | .drain final => final
  | .send final _ _ => final
  | .stopped _ => true
  | _ => false

structure PartyInv (prims : Primitives) (w : Setting α) (p : GoString) (log : List Message)
    (q : Party α) : Prop where
  tracks : q.session.Tracks (w.body p) q.fed q.taken
  key : q.client.encryptionKey = w.key
  reads : Polling.Reads seenKey log q.reader
  fed : q.fed = q.reader.taken.map (frameOf prims w)
  /-- The client knows no number that the loop has not seen. -/
  fresh : ∀ m ∈ log, seqKey m ∈ q.client.seenSeqs → seenKey m ∈ q.reader.seen
  looking : q.reader.rest ≠ [] → q.pc = .inbox ∨ Finishing q.pc
  sending : ∀ myId, w.setup.frostIdByName p = some myId → ∀ final msg i, q.pc = .send final msg i →
    i ≤ (receivers w.setup myId msg).length ∧ ∃ before, q.taken = before ++ [msg]
  unfailing : ∀ error, q.pc = .stopped (some error) → error = .cancelled

section Party

variable {p : GoString} {log : List Message} {q q' : Party α} {m : Message}

theorem partyInv_init (w : Setting α) (p : GoString) :
    PartyInv prims w p [] ⟨.top, w.client p, .start (w.body p), {}, [], []⟩ where
  tracks := Protocol.tracks_start (w.body p)
  key := w.sameKey p
  reads := Polling.Reads.start seenKey
  fed := rfl
  fresh := nofun
  looking h := absurd rfl h
  sending _ _ _ _ _ h := nomatch h
  unfailing _ h := nomatch h

theorem PartyInv.append (h : PartyInv prims w p log q) (hnew : seenKey m ∉ log.map seenKey)
    (hnumber : seqKey m ∉ q.client.seenSeqs) : PartyInv prims w p (log ++ [m]) q :=
  { h with
    reads := h.reads.append hnew
    fresh := by
      intro m' hm' hseen
      rcases List.mem_append.mp hm' with hm' | hm'
      · exact h.fresh m' hm' hseen
      · obtain rfl := List.mem_singleton.mp hm'
        exact absurd hseen hnumber }

theorem PartyInv.length_of_takeMsg (h : PartyInv prims w p log q)
    (htake : q.session.takeMsg.1 = some msg) : 2 ≤ msg.length := by
  apply w.framed p q.fed
  rw [← h.tracks.outbox]
  apply List.mem_append_right
  unfold Protocol.takeMsg at htake
  split at htake
  · nomatch htake
  · next m rest hbox =>
    obtain rfl := Option.some.inj htake
    rw [hbox]
    exact List.mem_cons_self

theorem takeMsg_none {s : Protocol α} (h : s.takeMsg.1 = none) : s.takeMsg.2 = s ∧ s.outbox = [] := by
  unfold Protocol.takeMsg at h ⊢
  split at h
  · next hbox => exact ⟨rfl, hbox⟩
  · nomatch h

theorem process_eq (doc : prims.Documented) (hposted : Posted prims w m)
    (hkey : q.client.encryptionKey = w.key) (hnew : seqKey m ∉ q.client.seenSeqs) :
    ∃ client : RelayClient, client.encryptionKey = w.key ∧
      client.seqCounter = q.client.seqCounter ∧
      (∀ k ∈ client.seenSeqs, k = seqKey m ∨ k ∈ q.client.seenSeqs) ∧
      process prims w q m = { q with
        client
        session := (q.session.feed (frameOf prims w m)).2
        fed := q.fed ++ [frameOf prims w m]
        pc := if (q.session.feed (frameOf prims w m)).1 then .drain true else .inbox } := by
  obtain ⟨client, hcall, hkey', hcounter, hseen⟩ :=
    decryptAndVerify_fresh (hposted.body q.client hkey) hnew
  refine ⟨client, hkey'.trans hkey, hcounter, ?_, ?_⟩
  · intro k hk
    exact ((hseen k).mp hk).imp_left fun h => h.2
  · obtain ⟨e, he, hname⟩ := hposted.sender
    unfold process frameOf
    simp only [hcall, doc.base64_roundtrip, ← hname, nameToFrostID_entry he, Option.getD_some]

/-- What the loop does between two requests, if all goes well. -/
inductive Turned (prims : Primitives) (w : Setting α) (p : GoString) (myId : UInt16) (draw : Draw)
    (q : Party α) : Party α → Option (GoString × Message) → Prop
  | start (h : q.pc = .top) : Turned prims w p myId draw q { q with pc := .drain false } none
  | drained (final : Bool) (h : q.pc = .drain final) (hbox : q.session.outbox = []) :
    Turned prims w p myId draw q { q with pc := if final then .stopped none else .poll } none
  | take (final : Bool) (msg : Bytes) (h : q.pc = .drain final) (session : Protocol α)
    (hmsg : q.session.takeMsg = (some msg, session)) :
    Turned prims w p myId draw q
      { q with session, taken := q.taken ++ [msg], pc := .send final msg 0 } none
  | sent (final : Bool) (msg : Bytes) (i : Nat) (h : q.pc = .send final msg i)
    (hall : (receivers w.setup myId msg).length ≤ i) :
    Turned prims w p myId draw q { q with pc := .drain final } none
  | send (final : Bool) (msg : Bytes) (i : Nat) (h : q.pc = .send final msg i) (name : GoString)
    (hname : (receivers w.setup myId msg)[i]? = some name) (hutf8 : ValidUtf8 p) :
    Turned prims w p myId draw q
      { q with
        client := (q.client.sendMessage prims (outgoing prims w p name msg) draw.salt draw.nonce).2
        pc := .send final msg (i + 1) }
      (some (name, posting prims w q.client p name msg draw))
  | looked (h : q.pc = .inbox) (hrest : q.reader.rest = []) :
    Turned prims w p myId draw q { q with pc := .top } none
  | skip (h : q.pc = .inbox) (reader : Polling.Reader Message (GoString × UInt64))
    (hlook : q.reader.look seenKey = some (none, reader)) :
    Turned prims w p myId draw q { q with reader } none
  | feed (h : q.pc = .inbox) (m : Message) (reader : Polling.Reader Message (GoString × UInt64))
    (hlook : q.reader.look seenKey = some (some m, reader)) (client : RelayClient)
    (hkey : client.encryptionKey = w.key) (hcounter : client.seqCounter = q.client.seqCounter)
    (hseen : ∀ k ∈ client.seenSeqs, k = seqKey m ∨ k ∈ q.client.seenSeqs) :
    Turned prims w p myId draw q
      { q with
        client, reader
        session := (q.session.feed (frameOf prims w m)).2
        fed := q.fed ++ [frameOf prims w m]
        pc := if (q.session.feed (frameOf prims w m)).1 then .drain true else .inbox } none

variable {draw : Draw} {posted : Option (GoString × Message)}

theorem copyBuffer_of_ne_nil {b : Bytes} (h : b ≠ []) : copyBuffer (some b) = some b := by
  simp [copyBuffer, h]

theorem PartyInv.turned (doc : prims.Documented) (h : PartyInv prims w p log q)
    (hlog : ∀ m ∈ log, Posted prims w m) (hid : w.setup.frostIdByName p = some myId)
    (hnames : ∀ final msg i, q.pc = .send final msg i →
      ∀ name, (receivers w.setup myId msg)[i]? = some name →
        name ≠ [] ∧ ValidUtf8 name ∧ ValidUtf8 p)
    (hturn : turn prims w p myId draw q = some (q', posted)) :
    Turned prims w p myId draw q q' posted := by
  unfold turn at hturn
  split at hturn
  · next hpc =>
    obtain ⟨rfl, rfl⟩ := Prod.mk.inj (Option.some.inj hturn)
    exact .start hpc
  · next final hpc =>
    rcases htake : q.session.takeMsg with ⟨_ | msg, session⟩
    · have hnone : q.session.takeMsg.1 = none := by rw [htake]
      obtain ⟨hsame, hbox⟩ := takeMsg_none hnone
      rw [htake] at hsame
      simp only [htake, copyBuffer, Option.filter_none] at hturn
      obtain ⟨rfl, rfl⟩ := Prod.mk.inj (Option.some.inj hturn)
      simp only at hsame
      rw [hsame]
      exact .drained final hpc hbox
    · have hlen := h.length_of_takeMsg (congrArg Prod.fst htake)
      have hne : msg ≠ [] := by
        rintro rfl
        nomatch hlen
      simp only [htake, copyBuffer_of_ne_nil hne, if_neg (Nat.not_lt.mpr hlen)] at hturn
      obtain ⟨rfl, rfl⟩ := Prod.mk.inj (Option.some.inj hturn)
      exact .take final msg hpc session htake
  · next final msg i hpc =>
    have hle := (h.sending myId hid final msg i hpc).1
    have hlt := length_receivers_lt w myId msg
    rw [msgReceiverImpl_eq (by omega)] at hturn
    cases hget : (receivers w.setup myId msg)[i]? with
    | none =>
      simp only [hget, copyBuffer, Option.filter_none] at hturn
      obtain ⟨rfl, rfl⟩ := Prod.mk.inj (Option.some.inj hturn)
      exact .sent final msg i hpc (List.getElem?_eq_none_iff.mp hget)
    | some name =>
      obtain ⟨hne, hname, hutf8⟩ := hnames final msg i hpc name hget
      simp only [hget, copyBuffer_of_ne_nil hne] at hturn
      rw [show jsonString name = name from hname] at hturn
      obtain ⟨rfl, rfl⟩ := Prod.mk.inj (Option.some.inj hturn)
      exact .send final msg i hpc name hget hutf8
  · nomatch hturn
  · next hpc =>
    rcases hlook : q.reader.look seenKey with _ | ⟨_ | m, reader⟩
    · simp only [hlook] at hturn
      obtain ⟨rfl, rfl⟩ := Prod.mk.inj (Option.some.inj hturn)
      exact .looked hpc (Polling.Reader.look_eq_none_iff.mp hlook)
    · simp only [hlook] at hturn
      obtain ⟨rfl, rfl⟩ := Prod.mk.inj (Option.some.inj hturn)
      exact .skip hpc reader hlook
    · simp only [hlook] at hturn
      obtain ⟨rfl, rfl⟩ := Prod.mk.inj (Option.some.inj hturn)
      obtain ⟨-, -, -, hnew, hm⟩ := h.reads.look_some hlook
      obtain ⟨client, hkey, hcounter, hseen, heq⟩ := process_eq (q := { q with reader }) doc (hlog m hm) h.key
        fun hmem => hnew (h.fresh m hm hmem)
      rw [heq]
      exact .feed hpc m reader hlook client hkey hcounter hseen
  · nomatch hturn

theorem PartyInv.step (h : PartyInv prims w p log q) (hlog : ∀ m ∈ log, Posted prims w m)
    (hid : w.setup.frostIdByName p = some myId)
    (hturn : Turned prims w p myId draw q q' posted) : PartyInv prims w p log q' := by
  have hsession : ∀ m ∈ log, m.sessionID = jsonString w.sessionID := fun m hm =>
    (hlog m hm).session
  have hlooking := h.looking
  cases hturn with
  | start hpc =>
    rw [hpc] at hlooking
    exact { h with
      looking := fun hrest => by simpa [Finishing] using hlooking hrest
      sending := nofun
      unfailing := nofun }
  | drained final hpc =>
    rw [hpc] at hlooking
    cases final with
    | true => exact { h with
        looking := fun _ => .inr rfl
        sending := nofun
        unfailing := nofun }
    | false => exact { h with
        looking := fun hrest => by simpa [Finishing] using hlooking hrest
        sending := nofun
        unfailing := nofun }
  | take final msg hpc session hmsg =>
    rw [hpc] at hlooking
    refine { h with
      tracks := h.tracks.takeMsg hmsg
      looking := fun hrest => by simpa [Finishing] using hlooking hrest
      sending := ?_
      unfailing := nofun }
    intro _ _ _ _ _ heq
    obtain ⟨-, rfl, rfl⟩ := Pc.send.inj heq
    exact ⟨Nat.zero_le _, q.taken, rfl⟩
  | sent final msg i hpc hall =>
    rw [hpc] at hlooking
    exact { h with
      looking := fun hrest => by simpa [Finishing] using hlooking hrest
      sending := nofun
      unfailing := nofun }
  | send final msg i hpc name hname hutf8 =>
    rw [hpc] at hlooking
    refine { h with
      looking := fun hrest => by simpa [Finishing] using hlooking hrest
      sending := ?_
      unfailing := nofun }
    intro id hid' _ _ _ heq
    obtain ⟨-, rfl, rfl⟩ := Pc.send.inj heq
    rw [hid] at hid'
    obtain rfl := Option.some.inj hid'
    exact ⟨(List.getElem?_eq_some_iff.mp hname).1, (h.sending myId hid final msg i hpc).2⟩
  | looked hpc hrest =>
    exact { h with looking := fun hne => absurd hrest hne, sending := nofun, unfailing := nofun }
  | skip hpc reader hlook =>
    obtain ⟨hreads, htaken, hseen⟩ := h.reads.look_none hlook
    exact { h with
      reads := hreads
      fed := by rw [h.fed, htaken]
      fresh := by rw [hseen]; exact h.fresh
      looking := fun _ => .inl hpc }
  | feed hpc m reader hlook client hkey hcounter hseen =>
    obtain ⟨hreads, htaken, hseen', -, hm⟩ := h.reads.look_some hlook
    refine ⟨h.tracks.feed _, hkey, hreads, ?_, ?_, ?_, ?_, ?_⟩
    · rw [htaken, List.map_append, h.fed]
      rfl
    · intro m' hm' hknown
      rw [hseen', List.mem_cons]
      rcases hseen _ hknown with heq | hold
      · exact .inl (seqKey_eq ((hsession m' hm').trans (hsession m hm).symm) heq)
      · exact .inr (h.fresh m' hm' hold)
    · intro _
      cases (q.session.feed (frameOf prims w m)).1 with
      | true => exact .inr rfl
      | false => exact .inl rfl
    · intro _ _ _ _ _ heq
      cases hdone : (q.session.feed (frameOf prims w m)).1 <;> simp [hdone] at heq
    · intro _ heq
      cases hdone : (q.session.feed (frameOf prims w m)).1 <;> simp [hdone] at heq

theorem PartyInv.getMessages (h : PartyInv prims w p log q) (hpc : q.pc = .poll) {whole : Bool}
    {k : Nat} {reader : Polling.Reader Message (GoString × UInt64)}
    (hpoll : q.reader.poll log whole k = some reader) :
    PartyInv prims w p log { q with reader, pc := .inbox } := by
  have hrest : q.reader.rest = [] := by
    by_contra hne
    have hlooking := h.looking hne
    simp [hpc, Finishing] at hlooking
  have hsame : reader.taken = q.reader.taken ∧ reader.seen = q.reader.seen := by
    unfold Polling.Reader.poll at hpoll
    split at hpoll
    · obtain rfl := Option.some.inj hpoll
      exact ⟨rfl, rfl⟩
    · nomatch hpoll
  exact { h with
    reads := h.reads.poll hrest hpoll
    fed := by rw [h.fed, hsame.1]
    fresh := by rw [hsame.2]; exact h.fresh
    looking := fun _ => .inl rfl
    sending := nofun
    unfailing := nofun }

theorem PartyInv.cancel (h : PartyInv prims w p log q) :
    PartyInv prims w p log { q with pc := .stopped (some .cancelled) } :=
  { h with
    looking := fun _ => .inr rfl
    sending := nofun
    unfailing := fun _ heq => (Option.some.inj (Pc.stopped.inj heq)).symm }

/-! ## What has been sent -/

/-- The payloads of the frames that are for `r`. -/
def copiesTo (w : Setting α) (myId : UInt16) (r : GoString) (frames : List Bytes) : List Bytes :=
  (frames.filter fun msg => r ∈ receivers w.setup myId msg).map (List.drop 2)

/-- What a party has sent to `r`: of a frame that it is sending, only if `r` has had its turn. -/
def sentTo (w : Setting α) (myId : UInt16) (q : Party α) (r : GoString) : List Bytes :=
  match q.pc with
  | .send _ msg i =>
    copiesTo w myId r q.taken.dropLast ++
      if r ∈ (receivers w.setup myId msg).take i then [msg.drop 2] else []
  | _ => copiesTo w myId r q.taken

theorem copiesTo_concat (r : GoString) (frames : List Bytes) (msg : Bytes) :
    copiesTo w myId r (frames ++ [msg]) = copiesTo w myId r frames ++
      if r ∈ receivers w.setup myId msg then [msg.drop 2] else [] := by
  unfold copiesTo
  rw [List.filter_append, List.map_append]
  congr 1
  by_cases hr : r ∈ receivers w.setup myId msg
  · simp [hr]
  · simp [hr]

/-- The payload in a message that is posted for `r`. -/
def postedTo (prims : Primitives) (w : Setting α) (r : GoString) :
    Option (GoString × Message) → List Bytes
  | some (name, m) => if r = name then [payloadOf prims w m] else []
  | none => []

theorem PartyInv.sentTo_step (doc : prims.Documented) (h : PartyInv prims w p log q)
    (hid : w.setup.frostIdByName p = some myId)
    (hturn : Turned prims w p myId draw q q' posted) (r : GoString) :
    sentTo w myId q' r = sentTo w myId q r ++ postedTo prims w r posted := by
  cases hturn with
  | start hpc => simp [sentTo, postedTo, hpc]
  | drained final hpc =>
    cases final <;> simp [sentTo, postedTo, hpc]
  | take final msg hpc session hmsg => simp [sentTo, postedTo, hpc]
  | sent final msg i hpc hall =>
    obtain ⟨before, htaken⟩ := (h.sending myId hid final msg i hpc).2
    simp only [sentTo, postedTo, hpc, htaken, List.dropLast_concat, copiesTo_concat,
      List.take_of_length_le hall, List.append_nil]
  | send final msg i hpc name hname hutf8 =>
    obtain ⟨hlt, hget⟩ := List.getElem?_eq_some_iff.mp hname
    have hnew : name ∉ (receivers w.setup myId msg).take i := by
      have hnodup := nodup_receivers w myId msg
      rw [← List.take_append_drop i (receivers w.setup myId msg), List.nodup_append] at hnodup
      intro hmem
      apply hnodup.2.2 _ hmem _ _ rfl
      rw [← List.cons_getElem_drop_succ (h := hlt), hget]
      exact List.mem_cons_self
    have hpayload :=
      (posted_posting doc h.key (entry_of_frostIdByName hid) hutf8 name msg draw).2
    simp only [sentTo, postedTo, hpc, List.take_add_one, hname, Option.toList_some, List.append_assoc,
      hpayload]
    congr 1
    by_cases hr : r = name
    · subst hr
      simp [hnew]
    · simp [hr]
  | looked hpc hrest => simp [sentTo, postedTo, hpc]
  | skip hpc reader hlook => simp [sentTo, postedTo, hpc]
  | feed hpc m reader hlook client hkey hcounter hseen =>
    rw [sentTo, sentTo, hpc]
    cases (q.session.feed (frameOf prims w m)).1 <;> simp [postedTo]

end Party

/-! ## All parties -/

structure Inv (prims : Primitives) (w : Setting α) (net : Net α) : Prop where
  party : ∀ p, PartyInv prims w p (net.log p) (net.party p)
  posted : ∀ r, ∀ m ∈ net.log r, Posted prims w m
  sent : ∀ s sid, w.setup.frostIdByName s = some sid → ∀ r,
    ((net.log r).filter (·.fromParty = s)).map (payloadOf prims w) = sentTo w sid (net.party s) r

variable {net net' : Net α} {p : GoString} {q : Party α}

theorem inv_init (prims : Primitives) (w : Setting α) : Inv prims w (init w) where
  party p := partyInv_init w p
  posted _ := nofun
  sent _ _ _ _ := rfl

theorem Inv.setParty (h : Inv prims w net) (hq : PartyInv prims w p (net.log p) q)
    (hsent : ∀ sid, w.setup.frostIdByName p = some sid → ∀ r,
      sentTo w sid q r = sentTo w sid (net.party p) r) : Inv prims w (net.setParty p q) where
  party r := by
    by_cases hr : r = p
    · subst hr
      simpa [Net.setParty] using hq
    · simpa [Net.setParty, hr] using h.party r
  posted := h.posted
  sent s sid hsid r := by
    by_cases hs : s = p
    · subst hs
      simpa [Net.setParty, hsent sid hsid r] using h.sent s sid hsid r
    · simpa [Net.setParty, hs] using h.sent s sid hsid r

theorem step_turn {draw : Draw} (h : step prims w net (.turn p draw) = some net') :
    ∃ myId q posted, w.setup.frostIdByName p = some myId ∧
      turn prims w p myId draw (net.party p) = some (q, posted) ∧
      net' = { net.setParty p q with log := post net.log posted } := by
  obtain ⟨myId, hid, h⟩ := Option.bind_eq_some_iff.mp h
  obtain ⟨⟨q, posted⟩, hturn, h⟩ := Option.bind_eq_some_iff.mp h
  exact ⟨myId, q, posted, hid, hturn, (Option.some.inj h).symm⟩

theorem step_getMessages {whole : Bool} {k : Nat}
    (h : step prims w net (.getMessages p whole k) = some net') :
    ∃ reader, (net.party p).reader.poll (net.log p) whole k = some reader ∧
      (net.party p).pc = .poll ∧
      net' = net.setParty p { net.party p with reader, pc := .inbox } := by
  obtain ⟨_, -, h⟩ := Option.bind_eq_some_iff.mp h
  obtain ⟨reader, hpoll, h⟩ := Option.bind_eq_some_iff.mp h
  split at h
  · next hpc => exact ⟨reader, hpoll, hpc, (Option.some.inj h).symm⟩
  · nomatch h

theorem step_cancel (h : step prims w net (.cancel p) = some net') : (net.party p).pc = .top ∧
    net' = net.setParty p { net.party p with pc := .stopped (some .cancelled) } := by
  simp only [step] at h
  split at h
  · next hpc => exact ⟨hpc, (Option.some.inj h).symm⟩
  · nomatch h

theorem Turned.of_some {myId : UInt16} {draw : Draw} {q q' : Party α} {name : GoString} {m : Message}
    (h : Turned prims w p myId draw q q' (some (name, m))) :
    ∃ final msg i, q.pc = .send final msg i ∧ (receivers w.setup myId msg)[i]? = some name ∧
      m = posting prims w q.client p name msg draw ∧
      q'.client.seenSeqs = q.client.seenSeqs := by
  cases h with
  | send final msg i hpc _ hname => exact ⟨final, msg, i, hpc, hname, rfl, rfl⟩

theorem Inv.turn (doc : prims.Documented) (h : Inv prims w net) {draw : Draw}
    (hg : Deliverable w net (.turn p draw)) (hs : step prims w net (.turn p draw) = some net') :
    Inv prims w net' := by
  obtain ⟨myId, q', posted, hid, hturn, rfl⟩ := step_turn hs
  have hturned : Turned prims w p myId draw (net.party p) q' posted :=
    (h.party p).turned doc (h.posted p) hid
      (fun final msg i hpc name hname => (hg myId hid final msg i hpc name hname).1) hturn
  have hparty := (h.party p).step (h.posted p) hid hturned
  have hsent := (h.party p).sentTo_step doc hid hturned
  cases posted with
  | none =>
    apply h.setParty hparty
    intro sid hsid r
    rw [hid] at hsid
    obtain rfl := Option.some.inj hsid
    rw [hsent r]
    exact List.append_nil _
  | some nm =>
    obtain ⟨name, m⟩ := nm
    obtain ⟨final, msg, i, hpc, hname, hm, hseen⟩ := hturned.of_some
    obtain ⟨⟨-, -, hutf8⟩, hnew, hnumber⟩ := hg myId hid final msg i hpc name hname
    obtain ⟨hposted, -⟩ := posted_posting doc (h.party p).key (entry_of_frostIdByName hid) hutf8 name
      msg draw
    rw [← hm] at hposted
    have hfrom : m.fromParty = p := by
      rw [hm]
      exact hutf8
    have hsequenceNo : m.sequenceNo = (net.party p).client.seqCounter + 1 := by
      rw [hm]
      rfl
    refine ⟨fun r => ?_, fun r m' hm' => ?_, fun s sid hsid r => ?_⟩
    · have hold : PartyInv prims w r (net.log r) (Function.update net.party p q' r) := by
        by_cases hr : r = p
        · subst hr
          simpa using hparty
        · simpa [hr] using h.party r
      by_cases hr : r = name
      · subst hr
        simp only [post, Function.update_self, Net.setParty]
        apply hold.append
        · rw [seenKey, hfrom, hsequenceNo]
          exact hnew
        · have hsame : (Function.update net.party p q' r).client.seenSeqs =
              (net.party r).client.seenSeqs := by
            by_cases hrp : r = p
            · subst hrp
              simpa using hseen
            · simp [hrp]
          rw [hsame, seqKey, hposted.session, hfrom, hsequenceNo]
          exact hnumber
      · simpa [post, hr, Net.setParty] using hold
    · by_cases hr : r = name
      · subst hr
        simp only [post, Function.update_self, List.mem_append, List.mem_singleton] at hm'
        rcases hm' with hm' | rfl
        · exact h.posted r m' hm'
        · exact hposted
      · simp only [post, Function.update_of_ne hr] at hm'
        exact h.posted r m' hm'
    · by_cases hsp : s = p
      · subst hsp
        rw [hid] at hsid
        obtain rfl := Option.some.inj hsid
        simp only [Net.setParty, Function.update_self]
        rw [hsent r, ← h.sent s myId hid r]
        by_cases hr : r = name
        · subst hr
          simp [post, postedTo, hfrom]
        · simp [post, postedTo, hr]
      · simp only [Net.setParty, Function.update_of_ne hsp]
        rw [← h.sent s sid hsid r]
        by_cases hr : r = name
        · subst hr
          simp [post, hfrom, Ne.symm hsp]
        · simp [post, hr]

theorem inv_step (doc : prims.Documented) {a : Action} (h : Inv prims w net)
    (hg : Deliverable w net a) (hs : step prims w net a = some net') : Inv prims w net' := by
  cases a with
  | turn p draw => exact h.turn doc hg hs
  | getMessages p whole k =>
    obtain ⟨reader, hpoll, hpc, rfl⟩ := step_getMessages hs
    apply h.setParty ((h.party p).getMessages hpc hpoll)
    intro sid _ r
    simp [sentTo, hpc]
  | cancel p =>
    obtain ⟨hpc, rfl⟩ := step_cancel hs
    apply h.setParty (h.party p).cancel
    intro sid _ r
    simp [sentTo, hpc]

theorem inv_run (doc : prims.Documented) {acts : List Action}
    (hg : Runs.Guarded (step prims w) (Deliverable w) (init w) acts)
    (hr : run prims w acts = some net) : Inv prims w net :=
  Runs.inv_of_guarded (Inv prims w) (inv_init prims w)
    (fun _ _ _ hi hd hs => inv_step doc hi hd hs) hg hr

/-! ## Parties with names and fresh numbers -/

/-- No number is above the counter of its sender, and no counter has been raised more than `n`
times. -/
structure Numbered (w : Setting α) (n : Nat) (net : Net α) : Prop where
  counter : ∀ p, (net.party p).client.seqCounter.toNat ≤ (w.client p).seqCounter.toNat + n
  log : ∀ r, ∀ m ∈ net.log r,
    m.sequenceNo.toNat ≤ (net.party m.fromParty).client.seqCounter.toNat
  seen : ∀ s r k, (jsonString w.sessionID ++ 58 :: s, k) ∈ (net.party r).client.seenSeqs →
    k.toNat ≤ (net.party s).client.seqCounter.toNat

/-- No client has a number that its sender has not given yet. -/
def Fresh (w : Setting α) : Prop := ∀ s r k,
  (jsonString w.sessionID ++ 58 :: s, k) ∈ (w.client r).seenSeqs → k.toNat ≤ (w.client s).seqCounter.toNat

theorem numbered_init (hfresh : Fresh w) : Numbered w 0 (init w) where
  counter _ := Nat.le_refl _
  log _ := nofun
  seen := hfresh

variable {n : Nat}

theorem toNat_succ {c : UInt64} (h : c.toNat + 1 < 2 ^ 64) : (c + 1).toNat = c.toNat + 1 := by
  rw [UInt64.toNat_add]
  exact Nat.mod_eq_of_lt h

theorem Numbered.deliverable (h : Numbered w n net)
    (hnames : ∀ e ∈ w.setup.parties, e.name ≠ [] ∧ ValidUtf8 e.name)
    (hcount : ∀ p, (w.client p).seqCounter.toNat + n + 1 < 2 ^ 64) (a : Action) :
    Deliverable w net a := by
  cases a with
  | turn p draw =>
    intro myId hid final msg i _ name hname
    have hnext := toNat_succ ((Nat.add_le_add_right (h.counter p) 1).trans_lt (hcount p))
    obtain ⟨id, hentry⟩ := mem_receivers (List.mem_of_getElem? hname)
    obtain ⟨hne, hutf8⟩ := hnames _ hentry
    refine ⟨⟨hne, hutf8, (hnames _ (entry_of_frostIdByName hid)).2⟩, ?_, ?_⟩
    · intro hmem
      obtain ⟨m, hm, hkey⟩ := List.mem_map.mp hmem
      obtain ⟨hfrom, hnumber⟩ := Prod.mk.inj hkey
      have hle := h.log name m hm
      rw [hfrom, hnumber, hnext] at hle
      omega
    · intro hmem
      have hle := h.seen p name _ hmem
      rw [hnext] at hle
      omega
  | getMessages p whole k => trivial
  | cancel p => trivial

theorem Numbered.setParty (h : Numbered w n net)
    (hcounter : q.client.seqCounter = (net.party p).client.seqCounter)
    (hseen : ∀ s k, (jsonString w.sessionID ++ 58 :: s, k) ∈ q.client.seenSeqs →
      (jsonString w.sessionID ++ 58 :: s, k) ∈ (net.party p).client.seenSeqs ∨
        k.toNat ≤ (net.party s).client.seqCounter.toNat) : Numbered w (n + 1) (net.setParty p q) := by
  have hsame : ∀ s, ((net.setParty p q).party s).client.seqCounter =
      (net.party s).client.seqCounter := by
    intro s
    by_cases hs : s = p
    · subst hs
      simpa [Net.setParty] using hcounter
    · simp [Net.setParty, hs]
  refine ⟨fun s => ?_, fun r m hm => ?_, fun s r k hk => ?_⟩
  · rw [hsame]
    have hle := h.counter s
    omega
  · rw [hsame]
    exact h.log r m hm
  · rw [hsame]
    by_cases hr : r = p
    · subst hr
      simp only [Net.setParty, Function.update_self] at hk
      rcases hseen s k hk with hold | hle
      · exact h.seen s r k hold
      · exact hle
    · simp only [Net.setParty, Function.update_of_ne hr] at hk
      exact h.seen s r k hk

theorem Numbered.post (h : Numbered w n net) {name : GoString} {m : Message}
    (hfrom : m.fromParty = p) (hnumber : m.sequenceNo = (net.party p).client.seqCounter + 1)
    (hcounter : q.client.seqCounter = m.sequenceNo)
    (hseen : q.client.seenSeqs = (net.party p).client.seenSeqs)
    (hcount : ∀ p, (w.client p).seqCounter.toNat + n + 1 < 2 ^ 64) :
    Numbered w (n + 1) { net.setParty p q with log := post net.log (some (name, m)) } := by
  subst hfrom
  have hnext := toNat_succ
    ((Nat.add_le_add_right (h.counter m.fromParty) 1).trans_lt (hcount m.fromParty))
  rw [← hnumber] at hnext
  have hgrows : ∀ s, (net.party s).client.seqCounter.toNat ≤
      ((net.setParty m.fromParty q).party s).client.seqCounter.toNat := by
    intro s
    by_cases hs : s = m.fromParty
    · rw [hs]
      simp only [Net.setParty, Function.update_self, hcounter, hnext]
      omega
    · simp [Net.setParty, hs]
  refine ⟨fun s => ?_, fun r m' hm' => ?_, fun s r k hk => ?_⟩
  · have hle := h.counter s
    by_cases hs : s = m.fromParty
    · rw [hs] at hle ⊢
      simp only [Net.setParty, Function.update_self, hcounter, hnext]
      omega
    · simp only [Net.setParty, Function.update_of_ne hs]
      omega
  · have hcases : m' ∈ net.log r ∨ m' = m := by
      by_cases hr : r = name
      · subst hr
        simpa [RunSession.post] using hm'
      · simp only [RunSession.post, Function.update_of_ne hr] at hm'
        exact .inl hm'
    rcases hcases with hold | rfl
    · exact (h.log r m' hold).trans (hgrows _)
    · simp [Net.setParty, hcounter]
  · apply le_trans _ (hgrows s)
    apply h.seen s r k
    by_cases hr : r = m.fromParty
    · rw [hr] at hk ⊢
      simpa [Net.setParty, hseen] using hk
    · simpa [Net.setParty, hr] using hk

theorem Numbered.turn (doc : prims.Documented) (hi : Inv prims w net) (h : Numbered w n net)
    (hcount : ∀ p, (w.client p).seqCounter.toNat + n + 1 < 2 ^ 64) {draw : Draw}
    (hg : Deliverable w net (.turn p draw)) (hs : step prims w net (.turn p draw) = some net') :
    Numbered w (n + 1) net' := by
  obtain ⟨myId, q', posted, hid, hturn, rfl⟩ := step_turn hs
  have hturned : Turned prims w p myId draw (net.party p) q' posted :=
    (hi.party p).turned doc (hi.posted p) hid
      (fun final msg i hpc name hname => (hg myId hid final msg i hpc name hname).1) hturn
  cases hturned with
  | start hpc => exact h.setParty rfl fun s k hk => .inl hk
  | drained final hpc hbox => exact h.setParty rfl fun s k hk => .inl hk
  | take final msg hpc session hmsg => exact h.setParty rfl fun s k hk => .inl hk
  | sent final msg i hpc hall => exact h.setParty rfl fun s k hk => .inl hk
  | send final msg i hpc name hname hutf8 =>
    have hfrom : (posting prims w (net.party p).client p name msg draw).fromParty = p := hutf8
    exact h.post hfrom rfl rfl rfl hcount
  | looked hpc hrest => exact h.setParty rfl fun s k hk => .inl hk
  | skip hpc reader hlook => exact h.setParty rfl fun s k hk => .inl hk
  | feed hpc m reader hlook client hkey hcounter hseen =>
    have hm := ((hi.party p).reads.look_some hlook).2.2.2.2
    apply h.setParty hcounter
    intro s k hk
    rcases hseen _ hk with heq | hold
    · right
      obtain ⟨hname, rfl⟩ := Prod.mk.inj heq
      rw [(hi.posted p m hm).session] at hname
      rw [(List.cons.inj (List.append_cancel_left hname)).2]
      exact h.log p m hm
    · exact .inl hold

theorem Numbered.step (doc : prims.Documented) (hi : Inv prims w net) (h : Numbered w n net)
    (hcount : ∀ p, (w.client p).seqCounter.toNat + n + 1 < 2 ^ 64) {a : Action}
    (hg : Deliverable w net a) (hs : step prims w net a = some net') : Numbered w (n + 1) net' := by
  cases a with
  | turn p draw => exact h.turn doc hi hcount hg hs
  | getMessages p whole k =>
    obtain ⟨reader, -, -, rfl⟩ := step_getMessages hs
    exact h.setParty rfl fun s k hk => .inl hk
  | cancel p =>
    obtain ⟨-, rfl⟩ := step_cancel hs
    exact h.setParty rfl fun s k hk => .inl hk

/-- No step breaks the guard where every party has a name that JSON leaves alone and no counter
comes to its end. -/
theorem guarded_of_names (doc : prims.Documented)
    (hnames : ∀ e ∈ w.setup.parties, e.name ≠ [] ∧ ValidUtf8 e.name) (hfresh : Fresh w) {acts : List Action}
    (hcount : ∀ p, (w.client p).seqCounter.toNat + acts.length < 2 ^ 64) :
    Runs.Guarded (step prims w) (Deliverable w) (init w) acts ∧
      ∀ net, run prims w acts = some net → Numbered w acts.length net := by
  induction acts using List.reverseRecOn with
  | nil =>
    refine ⟨Runs.guarded_nil, ?_⟩
    rintro net hr
    obtain rfl := Option.some.inj hr
    exact numbered_init hfresh
  | append_singleton acts a ih =>
    simp only [List.length_append, List.length_singleton] at hcount ⊢
    obtain ⟨hg, hnumbered⟩ := ih fun p => (Nat.lt_succ_self _).trans (hcount p)
    refine ⟨Runs.guarded_concat.mpr ⟨hg, fun u hu => ?_⟩, fun net hr => ?_⟩
    · exact (hnumbered u hu).deliverable hnames hcount a
    · obtain ⟨u, hu, ha⟩ := Runs.run_concat_eq_some.mp hr
      have hdeliverable := (hnumbered u hu).deliverable hnames hcount a
      exact (hnumbered u hu).step doc (inv_run doc hg hu) hcount hdeliverable ha

/-! ## First in, first out -/

variable {s r : GoString} {sid : UInt16}

theorem unframe_frameOf_iff {m : Message} (hposted : Posted prims w m)
    (hid : w.setup.frostIdByName s = some sid) :
    (unframe (frameOf prims w m)).1 = sid ↔ m.fromParty = s := by
  obtain ⟨e, he, hname⟩ := hposted.sender
  have hs := entry_of_frostIdByName hid
  unfold frameOf
  rw [unframe_wrapSender, ← hname, nameToFrostID_entry he, Option.getD_some]
  constructor
  · intro heq
    have hsame : e = ⟨sid, s⟩ := List.inj_on_of_nodup_map (nodup_setup_ids w) he hs heq
    rw [hsame]
  · intro heq
    have hsame : e = ⟨sid, s⟩ := List.inj_on_of_nodup_map (nodup_setup_names w) he hs heq
    rw [hsame]

theorem Inv.fedFrom_eq (h : Inv prims w net) (hid : w.setup.frostIdByName s = some sid)
    (r : GoString) : fedFrom net sid r =
      (((net.party r).reader.taken.filter (·.fromParty = s)).map (payloadOf prims w)).map
        (wrapSender sid) := by
  have hlog : ∀ m ∈ (net.party r).reader.taken, Posted prims w m := fun m hm =>
    h.posted r m ((h.party r).reads.taken_le.subset hm)
  unfold fedFrom
  rw [(h.party r).fed, List.filter_map, List.map_map]
  have hfilter : (net.party r).reader.taken.filter
      ((fun frame => decide ((unframe frame).1 = sid)) ∘ frameOf prims w) =
      (net.party r).reader.taken.filter (·.fromParty = s) := by
    apply List.filter_congr
    intro m hm
    exact decide_eq_decide.mpr (unframe_frameOf_iff (hlog m hm) hid)
  rw [hfilter]
  apply List.map_congr_left
  intro m hm
  obtain ⟨hm, hs⟩ := List.mem_filter.mp hm
  have hfrom : m.fromParty = s := of_decide_eq_true hs
  have hname := nameToFrostID_entry (entry_of_frostIdByName hid)
  simp only [frameOf, hfrom, Function.comp_apply, hname, Option.getD_some]

theorem Inv.putOut_eq (h : Inv prims w net) (s : GoString) (sid : UInt16) (r : GoString) :
    putOut w net s sid r =
      (copiesTo w sid r ((net.party s).taken ++ (net.party s).session.outbox)).map
        (wrapSender sid) := by
  unfold putOut copiesTo
  rw [List.map_map]
  apply List.map_congr_left
  intro msg hmsg
  have hmem := (List.mem_filter.mp hmsg).1
  rw [(h.party s).tracks.outbox] at hmem
  have hlen := w.framed s _ msg hmem
  simp only [payload, Function.comp_apply, if_neg (Nat.not_lt.mpr hlen)]

theorem copiesTo_append (r : GoString) (l l' : List Bytes) :
    copiesTo w sid r (l ++ l') = copiesTo w sid r l ++ copiesTo w sid r l' := by
  unfold copiesTo
  rw [List.filter_append, List.map_append]

theorem PartyInv.sentTo_le {log : List Message} (h : PartyInv prims w s log q)
    (hid : w.setup.frostIdByName s = some sid) (r : GoString) :
    sentTo w sid q r <+: copiesTo w sid r q.taken := by
  unfold sentTo
  split
  · next final msg i hpc =>
    obtain ⟨-, before, htaken⟩ := h.sending sid hid final msg i hpc
    rw [htaken, List.dropLast_concat, copiesTo_concat, List.prefix_append_right_inj]
    by_cases hr : r ∈ (receivers w.setup sid msg).take i
    · rw [if_pos hr, if_pos (List.mem_of_mem_take hr)]
    · rw [if_neg hr]
      exact List.nil_prefix
  · exact List.prefix_rfl

theorem Inv.fedFrom_le (h : Inv prims w net) (hid : w.setup.frostIdByName s = some sid) :
    fedFrom net sid r <+: putOut w net s sid r := by
  rw [h.fedFrom_eq hid, h.putOut_eq, copiesTo_append, List.map_append]
  apply List.IsPrefix.trans _ (List.prefix_append _ _)
  apply List.IsPrefix.map
  have htaken := ((h.party r).reads.taken_le.filter (·.fromParty = s)).map (payloadOf prims w)
  rw [h.sent s sid hid r] at htaken
  exact htaken.trans ((h.party s).sentTo_le hid r)

theorem Inv.fedFrom_settled (h : Inv prims w net) (hid : w.setup.frostIdByName s = some sid)
    (hsettled : Settled net s r) : fedFrom net sid r = putOut w net s sid r := by
  have hsent : sentTo w sid (net.party s) r = copiesTo w sid r (net.party s).taken := by
    unfold sentTo
    split
    · next final msg i hpc => exact absurd hpc (hsettled.sent final msg i)
    · rfl
  rw [h.fedFrom_eq hid, h.putOut_eq, hsettled.outbox, List.append_nil,
    (h.party r).reads.taken_eq hsettled.rest, hsettled.returned, List.take_length,
    h.sent s sid hid r, hsent]

theorem turn_isSome (hpoll : q.pc ≠ .poll) (hrunning : ∀ error, q.pc ≠ .stopped error)
    (draw : Draw) : (turn prims w p sid draw q).isSome := by
  unfold turn
  split
  · rfl
  · split <;> rfl
  · split <;> rfl
  · next hpc => exact absurd hpc hpoll
  · split <;> rfl
  · next hpc => exact absurd hpc (hrunning _)

/-- A loop that has not returned gets an answer to its poll, or makes a step. -/
theorem Inv.can_go_on (h : Inv prims w net) (hid : w.setup.frostIdByName p = some sid)
    (hrunning : ∀ error, (net.party p).pc ≠ .stopped error) :
    (∀ whole, (step prims w net (.getMessages p whole (net.log p).length)).isSome) ∨
      ∀ draw, (step prims w net (.turn p draw)).isSome := by
  by_cases hpc : (net.party p).pc = .poll
  · left
    intro whole
    have hle := (h.party p).reads.returned_le
    simp [step, hid, Polling.Reader.poll, hle, hpc]
  · right
    intro draw
    have hsome : (RunSession.turn prims w p sid draw (net.party p)).isSome :=
      turn_isSome hpc hrunning draw
    obtain ⟨⟨q, posted⟩, hturn⟩ := Option.isSome_iff_exists.mp hsome
    simp [step, hid, hturn]

/-- The frames of one session reach another once, in order and unchanged, and no loop fails, as
long as the recipients have names, JSON leaves the names alone and the numbers are new to the
recipients. -/
theorem sessions_fifo (doc : prims.Documented) {acts : List Action}
    (hg : Runs.Guarded (step prims w) (Deliverable w) (init w) acts)
    (hr : run prims w acts = some net) :
    (∀ s sid, w.setup.frostIdByName s = some sid → ∀ r,
      fedFrom net sid r <+: putOut w net s sid r ∧
      (Settled net s r → fedFrom net sid r = putOut w net s sid r)) ∧
    (∀ p error, (net.party p).pc = .stopped (some error) → error = .cancelled) ∧
    ∀ p pid, w.setup.frostIdByName p = some pid → (∀ error, (net.party p).pc ≠ .stopped error) →
      (∀ whole, (step prims w net (.getMessages p whole (net.log p).length)).isSome) ∨
        ∀ draw, (step prims w net (.turn p draw)).isSome := by
  have h := inv_run doc hg hr
  refine ⟨?_, ?_, ?_⟩
  · intro s sid hid r
    exact ⟨h.fedFrom_le hid, h.fedFrom_settled hid⟩
  · intro p
    exact (h.party p).unfailing
  · intro p pid hid hrunning
    exact h.can_go_on hid hrunning

/-! ## A message for one party, and one that nobody gets -/

/-- "b" tells the others something, and everyone waits for a message. -/
def sampleBody (p : GoString) : Ceremony Bytes := do
  if p = ascii "b" then FrostChannel.broadcast [7]
  let (_, data) ← FrostChannel.recv
  return data

theorem sampleBody_framed (p : GoString) (fed : List Bytes) :
    ∀ msg ∈ (sampleBody p).outs fed, 2 ≤ msg.length := by
  unfold sampleBody
  split
  · cases fed <;> simp [FrostChannel.broadcast, FrostChannel.recv, Proc.output, Proc.input,
      length_u16ToLeBytes]
  · cases fed <;> simp [FrostChannel.recv, Proc.input]

def sampleSetting (parties : List GoString) (hdistinct : parties.Nodup)
    (hsmall : (buildPartyInfo parties).length < 2 ^ 16) : Setting Bytes where
  sessionID := ascii "s"
  allParties := parties
  distinct := hdistinct
  setup := ⟨3, 2, buildPartyInfo parties⟩
  numbered := List.prefix_rfl
  small := hsmall
  body := sampleBody
  framed := sampleBody_framed
  client _ := { encryptionKey := none }
  key := none
  sameKey _ := rfl

def sampleDraw : Draw :=
  ⟨List.replicate relaySaltLen 0, List.replicate gcmNonceSize 0, length_zeroSalt,
    length_zeroNonce⟩

/-- "b" sends what it has, and "c" polls once. -/
def sampleActions (k turns : Nat) : List Action :=
  List.replicate turns (.turn (ascii "b") sampleDraw) ++
    [.turn (ascii "c") sampleDraw, .turn (ascii "c") sampleDraw, .getMessages (ascii "c") true k,
      .turn (ascii "c") sampleDraw]

def namedSetting : Setting Bytes := sampleSetting [ascii "b", ascii "c"] (by decide) (by decide)

theorem sessions_fifo_sample : ∃ net, run samplePrims namedSetting (sampleActions 1 5) = some net ∧
    fedFrom net 1 (ascii "c") = [[1, 0, 7]] ∧
    fedFrom net 1 (ascii "c") <+: putOut namedSetting net (ascii "b") 1 (ascii "c") := by
  have hrun : (run samplePrims namedSetting (sampleActions 1 5)).map
      (fedFrom · 1 (ascii "c")) = some [[1, 0, 7]] := by decide +kernel
  obtain ⟨net, hnet, hfed⟩ := Option.map_eq_some_iff.mp hrun
  have hcount : ∀ p, (namedSetting.client p).seqCounter.toNat + (sampleActions 1 5).length < 2 ^ 64 :=
    fun _ => show 0 + 9 < 2 ^ 64 by omega
  have hfresh : Fresh namedSetting := fun _ _ _ h => absurd h List.not_mem_nil
  have hg := (guarded_of_names samplePrims_documented (by decide) hfresh hcount).1
  exact ⟨net, hnet, hfed, ((sessions_fifo samplePrims_documented hg hnet).1 _ _ (by decide) _).1⟩

def unnamedSetting : Setting Bytes :=
  sampleSetting [[], ascii "b", ascii "c"] (by decide) (by decide)

/-- The party without a name is the first recipient, and the frame goes to nobody. -/
theorem unnamed_recipient :
    ∃ net, run samplePrims unnamedSetting (sampleActions 0 4) = some net ∧
      Settled net (ascii "b") (ascii "c") ∧
      fedFrom net 2 (ascii "c") ≠ putOut unnamedSetting net (ascii "b") 2 (ascii "c") := by
  have hrun : (run samplePrims unnamedSetting (sampleActions 0 4)).map (fun net =>
      ((net.party (ascii "b")).session.outbox, (net.party (ascii "b")).pc,
        putOut unnamedSetting net (ascii "b") 2 (ascii "c"))) =
      some ([], .poll, [[2, 0, 7]]) := by decide +kernel
  have hrun' : (run samplePrims unnamedSetting (sampleActions 0 4)).map (fun net =>
      (net.log (ascii "c"), (net.party (ascii "c")).reader.returned,
        (net.party (ascii "c")).reader.rest, fedFrom net 2 (ascii "c"))) =
      some ([], 0, [], []) := by decide +kernel
  obtain ⟨net, hnet, hsender⟩ := Option.map_eq_some_iff.mp hrun
  rw [hnet, Option.map_some, Option.some_inj] at hrun'
  simp only [Prod.mk.injEq] at hsender hrun'
  obtain ⟨houtbox, hpc, hput⟩ := hsender
  obtain ⟨hlog, hreturned, hrest, hfed⟩ := hrun'
  refine ⟨net, hnet, ⟨houtbox, ?_, ?_, hrest⟩, ?_⟩
  · rw [hpc]
    exact nofun
  · rw [hreturned, hlog]
    rfl
  · rw [hfed, hput]
    decide

end RunSession
