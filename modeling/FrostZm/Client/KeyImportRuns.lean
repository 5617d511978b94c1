import FrostZm.Ceremony.Importing
import FrostZm.Ceremony.Rounds
import FrostZm.Client.Exchanges
import FrostZm.Client.KeyImport
import FrostZm.Frozt.ImportRuns

/-!
# What a key import with the Zcash client may do

The contract of a run says which messages it posts and what may stop it. Beside the rules for the
requests stand the results of the library's calls in the rounds of a deal.
-/

set_option linter.unusedSectionVars false

namespace KeyImport

open Relay Relay.RelayClient Collect Exchanges
open Posting (Contract)

/-! ## The contract of a run -/

/-- The relay did not answer, or it handed over a message of these ids twice. -/
def ImportError.FromRelay (repeated : GoString → Prop) : ImportError → Prop
  | .sendRound1 | .barrierRound1 | .sendRound2 | .barrierRound2 | .sendVk | .sendMetadata
  | .sendHash | .barrierHash => True
  | .collectRound1 e => RelayFault (repeated round1) e
  | .collectRound2 e => RelayFault (repeated round2) e
  | .collectVk e => RelayFault (repeated expectedVkPhase) e
  | .collectMetadata e => RelayFault (repeated metadataPhase) e
  | .collectHash e => RelayFault (repeated hashPhase) e
  | _ => False

/-- The run waits, or the relay has stopped it. -/
def Stop.FromRelay (repeated : GoString → Prop) : Stop → Prop
  | .waiting => True
  | .panics => False
  | .failed e => e.FromRelay repeated

/-- Messages of one stage depend on those of earlier ones. -/
def stage (messageID : GoString) : ℕ :=
  if messageID = round1 then 0
  else if messageID = round2 then 1
  else if messageID = expectedVkPhase then 2
  else if messageID = metadataPhase then 3
  else 4

theorem stage_le (messageID : GoString) : stage messageID ≤ 4 := by
  unfold stage
  split_ifs <;> omega

@[simp] theorem stage_round1 : stage round1 = 0 := rfl
@[simp] theorem stage_round2 : stage round2 = 1 := by decide
@[simp] theorem stage_expectedVkPhase : stage expectedVkPhase = 2 := by decide
@[simp] theorem stage_metadataPhase : stage metadataPhase = 3 := by decide
@[simp] theorem stage_hashPhase : stage hashPhase = 4 := by decide

/-- The message with its text. -/
def Post.wire (json : Json) (p : Post) : Wire :=
  ⟨p.messageID, p.toParties, json.marshal p.body, p.sequenceNo⟩

/-- A run that started with this client has the key that it had, and its messages have the numbers
that follow. -/
structure State.Follows (client : RelayClient) (st : State) : Prop where
  key : st.client.encryptionKey = client.encryptionKey
  counter : st.client.seqCounter = client.seqCounter + .ofNat st.posts.length
  numbers : st.posts.map Post.sequenceNo =
    (List.range st.posts.length).map fun i => client.seqCounter + .ofNat (i + 1)

/-- The client knows what it knew when the run started, and what it was handed before stage `j`. -/
def Known (network : Network) (client : RelayClient) (j : ℕ) (st : State) : Prop :=
  ∀ key ∈ st.client.seenSeqs, key ∈ client.seenSeqs ∨ ∃ messageID, stage messageID < j ∧
    ∃ d ∈ (network.polls messageID).flatMap Poll.deliveries, seqKey d.message = key

/-- Up to stage `k` the messages of `p` are right. If all that it is handed is right and `calm`
holds, only the relay stops it. -/
def contract (json : Json) (g : Group) (said : Said) (p : UInt16) (k : ℕ) (client : RelayClient)
    (repeated : GoString → Prop) (calm : Prop) : Contract State Stop Post where
  posts := State.posts
  keeps := State.Follows client
  emits post := stage post.messageID ≤ k → Right g said p (post.wire json)
  stops s := 5 ≤ k → calm → s.FromRelay repeated

section Rules

variable {prims : Primitives} {json : Json} {network : Network} {g : Group} {said : Said}
  {p : UInt16} {k j : ℕ} {client : RelayClient} {repeated : GoString → Prop} {calm : Prop}
  {α β : Type} {messageID : GoString} {toParties : List GoString} {body : RoundMessage}
  {error : ImportError} {pre mid post : State → Prop}

theorem State.follows_init (client : RelayClient) : (State.init client).Follows client :=
  ⟨rfl, (UInt64.add_zero _).symm, rfl⟩

theorem State.Follows.send {st : State} (h : st.Follows client) :
    State.Follows client
      ⟨{ st.client with seqCounter := st.client.seqCounter + 1 },
        st.posts ++ [⟨messageID, toParties, body, st.client.seqCounter + 1⟩]⟩ := by
  have hnext : st.client.seqCounter + 1 = client.seqCounter + .ofNat (st.posts.length + 1) := by
    rw [h.counter, UInt64.ofNat_add, UInt64.add_assoc]
    rfl
  refine ⟨h.key, ?_, ?_⟩
  · rw [List.length_append]
    exact hnext
  · rw [List.map_append, List.length_append, List.length_singleton, List.range_succ, List.map_append,
      h.numbers, List.map_singleton, List.map_singleton, hnext]

theorem State.Follows.read {st : State} {l : List Delivery} {c : RelayClient} (h : st.Follows client)
    (hread : HasRead l st.client c) : State.Follows client { st with client := c } :=
  ⟨hread.key.trans h.key, hread.counter.trans h.counter, h.numbers⟩

theorem known_init (network : Network) (client : RelayClient) :
    Known network client 0 (State.init client) := fun _ hk => .inl hk

theorem Known.mono {j' : ℕ} (hle : j ≤ j') {st : State} (h : Known network client j st) :
    Known network client j' st := by
  intro key hk
  exact (h key hk).imp_right fun ⟨messageID, hlt, hd⟩ => ⟨messageID, by omega, hd⟩

theorem Known.read {st : State} {c : RelayClient} (h : Known network client j st)
    (hj : j ≤ stage messageID)
    (hread : HasRead ((network.polls messageID).flatMap Poll.deliveries) st.client c) :
    Known network client (stage messageID + 1) { st with client := c } := by
  intro key hk
  rcases hread.seen key hk with hold | hnew
  · exact h.mono (by omega) key hold
  · exact .inr ⟨messageID, Nat.lt_succ_self _, hnew⟩

theorem meets_bind {x : ImportM α} {f : α → ImportM β} {r : α → Prop} {q : β → Prop}
    (hx : (contract json g said p k client repeated calm).Meets pre x mid r)
    (hf : ∀ a, r a → (contract json g said p k client repeated calm).Meets mid (f a) post q) :
    (contract json g said p k client repeated calm).Meets pre (x >>= f : ImportM β) post q :=
  Contract.Meets.bind hx hf

theorem meets_pure {a : α} {r : α → Prop} (h : r a) :
    (contract json g said p k client repeated calm).Meets pre (pure a : ImportM α) pre r :=
  Contract.meets_pure h

theorem meets_fail {r : α → Prop} (h : 5 ≤ k → calm → error.FromRelay repeated) :
    (contract json g said p k client repeated calm).Meets pre (fail error : ImportM α) post r :=
  Contract.meets_stop (e := Stop.failed error) h

theorem meets_call {error : Fault → ImportError} {x : Result α}
    (h : 5 ≤ k → calm → ∃ a, x = .ok a) :
    (contract json g said p k client repeated calm).Meets pre (call error x) pre
      fun a => x = .ok a := by
  cases x with
  | ok a => exact meets_pure rfl
  | error f =>
    apply meets_fail
    intro hk hcalm
    obtain ⟨a, ha⟩ := h hk hcalm
    simp at ha

theorem meets_orFail {x : Option α} (h : 5 ≤ k → calm → ∃ a, x = some a) :
    (contract json g said p k client repeated calm).Meets pre (orFail error x) pre
      fun a => x = some a := by
  cases x with
  | some a => exact meets_pure rfl
  | none =>
    apply meets_fail
    intro hk hcalm
    obtain ⟨a, ha⟩ := h hk hcalm
    simp at ha

theorem meets_send
    (h : stage messageID ≤ k → ∀ number,
      Right g said p ⟨messageID, toParties, json.marshal body, number⟩)
    (herror : error.FromRelay repeated) :
    (contract json g said p k client repeated calm).Meets (Known network client j)
      (send network messageID toParties body error) (Known network client j) fun _ => True := by
  intro st hst hknown
  refine ⟨⟨hst.send, [⟨messageID, toParties, body, st.client.seqCounter + 1⟩], rfl,
    List.forall_mem_singleton.mpr fun hk => h hk _⟩, fun _ _ => trivial, fun _ _ => hknown, ?_⟩
  intro e he hk hcalm
  unfold send at he
  dsimp only at he
  split at he
  · simp at he
  · rw [← Except.error.inj he]
    exact herror

theorem meets_waitForBarrier (herror : error.FromRelay repeated) :
    (contract json g said p k client repeated calm).Meets pre
      (waitForBarrier network messageID error) pre fun _ => True := by
  unfold waitForBarrier
  split
  · exact meets_pure trivial
  · exact meets_fail fun _ _ => herror

theorem meets_collectMessages {ids : List UInt16} {entry : UInt16 → RoundMessage} {expected : Int}
    {error : CollectError → ImportError} (hj : j ≤ stage messageID)
    (hentry : ∀ s ∈ ids, (entry s).senderID = s) (hlen : (ids.length : Int) ≤ expected)
    (hall : stage messageID < k → ∀ d ∈ (network.polls messageID).flatMap Poll.deliveries,
      ∃ s ∈ ids, entryOf prims json.roundMessage client d = some (entry s))
    (hcalm : calm → Unseen client network.polls repeated)
    (herror : ∀ e, RelayFault (repeated messageID) e → (error e).FromRelay repeated) :
    (contract json g said p k client repeated calm).Meets (Known network client j)
      (collectMessages prims json network messageID expected error)
      (Known network client (stage messageID + 1)) fun l =>
        stage messageID < k → expected ≤ ids.length ∧
          ∃ order : List UInt16, order.Perm ids ∧ l = order.map entry := by
  intro st hst hknown
  have hall' : stage messageID < k → ∀ d ∈ (network.polls messageID).flatMap Poll.deliveries,
      ∃ s ∈ ids, entryOf prims json.roundMessage st.client d = some (entry s) := by
    intro hk d hd
    rw [entryOf_congr hst.key d]
    exact hall hk d hd
  unfold collectMessages
  split
  · exact Contract.meets_stop (e := Stop.waiting) (fun _ _ => trivial) st hst hknown
  · next e hgather =>
    refine meets_fail ?_ st hst hknown
    intro hk hc
    have hstage := stage_le messageID
    have hfault := gather_error (fun d hd => by
      obtain ⟨s, -, hd⟩ := hall' (by omega) d hd
      exact readable_of_entryOf hd) hgather
    refine herror e (hfault.imp_right (Or.imp_right fun ⟨he, hagain⟩ =>
      ⟨he, (hcalm hc).repeated (fun key hkey => ?_) hagain⟩))
    -- what was known came under the ids of earlier stages
    rcases hknown key hkey with hold | ⟨other, hlt, hd⟩
    · exact .inl hold
    · refine .inr ⟨other, ?_, hd⟩
      rintro rfl
      omega
  · next loop hgather =>
    have hread := hasRead_gather hgather
    refine ⟨⟨hst.read hread, [], (List.append_nil _).symm, by simp⟩, ?_,
      fun _ _ => hknown.read hj hread, by simp⟩
    intro l hl hk
    obtain rfl := Except.ok.inj hl
    exact gather_ok hentry (hall' hk) hlen hgather

end Rules

/-! ## Maps of the library -/

section Library

open Ceremony

variable {F G Rng : Type} [Field F] [DecidableEq F] [Ord F] [Std.TransOrd F] [Std.LawfulEqOrd F]
  [AddCommGroup G] [Module F G] {lib : FroztLib F G Rng} {n minSigners p : UInt16}
  {deal : Deal lib.toFrostCore n minSigners} {order : List UInt16} {bytes : UInt16 → Bytes}

theorem goSlice_of_ne_nil {b : Bytes} (h : b ≠ []) : Signing.goSlice b = some b := if_neg h

theorem goSlice_roundData (core : FrostCore F G Rng) (ident : UInt16 → Identifier F) :
    Signing.goSlice (roundData core ident bytes order) = some (roundData core ident bytes order) := by
  apply goSlice_of_ne_nil
  unfold roundData encodeFields
  intro h
  have hlen := congrArg List.length h
  simp [length_u32ToLeBytes] at hlen

theorem froztEncodeMap_eq (horder : ∀ s ∈ order, s ∈ deal.ids) :
    froztEncodeMap lib (order.map fun s => (s, bytes s)) =
      roundData lib.toFrostCore deal.ident bytes order := by
  unfold froztEncodeMap roundData
  rw [List.filterMap_map]
  congr 1
  rw [← List.filterMap_eq_map]
  apply List.filterMap_congr
  intro s hs
  simp [Identifiers.encodeIdentifier, deal.tryFrom s (horder s hs), okOr, bind, Except.bind, pure,
    Except.pure, Except.toOption]

theorem decodeIdentifier_toOption (doc : lib.toFrostCore.Documented)
    (hne : ∀ id, lib.serializeIdentifier id ≠ []) {s : UInt16} (hs : s ∈ deal.ids) :
    (Identifiers.decodeIdentifier lib.toFrostCore
      (Signing.goSlice (lib.serializeIdentifier (deal.ident s)))).toOption =
        if s ≤ 256 then some s else none := by
  have hlookup : Identifiers.decodeIdentifier lib.toFrostCore
      (Signing.goSlice (lib.serializeIdentifier (deal.ident s))) =
      okOr .invalidIdentifier (Identifiers.idLookup lib.toFrostCore
        (lib.serializeIdentifier (deal.ident s))) := by
    simp [Identifiers.decodeIdentifier, goSlice_of_ne_nil (hne _), doc.identifier_roundtrip, okOr,
      bind, Except.bind, Identifiers.identifierToU16]
  have htable : ∀ id, Identifiers.idLookup lib.toFrostCore (lib.serializeIdentifier (deal.ident s)) =
      some id ↔ id = s ∧ s ≤ 256 := by
    intro id
    rw [Identifiers.idLookup_eq_some doc]
    constructor
    · rintro ⟨hid, hle⟩
      obtain rfl := doc.tryFrom_inj hid (deal.tryFrom s hs)
      exact ⟨rfl, hle⟩
    · rintro ⟨rfl, hle⟩
      exact ⟨deal.tryFrom id hs, hle⟩
  rw [hlookup]
  cases hfound : Identifiers.idLookup lib.toFrostCore (lib.serializeIdentifier (deal.ident s)) with
  | some id =>
    obtain ⟨rfl, hle⟩ := (htable id).mp hfound
    rw [if_pos hle]
    rfl
  | none =>
    have hnot : ¬ s ≤ 256 := by
      intro hle
      rw [(htable s).mpr ⟨rfl, hle⟩] at hfound
      simp at hfound
    rw [if_neg hnot]
    rfl

theorem mapM_eq_some_iff {α β : Type} {l : List α} {f : α → Option β} {value : α → β}
    {P : α → Prop} [DecidablePred P] (hf : ∀ a ∈ l, f a = if P a then some (value a) else none)
    {values : List β} : l.mapM f = some values ↔ values = l.map value ∧ ∀ a ∈ l, P a := by
  induction l generalizing values with
  | nil => simp [eq_comm]
  | cons a l ih =>
    rw [List.forall_mem_cons] at hf ⊢
    rw [List.mapM_cons, hf.1, List.map_cons]
    by_cases hP : P a
    · simp only [if_pos hP, Option.bind_eq_bind, Option.bind_some, Option.bind_eq_some_iff]
      constructor
      · rintro ⟨rest, hrest, hvalues⟩
        obtain ⟨rfl, hall⟩ := (ih hf.2).mp hrest
        exact ⟨(Option.some.inj hvalues).symm, hP, hall⟩
      · rintro ⟨rfl, -, hall⟩
        exact ⟨_, (ih hf.2).mpr ⟨rfl, hall⟩, rfl⟩
    · simp [hP]

theorem froztDecodeMap_eq_some (doc : lib.toFrostCore.Documented) (short : lib.toFrostCore.ShortPackages)
    (hne : ∀ id, lib.serializeIdentifier id ≠ []) (hlen : order.length < 2 ^ 32)
    (horder : ∀ s ∈ order, s ∈ deal.ids ∧ (bytes s).length < 2 ^ 32) {entries : List (UInt16 × Bytes)} :
    froztDecodeMap lib (roundData lib.toFrostCore deal.ident bytes order) = some entries ↔
      (entries = order.map fun s => (s, bytes s)) ∧ ∀ s ∈ order, s ≤ 256 := by
  have hgeneric : MapCodec.goDecodeMap (roundData lib.toFrostCore deal.ident bytes order) =
      .ok (order.map fun s => (lib.serializeIdentifier (deal.ident s), bytes s)) := by
    rw [MapCodec.goDecodeMap_eq_ok]
    apply MapCodec.frames_encodeFields.mpr
    constructor
    · simpa using hlen
    · intro e he
      obtain ⟨s, hs, rfl⟩ := List.mem_map.mp he
      exact ⟨short.identifier _, (horder s hs).2⟩
  unfold froztDecodeMap
  rw [hgeneric]
  simp only [Except.toOption, Option.bind_some, List.mapM_map]
  apply mapM_eq_some_iff
  intro s hs
  have hdecode := decodeIdentifier_toOption doc hne (horder s hs).1
  unfold Except.toOption at hdecode
  rw [Function.comp_apply, hdecode]
  split <;> rfl

section Rounds

variable (doc : lib.toFrostCore.Documented) (short : lib.toFrostCore.ShortPackages)
  (hbytes : ∀ s ∈ deal.ids, lib.serializeRound1 (deal.package s) = some (bytes s))
  (hp : p ∈ deal.ids) (horder : order.Perm (deal.others p))
include doc short hbytes hp horder

theorem froztDkgPart2_ok : ∃ order' : List UInt16, order'.Perm (deal.others p) ∧
    froztDkgPart2 lib (deal.secret p) (roundData lib.toFrostCore deal.ident bytes order) =
      .ok (deal.secret2 p, roundData lib.toFrostCore deal.ident (deal.round2Bytes p) order') := by
  obtain ⟨order', hperm, hpart2⟩ := Deal.dkgPart2_ok hbytes doc short hp horder
  refine ⟨order', hperm, ?_⟩
  unfold froztDkgPart2
  rw [goSlice_roundData, okOr_some]
  exact hpart2

theorem froztKeyImportPart3_ok (hmin : minSigners ≠ 0) {order₂ : List UInt16}
    (horder₂ : order₂.Perm (deal.others p)) {vk kp pkp : Bytes} (hne : vk ≠ [])
    (hvk : lib.serializeVerifyingKey (deal.groupSecret • lib.generator) = some vk)
    (hkp : lib.serializeKeyPackage (deal.key p) = some kp)
    (hpkp : lib.serializePublicKeyPackage (deal.publicKey p) = some pkp) :
    froztKeyImportPart3 lib (deal.secret2 p) (roundData lib.toFrostCore deal.ident bytes order)
      (roundData lib.toFrostCore deal.ident (fun s => deal.round2Bytes s p) order₂) vk =
        .ok (kp, pkp) := by
  have hpart3 : Ceremony.keyImportPart3 lib.toFrostCore (deal.secret2 p)
      (roundData lib.toFrostCore deal.ident bytes order)
      (roundData lib.toFrostCore deal.ident (fun s => deal.round2Bytes s p) order₂) vk =
        .ok (deal.key p, deal.publicKey p) :=
    Deal.checkedPart3_ok hbytes doc short hmin hp horder horder₂ hvk
  unfold froztKeyImportPart3
  rw [goSlice_roundData, goSlice_roundData, goSlice_of_ne_nil hne]
  simp [okOr, bind, Except.bind, hpart3, hkp, hpkp, pure, Except.pure]

end Rounds

end Library

/-! ## Parties that import a key together -/

/-- The first of the sorted names has the seed. -/
structure Setting (Rng : Type) where
  sessionID : GoString
  allParties : List GoString
  distinct : allParties.Nodup
  small : allParties.length < 65536
  minSigners : UInt16
  config : UInt16 → Config
  rng : UInt16 → Rng
  client : UInt16 → RelayClient
  key : Option Bytes
  sameKey : ∀ p, (client p).encryptionKey = key
  network : UInt16 → Network

namespace Setting

section Parties

variable {Rng : Type} (w : Setting Rng)

def maxSigners : UInt16 := .ofNat w.allParties.length

def ids : List UInt16 := Ceremony.upTo w.maxSigners

def name (p : UInt16) : GoString := (buildPartyIdentifierMap w.allParties p).getD []

def group : Group := ⟨w.ids, w.name, w.sessionID, w.key⟩

def party (p : UInt16) : Party := ⟨w.name p, p, w.maxSigners, w.minSigners, w.allParties⟩

variable {w} {p q : UInt16}

theorem toNat_maxSigners : w.maxSigners.toNat = w.allParties.length := by
  unfold maxSigners
  rw [UInt16.toNat_ofNat']
  exact Nat.mod_eq_of_lt w.small

theorem mem_ids_iff : p ∈ w.ids ↔ ∃ name, ⟨p, name⟩ ∈ RunSession.buildPartyInfo w.allParties := by
  have hnumbers := PartyOrder.gapless w.small
  have hmem : p.toNat ∈ (RunSession.buildPartyInfo w.allParties).map (·.frostId.toNat) ↔ p ∈ w.ids := by
    have hzero : p ≠ 0 ↔ p.toNat ≠ 0 := by
      rw [ne_eq, ← UInt16.toNat_inj]
      rfl
    rw [hnumbers, List.mem_range'_1, ids, Ceremony.mem_upTo, UInt16.le_iff_toNat_le, toNat_maxSigners,
      hzero]
    omega
  rw [← hmem, List.mem_map]
  constructor
  · rintro ⟨e, he, heq⟩
    obtain rfl := UInt16.toNat_inj.mp heq
    exact ⟨e.name, he⟩
  · rintro ⟨name, h⟩
    exact ⟨_, h, rfl⟩

theorem identifierMap_eq (hp : p ∈ w.ids) :
    buildPartyIdentifierMap w.allParties p = some (w.name p) := by
  obtain ⟨name, hname⟩ := mem_ids_iff.mp hp
  rw [Setting.name, (PartyOrder.buildPartyIdentifierMap_eq_some w.small).mpr hname]
  rfl

theorem name_inj (hp : p ∈ w.ids) (hq : q ∈ w.ids) : w.name p = w.name q ↔ p = q := by
  constructor
  · intro h
    have hmem := (PartyOrder.buildPartyIdentifierMap_eq_some w.small).mp (identifierMap_eq hp)
    have hmem' := (PartyOrder.buildPartyIdentifierMap_eq_some w.small).mp (identifierMap_eq hq)
    rw [← h] at hmem'
    exact congrArg PartyEntry.frostId
      (List.inj_on_of_nodup_map (PartyOrder.nodup_buildPartyInfo_names w.distinct) hmem hmem' rfl)
  · rintro rfl
    rfl

theorem name_mem (hp : p ∈ w.ids) : w.name p ∈ w.allParties :=
  (PartyOrder.numbers_of_nodup w.distinct w.small).all.mem_iff.mp (List.mem_map_of_mem
    ((PartyOrder.buildPartyIdentifierMap_eq_some w.small).mp (identifierMap_eq hp)))

theorem mem_others_iff (hp : p ∈ w.ids) (hq : q ∈ w.ids) :
    w.name q ∈ (w.party p).others ↔ q ≠ p := by
  unfold Party.others
  rw [List.mem_filter]
  simp [party, name_mem hq, name_inj hq hp]

theorem coordinator_eq (h : w.ids ≠ []) :
    PartyOrder.getCoordinatorPartyID w.allParties = some (w.name 1) := by
  obtain ⟨p, hp⟩ := List.exists_mem_of_ne_nil _ h
  rw [PartyOrder.getCoordinatorPartyID_eq w.small]
  apply identifierMap_eq
  exact Ceremony.mem_upTo.mpr ⟨by decide, Ceremony.one_le_of_mem_upTo hp⟩

end Parties

end Setting

end KeyImport
