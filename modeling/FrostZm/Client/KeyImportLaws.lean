import FrostZm.Client.KeyImportRuns

/-!
# What a key import with the Zcash client returns

Every message of an honest run is the one that the script has for it, stage by stage, so every run
that returns has the keys of one deal.
-/

set_option linter.unusedSectionVars false

namespace KeyImport

open Relay Relay.RelayClient Collect Exchanges Ceremony
open Posting (Contract)

/-- What was marshalled is read back. The texts are in base64 or hex. -/
structure Json.Documented (json : Json) (prims : Primitives) : Prop where
  base64 : ∀ id b r, json.roundMessage (json.marshal ⟨id, prims.base64Encode b, r⟩) =
    some ⟨id, prims.base64Encode b, r⟩
  hex : ∀ id b r, json.roundMessage (json.marshal ⟨id, hexEncode b, r⟩) = some ⟨id, hexEncode b, r⟩

variable {F G Rng : Type} [Field F] [DecidableEq F] [Ord F] [Std.TransOrd F] [Std.LawfulEqOrd F]
  [AddCommGroup G] [Module F G]

/-! ## The script -/

/-- What the parties draw and compute, if all calls of the library succeed. -/
structure Script (lib : FroztLib F G Rng) (w : Setting Rng) where
  deal : Deal lib.toFrostCore w.maxSigners w.minSigners
  ids : deal.ids = w.ids
  threshold : w.minSigners ≠ 0
  bytes : UInt16 → Bytes
  serialized : ∀ s ∈ deal.ids, lib.serializeRound1 (deal.package s) = some (bytes s)
  vk : Bytes
  vk_ne_nil : vk ≠ []
  vk_eq : lib.serializeVerifyingKey (deal.groupSecret • lib.generator) = some vk
  extras : Bytes
  length_extras : extras.length = 96
  part1 : ∀ p ∈ deal.ids, froztKeyImportPart1 lib p w.maxSigners w.minSigners
    (if p = 1 then (w.config p).seed else []) (w.config p).accountIndex (w.rng p) =
      .ok (deal.secret p, bytes p, if p = 1 then (vk, extras) else ([], []))
  keyBytes : UInt16 → Bytes
  keyBytes_eq : ∀ p ∈ deal.ids, lib.serializeKeyPackage (deal.key p) = some (keyBytes p)
  pubBytes : UInt16 → Bytes
  pubBytes_eq : ∀ p ∈ deal.ids, lib.serializePublicKeyPackage (deal.publicKey p) = some (pubBytes p)

namespace Script

variable (prims : Primitives) (json : Json) {lib : FroztLib F G Rng} {w : Setting Rng}
  (s : Script lib w)

def metadata : Bytes := Frozt.metadataVersion :: u64ToLeBytes (w.config 1).birthday ++ s.extras

/-- The ids of all packages that this party makes can be read back. -/
def CanSend (q : UInt16) : Prop := ∀ r ∈ s.deal.others q, r ≤ 256

instance canSendDecidable (q : UInt16) : Decidable (s.CanSend q) :=
  inferInstanceAs (Decidable (∀ r ∈ s.deal.others q, r ≤ 256))

/-- What `q` tells `p` under an id. -/
def told (messageID : GoString) (q p : UInt16) : Option RoundMessage :=
  if messageID = round1 then some ⟨q, prims.base64Encode (s.bytes q), 0⟩
  else if messageID = round2 then
    if s.CanSend q then some ⟨q, prims.base64Encode (s.deal.round2Bytes q p), p⟩ else none
  else if messageID = expectedVkPhase then
    if q = 1 then some ⟨q, prims.base64Encode s.vk, 0⟩ else none
  else if messageID = metadataPhase then
    if q = 1 then some ⟨q, prims.base64Encode s.metadata, 0⟩ else none
  else some ⟨q, hexEncode (lib.blake2b s.metadata), 0⟩

def said : Said := fun messageID q p => (s.told prims messageID q p).map json.marshal

/-- What the run of `p` returns. -/
def result (p : UInt16) : KeygenResult :=
  ⟨s.keyBytes p, s.pubBytes p, s.extras, (w.config 1).birthday⟩

/-- All that `p` is handed up to a stage is what the script says. -/
def Heard (p : UInt16) (k : ℕ) : Prop :=
  ∀ messageID, stage messageID < k → ∀ d ∈ ((w.network p).polls messageID).flatMap Poll.deliveries,
    ∃ q ∈ s.deal.ids, q ≠ p ∧ ∃ body, s.told prims messageID q p = some body ∧
      entryOf prims json.roundMessage { encryptionKey := w.key } d = some body

variable {prims json s} {p q : UInt16} {k : ℕ}

theorem told_round1 : s.told prims round1 q p = some ⟨q, prims.base64Encode (s.bytes q), 0⟩ := rfl

theorem told_round2 : s.told prims round2 q p =
    if s.CanSend q then some ⟨q, prims.base64Encode (s.deal.round2Bytes q p), p⟩ else none := by
  have h1 : round2 ≠ round1 := by decide
  unfold told
  rw [if_neg h1, if_pos rfl]

theorem told_expectedVk : s.told prims expectedVkPhase q p =
    if q = 1 then some ⟨q, prims.base64Encode s.vk, 0⟩ else none := by
  have h1 : expectedVkPhase ≠ round1 := by decide
  have h2 : expectedVkPhase ≠ round2 := by decide
  unfold told
  rw [if_neg h1, if_neg h2, if_pos rfl]

theorem told_metadata : s.told prims metadataPhase q p =
    if q = 1 then some ⟨q, prims.base64Encode s.metadata, 0⟩ else none := by
  have h1 : metadataPhase ≠ round1 := by decide
  have h2 : metadataPhase ≠ round2 := by decide
  have h3 : metadataPhase ≠ expectedVkPhase := by decide
  unfold told
  rw [if_neg h1, if_neg h2, if_neg h3, if_pos rfl]

theorem told_hash : s.told prims hashPhase q p =
    some ⟨q, hexEncode (lib.blake2b s.metadata), 0⟩ := by
  have h1 : hashPhase ≠ round1 := by decide
  have h2 : hashPhase ≠ round2 := by decide
  have h3 : hashPhase ≠ expectedVkPhase := by decide
  have h4 : hashPhase ≠ metadataPhase := by decide
  unfold told
  rw [if_neg h1, if_neg h2, if_neg h3, if_neg h4]

theorem readable_told (hjson : json.Documented prims) {messageID : GoString} {body : RoundMessage}
    (h : s.told prims messageID q p = some body) :
    json.roundMessage (json.marshal body) = some body := by
  unfold told at h
  split_ifs at h
  all_goals
    obtain rfl := Option.some.inj h
  · exact hjson.base64 _ _ _
  · exact hjson.base64 _ _ _
  · exact hjson.base64 _ _ _
  · exact hjson.base64 _ _ _
  · exact hjson.hex _ _ _

theorem mem_ids : q ∈ s.deal.ids ↔ q ≠ 0 ∧ q ≤ w.maxSigners := by
  rw [s.ids]
  exact mem_upTo

theorem canSend_of_le (h : w.maxSigners ≤ 256) (q : UInt16) : s.CanSend q := by
  intro r hr
  exact UInt16.le_trans (mem_ids.mp (Deal.mem_others.mp hr).2).2 h

/-- One of the first two parties makes a package for the last one. -/
theorem maxSigners_le (h : ∀ q ∈ s.deal.others p, s.CanSend q) : w.maxSigners ≤ 256 := by
  by_contra hlt
  rw [UInt16.le_iff_toNat_le] at hlt
  have h256 : (256 : UInt16).toNat = 256 := rfl
  obtain ⟨q, hqp, hq0, hq2⟩ : ∃ q : UInt16, q ≠ p ∧ q ≠ 0 ∧ q.toNat ≤ 2 := by
    by_cases hp : p = 1
    · exact ⟨2, by rw [hp]; decide, by decide, by decide⟩
    · exact ⟨1, Ne.symm hp, by decide, by decide⟩
  have hq : q ∈ s.deal.others p := by
    refine Deal.mem_others.mpr ⟨hqp, mem_ids.mpr ⟨hq0, ?_⟩⟩
    rw [UInt16.le_iff_toNat_le]
    omega
  have hlast : w.maxSigners ∈ s.deal.others q := by
    refine Deal.mem_others.mpr ⟨?_, mem_ids.mpr ⟨?_, UInt16.le_refl _⟩⟩
    · rw [ne_eq, ← UInt16.toNat_inj]
      omega
    · rw [ne_eq, ← UInt16.toNat_inj]
      have h0 : (0 : UInt16).toNat = 0 := rfl
      omega
  have hle := h q hq _ hlast
  rw [UInt16.le_iff_toNat_le] at hle
  omega

theorem expected_eq (hp : p ∈ s.deal.ids) :
    (w.party p).expected = ((s.deal.others p).length : Int) := by
  have hlen := (Deal.perm_cons_others hp).length_eq
  rw [s.deal.length, Setting.toNat_maxSigners, List.length_cons] at hlen
  unfold Party.expected
  rw [show (w.party p).allParties = w.allParties from rfl]
  omega

/-! ## One function after the other -/

section Functions

/-- All ids can be read back, and a number tells a message. -/
def Calm (w : Setting Rng) (repeated : GoString → Prop) (p : UInt16) : Prop :=
  w.maxSigners ≤ 256 ∧ Unseen (w.client p) (w.network p).polls repeated

variable (s) in
/-- What `p` posts up to a stage is what the script says, and its run ends if it is calm. -/
abbrev duty (prims : Primitives) (json : Json) (repeated : GoString → Prop) (p : UInt16) (k : ℕ) :
    Contract State Stop Post :=
  contract json w.group (s.said prims json) p k (w.client p) repeated (Calm w repeated p)

/-- What `p` was handed before stage `j` is all that is new to its client. -/
abbrev Knows (w : Setting Rng) (p : UInt16) (j : ℕ) : State → Prop :=
  Known (w.network p) (w.client p) j

variable {messageID : GoString} {error : CollectError → ImportError} {repeated : GoString → Prop}
  {i j : ℕ} {pre post : State → Prop}

theorem right_broadcast (hp : p ∈ s.deal.ids) {body : RoundMessage}
    (h : ∀ q ∈ s.deal.others p, s.told prims messageID p q = some body) (number : UInt64) :
    Right w.group (s.said prims json) p
      ⟨messageID, (w.party p).others, json.marshal body, number⟩ := by
  intro q hq hto
  rw [show w.group.ids = s.deal.ids from s.ids.symm] at hq
  have hne := (Setting.mem_others_iff (s.ids ▸ hp) (s.ids ▸ hq)).mp hto
  refine ⟨hne, ?_⟩
  unfold said
  rw [h q (Deal.mem_others.mpr ⟨hne, hq⟩)]
  rfl

theorem meets_collect (hheard : s.Heard prims json p k) {ids : List UInt16}
    {entry : UInt16 → RoundMessage} {expected : Int}
    (htold : ∀ q ∈ s.deal.others p, ∀ body, s.told prims messageID q p = some body →
      q ∈ ids ∧ body = entry q)
    (hentry : ∀ q ∈ ids, (entry q).senderID = q) (hlen : (ids.length : Int) ≤ expected)
    (herror : ∀ e, RelayFault (repeated messageID) e → (error e).FromRelay repeated)
    (hi : stage messageID = i) (hj : j ≤ i) :
    (s.duty prims json repeated p k).Meets (Knows w p j)
      (collectMessages prims json (w.network p) messageID expected error) (Knows w p (i + 1))
      fun l => i < k → expected ≤ ids.length ∧
        ∃ order : List UInt16, order.Perm ids ∧ l = order.map entry := by
  subst hi
  refine meets_collectMessages hj hentry hlen (fun hk d hd => ?_) And.right herror
  obtain ⟨q, hq, hne, body, hbody, heq⟩ := hheard messageID hk d hd
  obtain ⟨hmem, rfl⟩ := htold q (Deal.mem_others.mpr ⟨hne, hq⟩) body hbody
  exact ⟨q, hmem, (entryOf_congr (w.sameKey p) d).trans heq⟩

theorem meets_buildRoundMap {error : UInt16 → ImportError} {messages : List RoundMessage}
    (h : 5 ≤ k → ∀ m ∈ messages, ∃ b, prims.base64Decode m.data = some b) :
    (s.duty prims json repeated p k).Meets pre (buildRoundMap prims error messages) pre
      fun entries =>
        entries = messages.map fun m => (m.senderID, (prims.base64Decode m.data).getD []) := by
  induction messages with
  | nil => exact meets_pure rfl
  | cons m messages ih =>
    unfold buildRoundMap
    refine meets_bind (meets_orFail fun hk _ => h hk m List.mem_cons_self) fun data hdata => ?_
    refine meets_bind (ih fun hk m' hm' => h hk m' (List.mem_cons_of_mem _ hm'))
      fun entries hentries => ?_
    apply meets_pure
    rw [hentries, List.map_cons, hdata]
    rfl

theorem meets_sendPerRecipient {entries : List (UInt16 × Bytes)}
    (h : 1 ≤ k → s.CanSend p ∧ ∀ e ∈ entries, e.1 ∈ s.deal.others p ∧ e.2 = s.deal.round2Bytes p e.1) :
    (s.duty prims json repeated p k).Meets (Knows w p j)
      (sendPerRecipient prims (w.network p) (w.party p) entries) (Knows w p j) fun _ => True := by
  induction entries with
  | nil => exact meets_pure trivial
  | cons e entries ih =>
    have hrest : 1 ≤ k → s.CanSend p ∧
        ∀ e ∈ entries, e.1 ∈ s.deal.others p ∧ e.2 = s.deal.round2Bytes p e.1 :=
      fun hk => ⟨(h hk).1, fun e' he' => (h hk).2 e' (List.mem_cons_of_mem _ he')⟩
    have hname : 1 ≤ k → buildPartyIdentifierMap w.allParties e.1 = some (w.name e.1) := by
      intro hk
      apply Setting.identifierMap_eq
      rw [← s.ids]
      exact (Deal.mem_others.mp ((h hk).2 e List.mem_cons_self).1).2
    unfold sendPerRecipient
    refine meets_bind (meets_orFail fun hk _ => ⟨_, hname (by omega)⟩) fun recipient hrec => ?_
    refine meets_bind (meets_send ?_ trivial) fun _ _ => ih hrest
    intro hk number q hq hto
    rw [stage_round2] at hk
    obtain ⟨hcan, hall⟩ := h hk
    obtain ⟨hother, hvalue⟩ := hall e List.mem_cons_self
    obtain rfl := Option.some.inj ((hname hk).symm.trans hrec)
    obtain rfl := (Setting.name_inj hq (s.ids ▸ (Deal.mem_others.mp hother).2)).mp
      (List.mem_singleton.mp hto)
    refine ⟨(Deal.mem_others.mp hother).1, ?_⟩
    unfold said
    rw [told_round2, if_pos hcan, hvalue]
    rfl

theorem meets_shareBytes (doc : prims.Documented) (hp : p ∈ s.deal.ids)
    (hheard : s.Heard prims json p k) {data value : Bytes} {sendError decodeError : ImportError}
    (htold : ∀ q p, s.told prims messageID q p =
      if q = 1 then some ⟨q, prims.base64Encode value, 0⟩ else none)
    (hsend : sendError.FromRelay repeated)
    (herror : ∀ e, RelayFault (repeated messageID) e → (error e).FromRelay repeated)
    (hi : stage messageID = i) (hj : j ≤ i) (hdata : p = 1 → i ≤ k → data = value) :
    (s.duty prims json repeated p k).Meets (Knows w p j)
      (shareBytes prims json (w.network p) (w.party p) (decide (p = 1)) messageID data sendError
        error decodeError) (Knows w p (i + 1)) fun b => i < k → b = value := by
  have hstage := stage_le messageID
  unfold shareBytes
  by_cases hp1 : p = 1
  · rw [decide_eq_true hp1, if_pos rfl]
    refine (meets_bind (meets_send ?_ hsend) fun _ _ =>
      meets_pure fun hk => hdata hp1 (Nat.le_of_lt hk)).weaken fun _ hknown =>
        Known.mono (Nat.le_succ_of_le hj) hknown
    intro hk
    apply right_broadcast hp
    intro q _
    rw [htold, if_pos hp1, hdata hp1 (hi ▸ hk)]
    rfl
  · rw [decide_eq_false hp1, if_neg Bool.false_ne_true]
    have hone : ∀ q ∈ s.deal.others p, ∀ body, s.told prims messageID q p = some body →
        q ∈ [(1 : UInt16)] ∧ body = ⟨q, prims.base64Encode value, 0⟩ := by
      intro q _ body hbody
      rw [htold] at hbody
      split at hbody
      · next hq => exact ⟨List.mem_singleton.mpr hq, (Option.some.inj hbody).symm⟩
      · simp at hbody
    refine meets_bind (meets_collect hheard hone (fun _ _ => rfl) (Int.le_refl 1) herror hi hj)
      fun messages hmessages => ?_
    have hfirst : i < k → messages = [⟨1, prims.base64Encode value, 0⟩] := by
      intro hk
      obtain ⟨-, order, hperm, rfl⟩ := hmessages hk
      rw [List.perm_singleton.mp hperm]
      rfl
    cases messages with
    | nil =>
      refine Contract.meets_stop (e := Stop.panics) fun hk _ => ?_
      have h := hfirst (by omega)
      simp at h
    | cons m rest =>
      have hread : i < k → prims.base64Decode m.data = some value := by
        intro hk
        rw [(List.cons.inj (hfirst hk)).1]
        exact doc.base64_roundtrip value
      refine (meets_orFail fun hk _ => ⟨value, hread (by omega)⟩).mono fun b hb hk => ?_
      rw [hread hk] at hb
      exact (Option.some.inj hb).symm

theorem meets_compareHashes {myHash : GoString} {messages : List RoundMessage}
    (h : 5 ≤ k → ∀ m ∈ messages, m.data = myHash) :
    (s.duty prims json repeated p k).Meets pre (compareHashes myHash messages) pre
      fun _ => True := by
  induction messages with
  | nil => exact meets_pure trivial
  | cons m messages ih =>
    unfold compareHashes
    split
    · next hne => exact meets_fail fun hk _ => absurd (h hk m List.mem_cons_self) hne
    · exact ih fun hk m' hm' => h hk m' (List.mem_cons_of_mem _ hm')

theorem hash_metadata : keygenMetadataHash lib s.metadata = .ok (lib.blake2b s.metadata) := by
  have hlen := Frozt.length_metadata s.length_extras (w.config 1).birthday
  unfold keygenMetadataHash metadata
  rw [goSlice_of_ne_nil (by simp)]
  exact if_neg (not_not.mpr hlen)

theorem created_metadata :
    keygenMetadataCreateWithExtras s.extras (w.config 1).birthday = .ok s.metadata := by
  have hne : s.extras ≠ [] := by
    intro h
    have hlen := s.length_extras
    rw [h] at hlen
    simp at hlen
  unfold keygenMetadataCreateWithExtras
  rw [goSlice_of_ne_nil hne]
  exact if_neg (not_not.mpr s.length_extras)

theorem parsed_metadata : keygenMetadataParse s.metadata = .ok (s.extras, (w.config 1).birthday) := by
  unfold keygenMetadataParse
  rw [goSlice_of_ne_nil (by simp [metadata])]
  exact Frozt.metadataParse_create _ _ (if_neg (not_not.mpr s.length_extras))

theorem meets_verifyMetadataConsistency (hp : p ∈ s.deal.ids) (hheard : s.Heard prims json p k)
    {metadata : Bytes} (hmetadata : 3 < k → metadata = s.metadata) :
    (s.duty prims json repeated p k).Meets (Knows w p 4)
      (verifyMetadataConsistency prims json (w.network p) lib (w.party p) metadata) (Knows w p 5)
      fun _ => True := by
  have hhash : 3 < k → keygenMetadataHash lib metadata = .ok (lib.blake2b s.metadata) := by
    intro hk
    rw [hmetadata hk]
    exact hash_metadata
  unfold verifyMetadataConsistency
  refine meets_bind (meets_call fun hk _ => ⟨_, hhash (by omega)⟩) fun hashBytes hbytes => ?_
  have heq : 3 < k → hashBytes = lib.blake2b s.metadata := by
    intro hk
    rw [hhash hk] at hbytes
    exact (Except.ok.inj hbytes).symm
  refine meets_bind (meets_send ?_ trivial) fun _ _ =>
    meets_bind (meets_waitForBarrier trivial) fun _ _ => ?_
  · intro hk
    rw [stage_hashPhase] at hk
    apply right_broadcast hp
    intro q _
    rw [told_hash, heq (by omega)]
    rfl
  have htold : ∀ q ∈ s.deal.others p, ∀ body, s.told prims hashPhase q p = some body →
      q ∈ s.deal.others p ∧ body = ⟨q, hexEncode (lib.blake2b s.metadata), 0⟩ := by
    intro q hq body hbody
    rw [told_hash] at hbody
    exact ⟨hq, (Option.some.inj hbody).symm⟩
  refine meets_bind (meets_collect hheard htold (fun _ _ => rfl) (expected_eq hp).symm.le
    (fun _ h => h) stage_hashPhase (Nat.le_refl 4))
    fun messages hmessages => meets_compareHashes fun hk m hm => ?_
  obtain ⟨-, order, -, rfl⟩ := hmessages (by omega)
  obtain ⟨q, -, rfl⟩ := List.mem_map.mp hm
  rw [heq (by omega)]

theorem meets_exchangeImportMetadata (primsDoc : prims.Documented) (hp : p ∈ s.deal.ids)
    (hheard : s.Heard prims json p k) {extras : Bytes} (hextras : p = 1 → extras = s.extras) :
    (s.duty prims json repeated p k).Meets (Knows w p 3)
      (exchangeImportMetadata prims json (w.network p) lib (w.party p) (decide (p = 1)) extras
        (w.config p).birthday) (Knows w p 5)
      fun r => 5 ≤ k → r = (s.extras, (w.config 1).birthday) := by
  have hcreate : (s.duty prims json repeated p k).Meets (Knows w p 3) (if decide (p = 1) = true then
      call .createMetadata (keygenMetadataCreateWithExtras extras (w.config p).birthday)
      else pure [] : ImportM Bytes) (Knows w p 3) fun created => p = 1 → created = s.metadata := by
    by_cases hp1 : p = 1
    · have hcreated : keygenMetadataCreateWithExtras extras (w.config p).birthday =
          .ok s.metadata := by
        rw [hextras hp1, hp1]
        exact created_metadata
      rw [if_pos (decide_eq_true hp1), hcreated]
      exact meets_pure fun _ => rfl
    · rw [if_neg (by simpa using hp1)]
      exact meets_pure fun h => absurd h hp1
  unfold exchangeImportMetadata
  refine meets_bind hcreate fun created hcreated => ?_
  refine meets_bind (meets_shareBytes primsDoc hp hheard (fun _ _ => told_metadata) trivial
    (fun _ h => h) stage_metadataPhase (Nat.le_refl 3) fun h _ => hcreated h)
    fun metadata hmetadata => ?_
  refine meets_bind (meets_call fun hk _ => ⟨_, hmetadata (by omega) ▸ parsed_metadata⟩) ?_
  rintro ⟨parsedExtras, agreedBirthday⟩ hparsed
  refine meets_bind (meets_verifyMetadataConsistency hp hheard hmetadata) fun _ _ =>
    meets_pure fun hk => ?_
  rw [hmetadata (by omega), parsed_metadata] at hparsed
  exact (Except.ok.inj hparsed).symm

theorem meets_roundMap (primsDoc : prims.Documented) (hheard : s.Heard prims json p k)
    {ids : List UInt16} {data : UInt16 → Bytes} {receiverID : UInt16} {expected : Int}
    {badData : UInt16 → ImportError} {α : Type} {f : List (UInt16 × Bytes) → ImportM α}
    {r : α → Prop}
    (htold : ∀ q ∈ s.deal.others p, ∀ body, s.told prims messageID q p = some body →
      q ∈ ids ∧ body = ⟨q, prims.base64Encode (data q), receiverID⟩)
    (hlen : (ids.length : Int) ≤ expected)
    (herror : ∀ e, RelayFault (repeated messageID) e → (error e).FromRelay repeated)
    (hi : stage messageID = i) (hj : j ≤ i)
    (hf : ∀ entries : List (UInt16 × Bytes), (i < k → expected ≤ ids.length ∧
      ∃ order : List UInt16, order.Perm ids ∧ entries = order.map fun q => (q, data q)) →
      (s.duty prims json repeated p k).Meets (Knows w p (i + 1)) (f entries) post r) :
    (s.duty prims json repeated p k).Meets (Knows w p j)
      (collectMessages prims json (w.network p) messageID expected error >>= fun messages =>
        buildRoundMap prims badData messages >>= f : ImportM α) post r := by
  have hstage := stage_le messageID
  refine meets_bind (meets_collect hheard htold (fun _ _ => rfl) hlen herror hi hj)
    fun messages hmessages => ?_
  refine meets_bind (meets_buildRoundMap ?_) fun entries hentries => hf entries ?_
  · intro hk m hm
    obtain ⟨-, order, -, rfl⟩ := hmessages (by omega)
    obtain ⟨q, -, rfl⟩ := List.mem_map.mp hm
    exact ⟨_, primsDoc.base64_roundtrip _⟩
  · intro hk
    obtain ⟨hle, order, hperm, rfl⟩ := hmessages hk
    refine ⟨hle, order, hperm, ?_⟩
    rw [hentries, List.map_map]
    apply List.map_congr_left
    intro q _
    rw [Function.comp_apply, primsDoc.base64_roundtrip]
    rfl

section Documented

variable (doc : lib.toFrostCore.Documented) (short : lib.toFrostCore.ShortPackages)
  (hne : ∀ id, lib.serializeIdentifier id ≠ []) (primsDoc : prims.Documented)
include doc short hne

theorem decoded_round2 {order : List UInt16} (hperm : order.Perm (s.deal.others p))
    {entries : List (UInt16 × Bytes)} :
    froztDecodeMap lib (roundData lib.toFrostCore s.deal.ident (s.deal.round2Bytes p) order) =
      some entries ↔ entries = (order.map fun q => (q, s.deal.round2Bytes p q)) ∧ s.CanSend p := by
  have hmem : ∀ q ∈ order, q ∈ s.deal.ids ∧ (s.deal.round2Bytes p q).length < 2 ^ 32 :=
    fun q hq => ⟨(Deal.mem_others.mp (hperm.mem_iff.mp hq)).2,
      short.round2 _ _ (Deal.deserializeRound2_bytes doc s.deal p q).1⟩
  have hlen : order.length < 2 ^ 32 := by
    have hle := List.length_erase_le (a := p) (l := s.deal.ids)
    have hn := w.maxSigners.toNat_lt
    rw [s.deal.length] at hle
    rw [hperm.length_eq]
    unfold Deal.others
    omega
  rw [froztDecodeMap_eq_some doc short hne hlen hmem]
  unfold CanSend
  simp only [hperm.mem_iff]

include primsDoc

/-- Both rounds are those of the deal, and there is no second one if some id cannot be read. -/
theorem meets_exchangeRounds (hp : p ∈ s.deal.ids) (hheard : s.Heard prims json p k) :
    (s.duty prims json repeated p k).Meets (Knows w p 0)
      (exchangeRounds prims json (w.network p) lib (w.party p) (s.deal.secret p) (s.bytes p))
      (Knows w p 2) fun r => 2 ≤ k → w.maxSigners ≤ 256 ∧ r.1 = s.deal.secret2 p ∧
        ∃ order₁ order₂ : List UInt16, order₁.Perm (s.deal.others p) ∧
          order₂.Perm (s.deal.others p) ∧
          r.2.1 = roundData lib.toFrostCore s.deal.ident s.bytes order₁ ∧
          r.2.2 = roundData lib.toFrostCore s.deal.ident (fun q => s.deal.round2Bytes q p)
            order₂ := by
  unfold exchangeRounds
  -- round 1
  refine meets_bind (meets_send (fun _ => right_broadcast hp fun q _ => told_round1) trivial)
    fun _ _ => meets_bind (meets_waitForBarrier trivial) fun _ _ => ?_
  have htold₁ : ∀ q ∈ s.deal.others p, ∀ body, s.told prims round1 q p = some body →
      q ∈ s.deal.others p ∧ body = ⟨q, prims.base64Encode (s.bytes q), 0⟩ :=
    fun q hq body hbody => ⟨hq, (Option.some.inj hbody).symm⟩
  refine meets_roundMap primsDoc hheard htold₁ (expected_eq hp).symm.le (fun _ h => h) stage_round1
    (Nat.le_refl 0) fun map₁ hmap₁ => ?_
  have hencoded : 0 < k → ∃ order : List UInt16, order.Perm (s.deal.others p) ∧
      froztEncodeMap lib map₁ = roundData lib.toFrostCore s.deal.ident s.bytes order := by
    intro hk
    obtain ⟨-, order, hperm, rfl⟩ := hmap₁ hk
    exact ⟨order, hperm,
      froztEncodeMap_eq fun q hq => (Deal.mem_others.mp (hperm.mem_iff.mp hq)).2⟩
  dsimp only
  generalize froztEncodeMap lib map₁ = encoded₁ at hencoded
  -- round 2
  have hpart2 : 0 < k → ∃ order : List UInt16, order.Perm (s.deal.others p) ∧
      froztDkgPart2 lib (s.deal.secret p) encoded₁ = .ok (s.deal.secret2 p,
        roundData lib.toFrostCore s.deal.ident (s.deal.round2Bytes p) order) := by
    intro hk
    obtain ⟨order, hperm, rfl⟩ := hencoded hk
    exact froztDkgPart2_ok doc short s.serialized hp hperm
  refine meets_bind (meets_call fun hk _ => ?_) ?_
  · obtain ⟨order, -, h⟩ := hpart2 (by omega)
    exact ⟨_, h⟩
  rintro ⟨secret2, round2Pkgs⟩ hcall
  have hpkgs : 0 < k → secret2 = s.deal.secret2 p ∧ ∃ order : List UInt16,
      order.Perm (s.deal.others p) ∧ ∀ entries, froztDecodeMap lib round2Pkgs = some entries ↔
        entries = (order.map fun q => (q, s.deal.round2Bytes p q)) ∧ s.CanSend p := by
    intro hk
    obtain ⟨order, hperm, h⟩ := hpart2 hk
    rw [h] at hcall
    obtain ⟨rfl, rfl⟩ := Prod.mk.inj (Except.ok.inj hcall)
    exact ⟨rfl, order, hperm, fun _ => decoded_round2 doc short hne hperm⟩
  refine meets_bind (meets_orFail fun hk hn => ?_) fun round2Map hdecode => ?_
  · obtain ⟨-, order, -, h⟩ := hpkgs (by omega)
    exact ⟨_, (h _).mpr ⟨rfl, canSend_of_le hn.1 p⟩⟩
  refine meets_bind (meets_sendPerRecipient fun hk => ?_) fun _ _ =>
    meets_bind (meets_waitForBarrier trivial) fun _ _ => ?_
  · obtain ⟨-, order, hperm, h⟩ := hpkgs (by omega)
    obtain ⟨rfl, hcan⟩ := (h _).mp hdecode
    refine ⟨hcan, fun e he => ?_⟩
    obtain ⟨q, hq, rfl⟩ := List.mem_map.mp he
    exact ⟨hperm.mem_iff.mp hq, rfl⟩
  have htold₂ : ∀ q ∈ s.deal.others p, ∀ body, s.told prims round2 q p = some body →
      q ∈ (s.deal.others p).filter (fun q => decide (s.CanSend q)) ∧
        body = ⟨q, prims.base64Encode (s.deal.round2Bytes q p), p⟩ := by
    intro q hq body hbody
    rw [told_round2] at hbody
    split at hbody
    · next hcan =>
      exact ⟨List.mem_filter.mpr ⟨hq, decide_eq_true hcan⟩, (Option.some.inj hbody).symm⟩
    · simp at hbody
  have hlen : (((s.deal.others p).filter fun q => decide (s.CanSend q)).length : Int) ≤
      (w.party p).expected := by
    have hle := List.length_filter_le (fun q => decide (s.CanSend q)) (s.deal.others p)
    rw [expected_eq hp]
    omega
  refine meets_roundMap primsDoc hheard htold₂ hlen (fun _ h => h) stage_round2 (Nat.le_refl 1)
    fun map₂ hmap₂ => meets_pure fun hk => ?_
  obtain ⟨hle, order₂, hperm₂, rfl⟩ := hmap₂ (by omega)
  obtain ⟨order₁, hperm₁, hencoded₁⟩ := hencoded (by omega)
  -- a round that is complete has a message of everyone
  have hall : ∀ q ∈ s.deal.others p, s.CanSend q := by
    have hfull := List.length_filter_le (fun q => decide (s.CanSend q)) (s.deal.others p)
    rw [expected_eq hp] at hle
    have heq : ((s.deal.others p).filter fun q => decide (s.CanSend q)).length =
        (s.deal.others p).length := by
      omega
    intro q hq
    exact of_decide_eq_true (List.length_filter_eq_length_iff.mp heq q hq)
  have hothers : (s.deal.others p).filter (fun q => decide (s.CanSend q)) = s.deal.others p :=
    List.filter_eq_self.mpr fun q hq => decide_eq_true (hall q hq)
  rw [hothers] at hperm₂
  refine ⟨maxSigners_le hall, (hpkgs (by omega)).1, order₁, order₂, hperm₁, hperm₂, hencoded₁, ?_⟩
  exact froztEncodeMap_eq fun q hq => (Deal.mem_others.mp (hperm₂.mem_iff.mp hq)).2

theorem meets_finishImport (hp : p ∈ s.deal.ids) (hheard : s.Heard prims json p k)
    {expectedVk extras : Bytes} (hvk : p = 1 → expectedVk = s.vk)
    (hextras : p = 1 → extras = s.extras) :
    (s.duty prims json repeated p k).Meets (Knows w p 0)
      (finishImport prims json (w.network p) lib (w.party p) (decide (p = 1))
        (w.config p).birthday (s.deal.secret p) (s.bytes p) expectedVk extras) (Knows w p 5)
      fun r => 5 ≤ k → w.maxSigners ≤ 256 ∧ r = s.result p := by
  unfold finishImport
  refine meets_bind (meets_exchangeRounds doc short hne primsDoc hp hheard) ?_
  rintro ⟨secret2, encoded₁, encoded₂⟩ hrounds
  refine meets_bind (meets_shareBytes primsDoc hp hheard (fun _ _ => told_expectedVk) trivial
    (fun _ h => h) stage_expectedVkPhase (Nat.le_refl 2) fun h _ => hvk h) fun vk hvk => ?_
  have hpart3 : 2 < k →
      froztKeyImportPart3 lib secret2 encoded₁ encoded₂ vk = .ok (s.keyBytes p, s.pubBytes p) := by
    intro hk
    obtain ⟨-, rfl, order₁, order₂, hperm₁, hperm₂, rfl, rfl⟩ := hrounds (by omega)
    rw [hvk hk]
    exact froztKeyImportPart3_ok doc short s.serialized hp hperm₁ s.threshold hperm₂ s.vk_ne_nil
      s.vk_eq (s.keyBytes_eq p hp) (s.pubBytes_eq p hp)
  refine meets_bind (meets_call fun hk _ => ⟨_, hpart3 (by omega)⟩) ?_
  rintro ⟨keyPackage, pubKeyPackage⟩ hkeys
  refine meets_bind (meets_exchangeImportMetadata primsDoc hp hheard hextras) ?_
  rintro ⟨saplingExtras, agreedBirthday⟩ hmetadata
  refine meets_pure fun hk => ⟨(hrounds (by omega)).1, ?_⟩
  rw [hpart3 (by omega)] at hkeys
  obtain ⟨rfl, rfl⟩ := Prod.mk.inj (Except.ok.inj hkeys)
  obtain ⟨rfl, rfl⟩ := Prod.mk.inj (hmetadata hk)
  rfl

variable (repeated) in
theorem meets_runKeyImport (hp : p ∈ s.deal.ids) (hheard : s.Heard prims json p k) :
    (s.duty prims json repeated p k).Meets (Knows w p 0)
      (runKeyImport prims json (w.network p) lib (w.party p) (w.config p) (w.rng p)) (Knows w p 5)
      fun r => 5 ≤ k → w.maxSigners ≤ 256 ∧ r = s.result p := by
  have hmem : p ∈ w.ids := s.ids ▸ hp
  have hone : (1 : UInt16) ∈ w.ids := mem_upTo.mpr ⟨by decide, one_le_of_mem_upTo hmem⟩
  have hcoordinator : ((w.party p).partyID = w.name 1) = (p = 1) :=
    propext (Setting.name_inj hmem hone)
  unfold runKeyImport
  rw [show (w.party p).allParties = w.allParties from rfl,
    Setting.coordinator_eq (List.ne_nil_of_mem hmem)]
  simp only [hcoordinator, decide_eq_true_eq]
  refine meets_bind (meets_call fun _ _ => ⟨_, s.part1 p hp⟩) ?_
  rintro ⟨secret1, round1Pkg, expectedVk, saplingExtras⟩ hcall
  obtain ⟨rfl, hrest⟩ := Prod.mk.inj (Except.ok.inj (hcall.symm.trans (s.part1 p hp)))
  obtain ⟨rfl, hkeys⟩ := Prod.mk.inj hrest
  apply meets_finishImport doc short hne primsDoc hp hheard
  · intro h
    rw [if_pos h] at hkeys
    exact (Prod.mk.inj hkeys).1
  · intro h
    rw [if_pos h] at hkeys
    exact (Prod.mk.inj hkeys).2

end Documented

end Functions

end Script

end KeyImport
