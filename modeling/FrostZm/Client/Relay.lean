import FrostZm.Ffi.Errors
import Mathlib.Data.List.Perm.Subperm
import Mathlib.Data.List.Sort

/-!
# Messages over the relay

A client encrypts the body of a message, and sends along a hash of sender and body under the
same key. The relay server sees and keeps the whole envelope.
-/

/-- Strings of the clients are bytes. -/
abbrev GoString := Bytes

/-- `sort.Strings`, in the order of the bytes. -/
def sortStrings (l : List GoString) : List GoString := l.insertionSort (· ≤ ·)

namespace Relay

/-! ## Encryption -/

/-- What the client uses of the standard library's encodings and cryptography. `hkdf` is
HKDF-SHA256 with the info of the relay and 32 bytes of output, `gcmSeal` and `gcmOpen` are
AES-GCM without additional data. -/
structure Primitives where
  base64Encode : Bytes → GoString
  base64Decode : GoString → Option Bytes
  sha256 : Bytes → Bytes
  hmac : Bytes → Bytes → Bytes
  hkdf : Bytes → Bytes → Bytes
  gcmSeal : Bytes → Bytes → Bytes → Bytes
  gcmOpen : Bytes → Bytes → Bytes → Option Bytes

/-- What opens is what was sealed. -/
structure Primitives.Documented (prims : Primitives) : Prop where
  base64_roundtrip : ∀ b, prims.base64Decode (prims.base64Encode b) = some b
  open_seal : ∀ key nonce plaintext, prims.gcmOpen key nonce (prims.gcmSeal key nonce plaintext) =
    some plaintext
  hmac_ne_nil : ∀ key x, prims.hmac key x ≠ []

/-- No two texts have one HMAC, as far as anyone finds them. -/
structure Primitives.CollisionFree (prims : Primitives) : Prop extends prims.Documented where
  hmac_injective : ∀ key x y, prims.hmac key x = prims.hmac key y → x = y

inductive RelayError where
  | decodeBase64
  | tooShortForSalt
  | tooShort
  | decrypt
  | hashMismatch
  | replayDetected
deriving DecidableEq, Repr

def relaySaltLen : Nat := 16
def gcmNonceSize : Nat := 12

variable (prims : Primitives)

def encrypt (key salt nonce plaintext : Bytes) : GoString :=
  prims.base64Encode (salt ++ (nonce ++ prims.gcmSeal (prims.hkdf key salt) nonce plaintext))

def decrypt (key : Bytes) (ciphertextB64 : GoString) : Except RelayError GoString :=
  match prims.base64Decode ciphertextB64 with
  | none => .error .decodeBase64
  | some data =>
    if data.length < relaySaltLen then .error .tooShortForSalt
    else
      let rest := data.drop relaySaltLen
      if rest.length < gcmNonceSize then .error .tooShort
      else
        match prims.gcmOpen (prims.hkdf key (data.take relaySaltLen)) (rest.take gcmNonceSize)
          (rest.drop gcmNonceSize) with
        | none => .error .decrypt
        | some plaintext => .ok plaintext

def hexDigit (n : UInt8) : UInt8 := if n < 10 then 48 + n else 87 + n

/-- `hex.EncodeToString` -/
def hexEncode (b : Bytes) : GoString := b.flatMap fun x => [hexDigit (x / 16), hexDigit (x % 16)]

/-! ## JSON -/

/-- The bytes that follow `b` in a character of UTF-8, each as the least and the greatest that it
may be. No character starts with the bytes that have none. -/
def acceptRanges (b : UInt8) : Option (List (UInt8 × UInt8)) :=
  if b < 0x80 then some []
  else if b < 0xc2 then none
  else if b < 0xe0 then some [(0x80, 0xbf)]
  else if b = 0xe0 then some [(0xa0, 0xbf), (0x80, 0xbf)]
  else if b = 0xed then some [(0x80, 0x9f), (0x80, 0xbf)]
  else if b < 0xf0 then some [(0x80, 0xbf), (0x80, 0xbf)]
  else if b = 0xf0 then some [(0x90, 0xbf), (0x80, 0xbf), (0x80, 0xbf)]
  else if b < 0xf4 then some [(0x80, 0xbf), (0x80, 0xbf), (0x80, 0xbf)]
  else if b = 0xf4 then some [(0x80, 0x8f), (0x80, 0xbf), (0x80, 0xbf)]
  else none

def fitsRanges : List (UInt8 × UInt8) → Bytes → Bool
  | [], _ => true
  | _ :: _, [] => false
  | (low, high) :: ranges, b :: rest => low ≤ b && b ≤ high && fitsRanges ranges rest

/-- The string with U+FFFD for each byte that is in no character. The first `k` bytes belong to a
character that has begun. -/
def coerceFrom : Nat → GoString → GoString
  | _, [] => []
  | k + 1, b :: rest => b :: coerceFrom k rest
  | 0, b :: rest =>
    match (acceptRanges b).filter (fitsRanges · rest) with
    | some ranges => b :: coerceFrom ranges.length rest
    | none => [0xef, 0xbf, 0xbd] ++ coerceFrom 0 rest

/-- A string as it comes back from `json.Marshal`. -/
def jsonString (s : GoString) : GoString := coerceFrom 0 s

/-- A string that JSON leaves as it is. -/
def ValidUtf8 (s : GoString) : Prop := jsonString s = s

instance (s : GoString) : Decidable (ValidUtf8 s) := inferInstanceAs (Decidable (jsonString s = s))

-- "é" alone, between a lead byte and a byte that no character has, and cut short
example : jsonString [0xc3, 0xa9] = [0xc3, 0xa9] ∧
    jsonString [0xe2, 0xc3, 0xa9, 0xff] = [0xef, 0xbf, 0xbd, 0xc3, 0xa9, 0xef, 0xbf, 0xbd] ∧
    jsonString [0xc3] = [0xef, 0xbf, 0xbd] := by decide

/-! ## The client -/

structure Message where
  sessionID : GoString
  fromParty : GoString
  toParties : List GoString
  body : GoString
  hash : GoString
  sequenceNo : UInt64
deriving DecidableEq

/-- A message as the relay gets it. The body is base64 or JSON and the hash hexadecimal. -/
def Message.overJson (m : Message) : Message :=
  { m with
    sessionID := jsonString m.sessionID
    fromParty := jsonString m.fromParty
    toParties := m.toParties.map jsonString }

/-- A client without a key neither encrypts nor authenticates. -/
structure RelayClient where
  encryptionKey : Option Bytes
  seqCounter : UInt64 := 0
  /-- The sequence numbers taken so far, each with its session and sender. -/
  seenSeqs : List (GoString × UInt64) := []

namespace RelayClient

def hashInput (fromParty body : GoString) : Bytes := fromParty ++ 58 :: body

def messageHash (key : Option Bytes) (fromParty body : GoString) : GoString :=
  match key with
  | some k => hexEncode (prims.hmac k (hashInput fromParty body))
  | none => hexEncode (prims.sha256 (hashInput fromParty body))

/-- `SendMessage` up to `json.Marshal`. The salt and the nonce are drawn. -/
def sendMessage (c : RelayClient) (msg : Message) (salt nonce : Bytes) : Message × RelayClient :=
  let sequenceNo := c.seqCounter + 1
  ({ msg with
      sequenceNo
      hash := messageHash prims c.encryptionKey msg.fromParty msg.body
      body := match c.encryptionKey with
        | some key => encrypt prims key salt nonce msg.body
        | none => msg.body },
    { c with seqCounter := sequenceNo })

def decryptBody (c : RelayClient) (body : GoString) : Except RelayError GoString :=
  match c.encryptionKey with
  | none => .ok body
  | some key => decrypt prims key body

/-- The part of `DecryptAndVerify` before the sequence number. -/
def verifyBody (c : RelayClient) (msg : Message) : Except RelayError GoString :=
  match c.decryptBody prims msg.body with
  | .error e => .error e
  | .ok plaintext =>
    if msg.hash ≠ [] ∧ messageHash prims c.encryptionKey msg.fromParty plaintext ≠ msg.hash then
      .error .hashMismatch
    else .ok plaintext

def seqKey (msg : Message) : GoString × UInt64 :=
  (msg.sessionID ++ 58 :: msg.fromParty, msg.sequenceNo)

def decryptAndVerify (c : RelayClient) (msg : Message) :
    Except RelayError GoString × RelayClient :=
  match c.verifyBody prims msg with
  | .error e => (.error e, c)
  | .ok plaintext =>
    if msg.sequenceNo > 0 then
      if seqKey msg ∈ c.seenSeqs then (.error .replayDetected, c)
      else (.ok plaintext, { c with seenSeqs := seqKey msg :: c.seenSeqs })
    else (.ok plaintext, c)

/-- The messages that a sequence of calls accepts, with their texts. -/
def accepted (c : RelayClient) : List Message → List (Message × GoString)
  | [] => []
  | m :: rest =>
    match c.decryptAndVerify prims m with
    | (.ok plaintext, c) => (m, plaintext) :: c.accepted rest
    | (.error _, c) => c.accepted rest

end RelayClient

/-! ## What was sent, and what arrives -/

/-- A message as its sender gave it to the client, with the number that it got there. -/
structure Sent where
  sessionID : GoString
  fromParty : GoString
  toParties : List GoString
  body : GoString
  sequenceNo : UInt64
  salt : Bytes
  nonce : Bytes
  numbered : 0 < sequenceNo
  salt_length : salt.length = relaySaltLen
  nonce_length : nonce.length = gcmNonceSize

/-- The envelope that `SendMessage` posts. -/
def Sent.envelope (key : Bytes) (s : Sent) : Message :=
  (RelayClient.sendMessage prims { encryptionKey := some key, seqCounter := s.sequenceNo - 1 }
    ⟨s.sessionID, s.fromParty, s.toParties, s.body, [], 0⟩ s.salt s.nonce).1

/-- Without the key nobody makes a ciphertext or an HMAC. -/
structure NoForgery (key : Bytes) (sent : List Sent) (deliveries : List Message) : Prop where
  ciphertext : ∀ m ∈ deliveries, ∀ plaintext, decrypt prims key m.body = .ok plaintext →
    ∃ s ∈ sent, s.body = plaintext
  hmac : ∀ m ∈ deliveries, ∀ x, m.hash = hexEncode (prims.hmac key x) →
    ∃ s ∈ sent, x = RelayClient.hashInput s.fromParty s.body

/-- Which fields the relay rewrites, and whether it hands over messages of other sessions. It
may drop, repeat and reorder messages in any case. -/
structure RelayPolicy where
  sessionID : Bool
  fromParty : Bool
  body : Bool
  hash : Bool
  sequenceNo : Bool
  otherSessions : Bool
deriving DecidableEq

namespace RelayPolicy

/-- The message is one of those sent, up to what the policy rewrites. -/
def Delivers (policy : RelayPolicy) (key : Bytes) (session : GoString) (sent : List Sent)
    (m : Message) : Prop :=
  ∃ s ∈ sent, (policy.otherSessions = false → s.sessionID = session) ∧
    (policy.sessionID = false → m.sessionID = s.sessionID) ∧
    (policy.fromParty = false → m.fromParty = s.fromParty) ∧
    (policy.body = false → m.body = (s.envelope prims key).body) ∧
    (policy.hash = false → m.hash = (s.envelope prims key).hash) ∧
    (policy.sequenceNo = false → m.sequenceNo = s.sequenceNo)

/-- The relay leaves session and number alone, and rewrites at most one of sender, body and
hash. -/
structure Safe (policy : RelayPolicy) : Prop where
  otherSessions : policy.otherSessions = false
  sessionID : policy.sessionID = false
  sequenceNo : policy.sequenceNo = false
  fromParty_body : policy.fromParty = false ∨ policy.body = false
  fromParty_hash : policy.fromParty = false ∨ policy.hash = false
  body_hash : policy.body = false ∨ policy.hash = false

end RelayPolicy

/-- Each accepted message is one that was sent in this session, and a different one for each. -/
def Genuine (session : GoString) (sent : List Sent) (accepted : List (Message × GoString)) : Prop :=
  (accepted.map fun a => (a.1.fromParty, a.2)).Subperm
    ((sent.filter fun s => s.sessionID = session).map fun s => (s.fromParty, s.body))

/-! ## The checks -/

variable {prims}

theorem hexDigit_injective {m n : UInt8} (hm : m < 16) (hn : n < 16)
    (h : hexDigit m = hexDigit n) : m = n := by
  unfold hexDigit at h
  rw [← UInt8.toNat_inj] at h ⊢
  rw [UInt8.lt_iff_toNat_lt] at hm hn
  split at h
  · next hm' =>
    rw [UInt8.lt_iff_toNat_lt] at hm'
    split at h
    · next hn' =>
      rw [UInt8.lt_iff_toNat_lt] at hn'
      simp only [UInt8.toNat_add, UInt8.reduceToNat] at h hm' hn'
      omega
    · next hn' =>
      rw [UInt8.lt_iff_toNat_lt] at hn'
      simp only [UInt8.toNat_add, UInt8.reduceToNat] at h hm' hn' hn
      omega
  · next hm' =>
    rw [UInt8.lt_iff_toNat_lt] at hm'
    split at h
    · next hn' =>
      rw [UInt8.lt_iff_toNat_lt] at hn'
      simp only [UInt8.toNat_add, UInt8.reduceToNat] at h hm' hn' hm
      omega
    · next hn' =>
      rw [UInt8.lt_iff_toNat_lt] at hn'
      simp only [UInt8.toNat_add, UInt8.reduceToNat] at h hm' hn' hm hn
      omega

theorem div_lt (x : UInt8) : x / 16 < 16 := by
  rw [UInt8.lt_iff_toNat_lt, UInt8.toNat_div]
  have hx := x.toNat_lt
  simp only [UInt8.reduceToNat]
  omega

theorem mod_lt (x : UInt8) : x % 16 < 16 := by
  rw [UInt8.lt_iff_toNat_lt, UInt8.toNat_mod]
  simp only [UInt8.reduceToNat]
  omega

theorem hexEncode_cons (x : UInt8) (b : Bytes) :
    hexEncode (x :: b) = hexDigit (x / 16) :: hexDigit (x % 16) :: hexEncode b := rfl

theorem hexEncode_injective {a b : Bytes} (h : hexEncode a = hexEncode b) : a = b := by
  induction a generalizing b with
  | nil =>
    cases b with
    | nil => rfl
    | cons y b => nomatch h
  | cons x a ih =>
    cases b with
    | nil => nomatch h
    | cons y b =>
      rw [hexEncode_cons, hexEncode_cons] at h
      injection h with hhigh h
      injection h with hlow h
      rw [ih h]
      congr 1
      have hdiv := hexDigit_injective (div_lt x) (div_lt y) hhigh
      have hmod := hexDigit_injective (mod_lt x) (mod_lt y) hlow
      rw [← UInt8.toNat_inj, UInt8.toNat_div, UInt8.toNat_div] at hdiv
      rw [← UInt8.toNat_inj, UInt8.toNat_mod, UInt8.toNat_mod] at hmod
      rw [← UInt8.toNat_inj]
      simp only [UInt8.reduceToNat] at hdiv hmod
      omega

theorem hexEncode_ne_nil {b : Bytes} (h : b ≠ []) : hexEncode b ≠ [] := by
  cases b with
  | nil => exact absurd rfl h
  | cons x b => rw [hexEncode_cons]; exact List.cons_ne_nil _ _

theorem decrypt_encrypt (doc : prims.Documented) {key salt nonce plaintext : Bytes}
    (hsalt : salt.length = relaySaltLen) (hnonce : nonce.length = gcmNonceSize) :
    decrypt prims key (encrypt prims key salt nonce plaintext) = .ok plaintext := by
  unfold decrypt encrypt
  rw [doc.base64_roundtrip]
  simp only
  rw [if_neg, List.drop_left' hsalt, List.take_left' hsalt, if_neg, List.take_left' hnonce,
    List.drop_left' hnonce, doc.open_seal]
  · rw [List.length_append]
    omega
  · rw [List.length_append]
    omega

namespace RelayClient

variable {c c' : RelayClient} {m : Message} {key : Bytes} {text : GoString}

theorem verifyBody_ok_iff (hkey : c.encryptionKey = some key) :
    c.verifyBody prims m = .ok text ↔ decrypt prims key m.body = .ok text ∧
      (m.hash = [] ∨ m.hash = hexEncode (prims.hmac key (hashInput m.fromParty text))) := by
  unfold verifyBody decryptBody messageHash
  rw [hkey]
  simp only
  cases decrypt prims key m.body with
  | error e => simp
  | ok plaintext =>
    simp only
    split
    · next h =>
      simp only [reduceCtorEq, Except.ok.injEq, false_iff, not_and, not_or]
      rintro rfl
      exact ⟨h.1, fun heq => h.2 heq.symm⟩
    · next h =>
      simp only [Except.ok.injEq]
      constructor
      · rintro rfl
        refine ⟨rfl, ?_⟩
        by_cases hhash : m.hash = []
        · exact .inl hhash
        · right
          by_contra hne
          exact h ⟨hhash, fun heq => hne heq.symm⟩
      · exact fun hok => hok.1

/-- What one call does: it refuses the message and nothing changes, or the number is new. -/
theorem decryptAndVerify_cases (prims : Primitives) (c : RelayClient) (m : Message) :
    (∃ e, c.decryptAndVerify prims m = (.error e, c)) ∨
    ∃ plaintext c', c.decryptAndVerify prims m = (.ok plaintext, c') ∧
      c.verifyBody prims m = .ok plaintext ∧ c'.encryptionKey = c.encryptionKey ∧
      (0 < m.sequenceNo → seqKey m ∉ c.seenSeqs ∧ c'.seenSeqs = seqKey m :: c.seenSeqs) := by
  unfold decryptAndVerify
  split
  · exact .inl ⟨_, rfl⟩
  · next plaintext hverify =>
    split
    · split
      · exact .inl ⟨_, rfl⟩
      · next hnew => exact .inr ⟨_, _, rfl, hverify, rfl, fun _ => ⟨hnew, rfl⟩⟩
    · next hzero => exact .inr ⟨_, _, rfl, hverify, rfl, fun hpos => absurd hpos hzero⟩

theorem accepted_cons_error {e : RelayError} (h : c.decryptAndVerify prims m = (.error e, c'))
    (ms : List Message) : c.accepted prims (m :: ms) = c'.accepted prims ms := by
  rw [accepted, h]

theorem accepted_cons_ok (h : c.decryptAndVerify prims m = (.ok text, c')) (ms : List Message) :
    c.accepted prims (m :: ms) = (m, text) :: c'.accepted prims ms := by
  rw [accepted, h]

theorem accepted_verified (hkey : c.encryptionKey = some key) {ms : List Message} :
    ∀ a ∈ c.accepted prims ms, a.1 ∈ ms ∧ decrypt prims key a.1.body = .ok a.2 ∧
      (a.1.hash = [] ∨ a.1.hash = hexEncode (prims.hmac key (hashInput a.1.fromParty a.2))) := by
  induction ms generalizing c with
  | nil => nofun
  | cons m ms ih =>
    intro a ha
    rcases decryptAndVerify_cases prims c m with
      ⟨e, hcall⟩ | ⟨plaintext, c', hcall, hverify, hkey', -⟩
    · rw [accepted_cons_error hcall] at ha
      exact (ih hkey a ha).imp_left (List.mem_cons_of_mem _)
    · rw [accepted_cons_ok hcall] at ha
      rcases List.mem_cons.mp ha with rfl | ha
      · exact ⟨List.mem_cons_self, (verifyBody_ok_iff hkey).mp hverify⟩
      · exact (ih (hkey'.trans hkey) a ha).imp_left (List.mem_cons_of_mem _)

theorem accepted_nodup {ms : List Message} (hnumbered : ∀ m ∈ ms, 0 < m.sequenceNo) :
    ((c.accepted prims ms).map fun a => seqKey a.1).Nodup ∧
      ∀ a ∈ c.accepted prims ms, seqKey a.1 ∉ c.seenSeqs := by
  induction ms generalizing c with
  | nil => exact ⟨List.nodup_nil, nofun⟩
  | cons m ms ih =>
    rw [List.forall_mem_cons] at hnumbered
    rcases decryptAndVerify_cases prims c m with ⟨e, hcall⟩ | ⟨plaintext, c', hcall, -, -, hseen⟩
    · rw [accepted_cons_error hcall]
      exact ih hnumbered.2
    · rw [accepted_cons_ok hcall]
      obtain ⟨hnew, hseen'⟩ := hseen hnumbered.1
      obtain ⟨hnodup, hrest⟩ := ih (c := c') hnumbered.2
      constructor
      · rw [List.map_cons, List.nodup_cons]
        refine ⟨?_, hnodup⟩
        intro hmem
        obtain ⟨a, ha, hkey⟩ := List.mem_map.mp hmem
        apply hrest a ha
        rw [hkey, hseen']
        exact List.mem_cons_self
      · rw [List.forall_mem_cons]
        refine ⟨hnew, fun a ha hold => hrest a ha ?_⟩
        rw [hseen']
        exact List.mem_cons_of_mem _ hold

theorem accepted_of_verify (hverify : c.verifyBody prims m = .ok text)
    (hnew : seqKey m ∉ c.seenSeqs) (ms : List Message) :
    ∃ c' : RelayClient, c.accepted prims (m :: ms) = (m, text) :: c'.accepted prims ms ∧
      c'.encryptionKey = c.encryptionKey ∧ ∀ k ∈ c'.seenSeqs, k = seqKey m ∨ k ∈ c.seenSeqs := by
  by_cases hpos : m.sequenceNo > 0
  · refine ⟨{ c with seenSeqs := seqKey m :: c.seenSeqs }, accepted_cons_ok ?_ ms, rfl, ?_⟩
    · simp only [decryptAndVerify, hverify, if_pos hpos, if_neg hnew]
    · intro k hk
      exact List.mem_cons.mp hk
  · refine ⟨c, accepted_cons_ok ?_ ms, rfl, fun k hk => .inr hk⟩
    simp only [decryptAndVerify, hverify, if_neg hpos]

theorem verifyBody_congr (h : c'.encryptionKey = c.encryptionKey) (m : Message) :
    c'.verifyBody prims m = c.verifyBody prims m := by
  unfold verifyBody decryptBody
  rw [h]

theorem decryptAndVerify_fresh (hverify : c.verifyBody prims m = .ok text)
    (hnew : seqKey m ∉ c.seenSeqs) : ∃ c' : RelayClient, c.decryptAndVerify prims m = (.ok text, c') ∧
      c'.encryptionKey = c.encryptionKey ∧ c'.seqCounter = c.seqCounter ∧
      (∀ k, k ∈ c'.seenSeqs ↔ 0 < m.sequenceNo ∧ k = seqKey m ∨ k ∈ c.seenSeqs) := by
  unfold decryptAndVerify
  rw [hverify]
  simp only [if_neg hnew]
  split
  · next hpos => exact ⟨_, rfl, rfl, rfl, fun k => by simp [hpos]⟩
  · next hzero => exact ⟨_, rfl, rfl, rfl, fun k => by simp [hzero]⟩

theorem decryptAndVerify_replayed (hverify : c.verifyBody prims m = .ok text)
    (hpos : 0 < m.sequenceNo) (hold : seqKey m ∈ c.seenSeqs) :
    c.decryptAndVerify prims m = (.error .replayDetected, c) := by
  simp only [decryptAndVerify, hverify, if_pos hpos, if_pos hold]

theorem verifyBody_sendMessage (doc : prims.Documented) (hkey : c'.encryptionKey = c.encryptionKey)
    (msg : Message) {salt nonce : Bytes} (hsalt : salt.length = relaySaltLen)
    (hnonce : nonce.length = gcmNonceSize) :
    c'.verifyBody prims (c.sendMessage prims msg salt nonce).1 = .ok msg.body := by
  unfold verifyBody decryptBody sendMessage
  rw [hkey]
  cases c.encryptionKey with
  | none => simp
  | some key => simp [decrypt_encrypt doc hsalt hnonce]

theorem verifyBody_overJson {msg : Message} (hname : ValidUtf8 msg.fromParty) :
    c.verifyBody prims msg.overJson = c.verifyBody prims msg := by
  unfold verifyBody Message.overJson
  rw [show jsonString msg.fromParty = msg.fromParty from hname]

/-- Otherwise the hash, taken before, is no longer the one of the message. -/
theorem verifyBody_overJson_iff (doc : prims.CollisionFree) (hkey : c.encryptionKey = some key)
    (hkey' : c'.encryptionKey = some key) (msg : Message) {salt nonce : Bytes}
    (hsalt : salt.length = relaySaltLen) (hnonce : nonce.length = gcmNonceSize) :
    c'.verifyBody prims (c.sendMessage prims msg salt nonce).1.overJson = .ok msg.body ↔
      ValidUtf8 msg.fromParty := by
  constructor
  · intro hverify
    obtain ⟨-, hhash⟩ := (verifyBody_ok_iff hkey').mp hverify
    have hsent : (c.sendMessage prims msg salt nonce).1.overJson.hash =
        hexEncode (prims.hmac key (hashInput msg.fromParty msg.body)) := by
      unfold sendMessage messageHash
      rw [hkey]
      rfl
    rw [hsent] at hhash
    rcases hhash with hnil | hsame
    · exact absurd hnil (hexEncode_ne_nil (doc.hmac_ne_nil _ _))
    · have hinput := doc.hmac_injective key _ _ (hexEncode_injective hsame)
      exact (List.append_cancel_right hinput).symm
  · intro hname
    have hsender : ValidUtf8 (c.sendMessage prims msg salt nonce).1.fromParty := hname
    rw [verifyBody_overJson hsender]
    exact verifyBody_sendMessage doc.toDocumented (hkey'.trans hkey.symm) msg hsalt hnonce

end RelayClient

/-! ## What the relay must leave alone -/

open RelayClient

variable {key : Bytes} {session : GoString} {policy : RelayPolicy} {sent : List Sent}

theorem envelope_hash (key : Bytes) (s : Sent) : (s.envelope prims key).hash =
    hexEncode (prims.hmac key (hashInput s.fromParty s.body)) := rfl

theorem envelope_sequenceNo (prims : Primitives) (key : Bytes) (s : Sent) :
    (s.envelope prims key).sequenceNo = s.sequenceNo := UInt64.sub_add_cancel _ _

theorem decrypt_envelope (doc : prims.Documented) (key : Bytes) (s : Sent) :
    decrypt prims key (s.envelope prims key).body = .ok s.body :=
  decrypt_encrypt doc s.salt_length s.nonce_length

theorem hash_envelope_eq (doc : prims.CollisionFree) {s : Sent} {x : Bytes}
    (h : (s.envelope prims key).hash = hexEncode (prims.hmac key x)) :
    x = hashInput s.fromParty s.body :=
  (doc.hmac_injective key _ _ (hexEncode_injective h)).symm

theorem sent_of_accepted (doc : prims.CollisionFree) (hsafe : policy.Safe) {a : Message × GoString}
    {s : Sent} (hdecrypt : decrypt prims key a.1.body = .ok a.2)
    (hhash : a.1.hash = [] ∨ a.1.hash = hexEncode (prims.hmac key (hashInput a.1.fromParty a.2)))
    (hfrom : policy.fromParty = false → a.1.fromParty = s.fromParty)
    (hbody : policy.body = false → a.1.body = (s.envelope prims key).body)
    (hh : policy.hash = false → a.1.hash = (s.envelope prims key).hash) :
    a.1.fromParty = s.fromParty ∧ a.2 = s.body := by
  have htext : policy.body = false → a.2 = s.body := by
    intro hb
    rw [hbody hb, decrypt_envelope doc.toDocumented] at hdecrypt
    exact (Except.ok.inj hdecrypt).symm
  -- the hash binds sender and text together
  have hinput : policy.hash = false →
      hashInput a.1.fromParty a.2 = hashInput s.fromParty s.body := by
    intro hph
    rcases hhash with hnil | hmac
    · rw [hh hph, envelope_hash] at hnil
      exact absurd hnil (hexEncode_ne_nil (doc.hmac_ne_nil _ _))
    · rw [hh hph] at hmac
      exact hash_envelope_eq doc hmac
  unfold hashInput at hinput
  by_cases hf : policy.fromParty = false
  · refine ⟨hfrom hf, ?_⟩
    by_cases hb : policy.body = false
    · exact htext hb
    · have h := hinput (hsafe.body_hash.resolve_left hb)
      rw [hfrom hf] at h
      exact (List.cons.inj (List.append_cancel_left h)).2
  · have hb := hsafe.fromParty_body.resolve_left hf
    have h := hinput (hsafe.fromParty_hash.resolve_left hf)
    rw [htext hb] at h
    exact ⟨List.append_cancel_right h, htext hb⟩

theorem genuine_of_safe (doc : prims.CollisionFree) {deliveries : List Message}
    (hdel : ∀ m ∈ deliveries, ∃ policy : RelayPolicy, policy.Safe ∧
      policy.Delivers prims key session sent m) :
    Genuine session sent (accepted prims { encryptionKey := some key } deliveries) := by
  have hfound : ∀ a ∈ accepted prims { encryptionKey := some key } deliveries,
      ∃ s ∈ sent, s.sessionID = session ∧ a.1.sessionID = session ∧
        a.1.fromParty = s.fromParty ∧ a.2 = s.body ∧ a.1.sequenceNo = s.sequenceNo := by
    intro a ha
    obtain ⟨hmem, hdecrypt, hhash⟩ := accepted_verified rfl a ha
    obtain ⟨policy, hsafe, s, hs, hother, hsession, hfrom, hbody, hh, hseq⟩ := hdel a.1 hmem
    have hsess := hother hsafe.otherSessions
    obtain ⟨hf, ht⟩ := sent_of_accepted doc hsafe hdecrypt hhash hfrom hbody hh
    exact ⟨s, hs, hsess, (hsession hsafe.sessionID).trans hsess, hf, ht, hseq hsafe.sequenceNo⟩
  have hnumbered : ∀ m ∈ deliveries, 0 < m.sequenceNo := by
    intro m hm
    obtain ⟨policy, hsafe, s, -, -, -, -, -, -, hseq⟩ := hdel m hm
    rw [hseq hsafe.sequenceNo]
    exact s.numbered
  have hnodup : ((accepted prims { encryptionKey := some key } deliveries).map
      fun a => (a.1.fromParty, a.2, a.1.sequenceNo)).Nodup := by
    have h : ((accepted prims { encryptionKey := some key } deliveries).map
        fun a => seqKey a.1).Nodup := (accepted_nodup hnumbered).1
    unfold List.Nodup at h ⊢
    rw [List.pairwise_map] at h ⊢
    refine h.imp_of_mem fun {a b} ha hb hne heq => hne ?_
    obtain ⟨-, -, -, hsa, -⟩ := hfound a ha
    obtain ⟨-, -, -, hsb, -⟩ := hfound b hb
    simp only [Prod.mk.injEq] at heq
    rw [seqKey, seqKey, hsa, hsb, heq.1, heq.2.2]
  have hsub : ((accepted prims { encryptionKey := some key } deliveries).map
      fun a => (a.1.fromParty, a.2, a.1.sequenceNo)).Subperm
      ((sent.filter fun s => s.sessionID = session).map fun s => (s.fromParty, s.body, s.sequenceNo)) := by
    apply hnodup.subperm
    intro x hx
    obtain ⟨a, ha, rfl⟩ := List.mem_map.mp hx
    obtain ⟨s, hs, hsess, -, hf, ht, hseq⟩ := hfound a ha
    refine List.mem_map.mpr ⟨s, List.mem_filter.mpr ⟨hs, decide_eq_true hsess⟩, ?_⟩
    rw [hf, ht, hseq]
  obtain ⟨l, hperm, hsub⟩ := hsub
  have hperm' := hperm.map fun x => (x.1, x.2.1)
  have hsub' := hsub.map fun x => (x.1, x.2.1)
  rw [List.map_map] at hperm' hsub'
  exact ⟨_, hperm', hsub'⟩

/-! ## Every other relay succeeds -/

/-- The bodies and hashes come from messages that were sent. -/
def Recombined (prims : Primitives) (key : Bytes) (sent : List Sent) (m : Message) : Prop :=
  (∃ s ∈ sent, m.body = (s.envelope prims key).body) ∧
    (m.hash = [] ∨ ∃ s ∈ sent, m.hash = (s.envelope prims key).hash)

theorem noForgery_of_recombined (doc : prims.CollisionFree) {deliveries : List Message}
    (h : ∀ m ∈ deliveries, Recombined prims key sent m) : NoForgery prims key sent deliveries where
  ciphertext m hm plaintext hdecrypt := by
    obtain ⟨s, hs, hbody⟩ := (h m hm).1
    rw [hbody, decrypt_envelope doc.toDocumented] at hdecrypt
    exact ⟨s, hs, Except.ok.inj hdecrypt⟩
  hmac m hm x hhash := by
    rcases (h m hm).2 with hnil | ⟨s, hs, hs'⟩
    · rw [hnil] at hhash
      exact absurd hhash.symm (hexEncode_ne_nil (doc.hmac_ne_nil _ _))
    · rw [hs'] at hhash
      exact ⟨s, hs, hash_envelope_eq doc hhash⟩

/-- In every run with this relay only what was sent is accepted, and only once. -/
def RelayPolicy.Protected (prims : Primitives) (key : Bytes) (session : GoString)
    (policy : RelayPolicy) : Prop :=
  ∀ (sent : List Sent) (deliveries : List Message), NoForgery prims key sent deliveries →
    (∀ m ∈ deliveries, policy.Delivers prims key session sent m) →
    Genuine session sent (accepted prims { encryptionKey := some key } deliveries)

theorem numbered_one : (0 : UInt64) < 1 := by decide

theorem length_zeroSalt : (List.replicate relaySaltLen (0 : UInt8)).length = relaySaltLen :=
  List.length_replicate

theorem length_zeroNonce : (List.replicate gcmNonceSize (0 : UInt8)).length = gcmNonceSize :=
  List.length_replicate

/-- A message from `fromParty` in `session`, with its number. -/
def sentAs (session fromParty body : GoString) (n : UInt64) (hn : 0 < n) : Sent where
  sessionID := session
  fromParty := fromParty
  toParties := []
  body := body
  sequenceNo := n
  salt := List.replicate relaySaltLen 0
  nonce := List.replicate gcmNonceSize 0
  numbered := hn
  salt_length := length_zeroSalt
  nonce_length := length_zeroNonce

theorem mem_of_protected (doc : prims.CollisionFree) (hprot : policy.Protected prims key session)
    (sent : List Sent) {m : Message} (hrec : Recombined prims key sent m)
    (hdel : policy.Delivers prims key session sent m) {text : GoString}
    (hverify : verifyBody prims { encryptionKey := some key } m = .ok text) :
    ∃ s ∈ sent, s.sessionID = session ∧ s.fromParty = m.fromParty ∧ s.body = text := by
  have hgen := hprot sent [m] (noForgery_of_recombined doc (by simpa using hrec)) (by simpa using hdel)
  obtain ⟨c', hacc, -, -⟩ := accepted_of_verify hverify (by simp) []
  rw [hacc] at hgen
  have hmem := hgen.subset List.mem_cons_self
  obtain ⟨s, hs, heq⟩ := List.mem_map.mp hmem
  rw [List.mem_filter, decide_eq_true_eq] at hs
  rw [Prod.mk.injEq] at heq
  exact ⟨s, hs.1, hs.2, heq.1, heq.2⟩

theorem not_protected_of_twice (doc : prims.CollisionFree) {s : Sent} {m : Message}
    (hm : Recombined prims key [s] m) (hdel : policy.Delivers prims key session [s] m)
    (hdel' : policy.Delivers prims key session [s] (s.envelope prims key))
    (hverify : verifyBody prims { encryptionKey := some key } m = .ok s.body)
    (hkey : seqKey m ≠ seqKey (s.envelope prims key)) :
    ¬ policy.Protected prims key session := by
  intro hprot
  have hown : verifyBody prims { encryptionKey := some key } (s.envelope prims key) = .ok s.body :=
    (verifyBody_ok_iff rfl).mpr ⟨decrypt_envelope doc.toDocumented key s, .inr (envelope_hash key s)⟩
  have hrec : Recombined prims key [s] (s.envelope prims key) :=
    ⟨⟨s, List.mem_singleton_self s, rfl⟩, .inr ⟨s, List.mem_singleton_self s, rfl⟩⟩
  have hgen := hprot [s] [m, s.envelope prims key]
    (noForgery_of_recombined doc (by simpa using ⟨hm, hrec⟩)) (by simpa using ⟨hdel, hdel'⟩)
  obtain ⟨c', hacc, hkey', hseen⟩ := accepted_of_verify hverify (by simp) [s.envelope prims key]
  have hown' : c'.verifyBody prims (s.envelope prims key) = .ok s.body :=
    (verifyBody_ok_iff hkey').mpr ((verifyBody_ok_iff rfl).mp hown)
  have hnew : seqKey (s.envelope prims key) ∉ c'.seenSeqs := by
    intro hmem
    rcases hseen _ hmem with heq | hnil
    · exact hkey heq.symm
    · simp at hnil
  obtain ⟨c'', hacc', -, -⟩ := accepted_of_verify hown' hnew []
  rw [hacc, hacc'] at hgen
  have hlen := hgen.length_le
  rw [List.length_map, List.length_map] at hlen
  have hone := List.length_filter_le (fun s => decide (s.sessionID = session)) [s]
  simp only [List.length_cons, List.length_nil] at hlen hone
  omega

theorem safe_of_protected (doc : prims.CollisionFree) (hprot : policy.Protected prims key session) :
    policy.Safe where
  otherSessions := by
    by_contra h
    have hm := List.mem_singleton_self (sentAs (session ++ [0]) [97] [98] 1 (by decide))
    obtain ⟨s, hs, hsess, -⟩ := mem_of_protected doc hprot _
      ⟨⟨_, hm, rfl⟩, .inr ⟨_, hm, rfl⟩⟩
      ⟨_, hm, fun h' => absurd h' h, fun _ => rfl, fun _ => rfl, fun _ => rfl, fun _ => rfl,
        fun _ => envelope_sequenceNo prims key _⟩
      ((verifyBody_ok_iff rfl).mpr ⟨decrypt_envelope doc.toDocumented key _, .inr (envelope_hash key _)⟩)
    rw [List.mem_singleton] at hs
    rw [hs, sentAs] at hsess
    simp at hsess
  sessionID := by
    by_contra h
    set s := sentAs session [97] [98] 1 (by decide) with hs
    have hm := List.mem_singleton_self s
    refine not_protected_of_twice doc (s := s)
      (m := { s.envelope prims key with sessionID := session ++ [0] })
      ⟨⟨s, hm, rfl⟩, .inr ⟨s, hm, rfl⟩⟩
      ⟨s, hm, fun _ => rfl, fun h' => absurd h' h, fun _ => rfl, fun _ => rfl, fun _ => rfl,
        fun _ => envelope_sequenceNo prims key s⟩
      ⟨s, hm, fun _ => rfl, fun _ => rfl, fun _ => rfl, fun _ => rfl, fun _ => rfl,
        fun _ => envelope_sequenceNo prims key s⟩
      ((verifyBody_ok_iff rfl).mpr
        ⟨decrypt_envelope doc.toDocumented key s, .inr (envelope_hash key s)⟩) ?_ hprot
    intro heq
    have hlen := congrArg (List.length ∘ Prod.fst) heq
    simp [seqKey, Sent.envelope, sendMessage, hs, sentAs] at hlen
  sequenceNo := by
    by_contra h
    set s := sentAs session [97] [98] 1 (by decide) with hs
    have hm := List.mem_singleton_self s
    refine not_protected_of_twice doc (s := s) (m := { s.envelope prims key with sequenceNo := 2 })
      ⟨⟨s, hm, rfl⟩, .inr ⟨s, hm, rfl⟩⟩
      ⟨s, hm, fun _ => rfl, fun _ => rfl, fun _ => rfl, fun _ => rfl, fun _ => rfl,
        fun h' => absurd h' h⟩
      ⟨s, hm, fun _ => rfl, fun _ => rfl, fun _ => rfl, fun _ => rfl, fun _ => rfl,
        fun _ => envelope_sequenceNo prims key s⟩
      ((verifyBody_ok_iff rfl).mpr
        ⟨decrypt_envelope doc.toDocumented key s, .inr (envelope_hash key s)⟩) ?_ hprot
    intro heq
    have hseq := congrArg Prod.snd heq
    simp [seqKey, Sent.envelope, sendMessage, hs, sentAs] at hseq
  fromParty_body := by
    by_contra h
    rw [not_or] at h
    -- "a" sends "b:c" and "x" sends "c"; to the hash that is also "c" from "a:b"
    set s := sentAs session [97] [98, 58, 99] 1 (by decide) with hs
    set s' := sentAs session [120] [99] 1 (by decide) with hs'
    obtain ⟨s₀, hs₀, -, hfrom, hbody⟩ := mem_of_protected doc hprot [s, s']
      (m := { s.envelope prims key with
        fromParty := [97, 58, 98], body := (s'.envelope prims key).body })
      ⟨⟨s', by simp, rfl⟩, .inr ⟨s, by simp, rfl⟩⟩
      ⟨s, by simp, fun _ => rfl, fun _ => rfl, fun h' => absurd h' h.1, fun h' => absurd h' h.2,
        fun _ => rfl, fun _ => envelope_sequenceNo prims key s⟩
      ((verifyBody_ok_iff rfl).mpr ⟨decrypt_envelope doc.toDocumented key s', .inr (envelope_hash key s)⟩)
    simp only [List.mem_cons, List.not_mem_nil, or_false] at hs₀
    rcases hs₀ with rfl | rfl
    · simp [hs, sentAs] at hfrom
    · simp [hs', sentAs] at hfrom
  fromParty_hash := by
    by_contra h
    rw [not_or] at h
    set s := sentAs session [97] [98] 1 (by decide) with hs
    have hm := List.mem_singleton_self s
    obtain ⟨s₀, hs₀, -, hfrom, -⟩ := mem_of_protected doc hprot [s]
      (m := { s.envelope prims key with fromParty := [98], hash := [] })
      ⟨⟨s, hm, rfl⟩, .inl rfl⟩
      ⟨s, hm, fun _ => rfl, fun _ => rfl, fun h' => absurd h' h.1, fun _ => rfl,
        fun h' => absurd h' h.2, fun _ => envelope_sequenceNo prims key s⟩
      ((verifyBody_ok_iff rfl).mpr ⟨decrypt_envelope doc.toDocumented key s, .inl rfl⟩)
    rw [List.mem_singleton] at hs₀
    subst hs₀
    simp [hs, sentAs] at hfrom
  body_hash := by
    by_contra h
    rw [not_or] at h
    set s := sentAs session [97] [98] 1 (by decide) with hs
    set s' := sentAs session [98] [99] 1 (by decide) with hs'
    obtain ⟨s₀, hs₀, -, hfrom, hbody⟩ := mem_of_protected doc hprot [s, s']
      (m := { s.envelope prims key with body := (s'.envelope prims key).body, hash := [] })
      ⟨⟨s', by simp, rfl⟩, .inl rfl⟩
      ⟨s, by simp, fun _ => rfl, fun _ => rfl, fun _ => rfl, fun h' => absurd h' h.1,
        fun h' => absurd h' h.2, fun _ => envelope_sequenceNo prims key s⟩
      ((verifyBody_ok_iff rfl).mpr ⟨decrypt_envelope doc.toDocumented key s', .inl rfl⟩)
    simp only [List.mem_cons, List.not_mem_nil, or_false] at hs₀
    rcases hs₀ with rfl | rfl
    · simp [hs, hs', sentAs] at hbody
    · simp [hs', Sent.envelope, sendMessage, hs, sentAs] at hfrom

/-- Encodings that change nothing, and seals that open under the same key and nonce only. -/
def samplePrims : Primitives where
  base64Encode := id
  base64Decode := some
  sha256 := id
  hmac key x := key.length.toUInt8 :: (key ++ x)
  hkdf key salt := key ++ salt
  gcmSeal key nonce plaintext := key ++ nonce ++ plaintext
  gcmOpen key nonce ciphertext :=
    if key ++ nonce <+: ciphertext then some (ciphertext.drop (key ++ nonce).length) else none

theorem samplePrims_documented : samplePrims.Documented where
  base64_roundtrip _ := rfl
  open_seal key nonce plaintext := by
    simp only [samplePrims]
    rw [if_pos (List.prefix_append _ _), List.drop_left]
  hmac_ne_nil _ _ := List.cons_ne_nil _ _

theorem samplePrims_collisionFree : samplePrims.CollisionFree where
  toDocumented := samplePrims_documented
  hmac_injective _ _ _ h := List.append_cancel_left (List.cons.inj h).2

/-- The message "b" of "a" in session "s". -/
def sampleSent : Sent := sentAs [115] [97] [98] 1 numbered_one

/-- It arrives without hash and from "c", and twice with different numbers. -/
def sampleDeliveries : List Message :=
  let envelope := sampleSent.envelope samplePrims [1]
  [{ envelope with fromParty := [99], hash := [] }, envelope, { envelope with sequenceNo := 2 }]

end Relay
