import FrostZm.Lib.Positions
import FrostZm.Session.Setup

/-!
# Setup messages as bytes

The five setup messages, the calls that make them, and where the sessions look for what is
appended to them.
-/

open PosReader

/-! ## The other setup messages -/

structure SignSetup where
  base : SetupMsg
  message : Bytes

structure KeyImportSetup where
  base : SetupMsg
  seedHolderId : UInt16
  secretData : Bytes
  accountIndex : UInt32

def SignSetup.decode (data : Bytes) : Result SignSetup := do
  let (base, pos) ← SetupMsg.decode data
  let (msgLen, pos) ← readU32 data pos
  let (message, _) ← readBytes data pos msgLen.toNat
  return { base, message }

def KeyImportSetup.decode (data : Bytes) : Result KeyImportSetup := do
  let (base, pos) ← SetupMsg.decode data
  let (seedHolderId, pos) ← readU16 data pos
  let (secretLen, pos) ← readU32 data pos
  let (secretData, pos) ← readBytes data pos secretLen.toNat
  let (accountIndex, _) ← readU32 data pos
  return { base, seedHolderId, secretData, accountIndex }

def KeyImageSetup.decode (data : Bytes) : Result KeyImageSetup := do
  let (base, pos) ← SetupMsg.decode data
  let (outputsLen, pos) ← readU32 data pos
  let (outputsData, _) ← readBytes data pos outputsLen.toNat
  return { base, outputsData }

/-! ## Encoders: a length is cast to its field, whatever it is -/

def PartyEntry.encode (p : PartyEntry) : Bytes :=
  u16ToLeBytes p.frostId ++ u16ToLeBytes (.ofNat p.name.length) ++ p.name

def SetupMsg.encode (s : SetupMsg) : Bytes :=
  u16ToLeBytes s.maxSigners ++ u16ToLeBytes s.minSigners ++ u16ToLeBytes (.ofNat s.parties.length) ++
    s.parties.flatMap PartyEntry.encode

def SignSetup.encode (s : SignSetup) : Bytes :=
  s.base.encode ++ u32ToLeBytes (.ofNat s.message.length) ++ s.message

def ReshareSetup.encode (s : ReshareSetup) : Bytes :=
  s.base.encode ++ u16ToLeBytes (.ofNat s.oldIdentifiers.length) ++
    s.oldIdentifiers.flatMap u16ToLeBytes ++ u32ToLeBytes (.ofNat s.expectedVk.length) ++ s.expectedVk

def KeyImportSetup.encode (s : KeyImportSetup) : Bytes :=
  s.base.encode ++ u16ToLeBytes s.seedHolderId ++ u32ToLeBytes (.ofNat s.secretData.length) ++
    s.secretData ++ u32ToLeBytes s.accountIndex

def KeyImageSetup.encode (s : KeyImageSetup) : Bytes :=
  s.base.encode ++ u32ToLeBytes (.ofNat s.outputsData.length) ++ s.outputsData

/-! ## The calls that make a setup message -/

/-- The loop of `decode_parties` over `count` parties. -/
def decodePartiesFrom (data : Bytes) : Nat → Nat → Result (List PartyEntry)
  | 0, _ => return []
  | count + 1, pos => do
    failIf (data.length < pos + 4) .serializationError
    let frostId := u16FromLeBytes (slice data pos 2)
    let nameLen := (u16FromLeBytes (slice data (pos + 2) 2)).toNat
    failIf (data.length < pos + 4 + nameLen) .serializationError
    let name := slice data (pos + 4) nameLen
    let parties ← decodePartiesFrom data count (pos + 4 + nameLen)
    return { frostId, name } :: parties

def decodeParties (data : Bytes) : Result (List PartyEntry) := do
  failIf (data.length < 2) .serializationError
  decodePartiesFrom data (u16FromLeBytes (slice data 0 2)).toNat 2

/-- The loop of `decode_u16_list` over `count` numbers. -/
def decodeU16ListFrom (data : Bytes) : Nat → Nat → Result (List UInt16)
  | 0, _ => return []
  | count + 1, pos => do
    failIf (data.length < pos + 2) .serializationError
    let list ← decodeU16ListFrom data count (pos + 2)
    return u16FromLeBytes (slice data pos 2) :: list

def decodeU16List (data : Bytes) : Result (List UInt16) := do
  failIf (data.length < 2) .serializationError
  decodeU16ListFrom data (u16FromLeBytes (slice data 0 2)).toNat 2

/-- The setup of a key generation, as `dkg_setupmsg_new` of either library makes it. -/
def newSetupMsg (maxSigners minSigners : UInt16) (partiesData : Option Bytes) : Result SetupMsg := do
  let pd ← okOr .nullPtr partiesData
  let parties ← decodeParties pd
  return { maxSigners, minSigners, parties }

def newSignSetup (msgToSign partiesData : Option Bytes) : Result SignSetup := do
  let message ← okOr .nullPtr msgToSign
  let pd ← okOr .nullPtr partiesData
  let parties ← decodeParties pd
  let num := .ofNat parties.length
  return { base := { maxSigners := num, minSigners := num, parties }, message }

def newReshareSetup (maxSigners minSigners : UInt16)
    (partiesData oldIdentifiers expectedVk : Option Bytes) : Result ReshareSetup := do
  let pd ← okOr .nullPtr partiesData
  let oi ← okOr .nullPtr oldIdentifiers
  let vk ← okOr .nullPtr expectedVk
  let parties ← decodeParties pd
  let oldIds ← decodeU16List oi
  return { base := { maxSigners, minSigners, parties }, oldIdentifiers := oldIds, expectedVk := vk }

/-- The one for Monero puts 0 for the account. -/
def newKeyImportSetup (maxSigners minSigners : UInt16) (partiesData : Option Bytes)
    (seedHolderId : UInt16) (seed : Option Bytes) (accountIndex : UInt32) : Result KeyImportSetup := do
  let pd ← okOr .nullPtr partiesData
  let secretData ← okOr .nullPtr seed
  let parties ← decodeParties pd
  return { base := { maxSigners, minSigners, parties }, seedHolderId, secretData, accountIndex }

def newKeyImageSetup (partiesData outputs : Option Bytes) : Result KeyImageSetup := do
  let pd ← okOr .nullPtr partiesData
  let outputsData ← okOr .nullPtr outputs
  let parties ← decodeParties pd
  let num := .ofNat parties.length
  return { base := { maxSigners := num, minSigners := num, parties }, outputsData }

/-! ## What is appended to a setup message -/

def froztTrailing (birthday : UInt64) : Bytes := u64ToLeBytes birthday

def fromtTrailing (network : UInt8) (birthday : UInt64) : Bytes := network :: u64ToLeBytes birthday

def froztTrailingAt (data : Bytes) (consumed : Nat) : Result UInt64 := do
  failIf (consumed + 8 > data.length) .serializationError
  return u64FromLeBytes (slice data consumed 8)

def fromtTrailingAt (data : Bytes) (consumed : Nat) : Result (UInt8 × UInt64) := do
  failIf (consumed + 1 + 8 > data.length) .serializationError
  let network ← okOr .serializationError data[consumed]?
  return (network, u64FromLeBytes (slice data (consumed + 1) 8))

def froztDkgSetupmsgNew (maxSigners minSigners : UInt16) (partiesData : Option Bytes)
    (birthday : UInt64) : Result Bytes := do
  let setup ← newSetupMsg maxSigners minSigners partiesData
  return setup.encode ++ froztTrailing birthday

def fromtDkgSetupmsgNew (maxSigners minSigners : UInt16) (partiesData : Option Bytes)
    (network : UInt8) (birthday : UInt64) : Result Bytes := do
  let setup ← newSetupMsg maxSigners minSigners partiesData
  return setup.encode ++ fromtTrailing network birthday

def froztKeyImportSetupmsgNew (maxSigners minSigners : UInt16) (partiesData : Option Bytes)
    (birthday : UInt64) (seedHolderId : UInt16) (seed : Option Bytes) (accountIndex : UInt32) :
    Result Bytes := do
  let setup ← newKeyImportSetup maxSigners minSigners partiesData seedHolderId seed accountIndex
  return setup.encode ++ froztTrailing birthday

def fromtKeyImportSetupmsgNew (maxSigners minSigners : UInt16) (partiesData : Option Bytes)
    (network : UInt8) (birthday : UInt64) (seedHolderId : UInt16) (spendKey : Option Bytes) :
    Result Bytes := do
  let setup ← newKeyImportSetup maxSigners minSigners partiesData seedHolderId spendKey 0
  return setup.encode ++ fromtTrailing network birthday

/-- What `frozt_dkg_session_from_setup` reads: the birthday stands where the decoder stopped. -/
def froztDkgFields (data : Bytes) : Result (SetupMsg × UInt64) := do
  let (setup, consumed) ← SetupMsg.decode data
  let birthday ← froztTrailingAt data consumed
  return (setup, birthday)

def fromtDkgFields (data : Bytes) : Result (SetupMsg × UInt8 × UInt64) := do
  let (setup, consumed) ← SetupMsg.decode data
  let trailing ← fromtTrailingAt data consumed
  return (setup, trailing)

/-- What `frozt_key_import_session_from_setup` reads: the birthday stands as far in as the
setup is long when it is encoded again. -/
def froztKeyImportFields (data : Bytes) : Result (KeyImportSetup × UInt64) := do
  let setup ← KeyImportSetup.decode data
  let birthday ← froztTrailingAt data setup.encode.length
  return (setup, birthday)

def fromtKeyImportFields (data : Bytes) : Result (KeyImportSetup × UInt8 × UInt64) := do
  let setup ← KeyImportSetup.decode data
  let trailing ← fromtTrailingAt data setup.encode.length
  return (setup, trailing)

/-! ## The fields are read exactly -/

theorem u16ToLeBytes_fromLeBytes {b : Bytes} (h : b.length = 2) : u16ToLeBytes (u16FromLeBytes b) = b := by
  have hlt := LittleEndian.value_lt b
  rw [h] at hlt
  rw [u16ToLeBytes, u16FromLeBytes, UInt16.toNat_ofNat_of_lt' hlt]
  have hb := LittleEndian.bytesOf_value b
  rwa [h] at hb

theorem u32ToLeBytes_fromLeBytes {b : Bytes} (h : b.length = 4) : u32ToLeBytes (u32FromLeBytes b) = b := by
  have hlt := LittleEndian.value_lt b
  rw [h] at hlt
  rw [u32ToLeBytes, u32FromLeBytes, UInt32.toNat_ofNat_of_lt' hlt]
  have hb := LittleEndian.bytesOf_value b
  rwa [h] at hb

theorem holds_iff_slice {data b : Bytes} {pos n : Nat} (hn : b.length = n) :
    Holds data pos b ↔ slice data pos n = b := by
  rw [Holds, List.prefix_iff_eq_take, hn, slice, eq_comm]

theorem exact_fixed {α : Type} (n : Nat) (write : α → Bytes) (value : Bytes → α) {Fits : α → Prop}
    (hlen : ∀ x, Fits x → (write x).length = n) (hvalue : ∀ x, value (write x) = x)
    (hwrite : ∀ b, b.length = n → Fits (value b) ∧ write (value b) = b) :
    Exact (fun data pos => if data.length < pos + n then .error (LibError.serializationError : Fault)
      else .ok (value (slice data pos n), pos + n)) write Fits := by
  rintro data pos hpos ⟨x, next⟩
  simp only
  split
  · rename_i hlt
    constructor
    · intro h
      nomatch h
    · rintro ⟨_, ⟨⟨hfits, rfl⟩, -⟩, hx⟩
      have hle := hx.le_length hpos
      rw [hlen x hfits] at hle
      omega
  · rename_i hle
    rw [not_lt] at hle
    have hslice : (slice data pos n).length = n := by
      rw [slice, List.length_take, List.length_drop]
      omega
    obtain ⟨hfits, hback⟩ := hwrite _ hslice
    constructor
    · intro h
      obtain ⟨rfl, rfl⟩ := Prod.mk.inj (Except.ok.inj h)
      refine ⟨_, ⟨⟨hfits, rfl⟩, by rw [hlen _ hfits]⟩, ?_⟩
      rw [holds_iff_slice (hlen _ hfits), hback]
    · rintro ⟨_, ⟨⟨hfits, rfl⟩, hnext⟩, hx⟩
      rw [holds_iff_slice (hlen _ hfits)] at hx
      rw [hx, hvalue, hnext, hlen _ hfits]

theorem exact_readU16 : Exact readU16 u16ToLeBytes fun _ => True :=
  exact_fixed 2 _ u16FromLeBytes (fun x _ => length_u16ToLeBytes x) u16FromLeBytes_toLeBytes
    fun _ h => ⟨trivial, u16ToLeBytes_fromLeBytes h⟩

theorem exact_readU32 : Exact readU32 u32ToLeBytes fun _ => True :=
  exact_fixed 4 _ u32FromLeBytes (fun x _ => length_u32ToLeBytes x) u32FromLeBytes_toLeBytes
    fun _ h => ⟨trivial, u32ToLeBytes_fromLeBytes h⟩

theorem exact_readBytes (n : Nat) :
    Exact (fun data pos => readBytes data pos n) id fun b => b.length = n :=
  exact_fixed n id id (fun _ h => h) (fun _ => rfl) fun _ h => ⟨h, rfl⟩

theorem toNat_ofNat16 {n : Nat} (h : n < 2 ^ 16) : (UInt16.ofNat n).toNat = n :=
  UInt16.toNat_ofNat_of_lt' h

theorem toNat_ofNat32 {n : Nat} (h : n < 2 ^ 32) : (UInt32.ofNat n).toNat = n :=
  UInt32.toNat_ofNat_of_lt' h

/-! ## The messages are read exactly -/

def PartyEntry.Fits (p : PartyEntry) : Prop := p.name.length < 2 ^ 16

structure SetupMsg.Fits (s : SetupMsg) : Prop where
  parties : s.parties.length < 2 ^ 16
  names : ∀ p ∈ s.parties, p.Fits

/-- One turn of the loop over the parties. -/
def readPartyEntry (data : Bytes) (pos : Nat) : Result (PartyEntry × Nat) := do
  let (frostId, pos) ← readU16 data pos
  let (nameLen, pos) ← readU16 data pos
  let (name, pos) ← readBytes data pos nameLen.toNat
  return ({ frostId, name }, pos)

theorem exact_readPartyEntry : Exact readPartyEntry PartyEntry.encode PartyEntry.Fits := by
  intro data pos
  unfold readPartyEntry
  apply Accepts.congr
  · apply exact_readU16.bind
    intro frostId _
    apply exact_readU16.bind
    intro nameLen _
    apply (exact_readBytes nameLen.toNat).bind
    intro name _
    apply accepts_pure
  · rintro ⟨p, next⟩ b
    constructor
    · rintro ⟨frostId, _, -, ⟨nameLen, _, -, ⟨name, _, hname, ⟨hp, rfl⟩, rfl⟩, rfl⟩, rfl⟩
      obtain ⟨rfl, rfl⟩ := Prod.mk.inj hp
      refine ⟨⟨?_, ?_⟩, ?_⟩
      · simp only [PartyEntry.Fits, hname]
        exact nameLen.toNat_lt
      · simp only [PartyEntry.encode, hname, UInt16.ofNat_toNat, id, List.append_nil, List.append_assoc]
      · simp only [List.length_append, List.length_nil, id]
        omega
    · rintro ⟨⟨hfits, rfl⟩, hnext⟩
      refine ⟨p.frostId, _, trivial, ⟨.ofNat p.name.length, _, trivial, ⟨p.name, [], ?_, ⟨?_, rfl⟩, rfl⟩,
        rfl⟩, ?_⟩
      · rw [toNat_ofNat16 hfits]
      · refine Prod.ext rfl (hnext.trans ?_)
        simp only [PartyEntry.encode, List.length_append, id, Nat.add_assoc]
      · simp only [PartyEntry.encode, List.append_nil, List.append_assoc, id]

theorem exact_decodePartyEntries (n : Nat) :
    Exact (fun data pos => decodePartyEntries data n pos) (List.flatMap PartyEntry.encode) fun ps =>
      ps.length = n ∧ ∀ p ∈ ps, p.Fits := by
  refine exact_readPartyEntry.many (fun _ _ => rfl) (fun data n pos => ?_) n
  simp only [decodePartyEntries, readPartyEntry, bind_assoc, pure_bind]

theorem exact_decodeU16s (n : Nat) :
    Exact (fun data pos => decodeU16s data n pos) (List.flatMap u16ToLeBytes) fun ids =>
      ids.length = n ∧ ∀ _ ∈ ids, True :=
  exact_readU16.many (fun _ _ => rfl) (fun _ _ _ => rfl) n

theorem SetupMsg.length_encode (s : SetupMsg) : 6 ≤ s.encode.length := by
  simp only [SetupMsg.encode, List.length_append, length_u16ToLeBytes]
  omega

theorem accepts_setupMsg (data : Bytes) : Accepts data 0 (SetupMsg.decode data) fun y b =>
    (y.1.Fits ∧ b = y.1.encode) ∧ y.2 = 0 + b.length := by
  unfold SetupMsg.decode
  apply Accepts.guard
  · apply Accepts.congr
    · apply exact_readU16.bind
      intro maxSigners _
      apply exact_readU16.bind
      intro minSigners _
      apply exact_readU16.bind
      intro numParties _
      apply (exact_decodePartyEntries numParties.toNat).bind
      intro parties _
      apply accepts_pure
    · rintro ⟨s, next⟩ b
      constructor
      · rintro ⟨maxSigners, _, -, ⟨minSigners, _, -, ⟨numParties, _, -, ⟨parties, _, ⟨hlen, hall⟩,
          ⟨hs, rfl⟩, rfl⟩, rfl⟩, rfl⟩, rfl⟩
        obtain ⟨rfl, rfl⟩ := Prod.mk.inj hs
        refine ⟨⟨⟨?_, hall⟩, ?_⟩, ?_⟩
        · rw [hlen]
          exact numParties.toNat_lt
        · simp only [SetupMsg.encode, hlen, UInt16.ofNat_toNat, List.append_nil, List.append_assoc]
        · simp only [List.length_append, List.length_nil]
          omega
      · rintro ⟨⟨hfits, rfl⟩, hnext⟩
        refine ⟨s.maxSigners, _, trivial, ⟨s.minSigners, _, trivial, ⟨.ofNat s.parties.length, _, trivial,
          ⟨s.parties, [], ⟨?_, hfits.names⟩, ⟨?_, rfl⟩, rfl⟩, rfl⟩, rfl⟩, ?_⟩
        · rw [toNat_ofNat16 hfits.parties]
        · refine Prod.ext rfl (hnext.trans ?_)
          simp only [SetupMsg.encode, List.length_append, Nat.add_assoc]
        · simp only [SetupMsg.encode, List.append_nil, List.append_assoc]
  · rintro ⟨s, next⟩ _ ⟨⟨-, rfl⟩, -⟩ hs
    rw [failIf_eq_ok, not_lt]
    have hle := hs.le_length (Nat.zero_le _)
    have hs := s.length_encode
    simp only at hle
    omega

theorem exact_readField : Exact readField lengthPrefixed fun b => b.length < 2 ^ 32 := by
  intro data pos
  unfold readField
  apply Accepts.congr
  · apply exact_readU32.bind
    intro len _
    apply exact_readBytes len.toNat
  · rintro ⟨x, next⟩ b
    constructor
    · rintro ⟨len, b, -, ⟨⟨hlen, hb⟩, hnext⟩, rfl⟩
      obtain rfl : b = x := hb
      have hlt : b.length < 2 ^ 32 := by
        rw [hlen]
        exact len.toNat_lt
      refine ⟨⟨hlt, ?_⟩, ?_⟩
      · simp only [lengthPrefixed, hlen, UInt32.ofNat_toNat]
      · rw [hnext, List.length_append, Nat.add_assoc]
    · rintro ⟨⟨hlt, rfl⟩, hnext⟩
      refine ⟨.ofNat x.length, x, trivial, ⟨⟨?_, rfl⟩, ?_⟩, rfl⟩
      · rw [toNat_ofNat32 hlt]
      · rw [hnext, lengthPrefixed, List.length_append, Nat.add_assoc]

/-! ## Each message is read exactly, as far as its field of free length fits -/

structure SignSetup.Fits (s : SignSetup) : Prop where
  base : s.base.Fits
  message : s.message.length < 2 ^ 32

structure ReshareSetup.Fits (s : ReshareSetup) : Prop where
  base : s.base.Fits
  oldIdentifiers : s.oldIdentifiers.length < 2 ^ 16
  expectedVk : s.expectedVk.length < 2 ^ 32

structure KeyImportSetup.Fits (s : KeyImportSetup) : Prop where
  base : s.base.Fits
  secretData : s.secretData.length < 2 ^ 32

structure KeyImageSetup.Fits (s : KeyImageSetup) : Prop where
  base : s.base.Fits
  outputsData : s.outputsData.length < 2 ^ 32

theorem accepts_signSetup (data : Bytes) :
    Accepts data 0 (SignSetup.decode data) fun s b => s.Fits ∧ b = s.encode := by
  have hdecode : SignSetup.decode data = (do
      let (base, pos) ← SetupMsg.decode data
      let (message, _) ← readField data pos
      return { base, message }) := by
    simp only [SignSetup.decode, readField, bind_assoc]
  rw [hdecode]
  apply Accepts.congr
  · apply (accepts_setupMsg data).bind
    intro base _
    apply exact_readField.bind
    intro message _
    apply accepts_pure
  · intro s b
    constructor
    · rintro ⟨base, _, hbase, ⟨message, _, hlt, ⟨rfl, rfl⟩, rfl⟩, rfl⟩
      refine ⟨⟨hbase, hlt⟩, ?_⟩
      simp only [SignSetup.encode, lengthPrefixed, List.append_nil, List.append_assoc]
    · rintro ⟨hfits, rfl⟩
      refine ⟨s.base, _, hfits.base, ⟨s.message, [], hfits.message, ⟨rfl, rfl⟩, rfl⟩, ?_⟩
      simp only [SignSetup.encode, lengthPrefixed, List.append_nil, List.append_assoc]

theorem ReshareSetup.decode_eq (data : Bytes) :
    ReshareSetup.decode data = (do
      let (base, pos) ← SetupMsg.decode data
      let (numOld, pos) ← readU16 data pos
      let (oldIdentifiers, pos) ← decodeU16s data numOld.toNat pos
      let (expectedVk, _) ← readField data pos
      return { base, oldIdentifiers, expectedVk }) := by
  simp only [ReshareSetup.decode, readField, bind_assoc]

theorem accepts_reshareSetup (data : Bytes) :
    Accepts data 0 (ReshareSetup.decode data) fun s b => s.Fits ∧ b = s.encode := by
  rw [ReshareSetup.decode_eq]
  apply Accepts.congr
  · apply (accepts_setupMsg data).bind
    intro base _
    apply exact_readU16.bind
    intro numOld _
    apply (exact_decodeU16s numOld.toNat).bind
    intro oldIdentifiers _
    apply exact_readField.bind
    intro expectedVk _
    apply accepts_pure
  · intro s b
    constructor
    · rintro ⟨base, _, hbase, ⟨numOld, _, -, ⟨ids, _, ⟨hlen, -⟩, ⟨vk, _, hvk, ⟨rfl, rfl⟩, rfl⟩, rfl⟩,
        rfl⟩, rfl⟩
      refine ⟨⟨hbase, ?_, hvk⟩, ?_⟩
      · rw [hlen]
        exact numOld.toNat_lt
      · simp only [ReshareSetup.encode, lengthPrefixed, hlen, UInt16.ofNat_toNat, List.append_nil,
          List.append_assoc]
    · rintro ⟨hfits, rfl⟩
      refine ⟨s.base, _, hfits.base, ⟨.ofNat s.oldIdentifiers.length, _, trivial, ⟨s.oldIdentifiers, _,
        ⟨?_, fun _ _ => trivial⟩, ⟨s.expectedVk, [], hfits.expectedVk, ⟨rfl, rfl⟩, rfl⟩, rfl⟩, rfl⟩, ?_⟩
      · rw [toNat_ofNat16 hfits.oldIdentifiers]
      · simp only [ReshareSetup.encode, lengthPrefixed, List.append_nil, List.append_assoc]

theorem accepts_keyImportSetup (data : Bytes) :
    Accepts data 0 (KeyImportSetup.decode data) fun s b => s.Fits ∧ b = s.encode := by
  have hdecode : KeyImportSetup.decode data = (do
      let (base, pos) ← SetupMsg.decode data
      let (seedHolderId, pos) ← readU16 data pos
      let (secretData, pos) ← readField data pos
      let (accountIndex, _) ← readU32 data pos
      return { base, seedHolderId, secretData, accountIndex }) := by
    simp only [KeyImportSetup.decode, readField, bind_assoc]
  rw [hdecode]
  apply Accepts.congr
  · apply (accepts_setupMsg data).bind
    intro base _
    apply exact_readU16.bind
    intro seedHolderId _
    apply exact_readField.bind
    intro secretData _
    apply exact_readU32.bind
    intro accountIndex _
    apply accepts_pure
  · intro s b
    constructor
    · rintro ⟨base, _, hbase, ⟨holder, _, -, ⟨secret, _, hlt, ⟨account, _, -, ⟨rfl, rfl⟩, rfl⟩, rfl⟩,
        rfl⟩, rfl⟩
      refine ⟨⟨hbase, hlt⟩, ?_⟩
      simp only [KeyImportSetup.encode, lengthPrefixed, List.append_nil, List.append_assoc]
    · rintro ⟨hfits, rfl⟩
      refine ⟨s.base, _, hfits.base, ⟨s.seedHolderId, _, trivial, ⟨s.secretData, _, hfits.secretData,
        ⟨s.accountIndex, [], trivial, ⟨rfl, rfl⟩, rfl⟩, rfl⟩, rfl⟩, ?_⟩
      simp only [KeyImportSetup.encode, lengthPrefixed, List.append_nil, List.append_assoc]

theorem accepts_keyImageSetup (data : Bytes) :
    Accepts data 0 (KeyImageSetup.decode data) fun s b => s.Fits ∧ b = s.encode := by
  have hdecode : KeyImageSetup.decode data = (do
      let (base, pos) ← SetupMsg.decode data
      let (outputsData, _) ← readField data pos
      return { base, outputsData }) := by
    simp only [KeyImageSetup.decode, readField, bind_assoc]
  rw [hdecode]
  apply Accepts.congr
  · apply (accepts_setupMsg data).bind
    intro base _
    apply exact_readField.bind
    intro outputsData _
    apply accepts_pure
  · intro s b
    constructor
    · rintro ⟨base, _, hbase, ⟨outputs, _, hlt, ⟨rfl, rfl⟩, rfl⟩, rfl⟩
      refine ⟨⟨hbase, hlt⟩, ?_⟩
      simp only [KeyImageSetup.encode, lengthPrefixed, List.append_nil, List.append_assoc]
    · rintro ⟨hfits, rfl⟩
      refine ⟨s.base, _, hfits.base, ⟨s.outputsData, [], hfits.outputsData, ⟨rfl, rfl⟩, rfl⟩, ?_⟩
      simp only [KeyImageSetup.encode, lengthPrefixed, List.append_nil, List.append_assoc]
