import FrostZm.Session.SetupCodec

/-!
# Setup messages come back as they were made

What each constructor can make, and what it promises about reading it back, with anything behind it.
-/

inductive Setup
  | dkg (setup : SetupMsg)
  | sign (setup : SignSetup)
  | reshare (setup : ReshareSetup)
  | keyImport (setup : KeyImportSetup)
  | keyImage (setup : KeyImageSetup)

namespace Setup

inductive Kind
  | dkg
  | sign
  | reshare
  | keyImport
  | keyImage

def kind : Setup → Kind
  | .dkg _ => .dkg
  | .sign _ => .sign
  | .reshare _ => .reshare
  | .keyImport _ => .keyImport
  | .keyImage _ => .keyImage

def encode : Setup → Bytes
  | .dkg s => s.encode
  | .sign s => s.encode
  | .reshare s => s.encode
  | .keyImport s => s.encode
  | .keyImage s => s.encode

def decode : Kind → Bytes → Result Setup
  | .dkg, data => (fun r => .dkg r.1) <$> SetupMsg.decode data
  | .sign, data => .sign <$> SignSetup.decode data
  | .reshare, data => .reshare <$> ReshareSetup.decode data
  | .keyImport, data => .keyImport <$> KeyImportSetup.decode data
  | .keyImage, data => .keyImage <$> KeyImageSetup.decode data

/-- The field whose length the caller chooses. -/
def payload : Setup → Bytes
  | .dkg _ => []
  | .sign s => s.message
  | .reshare s => s.expectedVk
  | .keyImport s => s.secretData
  | .keyImage s => s.outputsData

/-- Some call of the constructors makes this setup. -/
inductive Constructed : Setup → Prop
  | dkg {maxSigners minSigners partiesData s} :
      newSetupMsg maxSigners minSigners partiesData = .ok s → Constructed (.dkg s)
  | sign {msgToSign partiesData s} : newSignSetup msgToSign partiesData = .ok s → Constructed (.sign s)
  | reshare {maxSigners minSigners partiesData oldIdentifiers expectedVk s} :
      newReshareSetup maxSigners minSigners partiesData oldIdentifiers expectedVk = .ok s →
      Constructed (.reshare s)
  | keyImport {maxSigners minSigners partiesData seedHolderId seed accountIndex s} :
      newKeyImportSetup maxSigners minSigners partiesData seedHolderId seed accountIndex = .ok s →
      Constructed (.keyImport s)
  | keyImage {partiesData outputs s} : newKeyImageSetup partiesData outputs = .ok s →
      Constructed (.keyImage s)

/-- The sessions find what the constructors append. -/
def TrailingFound : Setup → Prop
  | .dkg s => ∀ maxSigners minSigners partiesData,
      newSetupMsg maxSigners minSigners partiesData = .ok s → ∀ birthday data,
      (froztDkgSetupmsgNew maxSigners minSigners partiesData birthday = .ok data →
        froztDkgFields data = .ok (s, birthday)) ∧
      ∀ network, fromtDkgSetupmsgNew maxSigners minSigners partiesData network birthday = .ok data →
        fromtDkgFields data = .ok (s, network, birthday)
  | .keyImport s => ∀ maxSigners minSigners partiesData seedHolderId seed accountIndex,
      newKeyImportSetup maxSigners minSigners partiesData seedHolderId seed accountIndex = .ok s →
      ∀ birthday data,
      (froztKeyImportSetupmsgNew maxSigners minSigners partiesData birthday seedHolderId seed
          accountIndex = .ok data →
        froztKeyImportFields data = .ok (s, birthday)) ∧
      ∀ network, accountIndex = 0 →
        fromtKeyImportSetupmsgNew maxSigners minSigners partiesData network birthday seedHolderId seed =
          .ok data → fromtKeyImportFields data = .ok (s, network, birthday)
  | _ => True

/-- The setup comes back, whatever follows it, and so does what is appended to it. -/
structure RoundTrips (s : Setup) : Prop where
  decoded : ∀ rest, decode s.kind (s.encode ++ rest) = .ok s
  trailing : s.TrailingFound

/-- Of what is accepted, exactly the bytes are read that the setup encodes to. -/
structure SelfDelimiting (kind : Kind) : Prop where
  reencoded : ∀ data s, decode kind data = .ok s → s.encode <+: data
  exact : ∀ data s, decode kind data = .ok s → ∀ other, decode kind other = .ok s ↔ s.encode <+: other
  consumed : ∀ data s n, SetupMsg.decode data = .ok (s, n) → n = s.encode.length

/-! ## The constructors bound what they count -/

theorem decodePartiesFrom_fits {data : Bytes} {n pos : Nat} {ps : List PartyEntry}
    (h : decodePartiesFrom data n pos = .ok ps) : ps.length = n ∧ ∀ p ∈ ps, p.Fits := by
  induction n generalizing pos ps with
  | zero =>
    obtain rfl := Except.ok.inj h
    exact ⟨rfl, by simp⟩
  | succ n ih =>
    simp only [decodePartiesFrom, bind_eq_ok, failIf_eq_ok] at h
    obtain ⟨-, -, -, hname, parties, hparties, h⟩ := h
    obtain rfl := Except.ok.inj h
    obtain ⟨hlen, hall⟩ := ih hparties
    refine ⟨congrArg (· + 1) hlen, List.forall_mem_cons.mpr ⟨?_, hall⟩⟩
    have hlt := (u16FromLeBytes (slice data (pos + 2) 2)).toNat_lt
    simp only [PartyEntry.Fits, slice, List.length_take] at hlt ⊢
    omega

theorem decodeParties_fits {data : Bytes} {ps : List PartyEntry} (h : decodeParties data = .ok ps)
    (maxSigners minSigners : UInt16) : SetupMsg.Fits { maxSigners, minSigners, parties := ps } := by
  simp only [decodeParties, bind_eq_ok, failIf_eq_ok] at h
  obtain ⟨-, -, h⟩ := h
  obtain ⟨hlen, hall⟩ := decodePartiesFrom_fits h
  refine ⟨?_, hall⟩
  rw [hlen]
  exact UInt16.toNat_lt _

theorem length_decodeU16ListFrom {data : Bytes} {n pos : Nat} {ids : List UInt16}
    (h : decodeU16ListFrom data n pos = .ok ids) : ids.length = n := by
  induction n generalizing pos ids with
  | zero =>
    obtain rfl := Except.ok.inj h
    rfl
  | succ n ih =>
    simp only [decodeU16ListFrom, bind_eq_ok, failIf_eq_ok] at h
    obtain ⟨-, -, list, hlist, h⟩ := h
    obtain rfl := Except.ok.inj h
    exact congrArg (· + 1) (ih hlist)

theorem length_decodeU16List {data : Bytes} {ids : List UInt16} (h : decodeU16List data = .ok ids) :
    ids.length < 2 ^ 16 := by
  simp only [decodeU16List, bind_eq_ok, failIf_eq_ok] at h
  obtain ⟨-, -, h⟩ := h
  rw [length_decodeU16ListFrom h]
  exact UInt16.toNat_lt _

def Fits : Setup → Prop
  | .dkg s => s.Fits
  | .sign s => s.Fits
  | .reshare s => s.Fits
  | .keyImport s => s.Fits
  | .keyImage s => s.Fits

theorem Constructed.fits_iff {s : Setup} (h : s.Constructed) : s.Fits ↔ s.payload.length < 2 ^ 32 := by
  cases h with
  | dkg h =>
    simp only [newSetupMsg, bind_eq_ok] at h
    obtain ⟨pd, -, ps, hps, h⟩ := h
    obtain rfl := Except.ok.inj h
    exact ⟨fun _ => Nat.two_pow_pos 32, fun _ => decodeParties_fits hps _ _⟩
  | sign h =>
    simp only [newSignSetup, bind_eq_ok] at h
    obtain ⟨msg, -, pd, -, ps, hps, h⟩ := h
    obtain rfl := Except.ok.inj h
    exact ⟨fun h => h.message, fun h => ⟨decodeParties_fits hps _ _, h⟩⟩
  | reshare h =>
    simp only [newReshareSetup, bind_eq_ok] at h
    obtain ⟨pd, -, oi, -, vk, -, ps, hps, ids, hids, h⟩ := h
    obtain rfl := Except.ok.inj h
    exact ⟨fun h => h.expectedVk, fun h => ⟨decodeParties_fits hps _ _, length_decodeU16List hids, h⟩⟩
  | keyImport h =>
    simp only [newKeyImportSetup, bind_eq_ok] at h
    obtain ⟨pd, -, secret, -, ps, hps, h⟩ := h
    obtain rfl := Except.ok.inj h
    exact ⟨fun h => h.secretData, fun h => ⟨decodeParties_fits hps _ _, h⟩⟩
  | keyImage h =>
    simp only [newKeyImageSetup, bind_eq_ok] at h
    obtain ⟨pd, -, outputs, -, ps, hps, h⟩ := h
    obtain rfl := Except.ok.inj h
    exact ⟨fun h => h.outputsData, fun h => ⟨decodeParties_fits hps _ _, h⟩⟩

/-! ## What the decoders accept -/

theorem setupMsg_eq_ok {data : Bytes} {s : SetupMsg} {n : Nat} :
    SetupMsg.decode data = .ok (s, n) ↔ (s.Fits ∧ s.encode <+: data) ∧ n = s.encode.length := by
  rw [accepts_setupMsg data (Nat.zero_le _)]
  simp only [PosReader.holds_zero, Nat.zero_add]
  constructor
  · rintro ⟨b, ⟨⟨hfits, rfl⟩, hn⟩, hb⟩
    exact ⟨⟨hfits, hb⟩, hn⟩
  · rintro ⟨⟨hfits, hb⟩, hn⟩
    exact ⟨_, ⟨⟨hfits, rfl⟩, hn⟩, hb⟩

theorem decode_eq_ok {kind : Kind} {data : Bytes} {s : Setup} :
    decode kind data = .ok s ↔ s.kind = kind ∧ s.Fits ∧ s.encode <+: data := by
  constructor
  · intro h
    cases kind with
    | dkg =>
      obtain ⟨⟨t, n⟩, ht, rfl⟩ := map_eq_ok.mp h
      exact ⟨rfl, (setupMsg_eq_ok.mp ht).1⟩
    | sign =>
      obtain ⟨t, ht, rfl⟩ := map_eq_ok.mp h
      exact ⟨rfl, (accepts_signSetup data).eq_ok_iff.mp ht⟩
    | reshare =>
      obtain ⟨t, ht, rfl⟩ := map_eq_ok.mp h
      exact ⟨rfl, (accepts_reshareSetup data).eq_ok_iff.mp ht⟩
    | keyImport =>
      obtain ⟨t, ht, rfl⟩ := map_eq_ok.mp h
      exact ⟨rfl, (accepts_keyImportSetup data).eq_ok_iff.mp ht⟩
    | keyImage =>
      obtain ⟨t, ht, rfl⟩ := map_eq_ok.mp h
      exact ⟨rfl, (accepts_keyImageSetup data).eq_ok_iff.mp ht⟩
  · rintro ⟨rfl, h⟩
    cases s with
    | dkg t => exact map_eq_ok.mpr ⟨(t, _), setupMsg_eq_ok.mpr ⟨h, rfl⟩, rfl⟩
    | sign t => exact map_eq_ok.mpr ⟨t, (accepts_signSetup data).eq_ok_iff.mpr h, rfl⟩
    | reshare t => exact map_eq_ok.mpr ⟨t, (accepts_reshareSetup data).eq_ok_iff.mpr h, rfl⟩
    | keyImport t => exact map_eq_ok.mpr ⟨t, (accepts_keyImportSetup data).eq_ok_iff.mpr h, rfl⟩
    | keyImage t => exact map_eq_ok.mpr ⟨t, (accepts_keyImageSetup data).eq_ok_iff.mpr h, rfl⟩

theorem selfDelimiting (kind : Kind) : SelfDelimiting kind := by
  refine ⟨fun data s h => ?_, fun data s h other => ?_, fun data s n h => ?_⟩
  · exact (decode_eq_ok.mp h).2.2
  · obtain ⟨hkind, hfits, -⟩ := decode_eq_ok.mp h
    rw [decode_eq_ok]
    exact ⟨fun h => h.2.2, fun h => ⟨hkind, hfits, h⟩⟩
  · exact (setupMsg_eq_ok.mp h).2

/-! ## What stands behind a setup -/

theorem froztTrailingAt_append (b : Bytes) (birthday : UInt64) :
    froztTrailingAt (b ++ froztTrailing birthday) b.length = .ok birthday := by
  have hcheck : ¬ b.length + 8 > (b ++ froztTrailing birthday).length := by
    rw [List.length_append, froztTrailing, length_u64ToLeBytes]
    omega
  unfold froztTrailingAt
  rw [(failIf_eq_ok (u := ())).mpr hcheck]
  change Except.ok _ = _
  rw [slice, List.drop_left, froztTrailing, List.take_of_length_le (length_u64ToLeBytes birthday).le,
    u64FromLeBytes_toLeBytes]

theorem fromtTrailingAt_append (b : Bytes) (network : UInt8) (birthday : UInt64) :
    fromtTrailingAt (b ++ fromtTrailing network birthday) b.length = .ok (network, birthday) := by
  have hlen : (fromtTrailing network birthday).length = 9 := by
    rw [fromtTrailing, List.length_cons, length_u64ToLeBytes]
  have hcheck : ¬ b.length + 1 + 8 > (b ++ fromtTrailing network birthday).length := by
    rw [List.length_append, hlen]
    omega
  have hnetwork : (b ++ fromtTrailing network birthday)[b.length]? = some network := by
    rw [List.getElem?_append_right le_rfl, Nat.sub_self]
    rfl
  have hbirthday : slice (b ++ fromtTrailing network birthday) (b.length + 1) 8 = u64ToLeBytes birthday := by
    rw [slice, ← List.drop_drop, List.drop_left, fromtTrailing, List.drop_succ_cons, List.drop_zero,
      List.take_of_length_le (length_u64ToLeBytes birthday).le]
  unfold fromtTrailingAt
  rw [(failIf_eq_ok (u := ())).mpr hcheck, hnetwork, hbirthday, u64FromLeBytes_toLeBytes]
  rfl

theorem setupMsg_append {s : SetupMsg} (h : s.Fits) (rest : Bytes) :
    SetupMsg.decode (s.encode ++ rest) = .ok (s, s.encode.length) :=
  setupMsg_eq_ok.mpr ⟨⟨h, List.prefix_append _ _⟩, rfl⟩

theorem keyImportSetup_append {s : KeyImportSetup} (h : s.Fits) (rest : Bytes) :
    KeyImportSetup.decode (s.encode ++ rest) = .ok s :=
  (accepts_keyImportSetup _).eq_ok_iff.mpr ⟨h, List.prefix_append _ _⟩

theorem trailingFound {s : Setup} (h : s.Fits) : s.TrailingFound := by
  cases s with
  | dkg s =>
    intro maxSigners minSigners partiesData hs birthday data
    refine ⟨fun hdata => ?_, fun network hdata => ?_⟩
    · rw [froztDkgSetupmsgNew, hs] at hdata
      obtain rfl := Except.ok.inj hdata
      exact bind_eq_ok.mpr ⟨_, setupMsg_append h _,
        bind_eq_ok.mpr ⟨_, froztTrailingAt_append _ _, rfl⟩⟩
    · rw [fromtDkgSetupmsgNew, hs] at hdata
      obtain rfl := Except.ok.inj hdata
      exact bind_eq_ok.mpr ⟨_, setupMsg_append h _,
        bind_eq_ok.mpr ⟨_, fromtTrailingAt_append _ _ _, rfl⟩⟩
  | keyImport s =>
    intro maxSigners minSigners partiesData seedHolderId seed accountIndex hs birthday data
    refine ⟨fun hdata => ?_, fun network haccount hdata => ?_⟩
    · rw [froztKeyImportSetupmsgNew, hs] at hdata
      obtain rfl := Except.ok.inj hdata
      exact bind_eq_ok.mpr ⟨_, keyImportSetup_append h _,
        bind_eq_ok.mpr ⟨_, froztTrailingAt_append _ _, rfl⟩⟩
    · subst haccount
      rw [fromtKeyImportSetupmsgNew, hs] at hdata
      obtain rfl := Except.ok.inj hdata
      exact bind_eq_ok.mpr ⟨_, keyImportSetup_append h _,
        bind_eq_ok.mpr ⟨_, fromtTrailingAt_append _ _ _, rfl⟩⟩
  | sign => trivial
  | reshare => trivial
  | keyImage => trivial

/-- Whatever is accepted is read to its last byte. A setup comes back if and only if the field
whose length the caller chooses is shorter than 2^32 bytes: its length is cast to 32 bits. -/
theorem setups_roundTrip_iff (s : Setup) (h : s.Constructed) :
    SelfDelimiting s.kind ∧ (s.RoundTrips ↔ s.payload.length < 2 ^ 32) := by
  refine ⟨selfDelimiting s.kind, ?_⟩
  rw [← h.fits_iff]
  constructor
  · intro hback
    exact (decode_eq_ok.mp (hback.decoded [])).2.1
  · intro hfits
    exact ⟨fun rest => decode_eq_ok.mpr ⟨rfl, hfits, List.prefix_append _ _⟩, trailingFound hfits⟩

section Samples

/-- Two parties without names. -/
def sampleParties : Bytes := [2, 0, 1, 0, 0, 0, 2, 0, 0, 0]

def sampleSign (message : Bytes) : SignSetup where
  base := { maxSigners := 2, minSigners := 2, parties := [⟨1, []⟩, ⟨2, []⟩] }
  message := message

theorem sampleSign_constructed (message : Bytes) : (Setup.sign (sampleSign message)).Constructed :=
  .sign (show newSignSetup (some message) (some sampleParties) = .ok (sampleSign message) from rfl)

theorem roundTrips_sample :
    (Setup.sign (sampleSign [7, 7, 7])).Constructed ∧ (Setup.sign (sampleSign [7, 7, 7])).RoundTrips :=
  ⟨sampleSign_constructed _,
    (setups_roundTrip_iff (.sign (sampleSign [7, 7, 7])) (sampleSign_constructed _)).2.mpr (by decide)⟩

/-- A message of 2^32 bytes is announced as an empty one. -/
theorem longMessage_lost :
    (Setup.sign (sampleSign (List.replicate (2 ^ 32) 0))).Constructed ∧
    ¬ (Setup.sign (sampleSign (List.replicate (2 ^ 32) 0))).RoundTrips := by
  refine ⟨sampleSign_constructed _, fun h => ?_⟩
  have hfits := (decode_eq_ok.mp (h.decoded [])).2.1
  rw [(sampleSign_constructed _).fits_iff, payload, sampleSign, List.length_replicate] at hfits
  exact lt_irrefl _ hfits

end Samples

end Setup
