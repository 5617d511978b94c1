import FrostZm.Ffi.Blame
import FrostZm.Frost.Reference

/-!
# Participants as identifiers

An identifier is a scalar of the group in use. The native libraries, the ceremonies and the WASM
libraries each have their own way back from an identifier to the number of the participant.
-/

set_option linter.unusedSectionVars false

namespace Identifiers

/-! ## The decoders -/

/-- An error for the host of a WASM library: one of frost-core, printed, or a text. -/
inductive JsError where
  | frost
  | text (message : String)
deriving DecidableEq

section Decoders

variable {F G Rng : Type} [Field F] [DecidableEq F] [Ord F] [Std.TransOrd F] [Std.LawfulEqOrd F]
  [AddCommGroup G] [Module F G] (core : FrostCore F G Rng)

/-- The entries of `get_id_lookup`, in the order in which they are inserted. -/
def idEntries : List (Bytes × UInt16) :=
  ((List.range 256).map fun i => UInt16.ofNat (i + 1)).filterMap fun i =>
    (Identifier.tryFrom i : Option (Identifier F)).map fun id => (core.serializeIdentifier id, i)

/-- Of equal keys the last one counts. -/
def idLookup (key : Bytes) : Option UInt16 :=
  ((idEntries core).reverse.find? (·.1 = key)).map Prod.snd

/-- `identifier_to_u16` of either native library. -/
def identifierToU16 (ident : Identifier F) : Result UInt16 :=
  okOr .invalidIdentifier (idLookup core (core.serializeIdentifier ident))

/-- `decode_identifier` of either native library. -/
def decodeIdentifier (idBytes : Option Bytes) : Result UInt16 := do
  let data ← okOr .nullPtr idBytes
  let ident ← okOr .serializationError (core.deserializeIdentifier data)
  identifierToU16 core ident

/-- `encode_identifier` of either native library. -/
def encodeIdentifier (id : UInt16) : Result Bytes := do
  let ident ← okOr .invalidIdentifier (Identifier.tryFrom id : Option (Identifier F))
  return core.serializeIdentifier ident

/-- `encode_identifier` of either WASM library. -/
def wasmEncodeIdentifier (id : UInt16) : Except JsError Bytes :=
  match (Identifier.tryFrom id : Option (Identifier F)) with
  | none => .error .frost
  | some ident => .ok (core.serializeIdentifier ident)

/-- The bytes of an identifier, read and searched for by the ceremonies. -/
def ceremonyDecode (data : Bytes) : Option UInt16 :=
  (core.deserializeIdentifier data).bind (Ceremony.identifierToU16 core)

/-- `identifier_to_u16` of the Zcash WASM library. -/
def froztWasmIdentifierToU16 (ident : Identifier F) : Except JsError UInt16 :=
  match idLookup core (core.serializeIdentifier ident) with
  | none => .error (.text "identifier not found in lookup")
  | some id => .ok id

/-- The same from bytes, as in the packages that the library reads. -/
def froztWasmDecode (data : Bytes) : Except JsError UInt16 :=
  match core.deserializeIdentifier data with
  | none => .error .frost
  | some ident => froztWasmIdentifierToU16 core ident

/-- `fromt_decode_identifier` of the Monero WASM library. -/
def fromtWasmDecodeIdentifier (idBytes : Bytes) : Except JsError UInt16 :=
  match core.deserializeIdentifier idBytes with
  | none => .error .frost
  | some ident =>
    let serialized := core.serializeIdentifier ident
    if serialized.length < 2 then .error (.text "identifier too short")
    else .ok (u16FromLeBytes (serialized.take 2))

/-- What the scalars of a group are as bytes: numbers below its order, of 32 bytes. -/
structure ScalarBytes (order : Nat) : Prop where
  order_ge : 2 ^ 16 ≤ order
  cast_injective : ∀ m n : Nat, m < order → n < order → (m : F) = n → m = n
  deserialize_iff : ∀ b ident, core.deserializeIdentifier b = some ident ↔
    b.length = 32 ∧ LittleEndian.value b < order ∧ ident.toScalar = (LittleEndian.value b : F)

end Decoders

/-! ## What they should do -/

section Agreement

variable {F F' G G' Rng Rng' : Type} [Field F] [DecidableEq F] [Ord F] [Std.TransOrd F]
  [Std.LawfulEqOrd F] [AddCommGroup G] [Module F G] [Field F'] [DecidableEq F'] [Ord F']
  [Std.TransOrd F'] [Std.LawfulEqOrd F'] [AddCommGroup G'] [Module F' G']
  (frozt : FrostCore F G Rng) (fromt : FrostCore F' G' Rng')

/-- What is encoded for the participant is decoded as the participant. -/
structure ComesBack (id : UInt16) : Prop where
  froztNative : ∃ b, encodeIdentifier frozt id = .ok b ∧ decodeIdentifier frozt (some b) = .ok id
  fromtNative : ∃ b, encodeIdentifier fromt id = .ok b ∧ decodeIdentifier fromt (some b) = .ok id
  froztCeremony : ∃ b, encodeIdentifier frozt id = .ok b ∧ ceremonyDecode frozt b = some id
  fromtCeremony : ∃ b, encodeIdentifier fromt id = .ok b ∧ ceremonyDecode fromt b = some id
  froztWasm : ∃ b, wasmEncodeIdentifier frozt id = .ok b ∧ froztWasmDecode frozt b = .ok id
  fromtWasm : ∃ b, wasmEncodeIdentifier fromt id = .ok b ∧ fromtWasmDecodeIdentifier fromt b = .ok id

/-- All take the bytes for the same participant, or none takes them for one. -/
structure DecodeAlike (b : Bytes) : Prop where
  fromtNative : (decodeIdentifier fromt (some b)).toOption = (decodeIdentifier frozt (some b)).toOption
  froztCeremony : ceremonyDecode frozt b = (decodeIdentifier frozt (some b)).toOption
  fromtCeremony : ceremonyDecode fromt b = (decodeIdentifier frozt (some b)).toOption
  froztWasm : (froztWasmDecode frozt b).toOption = (decodeIdentifier frozt (some b)).toOption
  fromtWasm : (fromtWasmDecodeIdentifier fromt b).toOption =
    (decodeIdentifier frozt (some b)).toOption

end Agreement

/-! ## Bytes and numbers -/

section Laws

variable {F G Rng : Type} [Field F] [DecidableEq F] [Ord F] [Std.TransOrd F] [Std.LawfulEqOrd F]
  [AddCommGroup G] [Module F G] {core : FrostCore F G Rng} {order : Nat}

/-- The participant of 32 bytes that hold a number up to 256. -/
def smallId (b : Bytes) : Option UInt16 :=
  if b.length = 32 ∧ 0 < LittleEndian.value b ∧ LittleEndian.value b ≤ 256 then
    some (.ofNat (LittleEndian.value b))
  else none

/-- The lowest two bytes of any number below the order. -/
def lowId (order : Nat) (b : Bytes) : Option UInt16 :=
  if b.length = 32 ∧ 0 < LittleEndian.value b ∧ LittleEndian.value b < order then
    some (.ofNat (LittleEndian.value b))
  else none

theorem value_append (a b : Bytes) :
    LittleEndian.value (a ++ b) = LittleEndian.value a + 256 ^ a.length * LittleEndian.value b := by
  induction a with
  | nil => simp [LittleEndian.value]
  | cons x a ih =>
    rw [List.cons_append, LittleEndian.value, ih, LittleEndian.value, List.length_cons]
    ring

theorem u16FromLeBytes_take (b : Bytes) (h : 2 ≤ b.length) :
    u16FromLeBytes (b.take 2) = .ofNat (LittleEndian.value b) := by
  have hvalue := value_append (b.take 2) (b.drop 2)
  have hlen : (b.take 2).length = 2 := by
    rw [List.length_take]
    omega
  rw [List.take_append_drop, hlen] at hvalue
  rw [u16FromLeBytes, ← UInt16.toNat_inj, UInt16.toNat_ofNat', UInt16.toNat_ofNat', hvalue]
  omega

variable (doc : core.Documented) (scalars : ScalarBytes core order)
include doc scalars

theorem serialize_spec (ident : Identifier F) :
    (core.serializeIdentifier ident).length = 32 ∧
      LittleEndian.value (core.serializeIdentifier ident) < order ∧
      ident.toScalar = (LittleEndian.value (core.serializeIdentifier ident) : F) :=
  (scalars.deserialize_iff _ _).mp (doc.identifier_roundtrip ident)

theorem serialize_of_deserialize {b : Bytes} {ident : Identifier F}
    (h : core.deserializeIdentifier b = some ident) : core.serializeIdentifier ident = b := by
  obtain ⟨hlen, hlt, hb⟩ := (scalars.deserialize_iff _ _).mp h
  obtain ⟨hlen', hlt', hser⟩ := serialize_spec doc scalars ident
  have hvalue := scalars.cast_injective _ _ hlt' hlt (hser.symm.trans hb)
  rw [← LittleEndian.bytesOf_value b, ← LittleEndian.bytesOf_value (core.serializeIdentifier ident),
    hlen, hlen', hvalue]

theorem value_of_tryFrom {id : UInt16} {ident : Identifier F}
    (h : Identifier.tryFrom id = some ident) :
    LittleEndian.value (core.serializeIdentifier ident) = id.toNat := by
  obtain ⟨-, hlt, hser⟩ := serialize_spec doc scalars ident
  refine scalars.cast_injective _ _ hlt (id.toNat_lt.trans_le scalars.order_ge) ?_
  rw [← hser, doc.tryFrom_eq_some_iff.mp h]

/-! ## Lookups -/

omit scalars in
theorem idLookup_eq_some {ident : Identifier F} {id : UInt16} :
    idLookup core (core.serializeIdentifier ident) = some id ↔
      Identifier.tryFrom id = some ident ∧ id ≤ 256 := by
  have hentry : ∀ e, e ∈ idEntries core ↔ (e.2 ≠ 0 ∧ e.2 ≤ 256) ∧
      ∃ ident : Identifier F, Identifier.tryFrom e.2 = some ident ∧
        core.serializeIdentifier ident = e.1 := by
    rintro ⟨key, i⟩
    unfold idEntries
    rw [List.mem_filterMap]
    constructor
    · rintro ⟨j, hj, he⟩
      obtain ⟨ident, hident, he⟩ := Option.map_eq_some_iff.mp he
      obtain ⟨rfl, rfl⟩ := Prod.mk.inj he
      exact ⟨Blame.mem_candidates.mp hj, ident, hident, rfl⟩
    · rintro ⟨hi, ident, hident, rfl⟩
      exact ⟨i, Blame.mem_candidates.mpr hi, Option.map_eq_some_iff.mpr ⟨ident, hident, rfl⟩⟩
  have hfound : ∀ e, (idEntries core).reverse.find? (·.1 = core.serializeIdentifier ident) = some e →
      Identifier.tryFrom e.2 = some ident ∧ e.2 ≤ 256 := by
    intro e he
    have hkey : e.1 = core.serializeIdentifier ident := by simpa using List.find?_some he
    obtain ⟨⟨-, hle⟩, ident', hid, hser⟩ :=
      (hentry e).mp (List.mem_reverse.mp (List.mem_of_find?_eq_some he))
    rw [doc.identifier_injective _ _ (hser.trans hkey)] at hid
    exact ⟨hid, hle⟩
  unfold idLookup
  rw [Option.map_eq_some_iff]
  constructor
  · rintro ⟨e, he, rfl⟩
    exact hfound e he
  · rintro ⟨hid, hle⟩
    have hmem : (core.serializeIdentifier ident, id) ∈ idEntries core :=
      (hentry _).mpr ⟨⟨doc.ne_zero_of_tryFrom hid, hle⟩, ident, hid, rfl⟩
    have hsome : ((idEntries core).reverse.find? (·.1 = core.serializeIdentifier ident)).isSome := by
      rw [List.find?_isSome]
      exact ⟨_, List.mem_reverse.mpr hmem, decide_eq_true rfl⟩
    obtain ⟨e, he⟩ := Option.isSome_iff_exists.mp hsome
    exact ⟨e, he, doc.tryFrom_inj (hfound e he).1 hid⟩

omit scalars in
theorem ceremony_identifierToU16_eq (ident : Identifier F) :
    Ceremony.identifierToU16 core ident = idLookup core (core.serializeIdentifier ident) := by
  refine Option.ext fun id => ?_
  rw [Blame.identifierToU16_iff doc, idLookup_eq_some doc]

theorem bind_idLookup (b : Bytes) :
    (core.deserializeIdentifier b).bind (fun ident => idLookup core (core.serializeIdentifier ident)) =
      smallId b := by
  refine Option.ext fun id => ?_
  have hsmall : smallId b = some id ↔
      b.length = 32 ∧ LittleEndian.value b = id.toNat ∧ id ≠ 0 ∧ id ≤ 256 := by
    unfold smallId
    rw [ne_eq, ← UInt16.toNat_inj, UInt16.le_iff_toNat_le, UInt16.toNat_zero]
    have h256 : UInt16.toNat 256 = 256 := rfl
    constructor
    · intro h
      split at h
      · next hb =>
        have hid := congrArg UInt16.toNat (Option.some.inj h)
        rw [UInt16.toNat_ofNat'] at hid
        omega
      · nomatch h
    · rintro ⟨hlen, hvalue, hne, hle⟩
      rw [if_pos (by omega), hvalue, UInt16.ofNat_toNat]
  rw [hsmall, Option.bind_eq_some_iff]
  constructor
  · rintro ⟨ident, hident, hid⟩
    obtain ⟨hid, hle⟩ := (idLookup_eq_some doc).mp hid
    refine ⟨((scalars.deserialize_iff _ _).mp hident).1, ?_, doc.ne_zero_of_tryFrom hid, hle⟩
    rw [← serialize_of_deserialize doc scalars hident, value_of_tryFrom doc scalars hid]
  · rintro ⟨hlen, hvalue, hne, hle⟩
    obtain ⟨ident, hid⟩ := doc.exists_tryFrom (F := F) hne
    refine ⟨ident, (scalars.deserialize_iff _ _).mpr ⟨hlen, ?_, ?_⟩, (idLookup_eq_some doc).mpr ⟨hid, hle⟩⟩
    · rw [hvalue]
      exact id.toNat_lt.trans_le scalars.order_ge
    · rw [hvalue]
      exact doc.tryFrom_eq_some_iff.mp hid

/-! ## What each decoder gives -/

theorem decodeIdentifier_eq (b : Bytes) :
    (decodeIdentifier core (some b)).toOption = smallId b := by
  refine Option.ext fun id => ?_
  rw [← bind_idLookup doc scalars, toOption_eq_some, Option.bind_eq_some_iff]
  unfold decodeIdentifier identifierToU16
  simp only [bind_eq_ok, okOr_eq_ok, Option.some.injEq, exists_eq_left']

theorem ceremonyDecode_eq (b : Bytes) : ceremonyDecode core b = smallId b := by
  rw [← bind_idLookup doc scalars]
  unfold ceremonyDecode
  simp only [funext (ceremony_identifierToU16_eq doc)]

theorem froztWasmDecode_eq (b : Bytes) : (froztWasmDecode core b).toOption = smallId b := by
  rw [← bind_idLookup doc scalars]
  unfold froztWasmDecode froztWasmIdentifierToU16
  cases hident : core.deserializeIdentifier b with
  | none => rfl
  | some ident =>
    simp only [Option.bind_some]
    cases hid : idLookup core (core.serializeIdentifier ident) with
    | none => rfl
    | some id => rfl

theorem fromtWasmDecode_eq (b : Bytes) :
    (fromtWasmDecodeIdentifier core b).toOption = lowId order b := by
  unfold fromtWasmDecodeIdentifier lowId
  cases hident : core.deserializeIdentifier b with
  | none =>
    rw [if_neg]
    · rfl
    rintro ⟨hlen, hpos, hlt⟩
    have hne : (LittleEndian.value b : F) ≠ 0 := by
      intro hzero
      refine absurd (scalars.cast_injective _ 0 hlt (hpos.trans hlt) ?_) hpos.ne'
      rw [hzero, Nat.cast_zero]
    rw [(scalars.deserialize_iff b ⟨_, hne⟩).mpr ⟨hlen, hlt, rfl⟩] at hident
    nomatch hident
  | some ident =>
    obtain ⟨hlen, hlt, hscalar⟩ := (scalars.deserialize_iff b ident).mp hident
    have hpos : 0 < LittleEndian.value b := by
      refine Nat.pos_of_ne_zero fun hzero => ident.ne_zero ?_
      rw [hscalar, hzero, Nat.cast_zero]
    simp only [serialize_of_deserialize doc scalars hident]
    rw [if_neg (by omega), if_pos ⟨hlen, hpos, hlt⟩, u16FromLeBytes_take b (by omega)]
    rfl

theorem encodeIdentifier_eq {id : UInt16} (hne : id ≠ 0) :
    ∃ b, encodeIdentifier core id = .ok b ∧ wasmEncodeIdentifier core id = .ok b ∧
      smallId b = (if id ≤ 256 then some id else none) ∧ lowId order b = some id := by
  obtain ⟨ident, hid⟩ := doc.exists_tryFrom (F := F) hne
  have hvalue := value_of_tryFrom doc scalars hid
  have hlen := (serialize_spec doc scalars ident).1
  have hlt : id.toNat < order := id.toNat_lt.trans_le scalars.order_ge
  have hpos : 0 < id.toNat := UInt16.pos_iff_ne_zero.mpr hne
  refine ⟨core.serializeIdentifier ident, ?_, ?_, ?_, ?_⟩
  · unfold encodeIdentifier
    rw [hid]
    rfl
  · unfold wasmEncodeIdentifier
    rw [hid]
  · unfold smallId
    rw [hvalue, UInt16.ofNat_toNat]
    have hle : id ≤ 256 ↔ id.toNat ≤ 256 := UInt16.le_iff_toNat_le
    simp only [hle, hlen, hpos, true_and]
  · unfold lowId
    rw [hvalue, UInt16.ofNat_toNat, if_pos ⟨hlen, hpos, hlt⟩]

end Laws

/-! ## All decoders -/

section All

variable {F F' G G' Rng Rng' : Type} [Field F] [DecidableEq F] [Ord F] [Std.TransOrd F]
  [Std.LawfulEqOrd F] [AddCommGroup G] [Module F G] [Field F'] [DecidableEq F'] [Ord F']
  [Std.TransOrd F'] [Std.LawfulEqOrd F'] [AddCommGroup G'] [Module F' G']
  {frozt : FrostCore F G Rng} {fromt : FrostCore F' G' Rng'} {order order' : Nat}
  (doc : frozt.Documented) (doc' : fromt.Documented) (scalars : ScalarBytes frozt order)
  (scalars' : ScalarBytes fromt order')
include doc doc' scalars scalars'

theorem comesBack_iff {id : UInt16} (hne : id ≠ 0) : ComesBack frozt fromt id ↔ id ≤ 256 := by
  obtain ⟨b, hb, hwasm, hsmall, -⟩ := encodeIdentifier_eq doc scalars hne
  obtain ⟨b', hb', hwasm', hsmall', hlow⟩ := encodeIdentifier_eq doc' scalars' hne
  constructor
  · intro h
    obtain ⟨c, hc, hdecode⟩ := h.froztNative
    obtain rfl := Except.ok.inj (hb.symm.trans hc)
    rw [← toOption_eq_some, decodeIdentifier_eq doc scalars, hsmall] at hdecode
    by_contra hgt
    rw [if_neg hgt] at hdecode
    nomatch hdecode
  · intro hle
    rw [if_pos hle] at hsmall hsmall'
    refine ⟨⟨b, hb, ?_⟩, ⟨b', hb', ?_⟩, ⟨b, hb, ?_⟩, ⟨b', hb', ?_⟩, ⟨b, hwasm, ?_⟩, ⟨b', hwasm', ?_⟩⟩
    · rw [← toOption_eq_some, decodeIdentifier_eq doc scalars, hsmall]
    · rw [← toOption_eq_some, decodeIdentifier_eq doc' scalars', hsmall']
    · rw [ceremonyDecode_eq doc scalars, hsmall]
    · rw [ceremonyDecode_eq doc' scalars', hsmall']
    · rw [← toOption_eq_some, froztWasmDecode_eq doc scalars, hsmall]
    · rw [← toOption_eq_some, fromtWasmDecode_eq doc' scalars', hlow]

theorem decodeAlike_iff {b : Bytes} (hlen : b.length = 32) :
    DecodeAlike frozt fromt b ↔
      LittleEndian.value b ≤ 256 ∨ order' ≤ LittleEndian.value b := by
  have hiff : DecodeAlike frozt fromt b ↔ lowId order' b = smallId b := by
    have hnative := decodeIdentifier_eq doc scalars b
    constructor
    · intro h
      rw [← fromtWasmDecode_eq doc' scalars', h.fromtWasm, hnative]
    · intro h
      refine ⟨?_, ?_, ?_, ?_, ?_⟩
      · rw [hnative, decodeIdentifier_eq doc' scalars']
      · rw [hnative, ceremonyDecode_eq doc scalars]
      · rw [hnative, ceremonyDecode_eq doc' scalars']
      · rw [hnative, froztWasmDecode_eq doc scalars]
      · rw [hnative, fromtWasmDecode_eq doc' scalars', h]
  have horder := scalars'.order_ge
  rw [hiff]
  unfold lowId smallId
  simp only [hlen, true_and]
  constructor
  · intro h
    by_contra hlarge
    rw [if_pos (by omega), if_neg (by omega)] at h
    nomatch h
  · intro h
    by_cases hsmall : 0 < LittleEndian.value b ∧ LittleEndian.value b ≤ 256
    · rw [if_pos hsmall, if_pos (by omega)]
    · rw [if_neg hsmall, if_neg (by omega)]

/-- Only the first 256 participants come back from all decoders. The bytes that the decoders do not
take alike are those of the larger numbers below the order of the Monero group. -/
theorem identifiers_agree_iff :
    (∀ id, id ≠ 0 → (ComesBack frozt fromt id ↔ id ≤ 256)) ∧
    (∀ b : Bytes, b.length = 32 → (DecodeAlike frozt fromt b ↔
      LittleEndian.value b ≤ 256 ∨ order' ≤ LittleEndian.value b)) :=
  ⟨fun _ => comesBack_iff doc doc' scalars scalars', fun _ => decodeAlike_iff doc doc' scalars scalars'⟩

end All

/-! ## Over a small field -/

theorem decodeScalars_one (b : Bytes) :
    Reference.decodeScalars 1 b = if b.length = 32 ∧ LittleEndian.value b < 65537 then
      some [(LittleEndian.value b : Reference.Scalar)] else none := by
  unfold Reference.decodeScalars
  by_cases hlen : b.length = 32
  · have htake : b.take 32 = b := List.take_of_length_le hlen.le
    have hdrop : b.drop 32 = [] := List.drop_of_length_le hlen.le
    rw [htake, hdrop]
    by_cases hlt : LittleEndian.value b < 65537
    · rw [if_neg (by omega), if_pos ⟨hlen, hlt⟩]
      rfl
    · rw [if_pos (by omega), if_neg (by omega)]
  · rw [if_neg (fun h : b.length = 32 ∧ LittleEndian.value b < 65537 => hlen h.1)]
    by_cases hshort : b.length < 32
    · rw [if_pos (.inl hshort)]
    · cases hdrop : b.drop 32 with
      | nil =>
        rw [List.drop_eq_nil_iff] at hdrop
        omega
      | cons x rest =>
        split
        · rfl
        · rfl

theorem scalarBytes_reference : ScalarBytes Reference.core 65537 where
  order_ge := by decide
  cast_injective m n hm hn h := by
    have hval := congrArg ZMod.val h
    rwa [ZMod.val_natCast, ZMod.val_natCast, Nat.mod_eq_of_lt hm, Nat.mod_eq_of_lt hn] at hval
  deserialize_iff b ident := by
    change Reference.deserializeIdentifier b = some ident ↔ _
    unfold Reference.deserializeIdentifier
    rw [decodeScalars_one]
    by_cases hb : b.length = 32 ∧ LittleEndian.value b < 65537
    · rw [if_pos hb]
      simp only [hb, true_and]
      by_cases hzero : (LittleEndian.value b : Reference.Scalar) = 0
      · rw [dif_neg (not_not.mpr hzero), hzero]
        exact ⟨fun h => absurd h.symm (Option.some_ne_none _), fun h => absurd h ident.ne_zero⟩
      · rw [dif_pos hzero, Option.some.injEq, Identifier.ext_iff, eq_comm]
    · simp only [if_neg hb]
      exact ⟨fun h => absurd h.symm (Option.some_ne_none _), fun h => absurd ⟨h.1, h.2.1⟩ hb⟩

theorem identifiers_agree_sample :
    ComesBack Reference.core Reference.core 3 ∧
      DecodeAlike Reference.core Reference.core (LittleEndian.bytesOf 32 3) := by
  obtain ⟨hback, halike⟩ := identifiers_agree_iff Reference.documented Reference.documented
    scalarBytes_reference scalarBytes_reference
  exact ⟨(hback 3 (by decide)).mpr (by decide),
    (halike _ (LittleEndian.length_bytesOf 32 3)).mpr (by decide)⟩

/-- Participant 257 is rejected by most decoders, and the one of the Monero WASM library knows it. -/
theorem identifiers_differ :
    ¬ ComesBack Reference.core Reference.core 257 ∧
      ¬ DecodeAlike Reference.core Reference.core (LittleEndian.bytesOf 32 257) := by
  have hdoc := Reference.documented
  have hscalars := scalarBytes_reference
  rw [comesBack_iff hdoc hdoc hscalars hscalars (by decide),
    decodeAlike_iff hdoc hdoc hscalars hscalars (LittleEndian.length_bytesOf _ _),
    LittleEndian.value_bytesOf_of_lt (by decide)]
  decide

end Identifiers
