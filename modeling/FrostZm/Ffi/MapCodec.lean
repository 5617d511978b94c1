import FrostZm.Session.SetupCodec

/-!
# Maps on both sides of the boundary

The library and the clients write and read the same maps, the library as ordered maps and the
clients as lists of entries. Both take the same entries off the same bytes.
-/

namespace MapCodec

open PosReader

/-! ## The readers -/

/-- `DecodeMap` with `left` entries to read, the first of them number `i`. -/
def goDecodeEntries (data : Bytes) : Nat → Nat → Nat → Except String (List (Bytes × Bytes))
  | 0, _, _ => .ok []
  | left + 1, i, pos =>
    if pos + 4 > data.length then .error s!"frostgo: codec: truncated at key length {i}"
    else
      let klen := (u32FromLeBytes (slice data pos 4)).toNat
      let pos := pos + 4
      if pos + klen > data.length then .error s!"frostgo: codec: truncated at key data {i}"
      else
        let key := slice data pos klen
        let pos := pos + klen
        if pos + 4 > data.length then .error s!"frostgo: codec: truncated at value length {i}"
        else
          let vlen := (u32FromLeBytes (slice data pos 4)).toNat
          let pos := pos + 4
          if pos + vlen > data.length then .error s!"frostgo: codec: truncated at value data {i}"
          else do
            let entries ← goDecodeEntries data left (i + 1) (pos + vlen)
            return (key, slice data pos vlen) :: entries

/-- `DecodeMap` of the clients, with an `int` of 64 bits. -/
def goDecodeMap (data : Bytes) : Except String (List (Bytes × Bytes)) :=
  if data.length < 4 then .error "frostgo: codec: data too short"
  else goDecodeEntries data (u32FromLeBytes (slice data 0 4)).toNat 0 4

/-- The reader of a key that `decode_u16_map` uses. -/
def u16Key (b : Bytes) : Result UInt16 :=
  if b.length < 2 then .error LibError.serializationError else .ok (u16FromLeBytes (slice b 0 2))

def decodeU16Map (data : Bytes) : Result (BTreeMap UInt16 Bytes) := decodeMap data u16Key .ok

/-! ## The frame of a map -/

abbrev Field := Bytes × Bytes

def Field.write (e : Field) : Bytes := lengthPrefixed e.1 ++ lengthPrefixed e.2

def Field.Fits (e : Field) : Prop := e.1.length < 2 ^ 32 ∧ e.2.length < 2 ^ 32

instance (e : Field) : Decidable e.Fits :=
  inferInstanceAs (Decidable (e.1.length < 2 ^ 32 ∧ e.2.length < 2 ^ 32))

def readEntry (data : Bytes) (pos : Nat) : Result (Field × Nat) := do
  let (key, pos) ← readField data pos
  let (value, pos) ← readField data pos
  return ((key, value), pos)

def readEntries (data : Bytes) : Nat → Nat → Result (List Field × Nat)
  | 0, pos => .ok ([], pos)
  | count + 1, pos => do
    let (entry, pos) ← readEntry data pos
    let (entries, pos) ← readEntries data count pos
    return (entry :: entries, pos)

/-- The keys and values of `data`, before any of them is decoded. -/
def frames (data : Bytes) : Result (List Field) := do
  let (count, pos) ← readU32 data 0
  let (entries, _) ← readEntries data count.toNat pos
  return entries

/-- The number of entries and their lengths have 32 bits. -/
structure FieldsFit (entries : List Field) : Prop where
  count : entries.length < 2 ^ 32
  lengths : ∀ e ∈ entries, e.Fits

theorem encodeFields_eq (entries : List Field) :
    encodeFields entries = u32ToLeBytes (.ofNat entries.length) ++ entries.flatMap Field.write := rfl

theorem exact_readEntry : Exact readEntry Field.write Field.Fits := by
  intro data pos
  unfold readEntry
  apply Accepts.congr
  · apply exact_readField.bind
    intro key _
    apply exact_readField.bind
    intro value _
    apply accepts_pure
  · rintro ⟨e, next⟩ b
    constructor
    · rintro ⟨key, _, hkey, ⟨value, _, hvalue, ⟨he, rfl⟩, rfl⟩, rfl⟩
      obtain ⟨rfl, rfl⟩ := Prod.mk.inj he
      refine ⟨⟨⟨hkey, hvalue⟩, ?_⟩, ?_⟩
      · rw [List.append_nil]
        rfl
      · simp only [List.length_append, List.length_nil, Nat.add_assoc, Nat.add_zero]
    · rintro ⟨⟨⟨hkey, hvalue⟩, rfl⟩, hnext⟩
      refine ⟨e.1, _, hkey, ⟨e.2, [], hvalue, ⟨Prod.ext rfl (hnext.trans ?_), rfl⟩, rfl⟩, ?_⟩
      · rw [Field.write, List.length_append, Nat.add_assoc]
      · rw [List.append_nil]
        rfl

theorem exact_readEntries (n : Nat) :
    Exact (fun data pos => readEntries data n pos) (List.flatMap Field.write) fun entries =>
      entries.length = n ∧ ∀ e ∈ entries, e.Fits :=
  exact_readEntry.many (fun _ _ => rfl) (fun _ _ _ => rfl) n

theorem accepts_frames (data : Bytes) :
    Accepts data 0 (frames data) fun entries b => FieldsFit entries ∧ b = encodeFields entries := by
  unfold frames
  apply Accepts.congr
  · apply exact_readU32.bind
    intro count _
    apply (exact_readEntries count.toNat).bind
    intro entries _
    apply accepts_pure
  · intro entries b
    constructor
    · rintro ⟨count, _, -, ⟨read, _, ⟨hlen, hall⟩, ⟨rfl, rfl⟩, rfl⟩, rfl⟩
      refine ⟨⟨?_, hall⟩, ?_⟩
      · rw [hlen]
        exact count.toNat_lt
      · rw [encodeFields_eq, hlen, UInt32.ofNat_toNat, List.append_nil]
    · rintro ⟨⟨hcount, hall⟩, rfl⟩
      refine ⟨.ofNat entries.length, _, trivial, ⟨entries, [], ⟨?_, hall⟩, ⟨rfl, rfl⟩, rfl⟩, ?_⟩
      · rw [toNat_ofNat32 hcount]
      · rw [List.append_nil, encodeFields_eq]

theorem frames_eq_ok {data : Bytes} {entries : List Field} :
    frames data = .ok entries ↔ FieldsFit entries ∧ encodeFields entries <+: data :=
  (accepts_frames data).eq_ok_iff

/-! ## Both readers see the frame -/

theorem readField_eq_ok {data b : Bytes} {pos next : Nat} :
    readField data pos = .ok (b, next) ↔
      ¬ pos + 4 > data.length ∧
        ¬ pos + 4 + (u32FromLeBytes (slice data pos 4)).toNat > data.length ∧
          slice data (pos + 4) (u32FromLeBytes (slice data pos 4)).toNat = b ∧
            pos + 4 + (u32FromLeBytes (slice data pos 4)).toNat = next := by
  unfold readField readU32
  by_cases hlen : data.length < pos + 4
  · rw [if_pos hlen]
    exact ⟨nofun, fun h => absurd hlen h.1⟩
  · rw [if_neg hlen]
    simp only [bind, Except.bind, readBytes]
    by_cases hfield : data.length < pos + 4 + (u32FromLeBytes (slice data pos 4)).toNat
    · rw [if_pos hfield]
      exact ⟨nofun, fun h => absurd hfield h.2.1⟩
    · rw [if_neg hfield, Except.ok.injEq, Prod.mk.injEq]
      exact ⟨fun h => ⟨hlen, hfield, h⟩, fun h => h.2.2⟩

theorem ite_eq_ok {ε β : Type} {cond : Prop} [Decidable cond] {e : ε} {x : Except ε β} {b : β} :
    (if cond then .error e else x) = .ok b ↔ ¬ cond ∧ x = .ok b := by
  split <;> simp [*]

theorem goDecodeEntries_eq_ok {data : Bytes} {left i pos : Nat} {entries : List Field} :
    goDecodeEntries data left i pos = .ok entries ↔
      ∃ next, readEntries data left pos = .ok (entries, next) := by
  induction left generalizing i pos entries with
  | zero =>
    unfold goDecodeEntries readEntries
    simp
  | succ left ih =>
    unfold goDecodeEntries readEntries readEntry
    simp only [bind_eq_ok, Prod.exists, readField_eq_ok, ite_eq_ok, ih]
    constructor
    · rintro ⟨hkey, hkeyData, hval, hvalData, rest, ⟨next, hrest⟩, hentries⟩
      obtain rfl := Except.ok.inj hentries
      exact ⟨next, _, _, _, ⟨_, _, ⟨hkey, hkeyData, rfl, rfl⟩, _, _, ⟨hval, hvalData, rfl, rfl⟩, rfl⟩,
        rest, next, hrest, rfl⟩
    · rintro ⟨next, key, val, pos', ⟨_, _, ⟨hkey, hkeyData, rfl, rfl⟩, _, _,
        ⟨hval, hvalData, rfl, rfl⟩, hentry⟩, rest, next', hrest, hentries⟩
      cases hentry
      cases hentries
      exact ⟨hkey, hkeyData, hval, hvalData, rest, ⟨next, hrest⟩, rfl⟩

theorem goDecodeMap_eq_ok {data : Bytes} {entries : List Field} :
    goDecodeMap data = .ok entries ↔ frames data = .ok entries := by
  unfold goDecodeMap frames readU32
  by_cases hlen : data.length < 4
  · rw [if_pos hlen, if_pos hlen]
    exact ⟨nofun, nofun⟩
  · rw [if_neg hlen, if_neg hlen, goDecodeEntries_eq_ok]
    simp only [bind, Except.bind, Nat.zero_add]
    constructor
    · rintro ⟨next, h⟩
      rw [h]
      rfl
    · intro h
      obtain ⟨r, hr, h⟩ := bind_eq_ok.mp h
      obtain rfl := Except.ok.inj h
      exact ⟨r.2, hr⟩

section Maps

variable {κ α : Type} [Ord κ] [Std.TransOrd κ]

def decodeEntry (decodeKey : Bytes → Result κ) (decodeVal : Bytes → Result α) (e : Field) :
    Result (κ × α) := do
  let k ← decodeKey e.1
  let v ← decodeVal e.2
  return (k, v)

theorem decodeEntries_eq_ok {decodeKey : Bytes → Result κ} {decodeVal : Bytes → Result α}
    {data : Bytes} {n pos : Nat} {map m : BTreeMap κ α} :
    decodeEntries data decodeKey decodeVal n pos map = .ok m ↔
      ∃ entries l next, readEntries data n pos = .ok (entries, next) ∧
        entries.mapM (decodeEntry decodeKey decodeVal) = .ok l ∧
          l.foldl (fun m x => m.insert x.1 x.2) map = m := by
  induction n generalizing pos map with
  | zero =>
    unfold decodeEntries readEntries
    constructor
    · intro h
      exact ⟨[], [], pos, rfl, rfl, Except.ok.inj h⟩
    · rintro ⟨entries, l, next, hentries, hl, rfl⟩
      obtain ⟨rfl, -⟩ := Prod.mk.inj (Except.ok.inj hentries)
      obtain rfl := Except.ok.inj hl
      rfl
  | succ n ih =>
    rw [decodeEntries_succ]
    unfold readEntries readEntry
    simp only [bind_eq_ok, Prod.exists, ih]
    constructor
    · rintro ⟨kb, afterKey, hkey, k, hk, vb, afterVal, hval, v, hv, entries, l, next, hentries, hl, hm⟩
      refine ⟨(kb, vb) :: entries, (k, v) :: l, next, ⟨kb, vb, afterVal, ⟨kb, afterKey, hkey, vb, afterVal,
        hval, rfl⟩, entries, next, hentries, rfl⟩, ?_, hm⟩
      rw [List.mapM_cons, hl]
      unfold decodeEntry
      rw [hk, hv]
      rfl
    · rintro ⟨entries, l, next, ⟨kb, vb, afterVal, ⟨_, afterKey, hkey, _, _, hval, hentry⟩, rest, next',
        hrest, hentries⟩, hl, hm⟩
      cases hentry
      cases hentries
      rw [List.mapM_cons] at hl
      obtain ⟨x, hx, hl⟩ := bind_eq_ok.mp hl
      obtain ⟨xs, hxs, hl⟩ := bind_eq_ok.mp hl
      obtain ⟨k, hk, hx⟩ := bind_eq_ok.mp hx
      obtain ⟨v, hv, hx⟩ := bind_eq_ok.mp hx
      cases hx
      cases hl
      exact ⟨kb, afterKey, hkey, k, hk, vb, _, hval, v, hv, rest, xs, _, hrest, hxs, hm⟩

theorem decodeMap_eq_ok {decodeKey : Bytes → Result κ} {decodeVal : Bytes → Result α}
    {data : Bytes} {m : BTreeMap κ α} :
    decodeMap data decodeKey decodeVal = .ok m ↔
      ∃ entries l, frames data = .ok entries ∧
        entries.mapM (decodeEntry decodeKey decodeVal) = .ok l ∧
          BTreeMap.tabulate Prod.fst Prod.snd l = m := by
  unfold decodeMap frames
  simp only [bind_eq_ok, Prod.exists, decodeEntries_eq_ok]
  constructor
  · rintro ⟨count, pos, hcount, entries, l, next, hentries, hl, hm⟩
    exact ⟨entries, l, ⟨count, pos, hcount, entries, next, hentries, rfl⟩, hl, hm⟩
  · rintro ⟨entries, l, ⟨count, pos, hcount, read, next, hread, hentries⟩, hl, hm⟩
    obtain rfl := Except.ok.inj hentries
    exact ⟨count, pos, hcount, read, l, next, hread, hl, hm⟩

/-! ## The laws -/

/-- A writer and a reader of one kind of value, the reader undoing the writer. -/
structure Coder (α : Type) where
  encode : α → Result Bytes
  decode : Bytes → Result α
  decode_encode : ∀ x b, encode x = .ok b → decode b = .ok x

/-- The reader accepts nothing but what the writer writes. -/
def Coder.Canonical {β : Type} (c : Coder β) : Prop := ∀ x b, c.decode b = .ok x → c.encode x = .ok b

variable {key : Coder κ} {val : Coder α} {m : BTreeMap κ α}

/-- The entries of a map as they are written. -/
def encodedFields (key : Coder κ) (val : Coder α) (l : List (κ × α)) : Result (List Field) :=
  l.mapM fun x => do
    let kb ← key.encode x.1
    let vb ← val.encode x.2
    return (kb, vb)

/-- What is written of the map is read back as the map. -/
def RoundTrips (key : Coder κ) (val : Coder α) (m : BTreeMap κ α) : Prop :=
  ∀ buf, encodeMap m key.encode val.encode = .ok buf → decodeMap buf key.decode val.decode = .ok m

/-- The lengths of what is written of the map have 32 bits. -/
def MapFits (key : Coder κ) (val : Coder α) (m : BTreeMap κ α) : Prop :=
  ∀ fields, encodedFields key val m.toList = .ok fields → FieldsFit fields

theorem mapM_map {ε β γ δ : Type} (f : β → Except ε γ) (g : γ → δ) (l : List β) :
    l.mapM (fun x => g <$> f x) = List.map g <$> l.mapM f := by
  induction l with
  | nil => rfl
  | cons x l ih =>
    rw [List.mapM_cons, List.mapM_cons, ih]
    simp only [map_eq_pure_bind, bind_assoc, pure_bind, List.map_cons]

theorem encodeMap_eq_ok {buf : Bytes} :
    encodeMap m key.encode val.encode = .ok buf ↔
      ∃ fields, encodedFields key val m.toList = .ok fields ∧ encodeFields fields = buf := by
  have hentry : ∀ x : κ × α, encodeEntry key.encode val.encode x.1 x.2 =
      Field.write <$> (do
        let kb ← key.encode x.1
        let vb ← val.encode x.2
        return (kb, vb)) := by
    intro x
    simp only [encodeEntry, map_eq_pure_bind, bind_assoc, pure_bind, Field.write, lengthPrefixed,
      List.append_assoc]
  have hmap : m.toList.mapM (fun x => encodeEntry key.encode val.encode x.1 x.2) =
      List.map Field.write <$> encodedFields key val m.toList := by
    simp only [hentry, mapM_map]
    rfl
  unfold encodeMap
  rw [bind_eq_ok]
  constructor
  · rintro ⟨entries, hentries, hbuf⟩
    obtain ⟨fields, hfields, rfl⟩ := map_eq_ok.mp (hmap ▸ hentries)
    refine ⟨fields, hfields, ?_⟩
    have hlen := (mapM_eq_ok.mp hfields).length_eq
    rw [Std.ExtTreeMap.length_toList] at hlen
    rw [encodeFields_eq, ← hlen, ← Except.ok.inj hbuf]
    rfl
  · rintro ⟨fields, hfields, rfl⟩
    have hlen := (mapM_eq_ok.mp hfields).length_eq
    rw [Std.ExtTreeMap.length_toList] at hlen
    refine ⟨fields.map Field.write, hmap.trans (map_eq_ok.mpr ⟨fields, hfields, rfl⟩), ?_⟩
    rw [encodeFields_eq, ← hlen]
    rfl

theorem frames_encodeFields {fields : List Field} :
    frames (encodeFields fields) = .ok fields ↔ FieldsFit fields := by
  rw [frames_eq_ok]
  exact ⟨fun h => h.1, fun h => ⟨h, List.prefix_refl _⟩⟩

/-- The field in front of the entries. -/
def countField (data : Bytes) : Nat := (u32FromLeBytes (slice data 0 4)).toNat

theorem countField_encodeFields (fields : List Field) (rest : Bytes) :
    countField (encodeFields fields ++ rest) = fields.length % 2 ^ 32 := by
  rw [countField, slice, List.drop_zero, encodeFields_eq, List.append_assoc,
    List.take_left' (length_u32ToLeBytes _), u32FromLeBytes_toLeBytes, UInt32.toNat_ofNat']

theorem length_of_frames {data : Bytes} {entries : List Field} (h : frames data = .ok entries) :
    entries.length = countField data := by
  obtain ⟨hfits, rest, rfl⟩ := frames_eq_ok.mp h
  rw [countField_encodeFields, Nat.mod_eq_of_lt hfits.count]

omit [Ord κ] [Std.TransOrd κ] in
theorem decode_encoded {l : List (κ × α)} {fields : List Field}
    (h : encodedFields key val l = .ok fields) :
    fields.mapM (decodeEntry key.decode val.decode) = .ok l := by
  rw [encodedFields, mapM_eq_ok] at h
  rw [mapM_eq_ok]
  refine h.flip.imp fun e x hx => ?_
  obtain ⟨kb, hkb, hx⟩ := bind_eq_ok.mp hx
  obtain ⟨vb, hvb, hx⟩ := bind_eq_ok.mp hx
  obtain rfl := Except.ok.inj hx
  unfold decodeEntry
  rw [key.decode_encode _ _ hkb, val.decode_encode _ _ hvb]
  rfl

omit [Ord κ] [Std.TransOrd κ] in
theorem encode_decoded (hkey : key.Canonical) (hval : val.Canonical) {l : List (κ × α)}
    {fields : List Field} (h : fields.mapM (decodeEntry key.decode val.decode) = .ok l) :
    encodedFields key val l = .ok fields := by
  rw [mapM_eq_ok] at h
  rw [encodedFields, mapM_eq_ok]
  refine h.flip.imp fun x e hx => ?_
  obtain ⟨k, hk, hx⟩ := bind_eq_ok.mp hx
  obtain ⟨v, hv, hx⟩ := bind_eq_ok.mp hx
  obtain rfl := Except.ok.inj hx
  simp only [hkey _ _ hk, hval _ _ hv]
  rfl

variable [Std.LawfulEqOrd κ]

theorem roundTrips_of_fits (h : MapFits key val m) : RoundTrips key val m := by
  intro buf hbuf
  obtain ⟨fields, hfields, rfl⟩ := encodeMap_eq_ok.mp hbuf
  exact decodeMap_eq_ok.mpr ⟨fields, m.toList, frames_encodeFields.mpr (h fields hfields),
    decode_encoded hfields, BTreeMap.tabulate_toList m⟩

theorem fits_of_roundTrips (hkey : key.Canonical) (hval : val.Canonical)
    (h : RoundTrips key val m) : MapFits key val m := by
  intro fields hfields
  obtain ⟨read, l, hread, hl, hm⟩ :=
    decodeMap_eq_ok.mp (h _ (encodeMap_eq_ok.mpr ⟨fields, hfields, rfl⟩))
  have hfields' := mapM_eq_ok.mp hfields
  have hencoded := encode_decoded hkey hval hl
  have hlen : read.length ≤ fields.length := by
    rw [length_of_frames hread, ← List.append_nil (encodeFields fields), countField_encodeFields]
    exact Nat.mod_le _ _
  have hsize : m.size = fields.length := by
    rw [← Std.ExtTreeMap.length_toList, hfields'.length_eq]
  have hl' := (mapM_eq_ok.mp hl).length_eq
  have hle : m.size ≤ l.length := hm ▸ BTreeMap.size_tabulate_le l
  have hinj : BTreeMap.Injective Prod.fst l := by
    have hnodup := BTreeMap.size_tabulate_eq_iff.mp (hm.symm ▸ (by omega : m.size = l.length))
    exact fun x hx y hy => List.inj_on_of_nodup_map hnodup hx hy
  obtain ⟨hcount, hlengths⟩ := (frames_eq_ok.mp hread).1
  refine ⟨by omega, fun e he => ?_⟩
  obtain ⟨⟨k, v⟩, hkv, he⟩ := exists_of_forall₂ hfields'.flip he
  -- the entry is among those that were read, and it is written as it was read
  rw [Std.ExtTreeMap.mem_toList_iff_getElem?_eq_some, ← hm, BTreeMap.getElem?_tabulate hinj] at hkv
  obtain ⟨x, hx, rfl, rfl⟩ := hkv
  obtain ⟨e', he', hxe⟩ := exists_of_forall₂ (mapM_eq_ok.mp hencoded) hx
  obtain rfl := Except.ok.inj (he.symm.trans hxe)
  exact hlengths _ he'

/-! ## The codec -/

/-- No key of the entries that stand in `data` is there twice. -/
def KeysDistinct (key : Coder κ) (val : Coder α) (data : Bytes) : Prop :=
  ∀ entries l, frames data = .ok entries →
    entries.mapM (decodeEntry key.decode val.decode) = .ok l → (l.map Prod.fst).Nodup

/-- A map that is read has as many entries as its count says. -/
def CountHolds (key : Coder κ) (val : Coder α) (data : Bytes) : Prop :=
  ∀ m, decodeMap data key.decode val.decode = .ok m → m.size = countField data

theorem countHolds_iff {data : Bytes} : CountHolds key val data ↔ KeysDistinct key val data := by
  unfold CountHolds KeysDistinct
  simp only [decodeMap_eq_ok]
  have hsize : ∀ entries l, frames data = .ok entries →
      entries.mapM (decodeEntry key.decode val.decode) = .ok l →
        ((BTreeMap.tabulate Prod.fst Prod.snd l : BTreeMap κ α).size = countField data ↔
          (l.map Prod.fst).Nodup) := by
    intro entries l hentries hl
    rw [← length_of_frames hentries, (mapM_eq_ok.mp hl).length_eq]
    exact BTreeMap.size_tabulate_eq_iff
  constructor
  · intro h entries l hentries hl
    exact (hsize entries l hentries hl).mp (h _ ⟨entries, l, hentries, hl, rfl⟩)
  · rintro h m ⟨entries, l, hentries, hl, rfl⟩
    exact (hsize entries l hentries hl).mpr (h entries l hentries hl)

/-- The round trips need lengths of 32 bits. The two readers agree on all bytes. The number of
entries is the count as long as no key is there twice. -/
theorem codec_laws_iff (key : Coder κ) (val : Coder α) (m : BTreeMap κ α) (fields : List Field)
    (data : Bytes) :
    (MapFits key val m → RoundTrips key val m) ∧
    (key.Canonical → val.Canonical → (RoundTrips key val m ↔ MapFits key val m)) ∧
    (goDecodeMap (encodeFields fields) = .ok fields ↔ FieldsFit fields) ∧
    (∀ entries, goDecodeMap data = .ok entries ↔ frames data = .ok entries) ∧
    (∀ m, decodeMap data key.decode val.decode = .ok m ↔
      ∃ entries l, frames data = .ok entries ∧
        entries.mapM (decodeEntry key.decode val.decode) = .ok l ∧
          BTreeMap.tabulate Prod.fst Prod.snd l = m) ∧
    (CountHolds key val data ↔ KeysDistinct key val data) :=
  ⟨roundTrips_of_fits, fun hkey hval => ⟨fits_of_roundTrips hkey hval, roundTrips_of_fits⟩,
    goDecodeMap_eq_ok.trans frames_encodeFields, fun _ => goDecodeMap_eq_ok, fun _ => decodeMap_eq_ok,
    countHolds_iff⟩

end Maps

def bytesCoder : Coder Bytes where
  encode := .ok
  decode := .ok
  decode_encode _ _ h := h.symm

/-- Two entries for the participant 1. -/
def repeatedKey : Bytes := encodeFields [([1, 0], [7]), ([1, 0], [8])]

def repeatedEntries : List (UInt16 × Bytes) := [(1, [7]), (1, [8])]

theorem decode_repeatedKey :
    decodeU16Map repeatedKey = .ok (BTreeMap.tabulate Prod.fst Prod.snd repeatedEntries) :=
  decodeMap_eq_ok.mpr ⟨_, repeatedEntries, frames_encodeFields.mpr ⟨by decide, by decide⟩, rfl, rfl⟩

/-- The second entry replaces the first. -/
theorem codec_replaces :
    ∃ m, decodeU16Map repeatedKey = .ok m ∧ m.size ≠ countField repeatedKey ∧
      m[(1 : UInt16)]? = some [8] := by
  refine ⟨_, decode_repeatedKey, ?_, ?_⟩
  · have hcount : countField repeatedKey = repeatedEntries.length := by decide
    rw [hcount, ne_eq, BTreeMap.size_tabulate_eq_iff]
    decide
  · rw [repeatedEntries, ← List.singleton_append, BTreeMap.tabulate_concat]
    exact Std.ExtTreeMap.getElem?_insert_self

def onePackage : BTreeMap Bytes Bytes := (∅ : BTreeMap Bytes Bytes).insert [1, 0] [7]

/-- A map of one package is read back as it was written. -/
theorem codec_laws_sample : RoundTrips bytesCoder bytesCoder onePackage := by
  have hcanonical : bytesCoder.Canonical := fun _ _ h => h.symm
  refine ((codec_laws_iff bytesCoder bytesCoder onePackage [] []).2.1 hcanonical hcanonical).mpr
    fun fields h => ?_
  have hlist : onePackage.toList = [([1, 0], [7])] := by decide +kernel
  rw [hlist] at h
  obtain rfl := Except.ok.inj h
  exact ⟨by decide, by decide⟩

end MapCodec
