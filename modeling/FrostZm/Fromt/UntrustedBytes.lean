import FrostZm.Ceremony.Sign
import FrostZm.Ffi.MapCodec
import FrostZm.Fromt.Spend
import FrostZm.Session.SetupWords

/-!
# Bytes from others

The coordinator's message, the records of outputs and the maps of the peers, read where a position
has `w` bits. On 64 bits only a sum of amounts and a participant 0 make them crash.
-/

open Crashes PosReader Ceremony SpentMarks.Fromt Selection

namespace UntrustedBytes

/-! ## The coordinator's message -/

def splitCombinedOn (w : Nat) (combined : Bytes) (ar : Arithmetic) : Run Fault (Bytes × Bytes) := do
  lift (failIf (combined.length < 4) .serializationError)
  let b ← range combined 0 4
  let b ← unwrap (sized 4 b)
  let spLen := (u32FromLeBytes b).toNat
  let stop ← ar.fit w (4 + spLen)
  lift (failIf (combined.length < stop) .serializationError)
  let spSer ← range combined 4 stop
  let randSer ← range combined stop combined.length
  return (spSer, randSer)

/-- What `frozt_sign_run` does with the message, up to the randomizer. -/
def readRandomizerOn {F : Type} (w : Nat) (deserializeRandomizer : Bytes → Option F)
    (combined : Bytes) (ar : Arithmetic) : Run Fault F := do
  let (_spSer, randSer) ← splitCombinedOn w combined ar
  lift (okOr .signingError (deserializeRandomizer randSer))

/-! ## The records of outputs -/

/-- One turn of the loop over the records. -/
def addUnspentOn (w : Nat) (outputsData spentFlags : Bytes) (sums : UInt64 × UInt32) (i : Nat)
    (ar : Arithmetic) : Run Fault (UInt64 × UInt32) := do
  let flag ← get spentFlags i
  if flag = 0 then
    let offset ← ar.fit w (i * 72)
    let offset ← ar.fit w (4 + offset)
    let offset ← ar.fit w (offset + 64)
    let stop ← ar.fit w (offset + 8)
    let b ← range outputsData offset stop
    let b ← lift (okOr .serializationError (sized 8 b))
    let balance ← ar.fit 64 (sums.1.toNat + (u64FromLeBytes b).toNat)
    let numUnspent ← ar.fit 32 (sums.2.toNat + 1)
    return (.ofNat balance, .ofNat numUnspent)
  else return sums

def addAllUnspentOn (w : Nat) (outputsData spentFlags : Bytes) :
    List Nat → UInt64 × UInt32 → Arithmetic → Run Fault (UInt64 × UInt32)
  | [], sums, _ => return sums
  | i :: rest, sums, ar => do
    let sums ← addUnspentOn w outputsData spentFlags sums i ar
    addAllUnspentOn w outputsData spentFlags rest sums ar

def filterSpentOutputsOn (w : Nat) (outputsData spentFlags : Bytes) (ar : Arithmetic) :
    Run Fault (UInt64 × UInt32) := do
  lift (failIf (outputsData.length < 4) .serializationError)
  let b ← range outputsData 0 4
  let b ← lift (okOr .serializationError (sized 4 b))
  let count := (u32FromLeBytes b).toNat
  let records ← ar.fit w (count * 72)
  let expectedOutputsLen ← ar.fit w (4 + records)
  lift (failIf (outputsData.length < expectedOutputsLen) .serializationError)
  lift (failIf (spentFlags.length < count) .serializationError)
  addAllUnspentOn w outputsData spentFlags (List.range count) (0, 0) ar

/-! ## The maps of the peers -/

section Maps

variable {κ α : Type} [Ord κ] [Std.TransOrd κ]

def decodeEntriesOn (w : Nat) (data : Bytes) (decodeKey : Bytes → Run Fault κ)
    (decodeVal : Bytes → Run Fault α) : Nat → Nat → BTreeMap κ α → Arithmetic → Run Fault (BTreeMap κ α)
  | 0, _, map, _ => return map
  | count + 1, pos, map, ar => do
    let (kb, pos) ← readFieldOn w data pos ar
    let k ← decodeKey kb
    let (vb, pos) ← readFieldOn w data pos ar
    let v ← decodeVal vb
    decodeEntriesOn w data decodeKey decodeVal count pos (map.insert k v) ar

def decodeMapOn (w : Nat) (data : Bytes) (decodeKey : Bytes → Run Fault κ)
    (decodeVal : Bytes → Run Fault α) (ar : Arithmetic) : Run Fault (BTreeMap κ α) := do
  let (count, pos) ← readU32On w data 0 ar
  decodeEntriesOn w data decodeKey decodeVal count.toNat pos ∅ ar

end Maps

def u16KeyOn (b : Bytes) : Run Fault UInt16 := do
  lift (failIf (b.length < 2) .serializationError)
  let low ← get b 0
  let high ← get b 1
  return u16FromLeBytes [low, high]

def decodeU16MapOn (w : Nat) (data : Bytes) : Arithmetic → Run Fault (BTreeMap UInt16 Bytes) :=
  decodeMapOn w data u16KeyOn fun b => return b

structure Participant where
  id : UInt16
  ne_zero : id ≠ 0

def Participant.new (id : UInt16) : Option Participant := if h : id = 0 then none else some ⟨id, h⟩

/-- What a machine of the wallet library does: it reads a peer's part, and goes on with all parts. -/
structure SpendMachine (Part Out : Type) where
  read : Bytes → Option Part
  finish : List (Participant × Part) → Result Out

/-- `spend_sign` and `spend_complete`: all parts are read, then the machine goes on. -/
def SpendMachine.run {Part Out : Type} (machine : SpendMachine Part Out)
    (parts : List (Participant × Bytes)) : Result Out := do
  let parsed ← parts.mapM fun (participant, bytes) => do
    let part ← okOr .serializationError (machine.read bytes)
    return (participant, part)
  machine.finish parsed

/-- The participant of an entry. -/
def participantOn (e : UInt16 × Bytes) : Run Fault (Participant × Bytes) := do
  let participant ← unwrap (Participant.new e.1)
  return (participant, e.2)

/-- A call with a machine and the map of the peers. -/
def withPeersOn (w : Nat) {Part Out : Type} (taken : Result (SpendMachine Part Out))
    (peersMap : Option Bytes) (ar : Arithmetic) : Run Fault Out := do
  let data ← lift (okOr .nullPtr peersMap)
  let machine ← lift taken
  let rawMap ← decodeU16MapOn w data ar
  let parts ← rawMap.toList.mapM participantOn
  lift (machine.run parts)

/-- `taken` is what `handle.take` gives. -/
def fromtSpendSignOn (w : Nat) {Part Out : Type} (taken : Result (SpendMachine Part Out))
    (preprocessesMap : Option Bytes) : Arithmetic → Run Fault Out :=
  withPeersOn w taken preprocessesMap

def fromtSpendCompleteOn (w : Nat) {Part Out : Type} (taken : Result (SpendMachine Part Out))
    (sharesMap : Option Bytes) : Arithmetic → Run Fault Out :=
  withPeersOn w taken sharesMap

/-! ## What must fit -/

def IsEmpty (head : Bytes) : Prop := head = []

/-- An entry whose key is an id. -/
structure IdEntry (e : MapCodec.Field) : Prop where
  fits : e.Fits
  key : 2 ≤ e.1.length

/-- What stands before the length of a key or of a value. -/
def IsMapHead (head : Bytes) : Prop := ∃ (count : UInt32) (entries : List MapCodec.Field),
  entries.length < count.toNat ∧ (∀ e ∈ entries, IdEntry e) ∧
    (head = u32ToLeBytes count ++ entries.flatMap MapCodec.Field.write ∨
      ∃ key : Bytes, key.length < 2 ^ 32 ∧ 2 ≤ key.length ∧
        head = u32ToLeBytes count ++ entries.flatMap MapCodec.Field.write ++ lengthPrefixed key)

/-- No entry of a whole map has the id 0. -/
def NoZeroId (data : Bytes) : Prop :=
  ∀ entries, MapCodec.FieldsFit entries → encodeFields entries <+: data →
    (∀ e ∈ entries, 2 ≤ e.1.length) → ∀ e ∈ entries, e.1.take 2 ≠ [0, 0]

/-- The records end at a position, and the amounts that are added up have a sum of 64 bits. -/
structure RecordsFit (w : Nat) (outputsData spentFlags : Bytes) : Prop where
  records : 4 ≤ outputsData.length →
    4 + (u32FromLeBytes (slice outputsData 0 4)).toNat * 72 < 2 ^ w
  amounts : Complete outputsData spentFlags →
    total (recordAmount outputsData) (unspentRecords outputsData spentFlags) < 2 ^ 64

variable {w : Nat} {data combined outputsData spentFlags : Bytes}

/-! ## The message splits unless its length does not fit -/

theorem splitCombined_eq : splitCombined combined = (do
    failIf (combined.length < 4) .serializationError
    failIf (combined.length < 4 + (u32FromLeBytes (slice combined 0 4)).toNat) .serializationError
    return (slice combined 4 (u32FromLeBytes (slice combined 0 4)).toNat,
      combined.drop (4 + (u32FromLeBytes (slice combined 0 4)).toNat))) := by
  unfold splitCombined failIf
  split
  · rfl
  · simp only [slice, List.drop_zero]
    split <;> rfl

theorem guarded_splitCombined :
    Guarded (splitCombinedOn w combined) (splitCombined combined)
      (¬ combined.length < 4 → 4 + (u32FromLeBytes (slice combined 0 4)).toNat < 2 ^ w) := by
  rw [splitCombined_eq]
  refine guarded_failIf fun hshort => ?_
  rw [not_lt] at hshort
  refine (guarded_range combined 0 4).bind_ok ⟨Nat.zero_le _, hshort⟩ ?_
  rw [Nat.sub_zero, ← slice, sized_slice (by omega)]
  refine (guarded_unwrap (LibError.unknownError : Fault) _).bind_ok (Option.some_ne_none _) ?_
  refine ((guarded_fit w _).bind_value fun _ => ?_).congr (and_iff_left trivial)
  refine guarded_failIf_safe fun hlong => ?_
  rw [not_lt] at hlong
  refine (guarded_range combined 4 _).bind_ok ⟨Nat.le_add_right _ _, hlong⟩ ?_
  refine (guarded_range combined _ combined.length).bind_ok ⟨hlong, le_refl _⟩ ?_
  rw [Nat.add_sub_cancel_left, ← slice, ← List.length_drop, List.take_length]
  exact guarded_pure _

theorem lengthsFit_isEmpty : LengthsFit w IsEmpty combined ↔
    (¬ combined.length < 4 → 4 + (u32FromLeBytes (slice combined 0 4)).toNat < 2 ^ w) := by
  have hfield : LengthsFit w IsEmpty combined ↔ FieldFits w combined 0 := by
    rw [lengthsFit_iff]
    exact ⟨fun h => h [] rfl holds_nil, fun h _ hhead _ => hhead ▸ h⟩
  have hread := exact_readU32.forall_ok_iff (Nat.zero_le combined.length)
    (P := fun y => y.2 + y.1.toNat < 2 ^ w)
  simp only [length_u32ToLeBytes, forall_const] at hread
  rw [hfield, FieldFits, ← hread, readU32_eq]
  simp only [bind_eq_ok, failIf_eq_ok, exists_const, and_imp]
  exact ⟨fun h hlen => h _ hlen rfl, fun h y hlen hy => Except.ok.inj hy ▸ h hlen⟩

theorem readRandomizer_safe_iff {F : Type} (deserializeRandomizer : Bytes → Option F) :
    Safe (readRandomizerOn w deserializeRandomizer combined) ↔ LengthsFit w IsEmpty combined := by
  rw [lengthsFit_isEmpty]
  exact (guarded_splitCombined.then_safe fun _ parts _ => guarded_lift _).safe_iff

/-! ## The records -/

theorem guarded_addUnspent {sums : UInt64 × UInt32} {i : Nat} (hflag : i < spentFlags.length)
    (hrecord : 4 + (i + 1) * 72 ≤ outputsData.length) (hword : outputsData.length < 2 ^ w)
    (hnum : sums.2.toNat + 1 < 2 ^ 32) :
    Guarded (addUnspentOn w outputsData spentFlags sums i)
      (.ok (addUnspent outputsData spentFlags sums i))
      (spentFlags.getD i 0 = 0 → sums.1.toNat + recordAmount outputsData i < 2 ^ 64) := by
  have hfits : ∀ n, n ≤ outputsData.length → n < 2 ^ w := fun n hn => by omega
  refine (guarded_get 0 spentFlags i).bind_ok hflag ?_
  unfold addUnspent
  by_cases h : spentFlags.getD i 0 = 0
  · simp only [if_pos h, forall_prop_of_true h]
    refine (guarded_fit w _).bind_ok (hfits _ (by omega)) ?_
    refine (guarded_fit w _).bind_ok (hfits _ (by omega)) ?_
    refine (guarded_fit w _).bind_ok (hfits _ (by omega)) ?_
    refine (guarded_fit w _).bind_ok (hfits _ (by omega)) ?_
    refine (guarded_range outputsData _ _).bind_ok ⟨by omega, by omega⟩ ?_
    rw [Nat.add_sub_cancel_left, ← slice, sized_slice (by omega)]
    refine (guarded_lift _).bind_ok trivial ?_
    refine ((guarded_fit 64 _).bind_value fun hsum => ?_).congr (and_iff_left trivial)
    refine (guarded_fit 32 _).bind_ok hnum ?_
    rw [UInt64.ofNat_add, UInt64.ofNat_toNat, UInt64.ofNat_toNat, UInt32.ofNat_add, UInt32.ofNat_toNat]
    exact guarded_pure _
  · simp only [if_neg h]
    exact (guarded_pure sums).congr (iff_of_true trivial fun h' => absurd h' h)

theorem guarded_addAllUnspent (records : List Nat) (sums : UInt64 × UInt32)
    (hflags : ∀ i ∈ records, i < spentFlags.length)
    (hrecords : ∀ i ∈ records, 4 + (i + 1) * 72 ≤ outputsData.length)
    (hword : outputsData.length < 2 ^ w) (hnum : sums.2.toNat + records.length < 2 ^ 32) :
    Guarded (addAllUnspentOn w outputsData spentFlags records sums)
      (.ok (records.foldl (addUnspent outputsData spentFlags) sums))
      (sums.1.toNat + total (recordAmount outputsData)
        (records.filter fun i => spentFlags.getD i 0 = 0) < 2 ^ 64) := by
  induction records generalizing sums with
  | nil => exact (guarded_pure _).congr (iff_of_true trivial sums.1.toNat_lt)
  | cons i records ih =>
    rw [List.forall_mem_cons] at hflags hrecords
    rw [List.length_cons] at hnum
    have hcount : (addUnspent outputsData spentFlags sums i).2.toNat ≤ sums.2.toNat + 1 := by
      unfold addUnspent
      split
      · rw [UInt32.toNat_add]
        exact Nat.mod_le _ _
      · omega
    refine ((guarded_addUnspent hflags.1 hrecords.1 hword (by omega)).bind_value fun _ =>
      ih _ hflags.2 hrecords.2 (by omega)).congr ?_
    unfold addUnspent
    by_cases h : spentFlags.getD i 0 = 0
    · rw [if_pos h, forall_prop_of_true h, List.filter_cons_of_pos (by simpa using h), total_cons,
        UInt64.toNat_add, ← recordAmount]
      constructor
      · rintro ⟨hfits, hrest⟩
        rw [Nat.mod_eq_of_lt hfits] at hrest
        omega
      · intro hall
        have hfits : sums.1.toNat + recordAmount outputsData i < 2 ^ 64 := by omega
        rw [Nat.mod_eq_of_lt hfits]
        exact ⟨hfits, by omega⟩
    · rw [if_neg h, List.filter_cons_of_neg (by simpa using h)]
      exact and_iff_right fun h' => absurd h' h

theorem filterSpentOutputs_safe_iff (h : InMemory w outputsData) :
    Safe (filterSpentOutputsOn w outputsData spentFlags) ↔ RecordsFit w outputsData spentFlags := by
  have hguarded : Guarded (filterSpentOutputsOn w outputsData spentFlags)
      (filterSpentOutputs outputsData spentFlags)
      (¬ outputsData.length < 4 →
        4 + (u32FromLeBytes (slice outputsData 0 4)).toNat * 72 < 2 ^ w ∧
          (¬ outputsData.length < 4 + (u32FromLeBytes (slice outputsData 0 4)).toNat * 72 →
            ¬ spentFlags.length < (u32FromLeBytes (slice outputsData 0 4)).toNat →
              total (recordAmount outputsData) (unspentRecords outputsData spentFlags) < 2 ^ 64)) := by
    refine guarded_failIf fun hheader => ?_
    rw [not_lt] at hheader
    refine (guarded_range outputsData 0 4).bind_ok ⟨Nat.zero_le _, hheader⟩ ?_
    rw [Nat.sub_zero, ← slice, sized_slice (by omega)]
    refine (guarded_lift _).bind_ok trivial ?_
    refine ((guarded_fit w _).bind_value fun _ => (guarded_fit w _).bind_value fun _ =>
      guarded_failIf fun hrecords => guarded_failIf fun hflags => ?_).congr
        (and_iff_right_of_imp fun hfits => lt_of_le_of_lt (Nat.le_add_left _ _) hfits.1)
    rw [not_lt] at hrecords hflags
    refine (guarded_addAllUnspent _ _ ?_ ?_ (h.fits (n := 0) (le_refl _) (by decide)) ?_).congr ?_
    · intro i hi
      exact (List.mem_range.mp hi).trans_le hflags
    · intro i hi
      have hi := List.mem_range.mp hi
      omega
    · rw [List.length_range, UInt32.toNat_zero, Nat.zero_add]
      exact UInt32.toNat_lt _
    · rw [UInt64.toNat_zero, Nat.zero_add]
      rfl
  rw [hguarded.safe_iff]
  simp only [not_lt]
  constructor
  · intro hfits
    exact ⟨fun hheader => (hfits hheader).1, fun hc => (hfits hc.header).2 hc.records hc.flags⟩
  · intro hfits hheader
    exact ⟨hfits.records hheader, fun hrecords hflags => hfits.amounts ⟨hheader, hrecords, hflags⟩⟩

/-! ## The maps -/

/-- What must fit while `count` entries are read from `pos` on. -/
def EntriesFit (w : Nat) (data : Bytes) : Nat → Nat → Prop
  | 0, _ => True
  | count + 1, pos => FieldFits w data pos ∧ ∀ k, readField data pos = .ok k → 2 ≤ k.1.length →
    FieldFits w data k.2 ∧ ∀ v, readField data k.2 = .ok v → EntriesFit w data count v.2

theorem guarded_u16Key (b : Bytes) : Guarded (fun _ => u16KeyOn b) (MapCodec.u16Key b) True := by
  have hkey : MapCodec.u16Key b = (do
      failIf (b.length < 2) .serializationError
      return u16FromLeBytes (slice b 0 2)) := by
    unfold MapCodec.u16Key failIf
    split <;> rfl
  rw [hkey]
  refine guarded_failIf_safe fun hlen => ?_
  rw [not_lt] at hlen
  rw [slice_two (by omega)]
  refine (guarded_get 0 b 0).bind_ok (by omega) ?_
  exact (guarded_get 0 b 1).bind_ok (by omega) (guarded_pure _)

theorem u16Key_isOk {b : Bytes} : (∃ id, MapCodec.u16Key b = .ok id) ↔ 2 ≤ b.length := by
  unfold MapCodec.u16Key
  split
  · next h =>
    exact iff_of_false nofun (not_le.mpr h)
  · next h =>
    exact iff_of_true ⟨_, rfl⟩ (not_lt.mp h)

theorem guarded_decodeEntries (h : InMemory w data) (count : Nat) {pos : Nat}
    (hpos : pos ≤ data.length) (map : BTreeMap UInt16 Bytes) :
    Guarded (decodeEntriesOn w data u16KeyOn (fun b => return b) count pos map)
      (decodeEntries data MapCodec.u16Key .ok count pos map) (EntriesFit w data count pos) := by
  induction count generalizing pos map with
  | zero => exact guarded_pure _
  | succ count ih =>
    rw [decodeEntries_succ]
    refine ((guarded_readField h hpos).bind fun _ k hk =>
      (guarded_u16Key k.1).bind_safe fun id _ =>
        (guarded_readField h (exact_readField.next_le hpos hk)).bind fun _ v hv =>
          (guarded_pure v.1).bind_safe fun _ _ =>
            ih (exact_readField.next_le (exact_readField.next_le hpos hk) hv) _).congr ?_
    rw [EntriesFit]
    refine and_congr_right fun _ => forall₂_congr fun k _ => ?_
    rw [← u16Key_isOk, forall_exists_index]
    refine forall₂_congr fun id _ => and_congr_right fun _ => forall₂_congr fun v _ => ?_
    exact ⟨fun hall => hall v.1 rfl, fun hrest _ _ => hrest⟩

theorem entriesFit_succ {count pos : Nat} (hpos : pos ≤ data.length) :
    EntriesFit w data (count + 1) pos ↔ FieldFits w data pos ∧
      ∀ key : Bytes, key.length < 2 ^ 32 → Holds data pos (lengthPrefixed key) → 2 ≤ key.length →
        FieldFits w data (pos + (lengthPrefixed key).length) ∧
          ∀ value : Bytes, value.length < 2 ^ 32 →
            Holds data (pos + (lengthPrefixed key).length) (lengthPrefixed value) →
              EntriesFit w data count
                (pos + (lengthPrefixed key).length + (lengthPrefixed value).length) := by
  rw [EntriesFit, exact_readField.forall_ok_iff hpos]
  refine and_congr_right fun _ => forall₃_congr fun key _ hkey => imp_congr_right fun _ => ?_
  rw [exact_readField.forall_ok_iff (hkey.le_length hpos)]

theorem entriesFit_iff {count pos : Nat} (hpos : pos ≤ data.length) :
    EntriesFit w data count pos ↔
      ∀ entries : List MapCodec.Field, entries.length < count → (∀ e ∈ entries, IdEntry e) →
        Holds data pos (entries.flatMap MapCodec.Field.write) →
          FieldFits w data (pos + (entries.flatMap MapCodec.Field.write).length) ∧
            ∀ key : Bytes, key.length < 2 ^ 32 → 2 ≤ key.length →
              Holds data (pos + (entries.flatMap MapCodec.Field.write).length) (lengthPrefixed key) →
                FieldFits w data (pos + (entries.flatMap MapCodec.Field.write).length +
                  (lengthPrefixed key).length) := by
  induction count generalizing pos with
  | zero => exact iff_of_true trivial fun entries hlt => absurd hlt (Nat.not_lt_zero _)
  | succ count ih =>
    have hcons : ∀ (e : MapCodec.Field) (entries : List MapCodec.Field),
        Holds data pos ((e :: entries).flatMap MapCodec.Field.write) ↔
          (Holds data pos (lengthPrefixed e.1) ∧
            Holds data (pos + (lengthPrefixed e.1).length) (lengthPrefixed e.2)) ∧
              Holds data (pos + (lengthPrefixed e.1).length + (lengthPrefixed e.2).length)
                (entries.flatMap MapCodec.Field.write) := by
      intro e entries
      rw [List.flatMap_cons, MapCodec.Field.write, holds_append, holds_append, List.length_append,
        ← Nat.add_assoc]
    have hlen : ∀ (e : MapCodec.Field) (entries : List MapCodec.Field),
        pos + ((e :: entries).flatMap MapCodec.Field.write).length =
          pos + (lengthPrefixed e.1).length + (lengthPrefixed e.2).length +
            (entries.flatMap MapCodec.Field.write).length := by
      intro e entries
      rw [List.flatMap_cons, MapCodec.Field.write, List.length_append, List.length_append]
      omega
    rw [entriesFit_succ hpos]
    constructor
    · rintro ⟨hfield, hrest⟩ entries hlt hentries hholds
      cases entries with
      | nil => exact ⟨hfield, fun key hkey hid hkeyHolds => (hrest key hkey hkeyHolds hid).1⟩
      | cons e entries =>
        rw [List.forall_mem_cons] at hentries
        obtain ⟨⟨hkey, hvalue⟩, hholds⟩ := (hcons e entries).mp hholds
        have hpos' := hvalue.le_length (hkey.le_length hpos)
        have hnext := (hrest e.1 hentries.1.fits.1 hkey hentries.1.key).2 e.2 hentries.1.fits.2 hvalue
        rw [hlen]
        exact (ih hpos').mp hnext entries (Nat.lt_of_succ_lt_succ hlt) hentries.2 hholds
    · intro hall
      have hnil := hall [] (Nat.succ_pos _) (List.forall_mem_nil _) holds_nil
      refine ⟨hnil.1, fun key hkey hholds hid => ⟨hnil.2 key hkey hid hholds, fun value hvalue hv => ?_⟩⟩
      rw [ih (hv.le_length (hholds.le_length hpos))]
      intro entries hlt hentries hrest
      have h := hall ((key, value) :: entries) (Nat.succ_lt_succ hlt)
        (List.forall_mem_cons.mpr ⟨⟨⟨hkey, hvalue⟩, hid⟩, hentries⟩)
        ((hcons (key, value) entries).mpr ⟨⟨hholds, hv⟩, hrest⟩)
      rw [hlen] at h
      exact h

theorem lengthsFit_isMapHead : LengthsFit w IsMapHead data ↔
    ∀ r, readU32 data 0 = .ok r → EntriesFit w data r.1.toNat r.2 := by
  rw [exact_readU32.forall_ok_iff (Nat.zero_le _), lengthsFit_iff]
  constructor
  · intro h count _ hcount
    rw [entriesFit_iff (hcount.le_length (Nat.zero_le _))]
    simp only [Nat.zero_add, ← List.length_append]
    intro entries hlt hentries hholds
    have hhead : Holds data 0 (u32ToLeBytes count ++ entries.flatMap MapCodec.Field.write) :=
      holds_append.mpr ⟨hcount, by rwa [Nat.zero_add]⟩
    refine ⟨h _ ⟨count, entries, hlt, hentries, .inl rfl⟩ hhead, fun key hkey hid hkeyHolds => ?_⟩
    exact h _ ⟨count, entries, hlt, hentries, .inr ⟨key, hkey, hid, rfl⟩⟩
      (holds_append.mpr ⟨hhead, by rwa [Nat.zero_add]⟩)
  · rintro h head ⟨count, entries, hlt, hentries, hhead⟩ hholds
    have hstart : Holds data 0 (u32ToLeBytes count ++ entries.flatMap MapCodec.Field.write) := by
      rcases hhead with rfl | ⟨key, -, -, rfl⟩
      · exact hholds
      · exact (holds_append.mp hholds).1
    obtain ⟨hcount, hentriesHold⟩ := holds_append.mp hstart
    have hfits := (entriesFit_iff (hcount.le_length (Nat.zero_le _))).mp (h count trivial hcount)
      entries hlt hentries hentriesHold
    simp only [Nat.zero_add, ← List.length_append] at hfits
    rcases hhead with rfl | ⟨key, hkey, hid, rfl⟩
    · exact hfits.1
    · have hlast := (holds_append.mp hholds).2
      rw [Nat.zero_add] at hlast
      exact hfits.2 key hkey hid hlast

theorem guarded_decodeU16Map (h : InMemory w data) :
    Guarded (decodeU16MapOn w data) (MapCodec.decodeU16Map data) (LengthsFit w IsMapHead data) := by
  rw [lengthsFit_isMapHead]
  exact (guarded_readU32 h (Nat.zero_le _)).bind_safe fun r hr =>
    guarded_decodeEntries h _ (exact_readU32.next_le (Nat.zero_le _) hr) ∅

/-! ## The participants -/

/-- The id that a key stands for. -/
def idOf (e : MapCodec.Field) : UInt16 := u16FromLeBytes (slice e.1 0 2)

theorem idOf_eq_zero {e : MapCodec.Field} (h : 2 ≤ e.1.length) : idOf e = 0 ↔ e.1.take 2 = [0, 0] := by
  have hlen : (slice e.1 0 2).length = 2 := by
    rw [slice, List.drop_zero, List.length_take]
    omega
  have hslice : slice e.1 0 2 = e.1.take 2 := rfl
  rw [idOf, ← hslice]
  constructor
  · intro hzero
    rw [← u16ToLeBytes_fromLeBytes hlen, hzero]
    rfl
  · intro hzero
    rw [hzero]
    rfl

theorem decodeEntries_isOk {entries : List MapCodec.Field} {l : List (UInt16 × Bytes)} :
    entries.mapM (MapCodec.decodeEntry MapCodec.u16Key .ok) = .ok l ↔
      (∀ e ∈ entries, 2 ≤ e.1.length) ∧ l = entries.map fun e => (idOf e, e.2) := by
  have hkey : ∀ e : MapCodec.Field, 2 ≤ e.1.length →
      MapCodec.decodeEntry MapCodec.u16Key .ok e = .ok (idOf e, e.2) := by
    intro e he
    unfold MapCodec.decodeEntry MapCodec.u16Key
    rw [if_neg (not_lt.mpr he)]
    rfl
  constructor
  · intro h
    have hall : ∀ e ∈ entries, 2 ≤ e.1.length := by
      intro e he
      obtain ⟨x, -, hx⟩ := exists_of_forall₂ (mapM_eq_ok.mp h) he
      obtain ⟨id, hid, -⟩ := bind_eq_ok.mp hx
      exact u16Key_isOk.mp ⟨id, hid⟩
    rw [mapM_ok fun e he => hkey e (hall e he)] at h
    exact ⟨hall, (Except.ok.inj h).symm⟩
  · rintro ⟨hall, rfl⟩
    exact mapM_ok fun e he => hkey e (hall e he)

theorem forall_toList_tabulate (P : UInt16 → Prop) (l : List (UInt16 × Bytes)) :
    (∀ e ∈ (BTreeMap.tabulate Prod.fst Prod.snd l).toList, P e.1) ↔ ∀ e ∈ l, P e.1 := by
  have hkeys : ∀ k, (∃ e ∈ (BTreeMap.tabulate Prod.fst Prod.snd l).toList, e.1 = k) ↔
      ∃ e ∈ l, e.1 = k := by
    intro k
    generalize hm : BTreeMap.tabulate Prod.fst Prod.snd l = m
    have hmem : k ∈ BTreeMap.tabulate Prod.fst Prod.snd m.toList ↔ ∃ e ∈ m.toList, e.1 = k :=
      BTreeMap.mem_tabulate
    rw [← hmem, BTreeMap.tabulate_toList, ← hm, BTreeMap.mem_tabulate]
  constructor
  · intro h e he
    obtain ⟨e', he', heq⟩ := (hkeys e.1).mpr ⟨e, he, rfl⟩
    exact heq ▸ h e' he'
  · intro h e he
    obtain ⟨e', he', heq⟩ := (hkeys e.1).mp ⟨e, he, rfl⟩
    exact heq ▸ h e' he'

theorem noZeroId_iff : NoZeroId data ↔
    ∀ map, MapCodec.decodeU16Map data = .ok map → ∀ e ∈ map.toList, e.1 ≠ 0 := by
  have hids : ∀ entries : List MapCodec.Field,
      (∀ e ∈ (BTreeMap.tabulate Prod.fst Prod.snd (entries.map fun e => (idOf e, e.2))).toList,
        e.1 ≠ 0) ↔ ∀ e ∈ entries, idOf e ≠ 0 :=
    fun entries => (forall_toList_tabulate (· ≠ 0) _).trans List.forall_mem_map
  unfold MapCodec.decodeU16Map NoZeroId
  simp only [MapCodec.decodeMap_eq_ok, MapCodec.frames_eq_ok, decodeEntries_isOk]
  constructor
  · rintro h map ⟨entries, _, ⟨hfits, hprefix⟩, ⟨hkeys, rfl⟩, rfl⟩
    rw [hids]
    intro e he
    rw [ne_eq, idOf_eq_zero (hkeys e he)]
    exact h entries hfits hprefix hkeys e he
  · intro h entries hfits hprefix hkeys e he
    have hall := h _ ⟨entries, _, ⟨hfits, hprefix⟩, ⟨hkeys, rfl⟩, rfl⟩
    rw [hids] at hall
    rw [ne_eq, ← idOf_eq_zero (hkeys e he)]
    exact hall e he

theorem participantNew_eq_none {id : UInt16} : Participant.new id = none ↔ id = 0 := by
  unfold Participant.new
  split
  · next h => exact iff_of_true rfl h
  · next h => exact iff_of_false nofun h

/-- An entry with a participant; the error stands for the crash. -/
def participantOf (e : UInt16 × Bytes) : Result (Participant × Bytes) := do
  let participant ← okOr .unknownError (Participant.new e.1)
  return (participant, e.2)

theorem guarded_participant (e : UInt16 × Bytes) :
    Guarded (fun _ => participantOn e) (participantOf e) (e.1 ≠ 0) := by
  have hunwrap : Guarded (fun _ => unwrap (Participant.new e.1))
      (okOr .unknownError (Participant.new e.1)) (e.1 ≠ 0) := by
    have h := guarded_unwrap (LibError.unknownError : Fault) (Participant.new e.1)
    rw [ne_eq, participantNew_eq_none] at h
    refine (congrArg (fun spec => Guarded _ spec _) ?_).mp h
    cases Participant.new e.1 <;> rfl
  exact hunwrap.then_safe fun _ _ _ => guarded_pure _

theorem participantOf_isOk {e : UInt16 × Bytes} (h : e.1 ≠ 0) : ∃ p, participantOf e = .ok p := by
  unfold participantOf Participant.new
  rw [dif_neg h]
  exact ⟨_, rfl⟩

/-- What must hold of a map of the peers. -/
structure PeersFit (w : Nat) (data : Bytes) : Prop where
  lengths : LengthsFit w IsMapHead data
  ids : NoZeroId data

theorem withPeers_safe_iff {Part Out : Type} (taken : Result (SpendMachine Part Out))
    {peersMap : Option Bytes} (h : ∀ data, peersMap = some data → InMemory w data) :
    Safe (withPeersOn w taken peersMap) ↔
      ∀ data, peersMap = some data → ∀ machine, taken = .ok machine → PeersFit w data := by
  have hguarded := (guarded_lift (okOr .nullPtr peersMap)).bind_safe fun data hdata =>
    (guarded_lift taken).bind_safe fun machine _ =>
      (guarded_decodeU16Map (h data (okOr_eq_ok.mp hdata))).bind fun _ map _ =>
        (guarded_mapM guarded_participant (fun _ => participantOf_isOk) map.toList).then_safe
          fun _ parts _ => guarded_lift (machine.run parts)
  refine (Guarded.safe_iff hguarded).trans ?_
  simp only [okOr_eq_ok, ← noZeroId_iff]
  exact forall₂_congr fun data _ => forall₂_congr fun machine _ =>
    ⟨fun hboth => ⟨hboth.1, hboth.2⟩, fun hfits => ⟨hfits.lengths, hfits.ids⟩⟩

/-! ## All decoders -/

/-- Where a position has 32 bits or more, what must fit so that untrusted bytes do not crash a
decoder; with 64 bits all lengths fit. -/
theorem untrustedBytes_safe_iff {F Part Out : Type} (deserializeRandomizer : Bytes → Option F)
    (taken : Result (SpendMachine Part Out)) :
    (∀ w data, InMemory w data →
      (Safe (SignSetup.decodeOn w data) ↔ LengthsFit w IsBase data) ∧
      (Safe (ReshareSetup.decodeOn w data) ↔ LengthsFit w IsReshareHead data) ∧
      (Safe (KeyImportSetup.decodeOn w data) ↔ LengthsFit w IsKeyImportHead data) ∧
      (Safe (KeyImageSetup.decodeOn w data) ↔ LengthsFit w IsBase data) ∧
      (Safe (readRandomizerOn w deserializeRandomizer data) ↔ LengthsFit w IsEmpty data) ∧
      (∀ spentFlags, Safe (filterSpentOutputsOn w data spentFlags) ↔ RecordsFit w data spentFlags) ∧
      (Safe (fromtSpendSignOn w taken (some data)) ↔
        ∀ machine, taken = .ok machine → PeersFit w data) ∧
      (Safe (fromtSpendCompleteOn w taken (some data)) ↔
        ∀ machine, taken = .ok machine → PeersFit w data)) ∧
    ∀ data, InMemory 64 data → ∀ Head, LengthsFit 64 Head data := by
  have hpeers : ∀ w data, InMemory w data → (Safe (withPeersOn w taken (some data)) ↔
      ∀ machine, taken = .ok machine → PeersFit w data) := by
    intro w data h
    rw [withPeers_safe_iff taken fun _ hdata => Option.some.inj hdata ▸ h]
    exact ⟨fun hall => hall data rfl, fun hall _ hdata => Option.some.inj hdata ▸ hall⟩
  refine ⟨fun w data h => ⟨signSetup_safe_iff h, reshareSetup_safe_iff h, keyImportSetup_safe_iff h,
    keyImageSetup_safe_iff h, readRandomizer_safe_iff _, fun _ => filterSpentOutputs_safe_iff h,
      hpeers w data h, hpeers w data h⟩, fun data h => lengthsFit_of_large h⟩

/-- A setup without parties, and the largest length. -/
def longMessage : Bytes := [0, 0, 0, 0, 0, 0, 255, 255, 255, 255]

theorem longMessage_long : ¬ LengthsFit 32 IsBase longMessage := by
  intro h
  have hbase : IsBase (SetupMsg.mk 0 0 []).encode :=
    ⟨_, ⟨by decide, fun _ hp => absurd hp List.not_mem_nil⟩, rfl⟩
  exact absurd (h _ 4294967295 hbase (by decide)) (by decide)

/-- A map with the part 7 of one participant. -/
def onePart (id : UInt16) : Bytes := encodeFields [(u16ToLeBytes id, [7])]

/-- A machine that takes everything. -/
def anyMachine : SpendMachine Bytes Unit := ⟨some, fun _ => .ok ()⟩

theorem noZeroId_onePart : NoZeroId (onePart 1) := by
  rw [noZeroId_iff]
  intro map hmap
  have hids : ((MapCodec.decodeU16Map (onePart 1)).toOption.map fun map => map.toList.map Prod.fst) =
      some [1] := by decide +kernel
  rw [hmap] at hids
  have hlist : map.toList.map Prod.fst = [1] := Option.some.inj hids
  intro e he hzero
  have hmem : e.1 ∈ map.toList.map Prod.fst := List.mem_map_of_mem he
  rw [hlist, hzero] at hmem
  exact absurd hmem (by decide)

/-- The length is an error with 64 bits, as are a record's missing bytes, and a map without the
id 0 is read to its end. -/
theorem untrustedBytes_safe_sample :
    Safe (SignSetup.decodeOn 64 longMessage) ∧ ¬ Safe (SignSetup.decodeOn 32 longMessage) ∧
    Safe (filterSpentOutputsOn 32 (u32ToLeBytes 1 ++ List.replicate 72 5) [0]) ∧
    ¬ Safe (filterSpentOutputsOn 32 [255, 255, 255, 255] []) ∧
    Safe (fromtSpendSignOn 64 (.ok anyMachine) (some (onePart 1))) ∧
    Safe (fromtSpendCompleteOn 64 (.ok anyMachine) (some (onePart 1))) := by
  obtain ⟨hsafe, hlarge⟩ := untrustedBytes_safe_iff (F := Unit) (fun _ => none)
    (.ok anyMachine : Result (SpendMachine Bytes Unit))
  have h64 : InMemory 64 longMessage := ⟨by decide, by decide⟩
  have h32 : InMemory 32 longMessage := ⟨by decide, by decide⟩
  have hrecord : InMemory 32 (u32ToLeBytes 1 ++ List.replicate 72 5) := ⟨by decide, by decide⟩
  have hcount : InMemory 32 [255, 255, 255, 255] := ⟨by decide, by decide⟩
  have hpart : InMemory 64 (onePart 1) := ⟨by decide, by decide⟩
  have hpeers : PeersFit 64 (onePart 1) := ⟨hlarge _ hpart _, noZeroId_onePart⟩
  obtain ⟨-, -, -, -, -, hwhole, -, -⟩ := hsafe 32 _ hrecord
  obtain ⟨-, -, -, -, -, hshort, -, -⟩ := hsafe 32 _ hcount
  obtain ⟨-, -, -, -, -, -, hsign, hcomplete⟩ := hsafe 64 _ hpart
  refine ⟨(hsafe 64 _ h64).1.mpr (hlarge _ h64 _), fun h => longMessage_long ((hsafe 32 _ h32).1.mp h),
    (hwhole [0]).mpr ?_, fun h => ?_, hsign.mpr fun _ _ => hpeers, hcomplete.mpr fun _ _ => hpeers⟩
  · exact ⟨fun _ => by decide, fun _ => by decide +kernel⟩
  · have hfits := (hshort []).mp h
    exact absurd (hfits.records (by decide)) (by decide)

/-- A length that wraps around, and an id that no participant has. -/
theorem untrustedBytes_crash :
    SignSetup.decodeOn 32 longMessage .wrapping = .error (.crash .outOfRange) ∧
      ¬ Safe (fromtSpendSignOn 64 (.ok anyMachine) (some (onePart 0))) := by
  refine ⟨rfl, fun h => ?_⟩
  have hmemory : ∀ data, some (onePart 0) = some data → InMemory 64 data := by
    rintro _ ⟨⟩
    exact ⟨by decide, by decide⟩
  have hfits := (withPeers_safe_iff (.ok anyMachine) hmemory).mp h (onePart 0) rfl anyMachine rfl
  exact hfits.ids [([0, 0], [7])] ⟨by decide, by decide⟩ (List.prefix_refl _) (by decide) _
    List.mem_cons_self rfl

end UntrustedBytes
