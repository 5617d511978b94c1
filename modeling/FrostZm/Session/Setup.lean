import FrostZm.Ffi.Codec

/-!
# Setup messages

What every party of a session is told before it starts: the thresholds and who takes part
under which identifier.
-/

structure PartyEntry where
  frostId : UInt16
  name : Bytes
deriving DecidableEq

structure SetupMsg where
  maxSigners : UInt16
  minSigners : UInt16
  parties : List PartyEntry

namespace SetupMsg

def frostIdByName (setup : SetupMsg) (name : Bytes) : Option UInt16 :=
  (setup.parties.find? (·.name = name)).map PartyEntry.frostId

def ids (setup : SetupMsg) : List UInt16 := setup.parties.map PartyEntry.frostId

def partyName (setup : SetupMsg) (frostId : UInt16) : Option Bytes :=
  (setup.parties.find? (·.frostId = frostId)).map PartyEntry.name

def otherPartyIds (setup : SetupMsg) (myId : UInt16) : List UInt16 :=
  (setup.parties.filter (·.frostId ≠ myId)).map PartyEntry.frostId

theorem frostIdByName_mem {setup : SetupMsg} {name : Bytes} {id : UInt16}
    (h : setup.frostIdByName name = some id) : id ∈ setup.ids := by
  obtain ⟨party, hparty, rfl⟩ := Option.map_eq_some_iff.mp h
  exact List.mem_map_of_mem (List.mem_of_find?_eq_some hparty)

end SetupMsg

structure KeyImageSetup where
  base : SetupMsg
  outputsData : Bytes

structure ReshareSetup where
  base : SetupMsg
  oldIdentifiers : List UInt16
  expectedVk : Bytes

/-! ## Their encodings are read field by field -/

/-- The loop over `count` parties, from `pos` on. -/
def decodePartyEntries (data : Bytes) : Nat → Nat → Result (List PartyEntry × Nat)
  | 0, pos => return ([], pos)
  | count + 1, pos => do
    let (frostId, pos) ← readU16 data pos
    let (nameLen, pos) ← readU16 data pos
    let (name, pos) ← readBytes data pos nameLen.toNat
    let (parties, pos) ← decodePartyEntries data count pos
    return ({ frostId, name } :: parties, pos)

def SetupMsg.decode (data : Bytes) : Result (SetupMsg × Nat) := do
  failIf (data.length < 6) .serializationError
  let (maxSigners, pos) ← readU16 data 0
  let (minSigners, pos) ← readU16 data pos
  let (numParties, pos) ← readU16 data pos
  let (parties, pos) ← decodePartyEntries data numParties.toNat pos
  return ({ maxSigners, minSigners, parties }, pos)

/-- The loop over `count` identifiers, from `pos` on. -/
def decodeU16s (data : Bytes) : Nat → Nat → Result (List UInt16 × Nat)
  | 0, pos => return ([], pos)
  | count + 1, pos => do
    let (id, pos) ← readU16 data pos
    let (ids, pos) ← decodeU16s data count pos
    return (id :: ids, pos)

def ReshareSetup.decode (data : Bytes) : Result ReshareSetup := do
  let (base, pos) ← SetupMsg.decode data
  let (numOld, pos) ← readU16 data pos
  let (oldIdentifiers, pos) ← decodeU16s data numOld.toNat pos
  let (vkLen, pos) ← readU32 data pos
  let (expectedVk, _) ← readBytes data pos vkLen.toNat
  return { base, oldIdentifiers, expectedVk }
