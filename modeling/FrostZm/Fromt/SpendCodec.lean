import FrostZm.Fromt.Rings
import FrostZm.Lib.Crashes
import FrostZm.Lib.Positions

/-!
# From the TypeScript client to the spend builder

The client encodes the inputs and the rings of a spend as bytes, with each number in two halves of
32 bits, and the WASM library reads them back.
-/

open Crashes PosReader

/-! ## TypeScript -/

namespace FromtTs

/-- A number that `Number.isSafeInteger` accepts. -/
abbrev SafeInteger := { n : Int // -2 ^ 53 < n ∧ n < 2 ^ 53 }

/-- The length of an array has 32 bits. -/
abbrev JsArray (α : Type) := { l : List α // l.length < 2 ^ 32 }

structure SpendInput where
  amount : SafeInteger
  keyOffset : FromtWasm.Bytes32
  outputKey : FromtWasm.Bytes32
  commitmentMask : FromtWasm.Bytes32
  globalIndex : SafeInteger

structure DecoyMember where
  outputKey : FromtWasm.Bytes32
  commitment : FromtWasm.Bytes32
  globalIndex : SafeInteger

structure DecoyRing where
  realIndex : SafeInteger
  members : JsArray DecoyMember

/-- `a & b`: both operands as signed numbers of 32 bits. -/
def bitAnd (a b : Int) : Int := (BitVec.ofInt 32 a &&& BitVec.ofInt 32 b).toInt

/-- `view.setUint32(off, value, true)`. -/
def setUint32 (value : Int) : Bytes := LittleEndian.bytesOf 4 (value % 2 ^ 32).toNat

/-- Both halves of a number, the low one first. -/
def setLoHi (value : Int) : Bytes :=
  let lo := bitAnd value 0xffffffff
  let hi := bitAnd (value / 0x100000000) 0xffffffff
  setUint32 lo ++ setUint32 hi

def encodeSpendInput (input : SpendInput) : Bytes :=
  setLoHi input.amount ++ input.keyOffset.1.take 32 ++ input.outputKey.1.take 32 ++
    input.commitmentMask.1.take 32 ++ setLoHi input.globalIndex

/-- The pieces of the buffer, each at the offset behind the one before. -/
def encodeSpendInputs (inputs : JsArray SpendInput) : Bytes :=
  setUint32 inputs.1.length ++ inputs.1.flatMap encodeSpendInput

def encodeDecoyMember (member : DecoyMember) : Bytes :=
  member.outputKey.1.take 32 ++ member.commitment.1.take 32 ++ setLoHi member.globalIndex

def encodeDecoyRing (ring : DecoyRing) : Bytes :=
  setUint32 ring.members.1.length ++ setUint32 ring.realIndex ++
    ring.members.1.flatMap encodeDecoyMember

def encodeDecoyRings (rings : JsArray DecoyRing) : Bytes :=
  setUint32 rings.1.length ++ rings.1.flatMap encodeDecoyRing

end FromtTs

/-! ## Rust -/

namespace FromtWasm

def u32At : PosReader (Stop String) UInt32 := fun data off => do
  let b ← range data off (off + 4)
  let b ← unwrap (sized 4 b)
  return (u32FromLeBytes b, off + 4)

def u64At : PosReader (Stop String) UInt64 := fun data off => do
  let b ← range data off (off + 8)
  let b ← unwrap (sized 8 b)
  return (u64FromLeBytes b, off + 8)

/-- `copy_from_slice(&data[off..off + 32])`. -/
def bytes32At : PosReader (Stop String) Bytes32 := fun data off => do
  let b ← range data off (off + 32)
  let b ← unwrap (if h : b.length = 32 then some ⟨b, h⟩ else none)
  return (b, off + 32)

def inputAt : PosReader (Stop String) ParsedInput := fun data off => do
  let (amount, off) ← u64At data off
  let (keyOffset, off) ← bytes32At data off
  let (outputKey, off) ← bytes32At data off
  let (commitmentMask, off) ← bytes32At data off
  let (globalIndex, off) ← u64At data off
  return ({ amount, keyOffset, outputKey, commitmentMask, globalIndex }, off)

def parseTsInputs (data : Bytes) : Run String (List ParsedInput) := do
  lift (failWith (data.length < 4) "inputs data too short")
  let (count, off) ← u32At data 0
  let recordSize := 8 + 32 + 32 + 32 + 8
  let expected := 4 + count.toNat * recordSize
  lift (failWith (data.length < expected)
    s!"inputs data: expected {expected} bytes, got {data.length}")
  let (inputs, off) ← manyAt inputAt count.toNat data off
  lift (failWith (off ≠ expected) s!"inputs data: parsed {off} bytes, expected {expected}")
  return inputs

def memberAt : PosReader (Stop String) RingMember := fun data off => do
  let (outputKey, off) ← bytes32At data off
  let (commitment, off) ← bytes32At data off
  let (globalIndex, off) ← u64At data off
  return ({ outputKey, commitment, globalIndex }, off)

def ringAt : PosReader (Stop String) ParsedRing := fun data off => do
  lift (failWith (data.length < off + 8) "decoys data truncated at ring header")
  let (memberCount, off) ← u32At data off
  let (realIndex, off) ← u32At data off
  let memberSize := 32 + 32 + 8
  lift (failWith (data.length < off + memberCount.toNat * memberSize)
    "decoys data truncated at ring members")
  let (members, off) ← manyAt memberAt memberCount.toNat data off
  return ({ members, realIndex }, off)

def parseTsDecoys (data : Bytes) : Run String (List ParsedRing) := do
  lift (failWith (data.length < 4) "decoys data too short")
  let (ringCount, off) ← u32At data 0
  let (rings, off) ← manyAt ringAt ringCount.toNat data off
  lift (failWith (off ≠ data.length) s!"decoys data has {data.length - off} trailing bytes")
  return rings

/-! ## Crossing -/

open FromtTs

/-- The number is the same on both sides. -/
def SameNumber (n : SafeInteger) (word : Nat) : Prop := (word : Int) = n.1

structure SameInput (input : SpendInput) (parsed : ParsedInput) : Prop where
  amount : SameNumber input.amount parsed.amount.toNat
  keyOffset : parsed.keyOffset = input.keyOffset
  outputKey : parsed.outputKey = input.outputKey
  commitmentMask : parsed.commitmentMask = input.commitmentMask
  globalIndex : SameNumber input.globalIndex parsed.globalIndex.toNat

structure SameMember (member : DecoyMember) (parsed : RingMember) : Prop where
  outputKey : parsed.outputKey = member.outputKey
  commitment : parsed.commitment = member.commitment
  globalIndex : SameNumber member.globalIndex parsed.globalIndex.toNat

structure SameRing (ring : DecoyRing) (parsed : ParsedRing) : Prop where
  realIndex : SameNumber ring.realIndex parsed.realIndex.toNat
  members : List.Forall₂ SameMember ring.members.1 parsed.members

/-- Both lists are read as they were, and no byte is left. -/
structure Crosses (inputs : JsArray SpendInput) (rings : JsArray DecoyRing) : Prop where
  spendInputs : ∃ parsed, parseTsInputs (encodeSpendInputs inputs) = .ok parsed ∧
    List.Forall₂ SameInput inputs.1 parsed
  size : (encodeSpendInputs inputs).length = 4 + inputs.1.length * (8 + 32 + 32 + 32 + 8)
  decoyRings : ∃ parsed, parseTsDecoys (encodeDecoyRings rings) = .ok parsed ∧
    List.Forall₂ SameRing rings.1 parsed

/-- The numbers are in the ranges of their fields. -/
structure InRange (inputs : JsArray SpendInput) (rings : JsArray DecoyRing) : Prop where
  inputs : ∀ input ∈ inputs.1, 0 ≤ input.amount.1 ∧ 0 ≤ input.globalIndex.1
  realIndex : ∀ ring ∈ rings.1, 0 ≤ ring.realIndex.1 ∧ ring.realIndex.1 < 2 ^ 32
  members : ∀ ring ∈ rings.1, ∀ member ∈ ring.members.1, 0 ≤ member.globalIndex.1

/-! ## Numbers -/

theorem bitAnd_low (n : Int) : bitAnd n 0xffffffff = n.bmod (2 ^ 32) := by
  have hones : BitVec.ofInt 32 0xffffffff = BitVec.allOnes 32 := by decide
  unfold bitAnd
  rw [hones, BitVec.and_allOnes, BitVec.toInt_ofInt]

theorem setUint32_bitAnd (n : Int) : setUint32 (bitAnd n 0xffffffff) = setUint32 n := by
  have hmod : n.bmod (2 ^ 32) % 2 ^ 32 = n % 2 ^ 32 := Int.bmod_emod
  unfold setUint32
  rw [bitAnd_low, hmod]

theorem setLoHi_eq (n : Int) : setLoHi n = u64ToLeBytes (.ofNat (n % 2 ^ 64).toNat) := by
  have hword : (UInt64.ofNat (n % 2 ^ 64).toNat).toNat = (n % 2 ^ 64).toNat := by
    rw [UInt64.toNat_ofNat']
    omega
  have hlow : (n % 2 ^ 32).toNat = (n % 2 ^ 64).toNat % 256 ^ 4 := by omega
  have hhigh : (n / 0x100000000 % 2 ^ 32).toNat = (n % 2 ^ 64).toNat / 256 ^ 4 := by omega
  unfold setLoHi u64ToLeBytes
  dsimp only
  rw [setUint32_bitAnd, setUint32_bitAnd, hword, setUint32, setUint32, hlow, hhigh,
    LittleEndian.bytesOf_mod, ← LittleEndian.bytesOf_add]

/-! ## Reading what was written -/

variable {data b : Bytes} {off : Nat}

theorem range_of_holds {n : Nat} (h : Holds data off b) (hn : b.length = n) (hpos : 0 < n) :
    (range data off (off + n) : Run String Bytes) = .ok b := by
  have hle := h.bytes_le (List.length_pos_iff.mp (hn ▸ hpos))
  obtain ⟨suf, hsuf⟩ := h
  unfold range
  rw [if_pos ⟨Nat.le_add_right _ _, hn ▸ hle⟩, Nat.add_sub_cancel_left, ← hsuf, List.take_left' hn]

theorem readsAt_u32 (n : UInt32) : ReadsAt u32At (u32ToLeBytes n) n := by
  intro data off h
  have hlen := length_u32ToLeBytes n
  unfold u32At
  rw [range_of_holds h hlen (by decide), hlen]
  simp only [bind, Except.bind, sized, if_pos hlen, unwrap, u32FromLeBytes_toLeBytes]
  rfl

theorem readsAt_u64 (n : UInt64) : ReadsAt u64At (u64ToLeBytes n) n := by
  intro data off h
  have hlen := length_u64ToLeBytes n
  unfold u64At
  rw [range_of_holds h hlen (by decide), hlen]
  simp only [bind, Except.bind, sized, if_pos hlen, unwrap, u64FromLeBytes_toLeBytes]
  rfl

theorem readsAt_bytes32 (b : Bytes32) : ReadsAt bytes32At b.1 b := by
  intro data off h
  unfold bytes32At
  rw [range_of_holds h b.2 (by decide), b.2]
  simp only [bind, Except.bind, dif_pos b.2, unwrap]
  rfl

def word64 (n : SafeInteger) : UInt64 := .ofNat (n.1 % 2 ^ 64).toNat

def word32 (n : Int) : UInt32 := .ofNat (n % 2 ^ 32).toNat

theorem setUint32_eq (n : Int) : setUint32 n = u32ToLeBytes (word32 n) := by
  have hword : (word32 n).toNat = (n % 2 ^ 32).toNat := by
    unfold word32
    rw [UInt32.toNat_ofNat']
    omega
  rw [setUint32, u32ToLeBytes, hword]

def parsedInput (input : SpendInput) : ParsedInput where
  amount := word64 input.amount
  keyOffset := input.keyOffset
  outputKey := input.outputKey
  commitmentMask := input.commitmentMask
  globalIndex := word64 input.globalIndex

def parsedMember (member : DecoyMember) : RingMember where
  outputKey := member.outputKey
  commitment := member.commitment
  globalIndex := word64 member.globalIndex

def parsedRing (ring : DecoyRing) : ParsedRing where
  members := ring.members.1.map parsedMember
  realIndex := word32 ring.realIndex

theorem take_bytes32 (b : Bytes32) : b.1.take 32 = b.1 := List.take_of_length_le b.2.le

theorem encodeSpendInput_eq (input : SpendInput) : encodeSpendInput input =
    u64ToLeBytes (word64 input.amount) ++ (input.keyOffset.1 ++ (input.outputKey.1 ++
      (input.commitmentMask.1 ++ u64ToLeBytes (word64 input.globalIndex)))) := by
  unfold encodeSpendInput
  simp only [take_bytes32, setLoHi_eq, List.append_assoc]
  rfl

theorem readsAt_input (input : SpendInput) :
    ReadsAt inputAt (encodeSpendInput input) (parsedInput input) := by
  intro data off h
  rw [encodeSpendInput_eq] at h ⊢
  simp only [holds_append] at h
  obtain ⟨hamount, hoffset, hkey, hmask, hindex⟩ := h
  have hamount := readsAt_u64 _ data _ hamount
  have hoffset := readsAt_bytes32 _ data _ hoffset
  have hkey := readsAt_bytes32 _ data _ hkey
  have hmask := readsAt_bytes32 _ data _ hmask
  have hindex := readsAt_u64 _ data _ hindex
  simp only [inputAt, hamount, hoffset, hkey, hmask, hindex, bind, Except.bind, List.length_append,
    ← Nat.add_assoc]
  rfl

theorem readsAt_member (member : DecoyMember) :
    ReadsAt memberAt (encodeDecoyMember member) (parsedMember member) := by
  intro data off h
  unfold encodeDecoyMember at h ⊢
  simp only [take_bytes32, setLoHi_eq, List.append_assoc, holds_append] at h ⊢
  obtain ⟨hkey, hcommitment, hindex⟩ := h
  have hkey := readsAt_bytes32 _ data _ hkey
  have hcommitment := readsAt_bytes32 _ data _ hcommitment
  have hindex := readsAt_u64 _ data _ hindex
  simp only [memberAt, hkey, hcommitment, hindex, bind, Except.bind, List.length_append,
    ← Nat.add_assoc]
  rfl

theorem length_setLoHi (n : Int) : (setLoHi n).length = 8 := by
  rw [setLoHi_eq, length_u64ToLeBytes]

theorem length_encodeSpendInput (input : SpendInput) : (encodeSpendInput input).length = 112 := by
  unfold encodeSpendInput
  simp only [take_bytes32, List.length_append, length_setLoHi, input.keyOffset.2,
    input.outputKey.2, input.commitmentMask.2]

theorem length_encodeDecoyMember (member : DecoyMember) : (encodeDecoyMember member).length = 72 := by
  unfold encodeDecoyMember
  simp only [take_bytes32, List.length_append, length_setLoHi, member.outputKey.2,
    member.commitment.2]

theorem length_flatMap_const {ι : Type} {write : ι → Bytes} {n : Nat}
    (h : ∀ x, (write x).length = n) (l : List ι) : (l.flatMap write).length = l.length * n := by
  rw [List.length_flatMap]
  simp only [h, List.map_const', List.sum_replicate_nat]

theorem toNat_word32_length {α : Type} (l : JsArray α) : (word32 l.1.length).toNat = l.1.length := by
  have hlt := l.2
  unfold word32
  rw [UInt32.toNat_ofNat']
  omega

theorem readsAt_ring (ring : DecoyRing) :
    ReadsAt ringAt (encodeDecoyRing ring) (parsedRing ring) := by
  intro data off h
  unfold encodeDecoyRing at h ⊢
  simp only [setUint32_eq, List.append_assoc, holds_append] at h ⊢
  obtain ⟨hcount, hreal, hmembers⟩ := h
  have hheader : ¬ data.length < off + 8 := by
    have hle := hreal.bytes_le (List.ne_nil_of_length_pos (by rw [length_u32ToLeBytes]; decide))
    rw [length_u32ToLeBytes, length_u32ToLeBytes] at hle
    omega
  have hlen := length_flatMap_const length_encodeDecoyMember ring.members.1
  have hroom : ¬ data.length < off + 4 + 4 + ring.members.1.length * (32 + 32 + 8) := by
    rw [length_u32ToLeBytes, length_u32ToLeBytes] at hmembers
    have hle := hmembers.le_length (by omega)
    omega
  have hcount := readsAt_u32 _ data _ hcount
  have hreal := readsAt_u32 _ data _ hreal
  have hmembers := ReadsAt.many (fun member _ => readsAt_member member) data _ hmembers
  simp only [length_u32ToLeBytes] at hcount hreal hmembers ⊢
  simp only [ringAt, hcount, hreal, toNat_word32_length, hmembers, failWith, if_neg hheader,
    if_neg hroom, lift, bind, Except.bind, List.length_append, length_u32ToLeBytes, ← Nat.add_assoc]
  rfl

theorem length_encodeSpendInputs (inputs : JsArray SpendInput) :
    (encodeSpendInputs inputs).length = 4 + inputs.1.length * (8 + 32 + 32 + 32 + 8) := by
  unfold encodeSpendInputs
  rw [List.length_append, setUint32_eq, length_u32ToLeBytes,
    length_flatMap_const length_encodeSpendInput]

theorem parseTsInputs_encode (inputs : JsArray SpendInput) :
    parseTsInputs (encodeSpendInputs inputs) = .ok (inputs.1.map parsedInput) := by
  have hlen := length_encodeSpendInputs inputs
  have hholds : Holds (encodeSpendInputs inputs) 0 (encodeSpendInputs inputs) :=
    holds_zero.mpr List.prefix_rfl
  nth_rewrite 2 [encodeSpendInputs] at hholds
  rw [setUint32_eq, holds_append] at hholds
  have hcount := readsAt_u32 _ _ _ hholds.1
  have hinputs := ReadsAt.many (fun input _ => readsAt_input input) _ _ hholds.2
  have hend : (inputs.1.flatMap encodeSpendInput).length =
      inputs.1.length * (8 + 32 + 32 + 32 + 8) :=
    length_flatMap_const length_encodeSpendInput _
  have hshort : ¬ (encodeSpendInputs inputs).length < 4 := by omega
  have hroom : ¬ (encodeSpendInputs inputs).length <
      4 + inputs.1.length * (8 + 32 + 32 + 32 + 8) := by omega
  simp only [length_u32ToLeBytes, Nat.zero_add, hend] at hcount hinputs
  simp only [parseTsInputs, failWith, if_neg hshort, hcount, toNat_word32_length, if_neg hroom,
    hinputs, ne_eq, not_true_eq_false, if_false, lift, bind, Except.bind]
  rfl

theorem parseTsDecoys_encode (rings : JsArray DecoyRing) :
    parseTsDecoys (encodeDecoyRings rings) = .ok (rings.1.map parsedRing) := by
  have hlen : (encodeDecoyRings rings).length = 4 + (rings.1.flatMap encodeDecoyRing).length := by
    unfold encodeDecoyRings
    rw [List.length_append, setUint32_eq, length_u32ToLeBytes]
  have hholds : Holds (encodeDecoyRings rings) 0 (encodeDecoyRings rings) :=
    holds_zero.mpr List.prefix_rfl
  nth_rewrite 2 [encodeDecoyRings] at hholds
  rw [setUint32_eq, holds_append] at hholds
  have hcount := readsAt_u32 _ _ _ hholds.1
  have hrings := ReadsAt.many (fun ring _ => readsAt_ring ring) _ _ hholds.2
  have hshort : ¬ (encodeDecoyRings rings).length < 4 := by omega
  simp only [length_u32ToLeBytes, Nat.zero_add, ← hlen] at hcount hrings
  simp only [parseTsDecoys, failWith, if_neg hshort, hcount, toNat_word32_length, hrings, ne_eq,
    not_true_eq_false, if_false, lift, bind, Except.bind]
  rfl

/-! ## Which numbers cross -/

theorem sameNumber_word64 (n : SafeInteger) : SameNumber n (word64 n).toNat ↔ 0 ≤ n.1 := by
  have hsafe := n.2
  have hword : (word64 n).toNat = (n.1 % 2 ^ 64).toNat := by
    unfold word64
    rw [UInt64.toNat_ofNat']
    omega
  unfold SameNumber
  rw [hword]
  omega

theorem sameNumber_word32 (n : SafeInteger) :
    SameNumber n (word32 n).toNat ↔ 0 ≤ n.1 ∧ n.1 < 2 ^ 32 := by
  have hword : (word32 n).toNat = (n.1 % 2 ^ 32).toNat := by
    unfold word32
    rw [UInt32.toNat_ofNat']
    omega
  unfold SameNumber
  rw [hword]
  omega

theorem sameInput_iff (input : SpendInput) :
    SameInput input (parsedInput input) ↔ 0 ≤ input.amount.1 ∧ 0 ≤ input.globalIndex.1 := by
  rw [← sameNumber_word64, ← sameNumber_word64]
  exact ⟨fun h => ⟨h.amount, h.globalIndex⟩, fun h => ⟨h.1, rfl, rfl, rfl, h.2⟩⟩

theorem sameMember_iff (member : DecoyMember) :
    SameMember member (parsedMember member) ↔ 0 ≤ member.globalIndex.1 := by
  rw [← sameNumber_word64]
  exact ⟨SameMember.globalIndex, fun h => ⟨rfl, rfl, h⟩⟩

theorem sameRing_iff (ring : DecoyRing) : SameRing ring (parsedRing ring) ↔
    (0 ≤ ring.realIndex.1 ∧ ring.realIndex.1 < 2 ^ 32) ∧
      ∀ member ∈ ring.members.1, 0 ≤ member.globalIndex.1 := by
  have hmembers : List.Forall₂ SameMember ring.members.1 (ring.members.1.map parsedMember) ↔
      ∀ member ∈ ring.members.1, 0 ≤ member.globalIndex.1 := by
    rw [List.forall₂_map_right_iff, List.forall₂_same]
    exact forall₂_congr fun member _ => sameMember_iff member
  rw [← hmembers, ← sameNumber_word32]
  exact ⟨fun h => ⟨h.realIndex, h.members⟩, fun h => ⟨h.1, h.2⟩⟩

theorem exists_same_iff {α β : Type} {R : α → β → Prop} {f : α → β} {l : List α}
    {run : Run String (List β)} (h : run = .ok (l.map f)) :
    (∃ parsed, run = .ok parsed ∧ List.Forall₂ R l parsed) ↔ ∀ x ∈ l, R x (f x) := by
  have hmap : List.Forall₂ R l (l.map f) ↔ ∀ x ∈ l, R x (f x) := by
    rw [List.forall₂_map_right_iff, List.forall₂_same]
  rw [← hmap]
  constructor
  · rintro ⟨parsed, hparsed, hsame⟩
    obtain rfl : l.map f = parsed := Except.ok.inj (h.symm.trans hparsed)
    exact hsame
  · intro hsame
    exact ⟨_, h, hsame⟩

theorem inputs_cross_iff (inputs : JsArray SpendInput) :
    (∃ parsed, parseTsInputs (encodeSpendInputs inputs) = .ok parsed ∧
      List.Forall₂ SameInput inputs.1 parsed) ↔
    ∀ input ∈ inputs.1, 0 ≤ input.amount.1 ∧ 0 ≤ input.globalIndex.1 := by
  rw [exists_same_iff (parseTsInputs_encode inputs)]
  exact forall₂_congr fun input _ => sameInput_iff input

theorem rings_cross_iff (rings : JsArray DecoyRing) :
    (∃ parsed, parseTsDecoys (encodeDecoyRings rings) = .ok parsed ∧
      List.Forall₂ SameRing rings.1 parsed) ↔
    ∀ ring ∈ rings.1, (0 ≤ ring.realIndex.1 ∧ ring.realIndex.1 < 2 ^ 32) ∧
      ∀ member ∈ ring.members.1, 0 ≤ member.globalIndex.1 := by
  rw [exists_same_iff (parseTsDecoys_encode rings)]
  exact forall₂_congr fun ring _ => sameRing_iff ring

/-- Inputs and rings cross unchanged exactly if their numbers are in range. -/
theorem crosses_iff (inputs : JsArray SpendInput) (rings : JsArray DecoyRing) :
    Crosses inputs rings ↔ InRange inputs rings := by
  constructor
  · intro h
    have hrings := (rings_cross_iff rings).mp h.decoyRings
    exact ⟨(inputs_cross_iff inputs).mp h.spendInputs, fun ring hmem => (hrings ring hmem).1,
      fun ring hmem => (hrings ring hmem).2⟩
  · intro h
    exact ⟨(inputs_cross_iff inputs).mpr h.inputs, length_encodeSpendInputs inputs,
      (rings_cross_iff rings).mpr fun ring hmem => ⟨h.realIndex ring hmem, h.members ring hmem⟩⟩

/-- An amount below zero becomes one of 64 bits, and a real index of 33 bits loses the highest. -/
def negativeAmount : SpendInput := ⟨⟨-1, by decide⟩, filled 7, filled 1, filled 2, ⟨5, by decide⟩⟩

def longIndex : DecoyRing := ⟨⟨2 ^ 32, by decide⟩, ⟨[], by decide⟩⟩

theorem not_crosses : ¬ Crosses ⟨[negativeAmount], by decide⟩ ⟨[], by decide⟩ ∧
    ¬ Crosses ⟨[], by decide⟩ ⟨[longIndex], by decide⟩ := by
  constructor
  · intro h
    have hinputs := (inputs_cross_iff _).mp h.spendInputs
    exact absurd (hinputs negativeAmount List.mem_cons_self).1 (by decide)
  · intro h
    have hrings := (rings_cross_iff _).mp h.decoyRings
    exact absurd (hrings longIndex List.mem_cons_self).1.2 (by decide)

end FromtWasm
