import FrostZm.Ffi.Codec
import FrostZm.Lib.Selection
import FrostZm.Lib.WireFormat

/-!
# The rings of a spend

An input goes to the transaction builder with its ring, whose members are written in the order of
their global indices: each index as the difference to the one before, in groups of seven bits, and
the place of the real member in one byte.
-/

open Reader WireFormat Selection

namespace FromtWasm

/-- `[u8; 32]`. -/
abbrev Bytes32 := { b : Bytes // b.length = 32 }

structure ParsedInput where
  amount : UInt64
  keyOffset : Bytes32
  outputKey : Bytes32
  commitmentMask : Bytes32
  globalIndex : UInt64
deriving DecidableEq

structure RingMember where
  outputKey : Bytes32
  commitment : Bytes32
  globalIndex : UInt64
deriving DecidableEq

structure ParsedRing where
  members : List RingMember
  realIndex : UInt32
deriving DecidableEq

/-! ## The writer -/

theorem toNat_shiftRight_seven (val : UInt64) : (val >>> 7).toNat = val.toNat / 128 := by
  rw [UInt64.toNat_shiftRight, Nat.shiftRight_eq_div_pow]
  rfl

def writeVarint (val : UInt64) : Bytes :=
  let byte := (val &&& 0x7F).toUInt8
  if val >>> 7 ≠ 0 then (byte ||| 0x80) :: writeVarint (val >>> 7) else [byte]
termination_by val.toNat
decreasing_by
  next hrest =>
  have hne : (val >>> 7).toNat ≠ 0 := fun h => hrest (UInt64.toNat_inj.mp h)
  rw [toNat_shiftRight_seven] at hne ⊢
  omega

/-- Each member's distance from the one before. -/
def offsetsFrom (prev : UInt64) : List RingMember → List UInt64
  | [] => []
  | member :: rest => (member.globalIndex - prev) :: offsetsFrom member.globalIndex rest

/-- The members with their places in the ring. -/
def byGlobalIndex (members : List RingMember) : List (RingMember × Nat) :=
  members.zipIdx.mergeSort fun a b => a.1.globalIndex ≤ b.1.globalIndex

/-- What is written of a ring in this order, behind the input's own fields. -/
def writeDecoys (members : List RingMember) (sortedSignerIndex : UInt8) : Bytes :=
  writeVarint (.ofNat members.length) ++ (offsetsFrom 0 members).flatMap writeVarint ++
    [sortedSignerIndex] ++
    members.flatMap fun member => member.outputKey.1 ++ member.commitment.1

def serializeOutputWithDecoys (input : ParsedInput) (ring : ParsedRing) : Except String Bytes :=
  if ring.members.isEmpty then .error "ring must contain at least one member"
  else
    match ring.members[ring.realIndex.toNat]? with
    | none =>
      .error s!"real_index {ring.realIndex} out of range for ring of size {ring.members.length}"
    | some realMember =>
      if realMember.globalIndex ≠ input.globalIndex then
        .error s!"real member global index {realMember.globalIndex} does not match input global index {input.globalIndex}"
      else
        let indexed := byGlobalIndex ring.members
        match indexed.findIdx? fun e => e.2 = ring.realIndex.toNat with
        | none =>
          .error s!"real_index {ring.realIndex} not found after sorting ring of size {ring.members.length}"
        | some newPos =>
          .ok (input.outputKey.1 ++ input.keyOffset.1 ++ input.commitmentMask.1 ++
            u64ToLeBytes input.amount ++ writeDecoys (indexed.map Prod.fst) (.ofNat newPos))

/-! ## What a reader makes of it -/

structure EncodedOutput where
  outputKey : Bytes
  keyOffset : Bytes
  commitmentMask : Bytes
  amount : Bytes
  offsets : List Nat
  signerIndex : UInt8
  keys : List (Bytes × Bytes)

def readKeys : Reader (Bytes × Bytes) := do
  let outputKey ← bytes 32
  let commitment ← bytes 32
  return (outputKey, commitment)

def readOutputWithDecoys : Reader EncodedOutput := do
  let outputKey ← bytes 32
  let keyOffset ← bytes 32
  let commitmentMask ← bytes 32
  let amount ← bytes 8
  let count ← readVarint
  let offsets ← many readVarint count
  let signerIndex ← byte
  let keys ← many readKeys count
  return { outputKey, keyOffset, commitmentMask, amount, offsets, signerIndex, keys }

/-- The offsets add up to the global indices. -/
def globalIndices (prev : Nat) : List Nat → List Nat
  | [] => []
  | offset :: rest => (prev + offset) :: globalIndices (prev + offset) rest

def RingMember.index (member : RingMember) : Nat := member.globalIndex.toNat

def RingMember.keys (member : RingMember) : Bytes × Bytes := (member.outputKey.1, member.commitment.1)

/-- The encoding has the members of the ring, each once and in order, and its signer is the real
member, which is the output that the input spends. -/
structure ShowsRing (input : ParsedInput) (ring : ParsedRing) (output : EncodedOutput)
    (members : List RingMember) : Prop where
  perm : members.Perm ring.members
  indices : globalIndices 0 output.offsets = members.map RingMember.index
  increasing : (globalIndices 0 output.offsets).Pairwise (· < ·)
  keys : output.keys = members.map RingMember.keys
  signer : ∃ real, members[output.signerIndex.toNat]? = some real ∧
    ring.members[ring.realIndex.toNat]? = some real ∧
    real.globalIndex = input.globalIndex ∧ real.outputKey = input.outputKey

def Faithful (input : ParsedInput) (ring : ParsedRing) (out : Bytes) : Prop :=
  ∃ output members, readOutputWithDecoys out = some (output, []) ∧
    ShowsRing input ring output members

/-- No two members have the same index, the real one is among the first 256 by index, and it has
the key of the input. -/
structure RingFits (input : ParsedInput) (ring : ParsedRing) : Prop where
  distinct : (ring.members.map RingMember.index).Nodup
  position : (ring.members.filter fun m => m.globalIndex < input.globalIndex).length < 256
  outputKey : ∀ real, ring.members[ring.realIndex.toNat]? = some real →
    real.outputKey = input.outputKey

variable {input : ParsedInput} {ring : ParsedRing} {members : List RingMember}

/-! ## Varints -/

theorem toNat_low (val : UInt64) : (val &&& 0x7F).toUInt8.toNat = val.toNat % 128 := by
  have hand : val.toNat &&& 127 = val.toNat % 128 := Nat.and_two_pow_sub_one_eq_mod val.toNat 7
  have hval : (val &&& 0x7F).toNat = val.toNat % 128 := (UInt64.toNat_and _ _).trans hand
  rw [UInt64.toNat_toUInt8, hval]
  omega

theorem toNat_or_high {b : UInt8} (h : b.toNat < 128) : (b ||| 0x80).toNat = b.toNat + 128 := by
  have hor : 128 + b.toNat = 128 ||| b.toNat := Nat.two_pow_add_eq_or_of_lt (i := 7) h 1
  have hval : (b ||| 0x80).toNat = b.toNat ||| 128 := UInt8.toNat_or b 0x80
  rw [hval, Nat.or_comm, ← hor, Nat.add_comm]

theorem writeVarint_last {val : UInt64} (h : val.toNat < 128) :
    writeVarint val = [.ofNat val.toNat] := by
  have hrest : val >>> 7 = 0 := by
    apply UInt64.toNat_inj.mp
    rw [toNat_shiftRight_seven, Nat.div_eq_of_lt h]
    rfl
  rw [writeVarint, if_neg (not_not.mpr hrest)]
  congr 1
  apply UInt8.toNat_inj.mp
  rw [toNat_low, UInt8.toNat_ofNat']
  omega

theorem writeVarint_more {val : UInt64} (h : ¬ val.toNat < 128) :
    writeVarint val = .ofNat (val.toNat % 128 + 128) :: writeVarint (val >>> 7) := by
  have hrest : val >>> 7 ≠ 0 := by
    intro hzero
    have hshift := toNat_shiftRight_seven val
    rw [hzero, UInt64.toNat_zero] at hshift
    omega
  rw [writeVarint, if_pos hrest]
  congr 1
  apply UInt8.toNat_inj.mp
  rw [toNat_or_high (by rw [toNat_low]; omega), toNat_low, UInt8.toNat_ofNat']
  omega

theorem writeVarint_eq_groups (groups : Nat) (val : UInt64) (h : val.toNat < 128 ^ (groups + 1)) :
    writeVarint val = varintGroups (groups + 1) val.toNat := by
  induction groups generalizing val with
  | zero =>
    have hlast : val.toNat < 128 := by omega
    rw [varintGroups, if_pos hlast, writeVarint_last hlast]
  | succ groups ih =>
    rw [varintGroups]
    by_cases hlast : val.toNat < 128
    · rw [if_pos hlast, writeVarint_last hlast]
    · have hsmall : (val >>> 7).toNat < 128 ^ (groups + 1) := by
        rw [toNat_shiftRight_seven, Nat.div_lt_iff_lt_mul (by decide), ← Nat.pow_succ]
        exact h
      rw [if_neg hlast, writeVarint_more hlast, ih _ hsmall, toNat_shiftRight_seven]

theorem writeVarint_eq (val : UInt64) : writeVarint val = encodeVarint val.toNat :=
  writeVarint_eq_groups 9 val (lt_trans val.toNat_lt (by decide))

theorem reads_writeVarint (val : UInt64) : Reads readVarint (writeVarint val) val.toNat := by
  rw [writeVarint_eq]
  exact reads_varint val.toNat_lt

/-! ## The order of the members -/

theorem perm_byGlobalIndex (members : List RingMember) :
    ((byGlobalIndex members).map Prod.fst).Perm members := by
  have hperm := (List.mergeSort_perm members.zipIdx
    fun a b => decide (a.1.globalIndex ≤ b.1.globalIndex)).map Prod.fst
  rwa [List.zipIdx_map_fst] at hperm

theorem ascending_byGlobalIndex (members : List RingMember) :
    Ascending RingMember.index ((byGlobalIndex members).map Prod.fst) := by
  refine List.pairwise_map.mpr ?_
  refine ascending_mergeSort (fun e => RingMember.index e.1) (fun a b => ?_) members.zipIdx
  rw [decide_eq_true_eq]
  exact UInt64.le_iff_toNat_le

theorem globalIndices_offsets (prev : UInt64) (hprev : ∀ m ∈ members, prev.toNat ≤ m.index)
    (h : Ascending RingMember.index members) :
    globalIndices prev.toNat ((offsetsFrom prev members).map UInt64.toNat) =
      members.map RingMember.index := by
  induction members generalizing prev with
  | nil => rfl
  | cons member rest ih =>
    rw [List.forall_mem_cons] at hprev
    have hindex : prev.toNat + (member.globalIndex - prev).toNat = member.index := by
      rw [UInt64.toNat_sub_of_le _ _ (UInt64.le_iff_toNat_le.mpr hprev.1)]
      exact Nat.add_sub_cancel' hprev.1
    rw [offsetsFrom, List.map_cons, globalIndices, hindex, List.map_cons]
    exact congrArg _ (ih _ (fun m hm => List.rel_of_pairwise_cons h hm) h.of_cons)

/-- In increasing order a member stands behind those with smaller indices. -/
theorem position_eq {sorted : List RingMember} (h : sorted.Pairwise fun a b => a.index < b.index)
    {real : RingMember} {pos : Nat} (hreal : sorted[pos]? = some real) :
    (sorted.filter fun m => m.globalIndex < real.globalIndex).length = pos := by
  induction sorted generalizing pos with
  | nil => cases hreal
  | cons m rest ih =>
    cases pos with
    | zero =>
      obtain rfl := Option.some.inj hreal
      rw [List.length_eq_zero_iff, List.filter_eq_nil_iff]
      intro a ha
      rw [decide_eq_true_eq, UInt64.lt_iff_toNat_lt, not_lt]
      rcases List.mem_cons.mp ha with rfl | ha
      · exact le_refl _
      · exact (List.rel_of_pairwise_cons h ha).le
    | succ pos =>
      rw [List.getElem?_cons_succ] at hreal
      have hlt := List.rel_of_pairwise_cons h (List.mem_of_getElem? hreal)
      rw [List.filter_cons_of_pos, List.length_cons, ih h.of_cons hreal]
      rw [decide_eq_true_eq]
      exact UInt64.lt_iff_toNat_lt.mpr hlt

/-! ## What was written is read -/

/-- What a reader makes of an input and a ring in this order. -/
def encodedOutput (input : ParsedInput) (members : List RingMember) (signerIndex : UInt8) :
    EncodedOutput where
  outputKey := input.outputKey.1
  keyOffset := input.keyOffset.1
  commitmentMask := input.commitmentMask.1
  amount := u64ToLeBytes input.amount
  offsets := (offsetsFrom 0 members).map UInt64.toNat
  signerIndex := signerIndex
  keys := members.map RingMember.keys

theorem length_offsetsFrom (prev : UInt64) (members : List RingMember) :
    (offsetsFrom prev members).length = members.length := by
  induction members generalizing prev with
  | nil => rfl
  | cons m rest ih => rw [offsetsFrom, List.length_cons, List.length_cons, ih]

theorem reads_keys (m : RingMember) : Reads readKeys (m.outputKey.1 ++ m.commitment.1) m.keys :=
  (reads_bytes m.outputKey.2).bind (reads_bytes m.commitment.2).bind_pure

theorem reads_output (hlen : members.length < 2 ^ 64) (signerIndex : UInt8) :
    Reads readOutputWithDecoys
      (input.outputKey.1 ++ input.keyOffset.1 ++ input.commitmentMask.1 ++
        u64ToLeBytes input.amount ++ writeDecoys members signerIndex)
      (encodedOutput input members signerIndex) := by
  have hcount : (UInt64.ofNat members.length).toNat = members.length := by
    rw [UInt64.toNat_ofNat', Nat.mod_eq_of_lt hlen]
  have hoffsets : Reads (many readVarint (offsetsFrom 0 members).length)
      ((offsetsFrom 0 members).flatMap writeVarint) ((offsetsFrom 0 members).map UInt64.toNat) :=
    Reads.many fun offset _ => reads_writeVarint offset
  have hkeys : Reads (many readKeys members.length)
      (members.flatMap fun m => m.outputKey.1 ++ m.commitment.1) (members.map RingMember.keys) :=
    Reads.many fun m _ => reads_keys m
  have hvarint := reads_writeVarint (.ofNat members.length)
  rw [length_offsetsFrom] at hoffsets
  rw [hcount] at hvarint
  unfold writeDecoys
  simp only [List.append_assoc]
  refine (reads_bytes input.outputKey.2).bind ?_
  refine (reads_bytes input.keyOffset.2).bind ?_
  refine (reads_bytes input.commitmentMask.2).bind ?_
  refine (reads_bytes (length_u64ToLeBytes _)).bind ?_
  refine hvarint.bind ?_
  refine hoffsets.bind ?_
  refine (reads_byte signerIndex).bind ?_
  exact hkeys.bind_pure

theorem serialize_ok {out : Bytes} (h : serializeOutputWithDecoys input ring = .ok out) :
    ∃ real pos, ring.members[ring.realIndex.toNat]? = some real ∧
      real.globalIndex = input.globalIndex ∧
      ((byGlobalIndex ring.members).map Prod.fst)[pos]? = some real ∧
      out = input.outputKey.1 ++ input.keyOffset.1 ++ input.commitmentMask.1 ++
        u64ToLeBytes input.amount ++
        writeDecoys ((byGlobalIndex ring.members).map Prod.fst) (.ofNat pos) := by
  unfold serializeOutputWithDecoys at h
  split at h
  · cases h
  split at h
  · cases h
  next real hreal =>
  split at h
  · cases h
  next hindex =>
  dsimp only at h
  split at h
  · cases h
  next pos hpos =>
  refine ⟨real, pos, hreal, not_not.mp hindex, ?_, (Except.ok.inj h).symm⟩
  obtain ⟨hlt, hplace, -⟩ := List.findIdx?_eq_some_iff_getElem.mp hpos
  have hmem : (byGlobalIndex ring.members)[pos] ∈ ring.members.zipIdx :=
    (List.mergeSort_perm _ _).mem_iff.mp (List.getElem_mem hlt)
  rw [List.mem_zipIdx_iff_getElem?, of_decide_eq_true hplace, hreal] at hmem
  rw [List.getElem?_map, List.getElem?_eq_getElem hlt, Option.map_some, hmem]

theorem increasing_iff (h : Ascending RingMember.index members) :
    (members.map RingMember.index).Pairwise (· < ·) ↔ (members.map RingMember.index).Nodup := by
  constructor
  · intro hlt
    exact hlt.imp ne_of_lt
  · intro hnodup
    rw [List.Nodup, List.pairwise_map] at hnodup
    exact List.pairwise_map.mpr (h.and hnodup |>.imp fun hab => lt_of_le_of_ne hab.1 hab.2)

theorem RingMember.eq_of_index_keys {a b : RingMember} (hindex : a.index = b.index)
    (hkeys : a.keys = b.keys) : a = b := by
  obtain ⟨⟨outputKey, _⟩, ⟨commitment, _⟩, globalIndex⟩ := a
  obtain ⟨⟨outputKey', _⟩, ⟨commitment', _⟩, globalIndex'⟩ := b
  obtain rfl : globalIndex = globalIndex' := UInt64.toNat_inj.mp hindex
  obtain ⟨rfl, rfl⟩ := Prod.mk.inj hkeys
  rfl

theorem members_eq {members' : List RingMember}
    (hindices : members.map RingMember.index = members'.map RingMember.index)
    (hkeys : members.map RingMember.keys = members'.map RingMember.keys) : members = members' := by
  induction members generalizing members' with
  | nil => exact (List.map_eq_nil_iff.mp hindices.symm).symm
  | cons a rest ih =>
    cases members' with
    | nil => cases hindices
    | cons b rest' =>
      obtain ⟨hindex, hindices⟩ := List.cons.inj hindices
      obtain ⟨hkey, hkeys⟩ := List.cons.inj hkeys
      rw [RingMember.eq_of_index_keys hindex hkey, ih hindices hkeys]

/-- The bytes that the writer answers with are read as the ring's members in ascending order, with
the low byte of the real member's place. -/
structure ReadsBack (input : ParsedInput) (ring : ParsedRing) (out : Bytes) (real : RingMember)
    (pos : Nat) (sorted : List RingMember) : Prop where
  member : ring.members[ring.realIndex.toNat]? = some real
  index : real.globalIndex = input.globalIndex
  perm : sorted.Perm ring.members
  ascending : Ascending RingMember.index sorted
  place : sorted[pos]? = some real
  read : readOutputWithDecoys out = some (encodedOutput input sorted (.ofNat pos), [])

theorem serialize_reads {out : Bytes} (hlen : ring.members.length < 2 ^ 64)
    (h : serializeOutputWithDecoys input ring = .ok out) :
    ∃ real pos sorted, ReadsBack input ring out real pos sorted := by
  obtain ⟨real, pos, hreal, hindex, hpos, rfl⟩ := serialize_ok h
  have hperm := perm_byGlobalIndex ring.members
  have hwritten : Reads readOutputWithDecoys _ (encodedOutput input _ (.ofNat pos)) :=
    reads_output (by rwa [hperm.length_eq]) _
  have hread := hwritten.run []
  rw [List.append_nil] at hread
  exact ⟨real, pos, _, hreal, hindex, hperm, ascending_byGlobalIndex _, hpos, hread⟩

section ReadsBack

variable {out : Bytes} {real : RingMember} {pos : Nat} {sorted : List RingMember}

theorem ReadsBack.indices (h : ReadsBack input ring out real pos sorted) :
    globalIndices 0 (encodedOutput input sorted (.ofNat pos)).offsets =
      sorted.map RingMember.index :=
  globalIndices_offsets 0 (fun _ _ => Nat.zero_le _) h.ascending

theorem ReadsBack.distinct_iff (h : ReadsBack input ring out real pos sorted) :
    (sorted.map RingMember.index).Pairwise (· < ·) ↔ (ring.members.map RingMember.index).Nodup :=
  (increasing_iff h.ascending).trans (h.perm.map _).nodup_iff

theorem ReadsBack.count_smaller (h : ReadsBack input ring out real pos sorted) :
    (sorted.filter fun m => m.globalIndex < real.globalIndex).length =
      (ring.members.filter fun m => m.globalIndex < input.globalIndex).length := by
  rw [← h.index]
  exact (h.perm.filter _).length_eq

theorem ReadsBack.fits_of_faithful (h : ReadsBack input ring out real pos sorted)
    (hfaithful : Faithful input ring out) : RingFits input ring := by
  obtain ⟨output, members, hout, hshow⟩ := hfaithful
  obtain rfl : encodedOutput input sorted (.ofNat pos) = output :=
    congrArg Prod.fst (Option.some.inj (h.read.symm.trans hout))
  obtain rfl : sorted = members := members_eq (h.indices.symm.trans hshow.indices) hshow.keys
  have hlt := h.indices ▸ hshow.increasing
  obtain ⟨real', hsigner, hreal, -, hkey⟩ := hshow.signer
  obtain rfl : real = real' := Option.some.inj (h.member.symm.trans hreal)
  refine ⟨h.distinct_iff.mp hlt, ?_, fun r hr => ?_⟩
  · rw [← h.count_smaller, position_eq (List.pairwise_map.mp hlt) hsigner]
    exact UInt8.toNat_lt _
  · obtain rfl : real = r := Option.some.inj (h.member.symm.trans hr)
    exact hkey

theorem ReadsBack.faithful_of_fits (h : ReadsBack input ring out real pos sorted)
    (hfits : RingFits input ring) : Faithful input ring out := by
  have hlt := h.distinct_iff.mpr hfits.distinct
  have hsmall : pos < 256 := by
    rw [← position_eq (List.pairwise_map.mp hlt) h.place, h.count_smaller]
    exact hfits.position
  have hplace : (UInt8.ofNat pos).toNat = pos := by
    rw [UInt8.toNat_ofNat']
    exact Nat.mod_eq_of_lt hsmall
  refine ⟨_, sorted, h.read, h.perm, h.indices, ?_, rfl, real, ?_, h.member, h.index,
    hfits.outputKey real h.member⟩
  · rw [h.indices]
    exact hlt
  · exact hplace.symm ▸ h.place

end ReadsBack

/-- A ring is written faithfully exactly if its indices differ, its real member's place fits in a
byte and that member has the key of the input. -/
theorem serialize_faithful_iff {out : Bytes} (hlen : ring.members.length < 2 ^ 64)
    (h : serializeOutputWithDecoys input ring = .ok out) :
    Faithful input ring out ↔ RingFits input ring := by
  obtain ⟨real, pos, sorted, hback⟩ := serialize_reads hlen h
  exact ⟨hback.fits_of_faithful, hback.faithful_of_fits⟩

/-! ## Rings on the way -/

theorem exists_serialize (input : ParsedInput) (ring : ParsedRing) {real : RingMember}
    (hreal : ring.members[ring.realIndex.toNat]? = some real)
    (hindex : real.globalIndex = input.globalIndex) :
    ∃ out, serializeOutputWithDecoys input ring = .ok out := by
  have hnonempty : ¬ ring.members.isEmpty := by
    intro hempty
    rw [List.isEmpty_iff.mp hempty] at hreal
    cases hreal
  have hmem : (real, ring.realIndex.toNat) ∈ byGlobalIndex ring.members :=
    List.mem_mergeSort.mpr (List.mk_mem_zipIdx_iff_getElem?.mpr hreal)
  have hfound : ((byGlobalIndex ring.members).findIdx?
      fun e => e.2 = ring.realIndex.toNat).isSome := by
    rw [List.findIdx?_isSome, List.any_eq_true]
    exact ⟨_, hmem, decide_eq_true rfl⟩
  obtain ⟨pos, hpos⟩ := Option.isSome_iff_exists.mp hfound
  unfold serializeOutputWithDecoys
  simp only [if_neg hnonempty, hreal, hindex, ne_eq, not_true_eq_false, if_false, hpos]
  exact ⟨_, rfl⟩

def filled (b : UInt8) : Bytes32 := ⟨List.replicate 32 b, List.length_replicate⟩

/-- An output of the chain, with this key and this index. -/
def outputAt (key : UInt8) (globalIndex : UInt64) : RingMember := ⟨filled key, filled 0, globalIndex⟩

/-- The input spends the output at index 5. -/
def spentOutput : ParsedInput := ⟨1000, filled 1, filled 7, filled 2, 5⟩

def goodRing : ParsedRing := ⟨[outputAt 8 9, outputAt 7 5], 1⟩

theorem serialize_faithful_goodRing :
    ∃ out, serializeOutputWithDecoys spentOutput goodRing = .ok out ∧
      Faithful spentOutput goodRing out := by
  obtain ⟨out, h⟩ := exists_serialize spentOutput goodRing rfl rfl
  refine ⟨out, h, (serialize_faithful_iff (by decide) h).mpr ⟨by decide, by decide, fun real hreal => ?_⟩⟩
  obtain rfl := Option.some.inj hreal
  rfl

/-- A decoy that is there twice. -/
def doubledRing : ParsedRing := ⟨[outputAt 8 9, outputAt 7 5, outputAt 8 9], 1⟩

/-- The member at the index of the input has another key. -/
def strangeRing : ParsedRing := ⟨[outputAt 8 9, outputAt 6 5], 1⟩

theorem serialize_unfaithful :
    (∃ out, serializeOutputWithDecoys spentOutput doubledRing = .ok out ∧
      ¬ Faithful spentOutput doubledRing out) ∧
    ∃ out, serializeOutputWithDecoys spentOutput strangeRing = .ok out ∧
      ¬ Faithful spentOutput strangeRing out := by
  constructor
  · obtain ⟨out, h⟩ := exists_serialize spentOutput doubledRing rfl rfl
    obtain ⟨real, pos, sorted, hback⟩ := serialize_reads (by decide) h
    refine ⟨out, h, fun hfaithful => ?_⟩
    exact absurd (hback.fits_of_faithful hfaithful).distinct (by decide)
  · obtain ⟨out, h⟩ := exists_serialize spentOutput strangeRing rfl rfl
    obtain ⟨real, pos, sorted, hback⟩ := serialize_reads (by decide) h
    refine ⟨out, h, fun hfaithful => ?_⟩
    exact absurd ((hback.fits_of_faithful hfaithful).outputKey _ rfl) (by decide)

end FromtWasm
