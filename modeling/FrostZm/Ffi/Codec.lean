import FrostZm.Ffi.Errors
import FrostZm.Lib.Maps

/-!
# Length-prefixed maps

The codec that carries package maps across the library boundary: a count, then
each key and value with its length, all numbers 32-bit little endian.
-/

def u16ToLeBytes (n : UInt16) : Bytes := LittleEndian.bytesOf 2 n.toNat
def u32ToLeBytes (n : UInt32) : Bytes := LittleEndian.bytesOf 4 n.toNat
def u64ToLeBytes (n : UInt64) : Bytes := LittleEndian.bytesOf 8 n.toNat

def u16FromLeBytes (b : Bytes) : UInt16 := .ofNat (LittleEndian.value b)
def u32FromLeBytes (b : Bytes) : UInt32 := .ofNat (LittleEndian.value b)
def u64FromLeBytes (b : Bytes) : UInt64 := .ofNat (LittleEndian.value b)

@[simp] theorem length_u16ToLeBytes (n : UInt16) : (u16ToLeBytes n).length = 2 :=
  LittleEndian.length_bytesOf 2 _
@[simp] theorem length_u32ToLeBytes (n : UInt32) : (u32ToLeBytes n).length = 4 :=
  LittleEndian.length_bytesOf 4 _
@[simp] theorem length_u64ToLeBytes (n : UInt64) : (u64ToLeBytes n).length = 8 :=
  LittleEndian.length_bytesOf 8 _

@[simp] theorem u16FromLeBytes_toLeBytes (n : UInt16) : u16FromLeBytes (u16ToLeBytes n) = n := by
  rw [u16FromLeBytes, u16ToLeBytes, LittleEndian.value_bytesOf_of_lt n.toNat_lt, UInt16.ofNat_toNat]

@[simp] theorem u32FromLeBytes_toLeBytes (n : UInt32) : u32FromLeBytes (u32ToLeBytes n) = n := by
  rw [u32FromLeBytes, u32ToLeBytes, LittleEndian.value_bytesOf_of_lt n.toNat_lt, UInt32.ofNat_toNat]

@[simp] theorem u64FromLeBytes_toLeBytes (n : UInt64) : u64FromLeBytes (u64ToLeBytes n) = n := by
  rw [u64FromLeBytes, u64ToLeBytes, LittleEndian.value_bytesOf_of_lt n.toNat_lt, UInt64.ofNat_toNat]

/-- The bytes of an ASCII string. -/
def ascii (s : String) : Bytes := s.toList.map fun c => UInt8.ofNat c.toNat

/-- `data[pos..pos + len]`. -/
def slice (data : Bytes) (pos len : Nat) : Bytes := (data.drop pos).take len

def readU16 (data : Bytes) (pos : Nat) : Result (UInt16 × Nat) :=
  if data.length < pos + 2 then .error LibError.serializationError
  else .ok (u16FromLeBytes (slice data pos 2), pos + 2)

def readU32 (data : Bytes) (pos : Nat) : Result (UInt32 × Nat) :=
  if data.length < pos + 4 then .error LibError.serializationError
  else .ok (u32FromLeBytes (slice data pos 4), pos + 4)

/-- A 64-bit number at `pos`, and the position behind it. -/
def readU64 (data : Bytes) (pos : Nat) : Result (UInt64 × Nat) :=
  if data.length < pos + 8 then .error LibError.serializationError
  else .ok (u64FromLeBytes (slice data pos 8), pos + 8)

/-- The field of `len` bytes at `pos`, and the position behind it. -/
def readBytes (data : Bytes) (pos len : Nat) : Result (Bytes × Nat) :=
  if data.length < pos + len then .error LibError.serializationError
  else .ok (slice data pos len, pos + len)

/-! ## Fields with their length in front -/

def lengthPrefixed (b : Bytes) : Bytes := u32ToLeBytes (.ofNat b.length) ++ b

/-- A field behind its length. -/
def readField (data : Bytes) (pos : Nat) : Result (Bytes × Nat) := do
  let (len, pos) ← readU32 data pos
  readBytes data pos len.toNat

theorem readU64_at {data : Bytes} (n : UInt64) (pre suf : Bytes)
    (h : data = pre ++ u64ToLeBytes n ++ suf) :
    readU64 data pre.length = .ok (n, (pre ++ u64ToLeBytes n).length) := by
  subst h
  unfold readU64 slice
  rw [List.length_append, List.length_append, length_u64ToLeBytes, if_neg (by omega),
    List.append_assoc, List.drop_left, List.take_left' (length_u64ToLeBytes n),
    u64FromLeBytes_toLeBytes]

theorem readField_at {data : Bytes} (b pre suf : Bytes) (hlen : b.length < 2 ^ 32)
    (h : data = pre ++ lengthPrefixed b ++ suf) :
    readField data pre.length = .ok (b, (pre ++ lengthPrefixed b).length) := by
  have hval : (UInt32.ofNat b.length).toNat = b.length := by
    rw [UInt32.toNat_ofNat']
    exact Nat.mod_eq_of_lt hlen
  have hpre : (pre ++ u32ToLeBytes (.ofNat b.length)).length = pre.length + 4 := by
    rw [List.length_append, length_u32ToLeBytes]
  have hdata : data.length = pre.length + 4 + b.length + suf.length := by
    rw [h, lengthPrefixed]
    simp only [List.length_append, length_u32ToLeBytes]
    omega
  have hread : readU32 data pre.length = .ok (.ofNat b.length, pre.length + 4) := by
    unfold readU32 slice
    rw [if_neg (by omega), h, lengthPrefixed, List.append_assoc, List.drop_left, List.append_assoc,
      List.take_left' (length_u32ToLeBytes _), u32FromLeBytes_toLeBytes]
  have hfield : slice data (pre.length + 4) b.length = b := by
    rw [slice, h, ← hpre, lengthPrefixed, ← List.append_assoc, List.append_assoc, List.drop_left,
      List.take_left]
  have hend : (pre ++ lengthPrefixed b).length = pre.length + 4 + b.length := by
    rw [lengthPrefixed, List.length_append, List.length_append, length_u32ToLeBytes, Nat.add_assoc]
  unfold readField
  rw [hread, hend]
  simp only [bind, Except.bind, hval]
  unfold readBytes
  rw [if_neg (by omega), hfield]

section Maps

variable {κ α : Type} [Ord κ]

def encodeEntry (encodeKey : κ → Result Bytes) (encodeVal : α → Result Bytes) (k : κ) (v : α) :
    Result Bytes := do
  let kb ← encodeKey k
  let vb ← encodeVal v
  return u32ToLeBytes (.ofNat kb.length) ++ kb ++ u32ToLeBytes (.ofNat vb.length) ++ vb

def encodeMap [Std.TransOrd κ] (map : BTreeMap κ α) (encodeKey : κ → Result Bytes)
    (encodeVal : α → Result Bytes) : Result Bytes := do
  let entries ← map.toList.mapM fun (k, v) => encodeEntry encodeKey encodeVal k v
  return u32ToLeBytes (.ofNat map.size) ++ entries.flatten

/-- The loop of `decode_map` with `count` entries left to read. -/
def decodeEntries [Std.TransOrd κ] (data : Bytes) (decodeKey : Bytes → Result κ)
    (decodeVal : Bytes → Result α) : Nat → Nat → BTreeMap κ α → Result (BTreeMap κ α)
  | 0, _, map => .ok map
  | count + 1, pos, map => do
    let (klen, pos) ← readU32 data pos
    let (kb, pos) ← readBytes data pos klen.toNat
    let k ← decodeKey kb
    let (vlen, pos) ← readU32 data pos
    let (vb, pos) ← readBytes data pos vlen.toNat
    let v ← decodeVal vb
    decodeEntries data decodeKey decodeVal count pos (map.insert k v)

def decodeMap [Std.TransOrd κ] (data : Bytes) (decodeKey : Bytes → Result κ)
    (decodeVal : Bytes → Result α) : Result (BTreeMap κ α) := do
  let (count, pos) ← readU32 data 0
  decodeEntries data decodeKey decodeVal count.toNat pos ∅

end Maps

/-! ## Entries in any order -/

/-- `EncodeMap` of the clients: the entries in the order in which they came. -/
def encodeFields (entries : List (Bytes × Bytes)) : Bytes :=
  u32ToLeBytes (.ofNat entries.length) ++
    (entries.map fun e => lengthPrefixed e.1 ++ lengthPrefixed e.2).flatten

section Fields

variable {P κ α : Type} [Ord κ] [Std.TransOrd κ] {decodeKey : Bytes → Result κ}
  {decodeVal : Bytes → Result α} {key : P → κ} {val : P → α} {kb vb : P → Bytes}

theorem decodeEntries_succ {data : Bytes} {n pos : Nat} {map : BTreeMap κ α} :
    decodeEntries data decodeKey decodeVal (n + 1) pos map = (do
      let (kb, pos) ← readField data pos
      let k ← decodeKey kb
      let (vb, pos) ← readField data pos
      let v ← decodeVal vb
      decodeEntries data decodeKey decodeVal n pos (map.insert k v)) := by
  simp only [readField, bind_assoc]
  rfl

theorem decodeEntries_fields {data : Bytes} (l : List P) (pre : Bytes) (map : BTreeMap κ α)
    (hlen : ∀ x ∈ l, (kb x).length < 2 ^ 32 ∧ (vb x).length < 2 ^ 32)
    (hdec : ∀ x ∈ l, decodeKey (kb x) = .ok (key x) ∧ decodeVal (vb x) = .ok (val x))
    (hdata : data = pre ++
      (l.map fun x => lengthPrefixed (kb x) ++ lengthPrefixed (vb x)).flatten) :
    decodeEntries data decodeKey decodeVal l.length pre.length map =
      .ok (l.foldl (fun m x => m.insert (key x) (val x)) map) := by
  induction l generalizing pre map with
  | nil => rfl
  | cons x l ih =>
    rw [List.forall_mem_cons] at hlen hdec
    rw [List.map_cons, List.flatten_cons] at hdata
    have hk := readField_at (kb x) pre (lengthPrefixed (vb x) ++
      (l.map fun x => lengthPrefixed (kb x) ++ lengthPrefixed (vb x)).flatten) hlen.1.1
      (hdata.trans (by simp only [List.append_assoc]))
    have hv := readField_at (vb x) (pre ++ lengthPrefixed (kb x))
      (l.map fun x => lengthPrefixed (kb x) ++ lengthPrefixed (vb x)).flatten hlen.1.2
      (hdata.trans (by simp only [List.append_assoc]))
    rw [List.length_cons, decodeEntries_succ, hk]
    simp only [bind, Except.bind, hdec.1.1, hv, hdec.1.2]
    exact ih _ _ hlen.2 hdec.2 (hdata.trans (by simp only [List.append_assoc]))

theorem decodeMap_encodeFields {l : List P} (hcount : l.length < 2 ^ 32)
    (hlen : ∀ x ∈ l, (kb x).length < 2 ^ 32 ∧ (vb x).length < 2 ^ 32)
    (hdec : ∀ x ∈ l, decodeKey (kb x) = .ok (key x) ∧ decodeVal (vb x) = .ok (val x)) :
    decodeMap (encodeFields (l.map fun x => (kb x, vb x))) decodeKey decodeVal =
      .ok (BTreeMap.tabulate key val l) := by
  let count := u32ToLeBytes (.ofNat l.length)
  have hdata : encodeFields (l.map fun x => (kb x, vb x)) = count ++
      (l.map fun x => lengthPrefixed (kb x) ++ lengthPrefixed (vb x)).flatten := by
    rw [encodeFields, List.length_map, List.map_map]
    rfl
  have hread : readU32 (encodeFields (l.map fun x => (kb x, vb x))) 0 =
      .ok (.ofNat l.length, count.length) := by
    unfold readU32 slice
    rw [hdata, List.drop_zero, List.take_left' (length_u32ToLeBytes _), u32FromLeBytes_toLeBytes,
      List.length_append, length_u32ToLeBytes, if_neg (by omega)]
  have hval : (UInt32.ofNat l.length).toNat = l.length := by
    rw [UInt32.toNat_ofNat']
    exact Nat.mod_eq_of_lt hcount
  unfold decodeMap
  rw [hread]
  simp only [bind, Except.bind, hval]
  exact decodeEntries_fields l count ∅ hlen hdec hdata

end Fields
