import FrostZm.Ffi.Errors
import FrostZm.Lib.Digits
import Mathlib.Data.List.GetD
import Mathlib.Data.List.Induction

/-!
# Monero base58

An address is its bytes in blocks of eight, each as eleven letters, with a shorter block behind
them. A block is one number in both.
-/

namespace MoneroAddress

/-! ## The encoder -/

def base58Alphabet : List Char :=
  "123456789ABCDEFGHJKLMNPQRSTUVWXYZabcdefghijkmnopqrstuvwxyz".toList

def encodedBlockSizes : List Nat := [0, 2, 3, 5, 6, 7, 9, 10, 11]

def fullBlockSize : Nat := 8

def fullEncodedSize : Nat := 11

def letter (i : Nat) : Char := base58Alphabet.getD i '1'

/-- The number of a block, of 128 bits. -/
def blockNumber (data : Bytes) : Nat :=
  data.foldl (fun num byte => (num * 256 + byte.toNat) % 2 ^ 128) 0

/-- The loop of `encode_block`, which writes the letters from the last one on. -/
def blockLetters : Nat → Nat → List Char → List Char
  | 0, _, chars => chars
  | i + 1, num, chars => blockLetters i (num / 58) (letter (num % 58) :: chars)

def encodeBlock (data : Bytes) (encodedSize : Nat) : List Char :=
  blockLetters encodedSize (blockNumber data) []

def moneroBase58Encode (data : Bytes) : String :=
  let fullBlocks := data.length / fullBlockSize
  let remainder := data.length % fullBlockSize
  let full := (List.range fullBlocks).flatMap fun i =>
    encodeBlock ((data.drop (i * fullBlockSize)).take fullBlockSize) fullEncodedSize
  let last :=
    if remainder > 0 then
      encodeBlock (data.drop (fullBlocks * fullBlockSize)) (encodedBlockSizes.getD remainder 0)
    else []
  .ofList (full ++ last)

/-! ## The standard decoder -/

namespace Base58

/-- A block of letters as so many bytes, if its number fits. -/
def decodeBlock (size : Nat) (chars : List Char) : Option Bytes := do
  let digits ← chars.mapM fun c => base58Alphabet.idxOf? c
  let num := Nat.ofDigits 58 digits.reverse
  if num < 256 ^ size then some ((Digits.fixed 256 size num).reverse.map .ofNat) else none

/-- So many full blocks, and the rest. -/
def decodeBlocks : Nat → List Char → Option Bytes
  | 0, chars => do
    let size ← encodedBlockSizes.idxOf? chars.length
    decodeBlock size chars
  | n + 1, chars => do
    let block ← decodeBlock fullBlockSize (chars.take fullEncodedSize)
    let rest ← decodeBlocks n (chars.drop fullEncodedSize)
    return block ++ rest

def decode (s : String) : Option Bytes :=
  decodeBlocks (s.toList.length / fullEncodedSize) s.toList

end Base58

/-! ## A block -/

variable {data : Bytes} {size n : Nat}

theorem length_base58Alphabet : base58Alphabet.length = 58 := by decide

theorem idxOf_letter {i : Nat} (hi : i < 58) : base58Alphabet.idxOf? (letter i) = some i := by
  have hall : ∀ i : Fin 58, base58Alphabet.idxOf? (letter i) = some i.1 := by decide
  exact hall ⟨i, hi⟩

theorem letter_mem {i : Nat} (hi : i < 58) : letter i ∈ base58Alphabet := by
  have hlt : i < base58Alphabet.length := by rwa [length_base58Alphabet]
  unfold letter
  rw [List.getD_eq_getElem _ _ hlt]
  exact List.getElem_mem hlt

theorem blockNumber_eq_mod (data : Bytes) :
    blockNumber data = Nat.ofDigits 256 (data.map UInt8.toNat).reverse % 2 ^ 128 := by
  unfold blockNumber
  induction data using List.reverseRecOn with
  | nil => rfl
  | append_singleton data byte ih =>
    rw [List.foldl_concat, ih, List.map_append, List.map_singleton, List.reverse_concat,
      Nat.ofDigits_cons]
    omega

theorem digits_bytes (data : Bytes) : ∀ d ∈ (data.map UInt8.toNat).reverse, d < 256 := by
  intro d hd
  obtain ⟨byte, -, rfl⟩ := List.mem_map.mp (List.mem_reverse.mp hd)
  exact byte.toNat_lt

theorem blockNumber_lt_pow (data : Bytes) :
    Nat.ofDigits 256 (data.map UInt8.toNat).reverse < 256 ^ data.length := by
  have h := Nat.ofDigits_lt_base_pow_length (by decide : 1 < 256) (digits_bytes data)
  rwa [List.length_reverse, List.length_map] at h

theorem blockNumber_eq (h : data.length ≤ fullBlockSize) :
    blockNumber data = Nat.ofDigits 256 (data.map UInt8.toNat).reverse := by
  have hpow : 256 ^ data.length ≤ 256 ^ fullBlockSize := Nat.pow_le_pow_right (by decide) h
  have hlt := (blockNumber_lt_pow data).trans_le hpow
  rw [blockNumber_eq_mod]
  exact Nat.mod_eq_of_lt (hlt.trans (by decide))

theorem blockLetters_eq (n num : Nat) (chars : List Char) :
    blockLetters n num chars = ((Digits.fixed 58 n num).map letter).reverse ++ chars := by
  induction n generalizing num chars with
  | zero => rfl
  | succ n ih => simp [blockLetters, Digits.fixed, ih]

@[simp] theorem length_encodeBlock (data : Bytes) (encodedSize : Nat) :
    (encodeBlock data encodedSize).length = encodedSize := by
  simp [encodeBlock, blockLetters_eq]

theorem mem_encodeBlock {encodedSize : Nat} {c : Char} (hc : c ∈ encodeBlock data encodedSize) :
    c ∈ base58Alphabet := by
  unfold encodeBlock at hc
  rw [blockLetters_eq, List.append_nil, List.mem_reverse, List.mem_map] at hc
  obtain ⟨d, hd, rfl⟩ := hc
  exact letter_mem (Digits.fixed_lt (by decide) d hd)

theorem mapM_letters {l : List Nat} (h : ∀ d ∈ l, d < 58) :
    (l.map letter).mapM (fun c => base58Alphabet.idxOf? c) = some l := by
  induction l with
  | nil => rfl
  | cons d l ih =>
    rw [List.forall_mem_cons] at h
    rw [List.map_cons, List.mapM_cons, idxOf_letter h.1, ih h.2]
    rfl

theorem pow_le_encodedSize (h : size ≤ fullBlockSize) :
    256 ^ size ≤ 58 ^ encodedBlockSizes.getD size 0 := by
  have hall : ∀ size : Fin 9, 256 ^ size.1 ≤ 58 ^ encodedBlockSizes.getD size.1 0 := by decide
  exact hall ⟨size, Nat.lt_succ_of_le h⟩

theorem decodeBlock_encodeBlock (h : data.length ≤ fullBlockSize) :
    Base58.decodeBlock data.length (encodeBlock data (encodedBlockSizes.getD data.length 0)) =
      some data := by
  have hnumber := blockNumber_eq h
  have hlt : blockNumber data < 256 ^ data.length := hnumber ▸ blockNumber_lt_pow data
  have hfixed : Digits.fixed 256 data.length (blockNumber data) = (data.map UInt8.toNat).reverse := by
    have hlist := Digits.fixed_ofDigits (by decide : 1 < 256) (digits_bytes data)
    rwa [List.length_reverse, List.length_map, ← hnumber] at hlist
  have hbytes : (data.map UInt8.toNat).map UInt8.ofNat = data := by
    rw [List.map_map]
    exact List.map_id'' (fun b => UInt8.ofNat_toNat) data
  unfold encodeBlock Base58.decodeBlock
  rw [blockLetters_eq, List.append_nil, ← List.map_reverse,
    mapM_letters fun d hd => Digits.fixed_lt (by decide) d (List.mem_reverse.mp hd)]
  simp only [Option.bind_eq_bind, Option.bind_some, List.reverse_reverse]
  rw [Digits.ofDigits_fixed_of_lt (hlt.trans_le (pow_le_encodedSize h)), if_pos hlt, hfixed,
    List.reverse_reverse, hbytes]

/-! ## Blocks in a row -/

/-- So many full blocks of the data, and the rest. -/
def encodeBlocks : Nat → Bytes → List Char
  | 0, data =>
    if data.length > 0 then encodeBlock data (encodedBlockSizes.getD data.length 0) else []
  | n + 1, data =>
    encodeBlock (data.take fullBlockSize) fullEncodedSize ++ encodeBlocks n (data.drop fullBlockSize)

theorem encodeBlocks_eq (h : data.length = n * fullBlockSize + size) :
    encodeBlocks n data = (List.range n).flatMap (fun i =>
      encodeBlock ((data.drop (i * fullBlockSize)).take fullBlockSize) fullEncodedSize) ++
    (if size > 0 then encodeBlock (data.drop (n * fullBlockSize)) (encodedBlockSizes.getD size 0)
      else []) := by
  induction n generalizing data with
  | zero =>
    obtain rfl : data.length = size := by omega
    simp [encodeBlocks]
  | succ n ih =>
    have hdrop : (data.drop fullBlockSize).length = n * fullBlockSize + size := by
      rw [List.length_drop]
      unfold fullBlockSize at h ⊢
      omega
    have hnext : ∀ i, (data.drop fullBlockSize).drop (i * fullBlockSize) =
        data.drop ((i + 1) * fullBlockSize) := by
      intro i
      rw [List.drop_drop, Nat.succ_mul, Nat.add_comm]
    rw [encodeBlocks, ih hdrop, List.range_succ_eq_map, List.flatMap_cons, List.flatMap_map,
      Nat.zero_mul, List.drop_zero, List.append_assoc]
    simp only [hnext]

theorem toList_moneroBase58Encode (data : Bytes) : (moneroBase58Encode data).toList =
    encodeBlocks (data.length / fullBlockSize) data := by
  have hlength := Nat.div_add_mod' data.length fullBlockSize
  rw [encodeBlocks_eq hlength.symm]
  exact String.toList_ofList

theorem length_encodeBlocks (h : data.length = n * fullBlockSize + size) :
    (encodeBlocks n data).length = n * fullEncodedSize + encodedBlockSizes.getD size 0 := by
  induction n generalizing data with
  | zero =>
    obtain rfl : data.length = size := by omega
    rw [encodeBlocks, Nat.zero_mul, Nat.zero_add]
    split
    · exact length_encodeBlock _ _
    · next hempty =>
      obtain hzero : data.length = 0 := by omega
      rw [hzero]
      rfl
  | succ n ih =>
    have hdrop : (data.drop fullBlockSize).length = n * fullBlockSize + size := by
      rw [List.length_drop]
      unfold fullBlockSize at h ⊢
      omega
    rw [encodeBlocks, List.length_append, length_encodeBlock, ih hdrop]
    unfold fullEncodedSize
    omega

theorem mem_encodeBlocks {c : Char} (hc : c ∈ encodeBlocks n data) : c ∈ base58Alphabet := by
  induction n generalizing data with
  | zero =>
    rw [encodeBlocks] at hc
    split at hc
    · exact mem_encodeBlock hc
    · cases hc
  | succ n ih =>
    rw [encodeBlocks, List.mem_append] at hc
    rcases hc with hc | hc
    · exact mem_encodeBlock hc
    · exact ih hc

theorem idxOf_encodedSize (h : size < fullBlockSize) :
    encodedBlockSizes.idxOf? (encodedBlockSizes.getD size 0) = some size := by
  have hall : ∀ size : Fin 8,
      encodedBlockSizes.idxOf? (encodedBlockSizes.getD size.1 0) = some size.1 := by decide
  exact hall ⟨size, h⟩

theorem decodeBlocks_encodeBlocks (h : data.length = n * fullBlockSize + size)
    (hsize : size < fullBlockSize) : Base58.decodeBlocks n (encodeBlocks n data) = some data := by
  induction n generalizing data with
  | zero =>
    obtain rfl : data.length = size := by omega
    rw [Base58.decodeBlocks, length_encodeBlocks h, Nat.zero_mul, Nat.zero_add,
      idxOf_encodedSize hsize]
    simp only [Option.bind_eq_bind, Option.bind_some]
    rw [encodeBlocks]
    split
    · exact decodeBlock_encodeBlock (Nat.le_of_lt hsize)
    · next hempty =>
      obtain rfl : data = [] := List.length_eq_zero_iff.mp (by omega)
      rfl
  | succ n ih =>
    have hle : fullBlockSize ≤ data.length := by
      unfold fullBlockSize at h ⊢
      omega
    have hdrop : (data.drop fullBlockSize).length = n * fullBlockSize + size := by
      rw [List.length_drop]
      unfold fullBlockSize at h ⊢
      omega
    have htake : (data.take fullBlockSize).length = fullBlockSize := List.length_take_of_le hle
    have hblock := decodeBlock_encodeBlock (Nat.le_of_eq htake)
    rw [htake] at hblock
    rw [Base58.decodeBlocks, encodeBlocks, List.take_left' (length_encodeBlock _ _),
      List.drop_left' (length_encodeBlock _ _), ih hdrop]
    have hfull : Base58.decodeBlock fullBlockSize
        (encodeBlock (data.take fullBlockSize) fullEncodedSize) = some (data.take fullBlockSize) :=
      hblock
    rw [hfull]
    simp only [Option.bind_eq_bind, Option.bind_some, List.take_append_drop]
    rfl

theorem decode_encode (data : Bytes) : Base58.decode (moneroBase58Encode data) = some data := by
  have hlength := (Nat.div_add_mod' data.length fullBlockSize).symm
  have hsize : data.length % fullBlockSize < fullBlockSize := Nat.mod_lt _ (by decide)
  have hlast : encodedBlockSizes.getD (data.length % fullBlockSize) 0 < fullEncodedSize := by
    have hall : ∀ size : Fin 8, encodedBlockSizes.getD size.1 0 < fullEncodedSize := by decide
    exact hall ⟨_, hsize⟩
  have hcount : (encodeBlocks (data.length / fullBlockSize) data).length / fullEncodedSize =
      data.length / fullBlockSize := by
    rw [length_encodeBlocks hlength, Nat.add_comm, Nat.add_mul_div_right _ _ (by decide),
      Nat.div_eq_of_lt hlast, Nat.zero_add]
  unfold Base58.decode
  rw [toList_moneroBase58Encode, hcount]
  exact decodeBlocks_encodeBlocks hlength hsize

/-- Every byte string has letters of the alphabet, as many as its blocks need, and the standard
decoder reads it back, so that no two have the same letters. -/
theorem moneroBase58_decodable :
    (∀ data, (∀ c ∈ (moneroBase58Encode data).toList, c ∈ base58Alphabet) ∧
      (moneroBase58Encode data).length = data.length / fullBlockSize * fullEncodedSize +
        encodedBlockSizes.getD (data.length % fullBlockSize) 0 ∧
      Base58.decode (moneroBase58Encode data) = some data) ∧
    Function.Injective moneroBase58Encode := by
  refine ⟨fun data => ⟨fun c hc => ?_, ?_, decode_encode data⟩, fun data data' h => ?_⟩
  · rw [toList_moneroBase58Encode] at hc
    exact mem_encodeBlocks hc
  · have hlength := (Nat.div_add_mod' data.length fullBlockSize).symm
    rw [← String.length_toList, toList_moneroBase58Encode, length_encodeBlocks hlength]
  · have hdecode := decode_encode data
    rw [h, decode_encode] at hdecode
    exact (Option.some.inj hdecode).symm

end MoneroAddress
