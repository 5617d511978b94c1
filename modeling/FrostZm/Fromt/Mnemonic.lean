import FrostZm.Fromt.KeyImports
import Mathlib.Data.Nat.Digits.Lemmas

/-!
# Seeds from mnemonics

The client in Go reduces a key modulo the order of the group by big numbers, and the library in Rust
by its field. Both come to the same seed, and so to the same keys.
-/

set_option linter.unusedSectionVars false

open Ceremony

namespace FromtGo

def ed25519Order : Nat := 0x1000000000000000000000000000000014DEF9DEA2F79CD65812631A5CF5D3ED

def reverseBytes (b : Bytes) : Bytes := b.reverse

/-- `big.Int.SetBytes`: the first byte is the highest. -/
def setBytes (b : Bytes) : Nat := b.foldl (fun n byte => n * 256 + byte.toNat) 0

/-- `big.Int.Bytes`: the highest byte first, and no leading zeros. -/
def bigBytes (n : Nat) : Bytes := ((Nat.digits 256 n).map UInt8.ofNat).reverse

/-- Each byte of `b` at its place from the end on. -/
def writeReversed (result b : Bytes) : Bytes :=
  b.zipIdx.foldl (fun result e => result.set (b.length - 1 - e.2) e.1) result

def scReduce32 (key : Bytes) : Bytes :=
  let k := setBytes (reverseBytes key) % ed25519Order
  writeReversed (List.replicate 32 0) (bigBytes k)

/-! ## Big numbers -/

variable {b key : Bytes} {w k : Nat}

theorem setBytes_reverse (b : Bytes) : setBytes (reverseBytes b) = LittleEndian.value b := by
  unfold setBytes reverseBytes
  rw [List.foldl_reverse]
  induction b with
  | nil => rfl
  | cons x b ih =>
    rw [List.foldr_cons, ih, LittleEndian.value]
    omega

theorem bytesOf_eq_digits (h : k < 256 ^ w) : LittleEndian.bytesOf w k =
    (Nat.digits 256 k).map UInt8.ofNat ++ List.replicate (w - (Nat.digits 256 k).length) 0 := by
  induction w generalizing k with
  | zero =>
    obtain rfl : k = 0 := by omega
    rfl
  | succ w ih =>
    have hk : k / 256 < 256 ^ w := by
      rw [Nat.pow_succ'] at h
      exact Nat.div_lt_of_lt_mul h
    rw [LittleEndian.bytesOf, ih hk]
    by_cases hzero : k = 0
    · subst hzero
      simp [List.replicate_succ]
    · have hlow : UInt8.ofNat (k % 256) = .ofNat k := by
        apply UInt8.toNat_inj.mp
        rw [UInt8.toNat_ofNat', UInt8.toNat_ofNat', Nat.mod_mod]
      rw [Nat.digits_eq_cons_digits_div (by decide) hzero, List.map_cons, hlow, List.cons_append,
        List.length_cons, Nat.add_sub_add_right]

theorem foldl_writeReversed (n : Nat) (result b : Bytes) {i : Nat} (hn : n = i + b.length)
    (hle : b.length ≤ result.length) :
    (b.zipIdx i).foldl (fun result e => result.set (n - 1 - e.2) e.1) result =
      b.reverse ++ result.drop b.length := by
  induction b generalizing i result with
  | nil => rfl
  | cons x b ih =>
    rw [List.length_cons] at hn hle
    have hplace : n - 1 - i = b.length := by omega
    have hset : (result.set b.length x).drop b.length = x :: result.drop (b.length + 1) := by
      rw [List.drop_set, if_neg (Nat.lt_irrefl _), Nat.sub_self, List.drop_eq_getElem_cons hle,
        List.set_cons_zero]
    rw [List.zipIdx_cons, List.foldl_cons, hplace, ih _ (by omega) (by rw [List.length_set]; omega),
      hset, List.reverse_cons, List.append_assoc, List.length_cons]
    rfl

theorem writeReversed_zeros (h : b.length ≤ w) : writeReversed (List.replicate w 0) b =
    b.reverse ++ List.replicate (w - b.length) 0 := by
  unfold writeReversed
  rw [foldl_writeReversed b.length _ b (by omega) (by rwa [List.length_replicate]),
    List.drop_replicate]

theorem scReduce32_eq (key : Bytes) :
    scReduce32 key = LittleEndian.bytesOf 32 (LittleEndian.value key % ed25519Order) := by
  have hlt : LittleEndian.value key % ed25519Order < 256 ^ 32 :=
    (Nat.mod_lt _ (by decide)).trans (by decide)
  have hlength : (bigBytes (LittleEndian.value key % ed25519Order)).length ≤ 32 := by
    unfold bigBytes
    rw [List.length_reverse, List.length_map]
    exact (Nat.digits_length_le_iff (by decide) _).mpr hlt
  unfold scReduce32
  dsimp only
  rw [setBytes_reverse, writeReversed_zeros hlength, bytesOf_eq_digits hlt]
  unfold bigBytes
  rw [List.reverse_reverse, List.length_reverse, List.length_map]

end FromtGo
