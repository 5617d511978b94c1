import FrostZm.Frozt.Sighash
import FrostZm.Lib.Readers

/-!
# The bytes of a transaction

A verifier reads a serialized version 5 transaction back. What it reads has one anchor, whatever
the spends were built over.
-/

open Reader

namespace Zip244

def readU16 : Reader UInt16 := do
  let b ← bytes 2
  return u16FromLeBytes b

def readU32 : Reader UInt32 := do
  let b ← bytes 4
  return u32FromLeBytes b

def readU64 : Reader UInt64 := do
  let b ← bytes 8
  return u64FromLeBytes b

def readCompactSize : Reader Nat := do
  let first ← bytes 1
  if first = [253] then
    let n ← readU16
    return n.toNat
  else if first = [254] then
    let n ← readU32
    return n.toNat
  else if first = [255] then
    let n ← readU64
    return n.toNat
  else return LittleEndian.value first

def readSpend : Reader SpendDescription := do
  let cv ← bytes 32
  let nullifier ← bytes 32
  let rk ← bytes 32
  return { cv, nullifier, rk }

def readOutput : Reader OutputDescription := do
  let cv ← bytes 32
  let cmu ← bytes 32
  let ephemeralKey ← bytes 32
  let encCiphertext ← bytes 580
  let outCiphertext ← bytes 80
  return { cv, cmu, ephemeralKey, encCiphertext, outCiphertext }

/-- A transaction without spends and outputs has no value balance. -/
def readValueBalance (nSpends nOutputs : Nat) : Reader Int64 :=
  if nSpends = 0 ∧ nOutputs = 0 then pure 0
  else do
    let v ← readU64
    return v.toInt64

def readAnchor (nSpends : Nat) : Reader Bytes := if nSpends = 0 then pure [] else bytes 32

/-- A transaction without transparent parts, up to its proofs and signatures. -/
def readTx : Reader Tx := do
  expect (u32ToLeBytes 0x80000005)
  expect (u32ToLeBytes 0x26A7270A)
  let consensusBranchId ← readU32
  expect (u32ToLeBytes 0)
  let expiryHeight ← readU32
  expect [0]
  expect [0]
  let nSpends ← readCompactSize
  let spends ← many readSpend nSpends
  let nOutputs ← readCompactSize
  let outputs ← many readOutput nOutputs
  let valueBalance ← readValueBalance nSpends nOutputs
  let anchor ← readAnchor nSpends
  return { consensusBranchId, expiryHeight, txIns := [], txOuts := [], spends, anchor, outputs,
           valueBalance }

/-- The digest of a shielded signature, from the bytes of the transaction. -/
def signatureDigestOfBytes (hash : Bytes → Bytes → Bytes) (raw : Bytes) : Option Bytes :=
  (readTx raw).map fun (tx, _) => signatureDigest hash tx none

/-! ## Reading what was written -/

theorem reads_u16 (n : UInt16) : Reads readU16 (u16ToLeBytes n) n := by
  have h := (reads_bytes (length_u16ToLeBytes n)).bind_pure (g := u16FromLeBytes)
  rwa [u16FromLeBytes_toLeBytes] at h

theorem reads_u32 (n : UInt32) : Reads readU32 (u32ToLeBytes n) n := by
  have h := (reads_bytes (length_u32ToLeBytes n)).bind_pure (g := u32FromLeBytes)
  rwa [u32FromLeBytes_toLeBytes] at h

theorem reads_u64 (n : UInt64) : Reads readU64 (u64ToLeBytes n) n := by
  have h := (reads_bytes (length_u64ToLeBytes n)).bind_pure (g := u64FromLeBytes)
  rwa [u64FromLeBytes_toLeBytes] at h

theorem reads_compactSize {n : Nat} (hn : n < 2 ^ 64) :
    Reads readCompactSize (Sapling.writeCompactsize n) n := by
  have hval : (UInt64.ofNat n).toNat = n := by
    rw [UInt64.toNat_ofNat']
    exact Nat.mod_eq_of_lt hn
  unfold Sapling.writeCompactsize Sapling.compactsizeRaw
  split
  · next h =>
    have hlt : n < 253 := by
      rw [UInt64.lt_iff_toNat_lt, hval] at h
      exact h
    have hbyte : (UInt64.ofNat n).toUInt8.toNat = n := by
      rw [UInt64.toNat_toUInt8, hval]
      omega
    have hne (k : UInt8) (hk : 253 ≤ k.toNat) : [(UInt64.ofNat n).toUInt8] ≠ [k] := by
      intro heq
      rw [List.singleton_inj.mp heq] at hbyte
      omega
    have hvalue : LittleEndian.value [(UInt64.ofNat n).toUInt8] = n := by
      simp only [LittleEndian.value, hbyte]
      omega
    have hlast := reads_pure (a := LittleEndian.value [(UInt64.ofNat n).toUInt8])
    rw [hvalue] at hlast
    refine (reads_bytes (n := 1) rfl).bind_nil ?_
    rw [if_neg (hne 253 (by decide)), if_neg (hne 254 (by decide)), if_neg (hne 255 (by decide)),
      hvalue]
    exact hlast
  · split
    · next h =>
      have hle : n ≤ 65535 := by
        rw [UInt64.le_iff_toNat_le, hval] at h
        exact h
      have hword : (UInt64.ofNat n).toUInt16.toNat = n := by
        rw [UInt64.toNat_toUInt16, hval]
        omega
      have hlast := (reads_u16 (UInt64.ofNat n).toUInt16).bind_pure (g := UInt16.toNat)
      rw [hword] at hlast
      exact (reads_bytes (b := [253]) rfl).bind hlast
    · split
      · next h =>
        have hle : n ≤ 4294967295 := by
          rw [UInt64.le_iff_toNat_le, hval] at h
          exact h
        have hword : (UInt64.ofNat n).toUInt32.toNat = n := by
          rw [UInt64.toNat_toUInt32, hval]
          omega
        have hlast := (reads_u32 (UInt64.ofNat n).toUInt32).bind_pure (g := UInt32.toNat)
        rw [hword] at hlast
        exact (reads_bytes (b := [254]) rfl).bind hlast
      · have hlast := (reads_u64 (UInt64.ofNat n)).bind_pure (g := UInt64.toNat)
        rw [hval] at hlast
        exact (reads_bytes (b := [255]) rfl).bind hlast

end Zip244

namespace Sapling

/-! ## Field sizes -/

structure SpendParts.Sized (s : SpendParts) : Prop where
  cv : s.cv.length = 32
  nullifier : s.nullifier.length = 32
  rk : s.rk.length = 32
  anchor : s.anchor.length = 32

structure OutputParts.Sized (o : OutputParts) : Prop where
  cv : o.cv.length = 32
  cmu : o.cmu.length = 32
  ephemeralKey : o.ephemeralKey.length = 32
  encCiphertext : o.encCiphertext.length = 580
  outCiphertext : o.outCiphertext.length = 80

end Sapling

open Sapling

/-- The sizes of what the library gives, and field elements that stand for themselves. -/
structure SaplingLib.Sizes {Rng Witness : Type} (lib : SaplingLib Rng Witness) : Prop where
  baseFromRepr_eq : ∀ b a, lib.baseFromRepr b = some a → a = b
  valueCommitment : ∀ v rcv, (lib.valueCommitment v rcv).length = 32
  nf : ∀ note nk position, (lib.nf note nk position).length = 32
  randomize : ∀ ak alpha, (lib.randomize ak alpha).length = 32
  cmu : ∀ note, (lib.cmu note).length = 32
  ephemeralKey : ∀ ovk note memo cv cmu rng,
    (lib.encryptNote ovk note memo cv cmu rng).ephemeralKey.length = 32
  encCiphertext : ∀ ovk note memo cv cmu rng,
    (lib.encryptNote ovk note memo cv cmu rng).encCiphertext.length = 580
  outCiphertext : ∀ ovk note memo cv cmu rng,
    (lib.encryptNote ovk note memo cv cmu rng).outCiphertext.length = 80

namespace Sapling

theorem sized_makeOutput {Rng Witness : Type} {lib : SaplingLib Rng Witness} (sizes : lib.Sizes)
    {ovk : Option Bytes} {recipient : Bytes} {value : UInt64} {memo : Bytes}
    {zip212 : Zip212Enforcement} {draw : OutputDraw Rng} {output : OutputParts}
    (h : makeOutput lib ovk recipient value memo zip212 draw = .ok output) :
    output.Sized := by
  unfold makeOutput at h
  obtain rfl := Except.ok.inj h
  refine ⟨?_, ?_, ?_, ?_, ?_⟩
  · exact sizes.valueCommitment _ _
  · exact sizes.cmu _
  · exact sizes.ephemeralKey _ _ _ _ _ _
  · exact sizes.encCiphertext _ _ _ _ _ _
  · exact sizes.outCiphertext _ _ _ _ _ _

theorem reads_spend {s : SpendParts} (hs : s.Sized) :
    Reads Zip244.readSpend s.write s.description := by
  unfold SpendParts.write
  rw [List.append_assoc]
  exact (reads_bytes hs.cv).bind ((reads_bytes hs.nullifier).bind (reads_bytes hs.rk).bind_pure)

theorem reads_output {o : OutputParts} (ho : o.Sized) :
    Reads Zip244.readOutput o.write o.description := by
  unfold OutputParts.write
  simp only [List.append_assoc]
  exact (reads_bytes ho.cv).bind ((reads_bytes ho.cmu).bind ((reads_bytes ho.ephemeralKey).bind
    ((reads_bytes ho.encCiphertext).bind (reads_bytes ho.outCiphertext).bind_pure)))

theorem readTx_serialize {tx : SaplingTx} {raw : Bytes} (hne : tx.spends ≠ [])
    (hspends : ∀ s ∈ tx.spends, s.Sized) (houtputs : ∀ o ∈ tx.outputs, o.Sized)
    (hcount : tx.spends.length < 2 ^ 64 ∧ tx.outputs.length < 2 ^ 64)
    (h : serializeV5Tx tx = .ok raw) : ∃ rest, Zip244.readTx raw = some (tx.zip244, rest) := by
  unfold serializeV5Tx at h
  obtain ⟨_, -, h⟩ := bind_eq_ok.mp h
  obtain rfl := Except.ok.inj h
  have hlen : tx.spends.length ≠ 0 := fun h => hne (List.length_eq_zero_iff.mp h)
  have hbundle : (!tx.spends.isEmpty || !tx.outputs.isEmpty) = true := by simp [hne]
  have hanchor : (anchorOf tx.spends).length = 32 := by
    cases hs : tx.spends with
    | nil => exact absurd hs hne
    | cons spend rest => exact (hspends spend (hs ▸ List.mem_cons_self)).anchor
  have hvalue : Reads (Zip244.readValueBalance tx.spends.length tx.outputs.length)
      (i64ToLeBytes tx.valueBalance) tx.valueBalance := by
    unfold Zip244.readValueBalance
    rw [if_neg fun h => hlen h.1]
    have hu64 := (Zip244.reads_u64 tx.valueBalance.toUInt64).bind_pure (g := UInt64.toInt64)
    rwa [show tx.valueBalance.toUInt64.toInt64 = tx.valueBalance from rfl] at hu64
  have hread : Reads Zip244.readTx
      (u32ToLeBytes 0x80000005 ++ (u32ToLeBytes 0x26A7270A ++ (u32ToLeBytes tx.consensusBranchId ++
        (u32ToLeBytes 0 ++ (u32ToLeBytes tx.expiryHeight ++ ([0] ++ ([0] ++
        (writeCompactsize tx.spends.length ++ (tx.spends.flatMap SpendParts.write ++
        (writeCompactsize tx.outputs.length ++ (tx.outputs.flatMap OutputParts.write ++
        (i64ToLeBytes tx.valueBalance ++ anchorOf tx.spends)))))))))))) tx.zip244 := by
    refine reads_expect.bind (reads_expect.bind ((Zip244.reads_u32 _).bind (reads_expect.bind
      ((Zip244.reads_u32 _).bind (reads_expect.bind (reads_expect.bind
      ((Zip244.reads_compactSize hcount.1).bind ((Reads.many fun s hs => reads_spend (hspends s hs)).bind
      ((Zip244.reads_compactSize hcount.2).bind ((Reads.many fun o ho => reads_output (houtputs o ho)).bind
      (hvalue.bind (Reads.bind_nil ?_ reads_pure))))))))))))
    unfold Zip244.readAnchor
    rw [if_neg hlen]
    exact reads_bytes hanchor
  have hrest := hread (tx.spends.flatMap (·.zkproof) ++ tx.spendAuthSigs.flatten ++
    tx.outputs.flatMap (·.zkproof) ++ tx.bindingSig ++ writeCompactsize 0)
  refine ⟨_, (congrArg Zip244.readTx ?_).trans hrest⟩
  rw [if_pos hbundle, if_pos hbundle]
  unfold writeHeader anchorOf
  simp only [List.append_assoc]
  rfl

end Sapling

namespace Reference

/-- The library of the digests, with the sizes of the real one. -/
def sized : SaplingLib Unit Bytes :=
  { digests with
    valueCommitment := fun _ _ => List.replicate 32 0
    nf := fun _ _ _ => List.replicate 32 0
    randomize := fun _ _ => List.replicate 32 0
    cmu := fun _ => List.replicate 32 0
    encryptNote := fun _ _ _ _ _ _ =>
      ⟨[], List.replicate 32 0, List.replicate 580 0, List.replicate 80 0⟩ }

theorem sized_sizes : sized.Sizes where
  baseFromRepr_eq _ _ h := (Option.some.inj (Option.ite_none_right_eq_some.mp h).2).symm
  valueCommitment _ _ := List.length_replicate
  nf _ _ _ := List.length_replicate
  randomize _ _ := List.length_replicate
  cmu _ := List.length_replicate
  ephemeralKey _ _ _ _ _ _ := List.length_replicate
  encCiphertext _ _ _ _ _ _ := List.length_replicate
  outCiphertext _ _ _ _ _ _ := List.length_replicate

end Reference
