import FrostZm.Client.CompactBlocks
import FrostZm.Client.RawTx
import FrostZm.Frozt.Notes

/-!
# Scanning for notes

Both clients go over the compact blocks of a range, try to decrypt every output and collect the
nullifiers of all spends. Then each fetches the transaction of every note that it found, for the
nullifier of the note. Where that fails, TypeScript keeps the note and Go drops it.
-/

open Sapling

/-- What a scan calls, beside what the note functions do. -/
structure ScanLib (Rng Witness : Type) extends NoteLib Rng Witness where
  /-- `try_sapling_compact_note_decryption`: the note and its address. -/
  tryCompactDecryption : Bytes → Bytes → Bytes → Bytes → Zip212Enforcement → Option (Note × Bytes)

namespace Sapling

variable {Rng Witness : Type} (lib : ScanLib Rng Witness)

def compactNoteSize : Nat := 52

def tryDecryptCompact (ivk cmu ephemeralKey ciphertext : Option Bytes) (height : UInt64)
    (outValue : Option Unit) : Result UInt64 := do
  let ivk ← okOr .nullPtr ivk
  let cmu ← okOr .nullPtr cmu
  let epk ← okOr .nullPtr ephemeralKey
  let ct ← okOr .nullPtr ciphertext
  okOr .nullPtr outValue
  failIf (ivk.length ≠ 32 ∨ cmu.length ≠ 32 ∨ epk.length ≠ 32) .invalidBufferSize
  failIf (ct.length ≠ compactNoteSize) .invalidBufferSize
  let ivk ← okOr .saplingError (lib.scalarFromRepr ivk)
  let cmu ← okOr .saplingError (lib.cmuFromBytes cmu)
  match lib.tryCompactDecryption ivk cmu epk ct (zip212ForHeight height) with
  | some (note, _) => return note.value
  | none => .error LibError.saplingError

namespace Wasm

/-- `null` where the output is not for the key. -/
def tryDecryptCompact (ivk cmu ephemeralKey ciphertext : Bytes) (height : UInt64) :
    Except String (Option UInt64) := do
  if ivk.length ≠ 32 ∨ cmu.length ≠ 32 ∨ ephemeralKey.length ≠ 32 then
    throw "ivk, cmu, and ephemeral_key must be 32 bytes"
  if ciphertext.length ≠ compactNoteSize then throw "ciphertext must be 52 bytes"
  let ivk ← okOrMessage "invalid ivk scalar" (lib.scalarFromRepr ivk)
  let cmu ← okOrMessage "invalid cmu" (lib.cmuFromBytes cmu)
  return (lib.tryCompactDecryption ivk cmu ephemeralKey ciphertext (zip212ForHeight height)).map
    fun found => found.1.value

def decryptNoteFull (ivk cmu ephemeralKey encCiphertext : Bytes) (height : UInt64) :
    Except String Bytes := do
  if ivk.length ≠ 32 ∨ cmu.length ≠ 32 ∨ ephemeralKey.length ≠ 32 then
    throw "ivk, cmu, and ephemeral_key must be 32 bytes"
  if encCiphertext.length ≠ encCiphertextSize then throw "enc_ciphertext must be 580 bytes"
  let ivk ← okOrMessage "invalid ivk scalar" (lib.scalarFromRepr ivk)
  let cmu ← okOrMessage "invalid cmu" (lib.cmuFromBytes cmu)
  let (note, addr, _) ← okOrMessage "note decryption failed"
    (lib.tryNoteDecryption ivk cmu ephemeralKey encCiphertext (zip212ForHeight height))
  return noteData note addr

end Wasm

end Sapling

namespace Scan

open Lightwalletd (CompactTx CompactOutput)

/-! ## What both clients do -/

structure Block where
  height : Nat
  transactions : List CompactTx

/-- What the server answers. -/
structure Transport where
  getBlockRange : Nat → Nat → Option (List Block)
  getTransaction : Bytes → Option Bytes

/-- A note as the clients keep it. A Sapling tree has `2 ^ 32` places, so that a position is
exact in both. -/
structure FoundNote where
  height : Nat
  txHash : Bytes
  index : Nat
  value : UInt64
  position : Nat
  cmu : Bytes
  ephemeralKey : Bytes
deriving DecidableEq

structure State where
  spentNullifiers : List Bytes
  commitmentPos : Nat
  notes : List FoundNote

section Pass

variable (decrypt : CompactOutput → UInt64 → Option (Option UInt64))

/-- The body of the innermost loop. -/
def outputStep (height : Nat) (txHash : Bytes) (st : State) (output : CompactOutput × Nat) :
    Option State :=
  if output.1.cmu.length ≠ 32 then some { st with commitmentPos := st.commitmentPos + 1 }
  else if output.1.ephemeralKey.length ≠ 32 ∨ output.1.ciphertext.length ≠ 52 then
    some { st with commitmentPos := st.commitmentPos + 1 }
  else do
    let value ← decrypt output.1 (.ofNat height)
    return { st with
      commitmentPos := st.commitmentPos + 1
      notes := st.notes ++ (value.map fun value =>
        { height, txHash, index := output.2, value, position := st.commitmentPos,
          cmu := output.1.cmu, ephemeralKey := output.1.ephemeralKey }).toList }

def txStep (height : Nat) (st : State) (tx : CompactTx) : Option State :=
  tx.outputs.zipIdx.foldlM (outputStep decrypt height tx.hash)
    { st with
      spentNullifiers := st.spentNullifiers ++ (tx.spends.map (·.nf)).filter (·.length = 32) }

def blockStep (st : State) (block : Block) : Option State :=
  block.transactions.foldlM (txStep decrypt block.height) st

end Pass

variable {Rng Witness : Type} (lib : ScanLib Rng Witness) (t : Transport)

/-! ## TypeScript -/

namespace Ts

/-- `Number(n)`: the nearest number of 53 bits, and the even one of two. -/
def number (n : Nat) : Nat :=
  let e := n.log2 - 52
  let q := n / 2 ^ e
  let r := n % 2 ^ e
  if 2 ^ e < 2 * r ∨ (2 ^ e = 2 * r ∧ q % 2 = 1) then (q + 1) * 2 ^ e else q * 2 ^ e

/-- The loop over the batches. No batch is empty, so that there are at most so many. -/
def batches (batchSize endHeight : Nat) : Nat → Nat → List (Nat × Nat)
  | 0, _ => []
  | n + 1, batchStart =>
    if batchStart ≤ endHeight then
      (batchStart, min (batchStart + batchSize - 1) endHeight) ::
        batches batchSize endHeight n (batchStart + batchSize)
    else []

def tryDecrypt (ivk : Bytes) (output : CompactOutput) (height : UInt64) : Option (Option UInt64) :=
  (Wasm.tryDecryptCompact lib ivk output.cmu output.ephemeralKey output.ciphertext height).toOption

/-- The nullifier of a note, unless the ciphertext is not found or something throws. -/
def nullifierIn (ivk dfvk rawTx : Bytes) (note : FoundNote) : Option Bytes := do
  let encCiphertext ← Ts.extractSaplingEncCiphertext rawTx note.index
  let noteData ← (Wasm.decryptNoteFull lib ivk note.cmu note.ephemeralKey encCiphertext
    (.ofNat note.height)).toOption
  (Wasm.computeNullifier lib.toNoteLib dfvk noteData (.ofNat note.position)
    (.ofNat note.height)).toOption

def keeps (ivk dfvk : Bytes) (spentNullifiers : List Bytes) (note : FoundNote) : Bool :=
  match (t.getTransaction note.txHash).bind fun rawTx => nullifierIn lib ivk dfvk rawTx note with
  | none => true
  | some nullifier => nullifier ∉ spentNullifiers

def spendableBalance (notes : List FoundNote) : Nat :=
  notes.foldl (fun balance note => number (balance + number note.value.toNat)) 0

/-- The unspent notes and their balance. -/
def scan (ivk dfvk : Bytes) (batchSize startHeight endHeight initialTreeSize : Nat) :
    Option (List FoundNote × Nat) := do
  let st ← (batches batchSize endHeight (endHeight + 1 - startHeight) startHeight).foldlM
    (fun st (batchStart, batchEnd) => do
      let blocks ← t.getBlockRange batchStart batchEnd
      blocks.foldlM (blockStep (tryDecrypt lib ivk)) st) ⟨[], initialTreeSize, []⟩
  let unspentNotes := st.notes.filter (keeps lib t ivk dfvk st.spentNullifiers)
  return (unspentNotes, spendableBalance unspentNotes)

end Ts

/-! ## Go -/

namespace Go

/-- `SaplingTryDecryptCompact`: one error code is for outputs that are not for the key. -/
def tryDecrypt (ivk : Bytes) (output : CompactOutput) (height : UInt64) : Option (Option UInt64) :=
  match tryDecryptCompact lib (some ivk) (some output.cmu) (some output.ephemeralKey)
      (some output.ciphertext) height (some ()) with
  | .ok value => some (some value)
  | .error fault => if fault.code = .saplingError then some none else none

/-- The nullifier of a note if there is no error, unless the parser panics. -/
def nullifierIn (ivk pkp extras rawTx : Bytes) (note : FoundNote) : Option (Option Bytes) := do
  let saplingOutputs ← Go.parseSaplingOutputsFromRawTx rawTx
  return do
    let output ← saplingOutputs[note.index]?
    let noteData ← (decryptNoteFull lib.toNoteLib (some ivk) (some output.cmu)
      (some output.ephemeralKey) (some output.encCiphertext) (.ofNat note.height) (some ())).toOption
    (computeNullifier lib.toNoteLib (some pkp) (some extras) (some noteData) (.ofNat note.position)
      (.ofNat note.height) (some ())).toOption

/-- `copy` to an array of 32 bytes. -/
def nfKey (nf : Bytes) : Bytes := (nf ++ List.replicate 32 0).take 32

def keeps (ivk pkp extras : Bytes) (spentNullifiers : List Bytes) (note : FoundNote) :
    Option Bool :=
  match t.getTransaction note.txHash with
  | none => some false
  | some rawTx =>
    (nullifierIn lib ivk pkp extras rawTx note).map fun
      | none => false
      | some nf => nfKey nf ∉ spentNullifiers

/-- The loop over the notes, unless one of them makes the parser panic. -/
def filterNotes (keep : FoundNote → Option Bool) : List FoundNote → Option (List FoundNote)
  | [] => some []
  | note :: rest => do
    let kept ← keep note
    let rest ← filterNotes keep rest
    return if kept then note :: rest else rest

/-- The notes that the filter of `PrepareTransaction` leaves. -/
def unspent (ivk pkp extras : Bytes) (startHeight endHeight initialTreeSize : Nat) :
    Option (List FoundNote) := do
  let blocks ← t.getBlockRange startHeight endHeight
  let st ← blocks.foldlM (blockStep (tryDecrypt lib ivk)) ⟨[], initialTreeSize, []⟩
  filterNotes (keeps lib t ivk pkp extras st.spentNullifiers) st.notes

end Go

end Scan
