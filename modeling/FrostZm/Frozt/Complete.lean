import FrostZm.Frozt.ShieldingTx

/-!
# Completed transactions

`complete` takes a builder for good, and writes the transaction of the state that its last
`build` left, with the signatures that were made since.
-/

/-- Binding signatures. -/
structure SignLib (Rng : Type) where
  /-- The trapdoors of the spends less those of the outputs, as a signing key. -/
  computeBsk : List Bytes → List Bytes → Bytes
  /-- `sign` of a binding key. -/
  sign : Bytes → Bytes → Rng → Bytes

namespace Sapling

variable {Rng : Type} (sig : SignLib Rng)

/-! ## Transactions -/

/-- What `serialize_v5_tx` writes. -/
structure SaplingTx where
  spends : List SpendParts
  outputs : List OutputParts
  valueBalance : Int64
  spendAuthSigs : List Bytes
  bindingSig : Bytes
  consensusBranchId : UInt32
  expiryHeight : UInt32

/-- What `serialize_shielding_v5_tx` writes. -/
structure ShieldingTx where
  inputs : List TransparentInput
  scriptSigs : List Bytes
  transparentOutputs : List TransparentOutput
  saplingOutputs : List OutputParts
  valueBalance : Int64
  bindingSig : Bytes
  consensusBranchId : UInt32
  expiryHeight : UInt32

def writeCompactsize (n : Nat) : Bytes := compactsizeRaw (.ofNat n)

/-- Version 5, its version group, the branch, no lock time, and the expiry height. -/
def writeHeader (consensusBranchId expiryHeight : UInt32) : Bytes :=
  u32ToLeBytes 0x80000005 ++ u32ToLeBytes 0x26A7270A ++ u32ToLeBytes consensusBranchId ++
    u32ToLeBytes 0 ++ u32ToLeBytes expiryHeight

def SpendParts.write (s : SpendParts) : Bytes := s.cv ++ s.nullifier ++ s.rk

def OutputParts.write (o : OutputParts) : Bytes :=
  o.cv ++ o.cmu ++ o.ephemeralKey ++ o.encCiphertext ++ o.outCiphertext

def serializeV5Tx (tx : SaplingTx) : Result Bytes := do
  failIf (tx.spendAuthSigs.length ≠ tx.spends.length) .invalidBufferSize
  let bundle := !tx.spends.isEmpty || !tx.outputs.isEmpty
  return writeHeader tx.consensusBranchId tx.expiryHeight ++
    writeCompactsize 0 ++ writeCompactsize 0 ++
    writeCompactsize tx.spends.length ++ tx.spends.flatMap SpendParts.write ++
    writeCompactsize tx.outputs.length ++ tx.outputs.flatMap OutputParts.write ++
    (if bundle then i64ToLeBytes tx.valueBalance else []) ++
    (match tx.spends with
      | [] => []
      | spend :: _ => spend.anchor) ++
    tx.spends.flatMap (·.zkproof) ++ tx.spendAuthSigs.flatten ++ tx.outputs.flatMap (·.zkproof) ++
    (if bundle then tx.bindingSig else []) ++ writeCompactsize 0

def TransparentInput.write (i : TransparentInput) (scriptSig : Bytes) : Bytes :=
  i.prevTxid ++ u32ToLeBytes i.vout ++ writeCompactsize scriptSig.length ++ scriptSig ++
    u32ToLeBytes sequence

def TransparentOutput.write (o : TransparentOutput) : Bytes :=
  i64ToLeBytes o.value.toInt64 ++ writeCompactsize o.scriptPubkey.length ++ o.scriptPubkey

/-- Inputs and script signatures are zipped: an input without one is announced but not written. -/
def serializeShieldingV5Tx (tx : ShieldingTx) : Bytes :=
  writeHeader tx.consensusBranchId tx.expiryHeight ++
    writeCompactsize tx.inputs.length ++
    (List.zipWith TransparentInput.write tx.inputs tx.scriptSigs).flatten ++
    writeCompactsize tx.transparentOutputs.length ++
    tx.transparentOutputs.flatMap TransparentOutput.write ++
    writeCompactsize 0 ++
    writeCompactsize tx.saplingOutputs.length ++ tx.saplingOutputs.flatMap OutputParts.write ++
    i64ToLeBytes tx.valueBalance ++ tx.saplingOutputs.flatMap (·.zkproof) ++ tx.bindingSig ++
    writeCompactsize 0

/-! ## Signatures -/

/-- `data` cut into `n` pieces of the same size. -/
def chunks (data : Bytes) (size n : Nat) : List Bytes :=
  (List.range n).map fun i => slice data (i * size) size

@[simp] theorem length_chunks (data : Bytes) (size n : Nat) : (chunks data size n).length = n := by
  simp [chunks]

/-- The loop over signatures that have their length in front, with the errors of a caller. -/
def takeSigs {ε : Type} (tooShort truncated : ε) (sigData : Bytes) :
    Nat → Nat → Except ε (List Bytes)
  | 0, _ => .ok []
  | n + 1, offset =>
    if sigData.length < offset + 2 then .error tooShort
    else
      let sigLen := (u16FromLeBytes (slice sigData offset 2)).toNat
      if sigData.length < offset + 2 + sigLen then .error truncated
      else (slice sigData (offset + 2) sigLen :: ·) <$>
        takeSigs tooShort truncated sigData n (offset + 2 + sigLen)

theorem length_takeSigs {ε : Type} {tooShort truncated : ε} {sigData : Bytes} {n offset : Nat}
    {sigs : List Bytes} (h : takeSigs tooShort truncated sigData n offset = .ok sigs) :
    sigs.length = n := by
  induction n generalizing offset sigs with
  | zero =>
    obtain rfl := Except.ok.inj h
    rfl
  | succ n ih =>
    rw [takeSigs] at h
    split at h
    · cases h
    · simp only at h
      split at h
      · cases h
      · obtain ⟨rest, hrest, rfl⟩ := map_eq_ok.mp h
        rw [List.length_cons, ih hrest]

def buildP2pkhScriptSig (derSig pubkey : Bytes) : Bytes :=
  UInt8.ofNat (derSig.length + 1) :: derSig ++ [0x01] ++ UInt8.ofNat pubkey.length :: pubkey

/-! ## The builders -/

namespace TxBuilder

/-- The transaction that `complete` writes. -/
def completedTx (b : TxBuilder) (sigData : Bytes) (rng : Rng) : Result SaplingTx := do
  let state ← okOr .saplingError b.finished
  let nSpends := state.spends.length
  failIf (sigData.length ≠ 64 * nSpends) .invalidBufferSize
  let bsk := sig.computeBsk (state.spends.map (·.rcv)) (state.outputs.map (·.rcv))
  return {
    spends := state.spends
    outputs := state.outputs
    valueBalance := state.valueBalance
    spendAuthSigs := chunks sigData 64 nSpends
    bindingSig := sig.sign bsk state.sighash rng
    consensusBranchId := state.consensusBranchId
    expiryHeight := state.expiryHeight }

/-- A builder that was taken is gone, even if the call fails then. -/
def complete (b : TxBuilder) (spendAuthSigs : Option Bytes) (outRawTx : Option Unit) (rng : Rng) :
    Option TxBuilder × Result Bytes :=
  match spendAuthSigs, outRawTx with
  | some sigData, some () => (none, b.completedTx sig sigData rng >>= serializeV5Tx)
  | _, _ => (some b, .error LibError.nullPtr)

end TxBuilder

namespace ShieldingTxBuilder

def completedTx (b : ShieldingTxBuilder) (sigData pkData : Bytes) (rng : Rng) :
    Result ShieldingTx := do
  let state ← okOr .saplingError b.finished
  let n := state.inputs.length
  failIf (pkData.length ≠ n * 33) .invalidBufferSize
  let sigs ← takeSigs (LibError.invalidBufferSize : Fault) LibError.invalidBufferSize sigData n 0
  let bsk := sig.computeBsk [] (state.saplingOutputs.map (·.rcv))
  return {
    inputs := state.inputs
    scriptSigs := List.zipWith buildP2pkhScriptSig sigs (chunks pkData 33 n)
    transparentOutputs := state.transparentOutputs
    saplingOutputs := state.saplingOutputs
    valueBalance := state.valueBalance
    bindingSig := sig.sign bsk state.txidSighash rng
    consensusBranchId := state.consensusBranchId
    expiryHeight := state.expiryHeight }

def complete (b : ShieldingTxBuilder) (ecdsaSigs pubkeys : Option Bytes) (outRawTx : Option Unit)
    (rng : Rng) : Option ShieldingTxBuilder × Result Bytes :=
  match ecdsaSigs, pubkeys, outRawTx with
  | some sigData, some pkData, some () =>
    (none, serializeShieldingV5Tx <$> b.completedTx sig sigData pkData rng)
  | _, _, _ => (some b, .error LibError.nullPtr)

end ShieldingTxBuilder

end Sapling
