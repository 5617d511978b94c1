import FrostZm.Frozt.Complete
import FrostZm.Frozt.Notes

/-!
# The builders of the WASM library

Objects of their own over the functions of the native library, with messages for errors. The
Sapling builder freezes a state at `build` as its native twin does; the shielding builder keeps
its lists.
-/

/-- The text of an error code. -/
def LibError.message : LibError → String
  | .ok => "LIB_OK"
  | .invalidHandle => "Invalid Handle"
  | .handleInUse => "Handle in use"
  | .invalidHandleType => "Invalid handle type"
  | .nullPtr => "Null pointer"
  | .invalidBufferSize => "Invalid buffer size"
  | .unknownError => "Unknown error"
  | .serializationError => "Serialization error"
  | .invalidIdentifier => "Invalid identifier"
  | .dkgError => "DKG error"
  | .signingError => "Signing error"
  | .reshareError => "Reshare error"
  | .keyImportError => "Key import error"
  | .saplingError => "Sapling error"
  | .ckdError => "CKD error"
  | .addressError => "Address error"
  | .sessionNotReady => "Session not ready"
  | .blame => "Blame"

/-- `map_err(to_js)`. -/
def toJs {α : Type} (x : Result α) : Except String α := x.mapError fun fault => fault.code.message

@[simp] theorem toJs_eq_ok {α : Type} {x : Result α} {a : α} : toJs x = .ok a ↔ x = .ok a := by
  cases x <;> simp [toJs, Except.mapError]

namespace Sapling

variable {Rng Witness : Type} (lib : SaplingLib Rng Witness) (sig : SignLib Rng)

/-! ## The Sapling builder -/

structure WasmTxBuilder where
  fvk : FullViewingKey
  pgk : ProofGenerationKey
  ovk : Bytes
  targetHeight : UInt32
  zip212 : Zip212Enforcement
  spends : List SpendParts
  outputs : List OutputParts
  alphas : List Bytes
  totalInput : UInt64
  totalOutput : UInt64
  finished : Option TxBuildState
  sighashBytes : Option Bytes

namespace WasmTxBuilder

/-- The builder that `create_builder` returns for its derived keys. -/
def new (fvk : FullViewingKey) (nsk : Bytes) (targetHeight : UInt32) : WasmTxBuilder where
  fvk := fvk
  pgk := { ak := fvk.ak, nsk }
  ovk := fvk.ovk
  targetHeight := targetHeight
  zip212 := zip212ForHeight targetHeight.toUInt64
  spends := []
  outputs := []
  alphas := []
  totalInput := 0
  totalOutput := 0
  finished := none
  sighashBytes := none

def rseedOf (b : WasmTxBuilder) (rseedBytes : Bytes) : Except String Rseed :=
  match b.zip212 with
  | .on => .ok (.afterZip212 rseedBytes)
  | _ => Rseed.beforeZip212 <$> okOrMessage "invalid rcm" (lib.scalarFromRepr rseedBytes)

def addSpend (b : WasmTxBuilder) (noteData witnessData : Bytes) (draw : SpendDraw Rng) :
    Except String (WasmTxBuilder × Bytes) := do
  failWith (noteData.length ≠ 51) "note_data must be 51 bytes"
  let diversifier := slice noteData 0 11
  let value := u64FromLeBytes (slice noteData 11 8)
  let rseedBytes := slice noteData 19 32
  let rseed ← b.rseedOf lib rseedBytes
  let pkD ← okOrMessage "invalid payment address from diversifier"
    (lib.toPaymentAddress b.fvk diversifier)
  let note := { recipient := pkD, value, rseed }
  let witness ← toJs (lib.deserializeWitness witnessData)
  let merklePath ← okOrMessage "witness has no path" (lib.path witness)
  let spend ← toJs (makeSpend lib b.pgk b.fvk note merklePath draw)
  return ({ b with
    totalInput := b.totalInput + value
    spends := b.spends ++ [spend]
    alphas := b.alphas ++ [draw.alpha] }, draw.alpha)

/-- The amount is the number of the caller after its cast. -/
def addOutput (b : WasmTxBuilder) (address : Bytes) (amount : UInt64) (draw : OutputDraw Rng) :
    Except String WasmTxBuilder := do
  let addr ← toJs (parsePaymentAddress lib address)
  let memo := List.replicate 512 0
  let output ← toJs (makeOutput lib (some b.ovk) addr amount memo b.zip212 draw)
  return { b with
    totalOutput := b.totalOutput + amount
    outputs := b.outputs ++ [output] }

def build (b : WasmTxBuilder) : Except String WasmTxBuilder := do
  failWith b.spends.isEmpty "no spends added"
  failWith (b.totalOutput > b.totalInput) "outputs exceed inputs"
  let fee := b.totalInput - b.totalOutput
  failWith (fee > 1000000) "fee exceeds maximum"
  let valueBalance := fee.toInt64
  let consensusBranchId := branchIdForHeight b.targetHeight
  let expiryHeight := b.targetHeight + 100
  let sighash := computeV5Sighash lib b.spends b.outputs valueBalance consensusBranchId expiryHeight
  return { b with
    spends := []
    outputs := []
    finished := some {
      spends := b.spends
      outputs := b.outputs
      valueBalance, consensusBranchId, expiryHeight, sighash }
    sighashBytes := some sighash }

def sighash (b : WasmTxBuilder) : Bytes := b.sighashBytes.getD []

/-- The transaction that `complete` writes. -/
def completedTx (b : WasmTxBuilder) (spendAuthSigs : Bytes) (rng : Rng) : Except String SaplingTx := do
  let state ← okOrMessage "build() must be called before complete()" b.finished
  let nSpends := state.spends.length
  let expected := 64 * nSpends
  let got := spendAuthSigs.length
  failWith (got ≠ expected) s!"expected {expected} bytes ({nSpends} * 64), got {got}"
  let bsk := sig.computeBsk (state.spends.map (·.rcv)) (state.outputs.map (·.rcv))
  return {
    spends := state.spends
    outputs := state.outputs
    valueBalance := state.valueBalance
    spendAuthSigs := chunks spendAuthSigs 64 nSpends
    bindingSig := sig.sign bsk state.sighash rng
    consensusBranchId := state.consensusBranchId
    expiryHeight := state.expiryHeight }

/-- The state is taken, even if the call fails then. -/
def complete (b : WasmTxBuilder) (spendAuthSigs : Bytes) (rng : Rng) :
    WasmTxBuilder × Except String Bytes :=
  ({ b with finished := none }, do
    let tx ← b.completedTx sig spendAuthSigs rng
    toJs (serializeV5Tx tx))

end WasmTxBuilder

/-! ## The shielding builder -/

structure WasmShieldingTxBuilder where
  ovk : Bytes
  targetHeight : UInt32
  zip212 : Zip212Enforcement
  inputs : List TransparentInput
  transparentOutputs : List TransparentOutput
  saplingOutputs : List OutputParts
  totalInput : UInt64
  totalSaplingOutput : UInt64
  totalTransparentOutput : UInt64
  sighashes : Option (List Bytes)
  txidSighash : Option Bytes

namespace WasmShieldingTxBuilder

/-- The constructor, once it has read its parameters. -/
def new (extras : Bytes) (targetHeight : UInt32) : Except String WasmShieldingTxBuilder := do
  failWith (extras.length ≠ 96) "extras must be 96 bytes"
  return {
    ovk := slice extras 32 32
    targetHeight
    zip212 := zip212ForHeight targetHeight.toUInt64
    inputs := []
    transparentOutputs := []
    saplingOutputs := []
    totalInput := 0
    totalSaplingOutput := 0
    totalTransparentOutput := 0
    sighashes := none
    txidSighash := none }

def addInput (b : WasmShieldingTxBuilder) (prevTxid : Bytes) (vout : UInt32) (value : UInt64)
    (scriptPubkey : Bytes) : Except String WasmShieldingTxBuilder := do
  failWith (prevTxid.length ≠ 32) "prev_txid must be 32 bytes"
  let totalInput ← okOrMessage "input overflow" (checkedAdd b.totalInput value)
  return { b with
    totalInput
    inputs := b.inputs ++ [{ prevTxid, vout, value, scriptPubkey }] }

def addOutput (b : WasmShieldingTxBuilder) (address : Bytes) (amount : UInt64)
    (draw : OutputDraw Rng) : Except String WasmShieldingTxBuilder := do
  let addr ← toJs (parsePaymentAddress lib address)
  let memo := List.replicate 512 0
  let output ← toJs (makeOutput lib (some b.ovk) addr amount memo b.zip212 draw)
  let totalSaplingOutput ← okOrMessage "output overflow" (checkedAdd b.totalSaplingOutput amount)
  return { b with totalSaplingOutput, saplingOutputs := b.saplingOutputs ++ [output] }

def addTransparentOutput (b : WasmShieldingTxBuilder) (address : Bytes) (amount : UInt64) :
    Except String WasmShieldingTxBuilder := do
  let pubkeyHash ← toJs (parseTransparentAddress lib address)
  let scriptPubkey := buildP2pkhScriptPubkey pubkeyHash
  let totalTransparentOutput ←
    okOrMessage "transparent output overflow" (checkedAdd b.totalTransparentOutput amount)
  return { b with
    totalTransparentOutput
    transparentOutputs := b.transparentOutputs ++ [{ value := amount, scriptPubkey }] }

/-- The digests of the lists as they are, which stay. -/
def build (b : WasmShieldingTxBuilder) : Except String WasmShieldingTxBuilder := do
  failWith b.inputs.isEmpty "no inputs added"
  failWith b.saplingOutputs.isEmpty "no sapling outputs added"
  let totalOut ← okOrMessage "output overflow"
    (checkedAdd b.totalSaplingOutput b.totalTransparentOutput)
  failWith (b.totalInput ≤ totalOut) "inputs must exceed outputs (need fee)"
  let valueBalance := -b.totalSaplingOutput.toInt64
  let consensusBranchId := branchIdForHeight b.targetHeight
  let expiryHeight := b.targetHeight + 40
  let sighash := computeShieldingSighash lib b.inputs b.transparentOutputs b.saplingOutputs
    valueBalance consensusBranchId expiryHeight
  return { b with
    sighashes := some (b.inputs.map fun input => sighash (some input))
    txidSighash := some (sighash none) }

/-- The transaction that `complete` writes: of the lists as they are now, with a signature for
each digest of the last build. -/
def completedTx (b : WasmShieldingTxBuilder) (ecdsaSigs pubkeys : Bytes) (rng : Rng) :
    Except String ShieldingTx := do
  let sighashes ← okOrMessage "build() must be called before complete()" b.sighashes
  let txidSighash ← okOrMessage "build() must be called before complete()" b.txidSighash
  let n := sighashes.length
  let expected := n * 33
  let got := pubkeys.length
  failWith (got ≠ expected) s!"expected {expected} pubkey bytes ({n} * 33), got {got}"
  let sigs ← takeSigs "ecdsa_sigs too short" "ecdsa_sigs truncated" ecdsaSigs n 0
  let bsk := sig.computeBsk [] (b.saplingOutputs.map (·.rcv))
  return {
    inputs := b.inputs
    scriptSigs := List.zipWith buildP2pkhScriptSig sigs (chunks pubkeys 33 n)
    transparentOutputs := b.transparentOutputs
    saplingOutputs := b.saplingOutputs
    valueBalance := -b.totalSaplingOutput.toInt64
    bindingSig := sig.sign bsk txidSighash rng
    consensusBranchId := branchIdForHeight b.targetHeight
    expiryHeight := b.targetHeight + 40 }

/-- Nothing is taken: the builder stays as it is. -/
def complete (b : WasmShieldingTxBuilder) (ecdsaSigs pubkeys : Bytes) (rng : Rng) :
    Except String Bytes :=
  serializeShieldingV5Tx <$> b.completedTx sig ecdsaSigs pubkeys rng

end WasmShieldingTxBuilder

end Sapling
