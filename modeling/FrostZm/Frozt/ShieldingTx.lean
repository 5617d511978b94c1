import FrostZm.Frozt.Tx

/-!
# The shielding transaction builder

`ShieldingTxBuilder` moves transparent funds into Sapling outputs. It keeps three running
totals beside its three lists.
-/

namespace Sapling

variable {Rng Witness : Type} (lib : SaplingLib Rng Witness)

def sequence : UInt32 := 0xFFFFFFFE

structure TransparentInput where
  prevTxid : Bytes
  vout : UInt32
  value : UInt64
  scriptPubkey : Bytes

structure TransparentOutput where
  value : UInt64
  scriptPubkey : Bytes

/-! ## The signature hash -/

def compactsizeRaw (n : UInt64) : Bytes :=
  if n < 253 then [n.toUInt8]
  else if n ≤ 0xFFFF then 253 :: u16ToLeBytes n.toUInt16
  else if n ≤ 0xFFFFFFFF then 254 :: u32ToLeBytes n.toUInt32
  else 255 :: u64ToLeBytes n

def scriptWithSize (script : Bytes) : Bytes := compactsizeRaw (.ofNat script.length) ++ script

def hashPrevouts (inputs : List TransparentInput) : Bytes :=
  lib.blake2b (ascii "ZTxIdPrevoutHash") (inputs.flatMap fun i => i.prevTxid ++ u32ToLeBytes i.vout)

def hashAmounts (inputs : List TransparentInput) : Bytes :=
  lib.blake2b (ascii "ZTxIdAmountsHash") (inputs.flatMap fun i => u64ToLeBytes i.value)

def hashScriptPubkeys (inputs : List TransparentInput) : Bytes :=
  lib.blake2b (ascii "ZTxIdScriptsHash") (inputs.flatMap fun i => scriptWithSize i.scriptPubkey)

def hashSequences (inputs : List TransparentInput) : Bytes :=
  lib.blake2b (ascii "ZTxIdSequencHash") (inputs.flatMap fun _ => u32ToLeBytes sequence)

def hashTransparentOutputs (outputs : List TransparentOutput) : Bytes :=
  lib.blake2b (ascii "ZTxIdTOutputHash")
    (outputs.flatMap fun o => i64ToLeBytes o.value.toInt64 ++ scriptWithSize o.scriptPubkey)

def transparentDigests (inputs : List TransparentInput) (outputs : List TransparentOutput) : Bytes :=
  hashPrevouts lib inputs ++ hashAmounts lib inputs ++ hashScriptPubkeys lib inputs ++
    hashSequences lib inputs ++ hashTransparentOutputs lib outputs

def hashTransparentTxidDigest (inputs : List TransparentInput) (outputs : List TransparentOutput) :
    Bytes :=
  lib.blake2b (ascii "ZTxIdTranspaHash") (transparentDigests lib inputs outputs)

/-- The digest for one input: SIGHASH_ALL in front, the input's own fields behind. -/
def hashTransparentSigDigest (inputs : List TransparentInput) (outputs : List TransparentOutput)
    (input : TransparentInput) : Bytes :=
  lib.blake2b (ascii "ZTxIdTranspaHash")
    (0x01 :: transparentDigests lib inputs outputs ++ input.prevTxid ++ u32ToLeBytes input.vout ++
      u64ToLeBytes input.value ++ scriptWithSize input.scriptPubkey ++ u32ToLeBytes sequence)

def computeShieldingSighash (inputs : List TransparentInput)
    (transparentOutputs : List TransparentOutput) (saplingOutputs : List OutputParts)
    (valueBalance : Int64) (consensusBranchId expiryHeight : UInt32)
    (input : Option TransparentInput) : Bytes :=
  let transparentDigest := match input with
    | none => hashTransparentTxidDigest lib inputs transparentOutputs
    | some input => hashTransparentSigDigest lib inputs transparentOutputs input
  lib.blake2b (txHashPersonal consensusBranchId)
    (hashHeader lib consensusBranchId expiryHeight ++ transparentDigest ++
      hashSapling lib [] saplingOutputs valueBalance ++ hashEmptyOrchard lib)

/-! ## Inputs and addresses -/

def parseTransparentInput (data : Bytes) : Result TransparentInput := do
  failIf (data.length < 46) .invalidBufferSize
  let spkLen := (u16FromLeBytes (slice data 44 2)).toNat
  failIf (data.length < 46 + spkLen) .invalidBufferSize
  return {
    prevTxid := slice data 0 32
    vout := u32FromLeBytes (slice data 32 4)
    value := u64FromLeBytes (slice data 36 8)
    scriptPubkey := slice data 46 spkLen }

def parseTransparentAddress (addr : Bytes) : Result Bytes := do
  let decoded ← okOr .addressError (lib.base58CheckDecode addr)
  failIf (decoded.length ≠ 22) .addressError
  failIf (decoded.take 2 ≠ [0x1C, 0xB8]) .addressError
  return slice decoded 2 20

def buildP2pkhScriptPubkey (pubkeyHash : Bytes) : Bytes :=
  [0x76, 0xa9, 0x14] ++ pubkeyHash ++ [0x88, 0xac]

/-! ## The builder -/

structure ShieldingBuildState where
  inputs : List TransparentInput
  transparentOutputs : List TransparentOutput
  saplingOutputs : List OutputParts
  valueBalance : Int64
  consensusBranchId : UInt32
  expiryHeight : UInt32
  txidSighash : Bytes

structure ShieldingTxBuilder where
  ovk : Bytes
  targetHeight : UInt32
  zip212 : Zip212Enforcement
  inputs : List TransparentInput
  transparentOutputs : List TransparentOutput
  saplingOutputs : List OutputParts
  totalInput : UInt64
  totalSaplingOutput : UInt64
  totalTransparentOutput : UInt64
  finished : Option ShieldingBuildState

/-- `checked_add`. -/
def checkedAdd (a b : UInt64) : Option UInt64 :=
  if a.toNat + b.toNat < 2 ^ 64 then some (a + b) else none

namespace ShieldingTxBuilder

/-- The key package is asked for and not read. -/
def new (pkp extras : Option Bytes) (targetHeight : UInt32) : Result ShieldingTxBuilder := do
  let _ ← okOr .nullPtr pkp
  let extras ← okOr .nullPtr extras
  failIf (extras.length < 96) .invalidBufferSize
  return {
    ovk := slice extras 32 32
    targetHeight
    zip212 := zip212ForHeight targetHeight.toUInt64
    inputs := []
    transparentOutputs := []
    saplingOutputs := []
    totalInput := 0
    totalSaplingOutput := 0
    totalTransparentOutput := 0
    finished := none }

def addInput (b : ShieldingTxBuilder) (inputData : Option Bytes) : Result ShieldingTxBuilder := do
  let data ← okOr .nullPtr inputData
  let input ← parseTransparentInput data
  let totalInput ← okOr .saplingError (checkedAdd b.totalInput input.value)
  return { b with totalInput, inputs := b.inputs ++ [input] }

def addOutput (b : ShieldingTxBuilder) (address : Option Bytes) (amount : UInt64)
    (draw : OutputDraw Rng) : Result ShieldingTxBuilder := do
  let addr ← okOr .nullPtr address
  failIf (!isUtf8 addr) .saplingError
  let recipient ← parsePaymentAddress lib addr
  failIf (!lib.outputParams) .saplingError
  let memo := List.replicate 512 0
  let output ← makeOutput lib (some b.ovk) recipient amount memo b.zip212 draw
  let totalSaplingOutput ← okOr .saplingError (checkedAdd b.totalSaplingOutput amount)
  return { b with totalSaplingOutput, saplingOutputs := b.saplingOutputs ++ [output] }

def addTransparentOutput (b : ShieldingTxBuilder) (address : Option Bytes) (amount : UInt64) :
    Result ShieldingTxBuilder := do
  let addr ← okOr .nullPtr address
  failIf (!isUtf8 addr) .addressError
  let pubkeyHash ← parseTransparentAddress lib addr
  let scriptPubkey := buildP2pkhScriptPubkey pubkeyHash
  let totalTransparentOutput ← okOr .saplingError (checkedAdd b.totalTransparentOutput amount)
  return { b with
    totalTransparentOutput
    transparentOutputs := b.transparentOutputs ++ [{ value := amount, scriptPubkey }] }

/-- The builder after it has built, the digests to sign for its inputs, and their number. -/
def build (b : ShieldingTxBuilder) (outSighashes outCount : Option Unit) :
    Result (ShieldingTxBuilder × Bytes × UInt32) := do
  okOr .nullPtr outSighashes
  okOr .nullPtr outCount
  failIf (b.inputs.isEmpty || b.saplingOutputs.isEmpty) .saplingError
  let totalOut ← okOr .saplingError (checkedAdd b.totalSaplingOutput b.totalTransparentOutput)
  failIf (b.totalInput ≤ totalOut) .saplingError
  let valueBalance := -b.totalSaplingOutput.toInt64
  let consensusBranchId := branchIdForHeight b.targetHeight
  let expiryHeight := b.targetHeight + 40
  let sighash := computeShieldingSighash lib b.inputs b.transparentOutputs b.saplingOutputs
    valueBalance consensusBranchId expiryHeight
  let perInputSighashes := b.inputs.map fun input => sighash (some input)
  -- the lists are taken out, the totals stay
  return ({ b with
    inputs := []
    transparentOutputs := []
    saplingOutputs := []
    finished := some {
      inputs := b.inputs
      transparentOutputs := b.transparentOutputs
      saplingOutputs := b.saplingOutputs
      valueBalance, consensusBranchId, expiryHeight
      txidSighash := sighash none } }, perInputSighashes.flatten, .ofNat b.inputs.length)

end ShieldingTxBuilder

end Sapling
