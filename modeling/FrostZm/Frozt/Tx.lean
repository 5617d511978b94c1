import FrostZm.Ffi.Codec

/-!
# The Sapling transaction builder

`TxBuilder` collects spends and outputs with their running totals; `build` moves both lists
out into the state over which the signature hash is taken. Integers are those of a release
build: they wrap.
-/

def i64ToLeBytes (n : Int64) : Bytes := u64ToLeBytes n.toUInt64

namespace Sapling

inductive Zip212Enforcement where
  | off
  | gracePeriod
  | on
deriving DecidableEq

inductive Rseed where
  | beforeZip212 (rcm : Bytes)
  | afterZip212 (rseed : Bytes)
deriving DecidableEq

structure Note where
  recipient : Bytes
  value : UInt64
  rseed : Rseed

structure FullViewingKey where
  ak : Bytes
  nk : Bytes
  ovk : Bytes

structure ProofGenerationKey where
  ak : Bytes
  nsk : Bytes

structure MerklePath where
  position : UInt64
  authPath : List Bytes

inductive NetworkType where
  | main
  | test
  | regtest
deriving DecidableEq

/-- A receiver of a unified address. -/
inductive Receiver where
  | sapling (bytes : Bytes)
  | other (bytes : Bytes)

/-- What `sapling_note_encryption` gives for one output. -/
structure EncryptedNote where
  esk : Bytes
  ephemeralKey : Bytes
  encCiphertext : Bytes
  outCiphertext : Bytes

end Sapling

open Sapling

/-- What the builders call in the Sapling and address libraries. Points and scalars stand for
themselves as their encodings. -/
structure SaplingLib (Rng Witness : Type) where
  /-- Personalisation and data to 32 bytes. -/
  blake2b : Bytes → Bytes → Bytes
  /-- `jubjub::Fr::from_repr`. -/
  scalarFromRepr : Bytes → Option Bytes
  /-- `bls12_381::Scalar::from_repr`. -/
  baseFromRepr : Bytes → Option Bytes
  /-- `ValueCommitment::derive`. -/
  valueCommitment : UInt64 → Bytes → Bytes
  toPaymentAddress : FullViewingKey → Bytes → Option Bytes
  paymentAddressFromBytes : Bytes → Option Bytes
  bech32Decode : Bytes → Option (Bytes × Bytes)
  unifiedDecode : Bytes → Option (NetworkType × List Receiver)
  base58CheckDecode : Bytes → Option Bytes
  cmu : Note → Bytes
  nf : Note → Bytes → UInt64 → Bytes
  randomize : Bytes → Bytes → Bytes
  deserializeWitness : Bytes → Result Witness
  path : Witness → Option MerklePath
  merkleRoot : MerklePath → Bytes → Bytes
  /-- The parameter files are there. -/
  spendParams : Bool
  outputParams : Bool
  proveSpend : ProofGenerationKey → Note → Bytes → Bytes → Bytes → MerklePath → Rng → Option Bytes
  proveOutput : Bytes → Note → Bytes → Rng → Bytes
  encryptNote : Option Bytes → Note → Bytes → Bytes → Bytes → Rng → EncryptedNote

/-- A value commitment binds: with one trapdoor, different values have different ones. -/
structure SaplingLib.Documented {Rng Witness : Type} (lib : SaplingLib Rng Witness) : Prop where
  valueCommitment_injective : ∀ v w rcv, lib.valueCommitment v rcv = lib.valueCommitment w rcv →
    v = w

namespace Sapling

variable {Rng Witness : Type} (lib : SaplingLib Rng Witness)

def zip212ForHeight (height : UInt64) : Zip212Enforcement :=
  if 1687104 ≤ height then .on
  else if 903000 ≤ height then .gracePeriod
  else .off

/-- `std::str::from_utf8` accepts these bytes. -/
def isUtf8 (b : Bytes) : Bool := (ByteArray.mk b.toArray).validateUTF8

/-! ## Addresses -/

/-- The loop of `parse_unified_address`: the first Sapling receiver decides. -/
def saplingReceiver : List Receiver → Result Bytes
  | [] => .error LibError.saplingError
  | .sapling bytes :: _ => okOr .saplingError (lib.paymentAddressFromBytes bytes)
  | .other _ :: rest => saplingReceiver rest

def parseUnifiedAddress (addr : Bytes) : Result Bytes := do
  let (network, items) ← okOr .saplingError (lib.unifiedDecode addr)
  failIf (network ≠ .main) .saplingError
  saplingReceiver lib items

def parsePaymentAddress (addr : Bytes) : Result Bytes := do
  if (ascii "u1").isPrefixOf addr then
    parseUnifiedAddress lib addr
  else
    let (hrp, data) ← okOr .saplingError (lib.bech32Decode addr)
    failIf (hrp ≠ ascii "zs") .saplingError
    failIf (data.length ≠ 43) .saplingError
    okOr .saplingError (lib.paymentAddressFromBytes data)

def branchIdForHeight (height : UInt32) : UInt32 :=
  if 3146400 ≤ height then 0x4dec4df0
  else if 2726400 ≤ height then 0xc8e71055
  else 0xc2d6d0b4

/-! ## Spends and outputs -/

structure SpendParts where
  cv : Bytes
  anchor : Bytes
  nullifier : Bytes
  rk : Bytes
  zkproof : Bytes
  rcv : Bytes

structure OutputParts where
  cv : Bytes
  cmu : Bytes
  ephemeralKey : Bytes
  encCiphertext : Bytes
  outCiphertext : Bytes
  zkproof : Bytes
  rcv : Bytes

/-- What `thread_rng` gives to one spend. -/
structure SpendDraw (Rng : Type) where
  alpha : Bytes
  rcv : Bytes
  rng : Rng

/-- What `thread_rng` gives to one output. -/
structure OutputDraw (Rng : Type) where
  rseed : Bytes
  rcv : Bytes
  rng : Rng

def makeSpend (pgk : ProofGenerationKey) (fvk : FullViewingKey) (note : Note)
    (merklePath : MerklePath) (draw : SpendDraw Rng) : Result SpendParts := do
  let rcv := draw.rcv
  let cv := lib.valueCommitment note.value rcv
  let rk := lib.randomize fvk.ak draw.alpha
  let nullifier := lib.nf note fvk.nk merklePath.position
  let anchorBytes := lib.merkleRoot merklePath (lib.cmu note)
  let anchor ← okOr .saplingError (lib.baseFromRepr anchorBytes)
  let zkproof ← okOr .saplingError
    (lib.proveSpend pgk note draw.alpha rcv anchor merklePath draw.rng)
  return { cv, anchor, nullifier, rk, zkproof, rcv }

def makeOutput (ovk : Option Bytes) (recipient : Bytes) (value : UInt64) (memo : Bytes)
    (zip212 : Zip212Enforcement) (draw : OutputDraw Rng) : Result OutputParts :=
  let rseed := match zip212 with
    | .on => Rseed.afterZip212 draw.rseed
    | _ => Rseed.beforeZip212 draw.rseed
  let note := { recipient, value, rseed }
  let rcv := draw.rcv
  let cv := lib.valueCommitment value rcv
  let cmu := lib.cmu note
  let ne := lib.encryptNote ovk note memo cv cmu draw.rng
  .ok {
    cv, cmu, rcv
    ephemeralKey := ne.ephemeralKey
    encCiphertext := ne.encCiphertext
    outCiphertext := ne.outCiphertext
    zkproof := lib.proveOutput ne.esk note rcv draw.rng }

/-! ## The signature hash -/

def hashHeader (consensusBranchId expiryHeight : UInt32) : Bytes :=
  lib.blake2b (ascii "ZTxIdHeadersHash")
    (u32ToLeBytes 0x80000005 ++ u32ToLeBytes 0x26A7270A ++ u32ToLeBytes consensusBranchId ++
      u32ToLeBytes 0 ++ u32ToLeBytes expiryHeight)

def hashEmptyTransparent : Bytes := lib.blake2b (ascii "ZTxIdTranspaHash") []

def hashEmptyOrchard : Bytes := lib.blake2b (ascii "ZTxIdOrchardHash") []

def hashSpends (spends : List SpendParts) : Bytes :=
  lib.blake2b (ascii "ZTxIdSSpendsHash")
    (lib.blake2b (ascii "ZTxIdSSpendCHash") (spends.flatMap (·.nullifier)) ++
      lib.blake2b (ascii "ZTxIdSSpendNHash") (spends.flatMap fun s => s.cv ++ s.anchor ++ s.rk))

def hashOutputs (outputs : List OutputParts) : Bytes :=
  lib.blake2b (ascii "ZTxIdSOutputHash")
    (lib.blake2b (ascii "ZTxIdSOutC__Hash")
        (outputs.flatMap fun o => o.cmu ++ o.ephemeralKey ++ o.encCiphertext.take 52) ++
      lib.blake2b (ascii "ZTxIdSOutM__Hash") (outputs.flatMap fun o => slice o.encCiphertext 52 512) ++
      lib.blake2b (ascii "ZTxIdSOutN__Hash")
        (outputs.flatMap fun o => o.cv ++ o.encCiphertext.drop 564 ++ o.outCiphertext))

def hashSapling (spends : List SpendParts) (outputs : List OutputParts) (valueBalance : Int64) :
    Bytes :=
  if spends.isEmpty && outputs.isEmpty then lib.blake2b (ascii "ZTxIdSaplingHash") []
  else
    lib.blake2b (ascii "ZTxIdSaplingHash")
      (hashSpends lib spends ++ hashOutputs lib outputs ++ i64ToLeBytes valueBalance)

def txHashPersonal (consensusBranchId : UInt32) : Bytes :=
  ascii "ZcashTxHash_" ++ u32ToLeBytes consensusBranchId

def computeV5Sighash (spends : List SpendParts) (outputs : List OutputParts) (valueBalance : Int64)
    (consensusBranchId expiryHeight : UInt32) : Bytes :=
  lib.blake2b (txHashPersonal consensusBranchId)
    (hashHeader lib consensusBranchId expiryHeight ++ hashEmptyTransparent lib ++
      hashSapling lib spends outputs valueBalance ++ hashEmptyOrchard lib)

/-! ## The builder -/

def maxFeeZatoshis : UInt64 := 1000000

structure TxBuildState where
  spends : List SpendParts
  outputs : List OutputParts
  valueBalance : Int64
  consensusBranchId : UInt32
  expiryHeight : UInt32
  sighash : Bytes

structure TxBuilder where
  fvk : FullViewingKey
  pgk : ProofGenerationKey
  ovk : Bytes
  targetHeight : UInt32
  zip212 : Zip212Enforcement
  spends : List SpendParts
  outputs : List OutputParts
  alphas : List Bytes
  totalInput : UInt64
  totalOutput : UInt64
  finished : Option TxBuildState

namespace TxBuilder

/-- The builder that `build_tx_builder` returns for its derived keys. -/
def new (fvk : FullViewingKey) (nsk : Bytes) (targetHeight : UInt32) : TxBuilder where
  fvk := fvk
  pgk := { ak := fvk.ak, nsk }
  ovk := fvk.ovk
  targetHeight := targetHeight
  zip212 := zip212ForHeight targetHeight.toUInt64
  spends := []
  outputs := []
  alphas := []
  totalInput := 0
  totalOutput := 0
  finished := none

def rseedOf (b : TxBuilder) (rseedBytes : Bytes) : Result Rseed :=
  match b.zip212 with
  | .on => .ok (.afterZip212 rseedBytes)
  | _ => Rseed.beforeZip212 <$> okOr .saplingError (lib.scalarFromRepr rseedBytes)

/-- The note behind 51 bytes of note data. -/
def noteOf (b : TxBuilder) (noteData : Bytes) : Result Note := do
  let diversifier := slice noteData 0 11
  let value := u64FromLeBytes (slice noteData 11 8)
  let rseedBytes := slice noteData 19 32
  let rseed ← b.rseedOf lib rseedBytes
  let recipient ← okOr .saplingError (lib.toPaymentAddress b.fvk diversifier)
  return { recipient, value, rseed }

def addSpend (b : TxBuilder) (noteData witnessData : Option Bytes) (outAlpha : Option Unit)
    (draw : SpendDraw Rng) : Result (TxBuilder × Bytes) := do
  let noteData ← okOr .nullPtr noteData
  let witnessData ← okOr .nullPtr witnessData
  okOr .nullPtr outAlpha
  failIf (noteData.length ≠ 51) .invalidBufferSize
  let note ← b.noteOf lib noteData
  let witness ← lib.deserializeWitness witnessData
  let merklePath ← okOr .saplingError (lib.path witness)
  failIf (!lib.spendParams) .saplingError
  let spend ← makeSpend lib b.pgk b.fvk note merklePath draw
  return ({ b with
    totalInput := b.totalInput + note.value
    spends := b.spends ++ [spend]
    alphas := b.alphas ++ [draw.alpha] }, draw.alpha)

def addOutput (b : TxBuilder) (address : Option Bytes) (amount : UInt64) (draw : OutputDraw Rng) :
    Result TxBuilder := do
  let addr ← okOr .nullPtr address
  failIf (!isUtf8 addr) .serializationError
  let recipient ← parsePaymentAddress lib addr
  failIf (!lib.outputParams) .saplingError
  let memo := List.replicate 512 0
  let output ← makeOutput lib (some b.ovk) recipient amount memo b.zip212 draw
  return { b with
    totalOutput := b.totalOutput + amount
    outputs := b.outputs ++ [output] }

def build (b : TxBuilder) (outSighash : Option Unit) : Result (TxBuilder × Bytes) := do
  okOr .nullPtr outSighash
  failIf (b.spends.isEmpty) .saplingError
  failIf (b.totalOutput > b.totalInput) .saplingError
  let fee := b.totalInput - b.totalOutput
  failIf (fee > maxFeeZatoshis) .saplingError
  let valueBalance := fee.toInt64
  let consensusBranchId := branchIdForHeight b.targetHeight
  let expiryHeight := b.targetHeight + 100
  let sighash := computeV5Sighash lib b.spends b.outputs valueBalance consensusBranchId expiryHeight
  -- the lists are taken out, the totals stay
  return ({ b with
    spends := []
    outputs := []
    finished := some {
      spends := b.spends
      outputs := b.outputs
      valueBalance, consensusBranchId, expiryHeight, sighash } }, sighash)

end TxBuilder

end Sapling
