import FrostZm.Frozt.Tx

/-!
# The signature digest of ZIP 244

What a verifier computes for a version 5 transaction without Orchard actions and lock time, over
any personalised hash. The builders' own digests are compared with this one.
-/

namespace Zip244

structure TxIn where
  prevout : Bytes
  value : UInt64
  scriptPubkey : Bytes
  nSequence : UInt32

structure TxOut where
  value : UInt64
  scriptPubkey : Bytes

structure SpendDescription where
  cv : Bytes
  nullifier : Bytes
  rk : Bytes

structure OutputDescription where
  cv : Bytes
  cmu : Bytes
  ephemeralKey : Bytes
  encCiphertext : Bytes
  outCiphertext : Bytes

/-- All spends of a version 5 transaction share one anchor. -/
structure Tx where
  consensusBranchId : UInt32
  expiryHeight : UInt32
  txIns : List TxIn
  txOuts : List TxOut
  spends : List SpendDescription
  anchor : Bytes
  outputs : List OutputDescription
  valueBalance : Int64

def compactSize (n : Nat) : Bytes :=
  if n < 253 then [.ofNat n]
  else if n ≤ 0xFFFF then 253 :: u16ToLeBytes (.ofNat n)
  else if n ≤ 0xFFFFFFFF then 254 :: u32ToLeBytes (.ofNat n)
  else 255 :: u64ToLeBytes (.ofNat n)

def script (s : Bytes) : Bytes := compactSize s.length ++ s

variable (hash : Bytes → Bytes → Bytes) (tx : Tx)

/-! ## Header -/

def headerDigest : Bytes :=
  hash (ascii "ZTxIdHeadersHash")
    (u32ToLeBytes 0x80000005 ++ u32ToLeBytes 0x26A7270A ++ u32ToLeBytes tx.consensusBranchId ++
      u32ToLeBytes 0 ++ u32ToLeBytes tx.expiryHeight)

/-! ## Transparent parts -/

def prevoutsDigest : Bytes := hash (ascii "ZTxIdPrevoutHash") (tx.txIns.flatMap (·.prevout))

def sequenceDigest : Bytes :=
  hash (ascii "ZTxIdSequencHash") (tx.txIns.flatMap fun i => u32ToLeBytes i.nSequence)

def outputsDigest : Bytes :=
  hash (ascii "ZTxIdOutputsHash")
    (tx.txOuts.flatMap fun o => u64ToLeBytes o.value ++ script o.scriptPubkey)

def transparentDigest : Bytes :=
  hash (ascii "ZTxIdTranspaHash")
    (if tx.txIns = [] ∧ tx.txOuts = [] then []
    else prevoutsDigest hash tx ++ sequenceDigest hash tx ++ outputsDigest hash tx)

def amountsSigDigest : Bytes :=
  hash (ascii "ZTxTrAmountsHash") (tx.txIns.flatMap fun i => u64ToLeBytes i.value)

def scriptpubkeysSigDigest : Bytes :=
  hash (ascii "ZTxTrScriptsHash") (tx.txIns.flatMap fun i => script i.scriptPubkey)

/-- Of the input that is signed for; a shielded signature has none. -/
def txinSigDigest (input : Option TxIn) : Bytes :=
  hash (ascii "Zcash___TxInHash")
    (match input with
    | none => []
    | some i => i.prevout ++ u64ToLeBytes i.value ++ script i.scriptPubkey ++ u32ToLeBytes i.nSequence)

def transparentSigDigest (input : Option TxIn) : Bytes :=
  if tx.txIns = [] then transparentDigest hash tx
  else
    -- the hash type is SIGHASH_ALL
    hash (ascii "ZTxIdTranspaHash")
      (0x01 :: prevoutsDigest hash tx ++ amountsSigDigest hash tx ++ scriptpubkeysSigDigest hash tx ++
        sequenceDigest hash tx ++ outputsDigest hash tx ++ txinSigDigest hash input)

/-! ## Sapling parts -/

def saplingSpendsDigest : Bytes :=
  hash (ascii "ZTxIdSSpendsHash")
    (if tx.spends = [] then []
    else
      hash (ascii "ZTxIdSSpendCHash") (tx.spends.flatMap (·.nullifier)) ++
        hash (ascii "ZTxIdSSpendNHash") (tx.spends.flatMap fun s => s.cv ++ tx.anchor ++ s.rk))

def saplingOutputsDigest : Bytes :=
  hash (ascii "ZTxIdSOutputHash")
    (if tx.outputs = [] then []
    else
      hash (ascii "ZTxIdSOutC__Hash")
          (tx.outputs.flatMap fun o => o.cmu ++ o.ephemeralKey ++ o.encCiphertext.take 52) ++
        hash (ascii "ZTxIdSOutM__Hash") (tx.outputs.flatMap fun o => slice o.encCiphertext 52 512) ++
        hash (ascii "ZTxIdSOutN__Hash")
          (tx.outputs.flatMap fun o => o.cv ++ o.encCiphertext.drop 564 ++ o.outCiphertext))

def saplingDigest : Bytes :=
  hash (ascii "ZTxIdSaplingHash")
    (if tx.spends = [] ∧ tx.outputs = [] then []
    else saplingSpendsDigest hash tx ++ saplingOutputsDigest hash tx ++ i64ToLeBytes tx.valueBalance)

def orchardDigest : Bytes := hash (ascii "ZTxIdOrchardHash") []

/-! ## The whole -/

/-- The digest that a signature for this input signs, or a shielded signature. -/
def signatureDigest (input : Option TxIn) : Bytes :=
  hash (ascii "ZcashTxHash_" ++ u32ToLeBytes tx.consensusBranchId)
    (headerDigest hash tx ++ transparentSigDigest hash tx input ++ saplingDigest hash tx ++
      orchardDigest hash)

end Zip244
