import FrostZm.Frozt.Tx

/-!
# A Sapling library that computes

Value commitments hold the value and the trapdoor, every proof succeeds, and every address of
43 bytes is taken. It satisfies `SaplingLib.Documented`.
-/

namespace Reference

open Sapling

def sapling : SaplingLib Unit Unit where
  blake2b personal data := personal ++ data
  scalarFromRepr b := some b
  baseFromRepr b := some b
  valueCommitment value rcv := u64ToLeBytes value ++ rcv
  toPaymentAddress _ diversifier := some (diversifier ++ List.replicate 32 0)
  paymentAddressFromBytes b := some b
  bech32Decode b := some (ascii "zs", List.replicate (43 - b.length) 0 ++ b)
  unifiedDecode _ := none
  base58CheckDecode b := some b
  cmu note := u64ToLeBytes note.value
  nf note nk _ := u64ToLeBytes note.value ++ nk
  randomize ak alpha := ak ++ alpha
  deserializeWitness _ := .ok ()
  path _ := some { position := 0, authPath := [] }
  merkleRoot _ cmu := cmu
  spendParams := true
  outputParams := true
  proveSpend _ _ _ _ _ _ _ := some []
  proveOutput _ _ _ _ := []
  encryptNote _ _ _ _ _ _ := { esk := [], ephemeralKey := [], encCiphertext := [], outCiphertext := [] }

theorem sapling_documented : sapling.Documented where
  valueCommitment_injective v w rcv h := by
    have hvw : u64ToLeBytes v = u64ToLeBytes w := List.append_cancel_right h
    rw [← u64FromLeBytes_toLeBytes v, hvw, u64FromLeBytes_toLeBytes]

end Reference
