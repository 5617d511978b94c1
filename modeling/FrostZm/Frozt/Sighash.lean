import FrostZm.Frozt.Complete
import FrostZm.Frozt.ShieldingBalance
import FrostZm.Frozt.Zip244

/-!
# The digests that the builders sign

Both builders compute the tree of ZIP 244 themselves. The tree of the Sapling builder is right
unless it hashes an empty list of outputs, or spends with different anchors; that of the shielding
builder always hashes an empty list of spends.
-/

/-- Digests end by themselves, no two inputs have the same, and anchors have 32 bytes. -/
structure SaplingLib.Digests {Rng Witness : Type} (lib : SaplingLib Rng Witness) : Prop where
  blake2b_append : ∀ p d q e x y, lib.blake2b p d ++ x = lib.blake2b q e ++ y →
    p = q ∧ d = e ∧ x = y
  length_baseFromRepr : ∀ b a, lib.baseFromRepr b = some a → a.length = 32

namespace SaplingLib.Digests

variable {Rng Witness : Type} {lib : SaplingLib Rng Witness}

theorem blake2b_eq_iff (doc : lib.Digests) {p d e : Bytes} :
    lib.blake2b p d = lib.blake2b p e ↔ d = e := by
  constructor
  · intro h
    exact (doc.blake2b_append p d p e [] [] (by rw [h])).2.1
  · rintro rfl
    rfl

theorem append_eq_iff (doc : lib.Digests) {p d e x y : Bytes} :
    lib.blake2b p d ++ x = lib.blake2b p e ++ y ↔ d = e ∧ x = y := by
  constructor
  · intro h
    exact (doc.blake2b_append p d p e x y h).2
  · rintro ⟨rfl, rfl⟩
    rfl

theorem blake2b_ne_nil (doc : lib.Digests) (p d : Bytes) : lib.blake2b p d ≠ [] := by
  intro h
  have heq : lib.blake2b p d ++ lib.blake2b p (0 :: d) = lib.blake2b p (0 :: d) ++ [] := by
    rw [h, List.nil_append, List.append_nil]
  exact List.cons_ne_self 0 d (doc.blake2b_append _ _ _ _ _ _ heq).2.1.symm

theorem tree_eq_iff (doc : lib.Digests) {p q t t' s s' h o : Bytes} {d d' e e' : Bytes}
    (ht : t = lib.blake2b q d) (ht' : t' = lib.blake2b q d') (hs : s = lib.blake2b p e)
    (hs' : s' = lib.blake2b p e') {personal : Bytes} :
    lib.blake2b personal (h ++ t ++ s ++ o) = lib.blake2b personal (h ++ t' ++ s' ++ o) ↔
      t = t' ∧ s = s' := by
  rw [doc.blake2b_eq_iff, List.append_cancel_right_eq, List.append_assoc, List.append_assoc,
    List.append_cancel_left_eq, ht, ht', hs, hs', doc.append_eq_iff]
  simp only [doc.blake2b_eq_iff]

end SaplingLib.Digests

namespace Sapling

variable {Rng Witness : Type} (lib : SaplingLib Rng Witness)

/-! ## Transactions -/

def SpendParts.description (s : SpendParts) : Zip244.SpendDescription := ⟨s.cv, s.nullifier, s.rk⟩

def OutputParts.description (o : OutputParts) : Zip244.OutputDescription :=
  ⟨o.cv, o.cmu, o.ephemeralKey, o.encCiphertext, o.outCiphertext⟩

def TransparentInput.txIn (i : TransparentInput) : Zip244.TxIn :=
  ⟨i.prevTxid ++ u32ToLeBytes i.vout, i.value, i.scriptPubkey, sequence⟩

def TransparentOutput.txOut (o : TransparentOutput) : Zip244.TxOut := ⟨o.value, o.scriptPubkey⟩

/-- The anchor that is written: that of the first spend. -/
def anchorOf : List SpendParts → Bytes
  | [] => []
  | spend :: _ => spend.anchor

def SaplingTx.zip244 (tx : SaplingTx) : Zip244.Tx where
  consensusBranchId := tx.consensusBranchId
  expiryHeight := tx.expiryHeight
  txIns := []
  txOuts := []
  spends := tx.spends.map SpendParts.description
  anchor := anchorOf tx.spends
  outputs := tx.outputs.map OutputParts.description
  valueBalance := tx.valueBalance

def ShieldingTx.zip244 (tx : ShieldingTx) : Zip244.Tx where
  consensusBranchId := tx.consensusBranchId
  expiryHeight := tx.expiryHeight
  txIns := tx.inputs.map TransparentInput.txIn
  txOuts := tx.transparentOutputs.map TransparentOutput.txOut
  spends := []
  anchor := []
  outputs := tx.saplingOutputs.map OutputParts.description
  valueBalance := tx.valueBalance

/-! ## Digests -/

variable {lib}

/-! ## Sapling lists -/

/-- The spends all have the anchor that is written. -/
def OneAnchor (spends : List SpendParts) : Prop := ∀ s ∈ spends, s.anchor = anchorOf spends

theorem flatMap_anchor_iff {spends : List SpendParts} {anchor : Bytes}
    (hlen : ∀ s ∈ spends, s.anchor.length = anchor.length) :
    (spends.flatMap fun s => s.cv ++ s.anchor ++ s.rk) =
      (spends.flatMap fun s => s.cv ++ anchor ++ s.rk) ↔ ∀ s ∈ spends, s.anchor = anchor := by
  induction spends with
  | nil => simp
  | cons s rest ih =>
    rw [List.forall_mem_cons] at hlen ⊢
    rw [List.flatMap_cons, List.flatMap_cons, ← ih hlen.2]
    simp only [List.append_assoc, List.append_cancel_left_eq]
    constructor
    · intro h
      obtain ⟨hanchor, h⟩ := List.append_inj h hlen.1
      exact ⟨hanchor, List.append_cancel_left h⟩
    · rintro ⟨hanchor, h⟩
      rw [hanchor, h]

theorem hashSpends_eq_iff (doc : lib.Digests) {spends : List SpendParts} {tx : Zip244.Tx}
    (hne : spends ≠ []) (hlen : ∀ s ∈ spends, s.anchor.length = 32)
    (hspends : tx.spends = spends.map SpendParts.description) (hanchor : tx.anchor = anchorOf spends) :
    hashSpends lib spends = Zip244.saplingSpendsDigest lib.blake2b tx ↔ OneAnchor spends := by
  have hanchorlen : ∀ s ∈ spends, s.anchor.length = (anchorOf spends).length := by
    intro s hs
    rw [hlen s hs]
    cases spends with
    | nil => exact absurd rfl hne
    | cons first rest => exact (hlen first List.mem_cons_self).symm
  unfold hashSpends Zip244.saplingSpendsDigest OneAnchor
  rw [hspends, hanchor, if_neg (by simpa using hne), doc.blake2b_eq_iff, doc.append_eq_iff,
    doc.blake2b_eq_iff, ← flatMap_anchor_iff hanchorlen, List.flatMap_map, List.flatMap_map]
  exact and_iff_right rfl

theorem hashOutputs_eq_iff (doc : lib.Digests) {outputs : List OutputParts} {tx : Zip244.Tx}
    (houtputs : tx.outputs = outputs.map OutputParts.description) :
    hashOutputs lib outputs = Zip244.saplingOutputsDigest lib.blake2b tx ↔ outputs ≠ [] := by
  unfold hashOutputs Zip244.saplingOutputsDigest
  rw [houtputs, doc.blake2b_eq_iff]
  by_cases h : outputs = []
  · rw [if_pos (by simp [h])]
    simp [h, doc.blake2b_ne_nil]
  · rw [if_neg (by simpa using h)]
    simp only [List.flatMap_map, ne_eq, h, not_false_eq_true, iff_true]
    rfl

theorem hashSpends_nil_ne (doc : lib.Digests) {tx : Zip244.Tx} (hspends : tx.spends = []) :
    hashSpends lib [] ≠ Zip244.saplingSpendsDigest lib.blake2b tx := by
  unfold hashSpends Zip244.saplingSpendsDigest
  rw [ne_eq, doc.blake2b_eq_iff, if_pos hspends]
  simp [doc.blake2b_ne_nil]

/-! ## The Sapling builder -/

theorem hashSapling_eq_iff (doc : lib.Digests) {tx : SaplingTx} (hne : tx.spends ≠ [])
    (hlen : ∀ s ∈ tx.spends, s.anchor.length = 32) :
    hashSapling lib tx.spends tx.outputs tx.valueBalance =
      Zip244.saplingDigest lib.blake2b tx.zip244 ↔ OneAnchor tx.spends ∧ tx.outputs ≠ [] := by
  have hspends : hashSpends lib tx.spends = Zip244.saplingSpendsDigest lib.blake2b tx.zip244 ↔
      OneAnchor tx.spends := hashSpends_eq_iff doc hne hlen rfl rfl
  have houtputs : hashOutputs lib tx.outputs = Zip244.saplingOutputsDigest lib.blake2b tx.zip244 ↔
      tx.outputs ≠ [] := hashOutputs_eq_iff doc rfl
  have hnone : ¬ (tx.zip244.spends = [] ∧ tx.zip244.outputs = []) := by
    rintro ⟨h, -⟩
    exact hne (List.map_eq_nil_iff.mp h)
  unfold hashSapling Zip244.saplingDigest
  rw [if_neg (by simp [hne]), if_neg hnone, doc.blake2b_eq_iff, ← hspends, ← houtputs,
    List.append_assoc, List.append_assoc]
  unfold hashSpends Zip244.saplingSpendsDigest hashOutputs Zip244.saplingOutputsDigest
  rw [doc.append_eq_iff, doc.append_eq_iff, doc.blake2b_eq_iff, doc.blake2b_eq_iff]
  simp only [SaplingTx.zip244, and_true]

variable (lib) in
theorem exists_hashSapling (spends : List SpendParts) (outputs : List OutputParts)
    (valueBalance : Int64) :
    ∃ d, hashSapling lib spends outputs valueBalance = lib.blake2b (ascii "ZTxIdSaplingHash") d := by
  unfold hashSapling
  split <;> exact ⟨_, rfl⟩

theorem computeV5Sighash_eq_iff (doc : lib.Digests) {tx : SaplingTx} (hne : tx.spends ≠ [])
    (hlen : ∀ s ∈ tx.spends, s.anchor.length = 32) :
    computeV5Sighash lib tx.spends tx.outputs tx.valueBalance tx.consensusBranchId tx.expiryHeight =
      Zip244.signatureDigest lib.blake2b tx.zip244 none ↔
      OneAnchor tx.spends ∧ tx.outputs ≠ [] := by
  obtain ⟨d, hd⟩ := exists_hashSapling lib tx.spends tx.outputs tx.valueBalance
  rw [← hashSapling_eq_iff doc hne hlen]
  -- the transparent parts of both are those of a transaction without any
  exact (doc.tree_eq_iff rfl rfl hd rfl).trans (and_iff_right rfl)

/-- All anchors of the builder have 32 bytes. -/
def AnchorsFit (b : TxBuilder) : Prop := ∀ s ∈ b.spends, s.anchor.length = 32

theorem length_anchor (doc : lib.Digests) {pgk : ProofGenerationKey} {fvk : FullViewingKey}
    {note : Note} {merklePath : MerklePath} {draw : SpendDraw Rng} {spend : SpendParts}
    (h : makeSpend lib pgk fvk note merklePath draw = .ok spend) : spend.anchor.length = 32 := by
  unfold makeSpend at h
  obtain ⟨anchor, hanchor, h⟩ := bind_eq_ok.mp h
  obtain ⟨zkproof, -, h⟩ := bind_eq_ok.mp h
  obtain rfl := Except.ok.inj h
  exact doc.length_baseFromRepr _ _ (okOr_eq_ok.mp hanchor)

theorem addSpend_spends (doc : lib.Digests) {b b' : TxBuilder} {noteData witnessData : Option Bytes}
    {outAlpha : Option Unit} {draw : SpendDraw Rng} {alpha : Bytes}
    (h : b.addSpend lib noteData witnessData outAlpha draw = .ok (b', alpha)) :
    ∃ spend : SpendParts, spend.anchor.length = 32 ∧ b'.spends = b.spends ++ [spend] := by
  unfold TxBuilder.addSpend at h
  obtain ⟨data, -, h⟩ := bind_eq_ok.mp h
  obtain ⟨_, -, h⟩ := bind_eq_ok.mp h
  obtain ⟨_, -, h⟩ := bind_eq_ok.mp h
  obtain ⟨_, -, h⟩ := bind_eq_ok.mp h
  obtain ⟨note, -, h⟩ := bind_eq_ok.mp h
  obtain ⟨_, -, h⟩ := bind_eq_ok.mp h
  obtain ⟨_, -, h⟩ := bind_eq_ok.mp h
  obtain ⟨_, -, h⟩ := bind_eq_ok.mp h
  obtain ⟨spend, hspend, h⟩ := bind_eq_ok.mp h
  obtain ⟨rfl, -⟩ := Prod.mk.inj (Except.ok.inj h)
  exact ⟨spend, length_anchor doc hspend, rfl⟩

theorem anchorsFit_step (doc : lib.Digests) {b b' : TxBuilder} {c : TxBuilder.Call Rng}
    (hb : AnchorsFit b) (h : b.step lib c = some b') : AnchorsFit b' := by
  unfold TxBuilder.step at h
  split at h
  · next b₁ hb₁ =>
    obtain rfl := Option.some.inj h
    cases c with
    | addSpend noteData witnessData outAlpha draw =>
      obtain ⟨⟨b₂, alpha⟩, hcall, rfl⟩ := map_eq_ok.mp hb₁
      obtain ⟨spend, hlen, hspends⟩ := addSpend_spends doc hcall
      intro s hs
      rw [hspends, List.mem_append, List.mem_singleton] at hs
      rcases hs with hs | rfl
      · exact hb s hs
      · exact hlen
    | addOutput address amount draw =>
      obtain ⟨_, -, rfl⟩ := TxBuilder.addOutput_ok hb₁
      exact hb
    | build outSighash =>
      obtain ⟨⟨b₂, sighash⟩, hcall, rfl⟩ := map_eq_ok.mp hb₁
      obtain ⟨-, -, _, -, -, -, rfl⟩ := TxBuilder.build_ok hcall
      exact List.forall_mem_nil _
  · obtain rfl := Option.some.inj h
    exact hb

theorem anchorsFit_run (doc : lib.Digests) {b₀ b : TxBuilder} {calls : List (TxBuilder.Call Rng)}
    (h₀ : b₀.spends = []) (h : Runs.run (TxBuilder.step lib) b₀ calls = some b) : AnchorsFit b := by
  refine Runs.inv_of_run AnchorsFit ?_ (fun _ _ _ => anchorsFit_step doc) h
  intro s hs
  rw [h₀] at hs
  cases hs

theorem completed_of_build {b b' : TxBuilder} {outSighash : Option Unit} {sighash sigData : Bytes}
    {sig : SignLib Rng} {rng : Rng} {tx : SaplingTx} (h : b.build lib outSighash = .ok (b', sighash))
    (htx : b'.completedTx sig sigData rng = .ok tx) :
    b.spends ≠ [] ∧ tx.spends = b.spends ∧ tx.outputs = b.outputs ∧
      sighash = computeV5Sighash lib tx.spends tx.outputs tx.valueBalance tx.consensusBranchId
        tx.expiryHeight := by
  unfold TxBuilder.build at h
  obtain ⟨_, -, h⟩ := bind_eq_ok.mp h
  obtain ⟨_, hne, h⟩ := bind_eq_ok.mp h
  obtain ⟨_, -, h⟩ := bind_eq_ok.mp h
  obtain ⟨_, -, h⟩ := bind_eq_ok.mp h
  obtain ⟨rfl, rfl⟩ := Prod.mk.inj (Except.ok.inj h)
  unfold TxBuilder.completedTx at htx
  obtain ⟨st, hst, htx⟩ := bind_eq_ok.mp htx
  obtain ⟨_, -, htx⟩ := bind_eq_ok.mp htx
  obtain rfl := Except.ok.inj htx
  obtain rfl := Option.some.inj (okOr_eq_ok.mp hst)
  exact ⟨by simpa using hne, rfl, rfl, rfl⟩

/-! ## The shielding builder -/

theorem hashSapling_nil_ne (doc : lib.Digests) {tx : ShieldingTx} (hne : tx.saplingOutputs ≠ []) :
    hashSapling lib [] tx.saplingOutputs tx.valueBalance ≠
      Zip244.saplingDigest lib.blake2b tx.zip244 := by
  have hnone : ¬ (tx.zip244.spends = [] ∧ tx.zip244.outputs = []) := by
    rintro ⟨-, h⟩
    exact hne (List.map_eq_nil_iff.mp h)
  unfold hashSapling Zip244.saplingDigest
  rw [if_neg (by simp [hne]), if_neg hnone, ne_eq, doc.blake2b_eq_iff, List.append_assoc,
    List.append_assoc]
  intro h
  apply hashSpends_nil_ne doc (show tx.zip244.spends = [] from rfl)
  unfold hashSpends Zip244.saplingSpendsDigest at h ⊢
  rw [doc.blake2b_eq_iff]
  exact (doc.append_eq_iff.mp h).1

variable (lib) in
theorem exists_transparentSigDigest (tx : Zip244.Tx) (input : Option Zip244.TxIn) :
    ∃ d, Zip244.transparentSigDigest lib.blake2b tx input =
      lib.blake2b (ascii "ZTxIdTranspaHash") d := by
  unfold Zip244.transparentSigDigest
  split
  · exact ⟨_, rfl⟩
  · exact ⟨_, rfl⟩

variable (lib) in
/-- The digest that the shielding builder takes for an input, or for the binding signature. -/
def ShieldingTx.sighash (tx : ShieldingTx) (input : Option TransparentInput) : Bytes :=
  computeShieldingSighash lib tx.inputs tx.transparentOutputs tx.saplingOutputs tx.valueBalance
    tx.consensusBranchId tx.expiryHeight input

/-- The tree over an empty list of spends is never the one of ZIP 244. -/
theorem shielding_sighash_ne (doc : lib.Digests) {tx : ShieldingTx}
    (hne : tx.saplingOutputs ≠ []) (input : Option TransparentInput) :
    tx.sighash lib input ≠
      Zip244.signatureDigest lib.blake2b tx.zip244 (input.map TransparentInput.txIn) := by
  obtain ⟨d, hd⟩ := exists_hashSapling lib [] tx.saplingOutputs tx.valueBalance
  obtain ⟨t', ht'⟩ := exists_transparentSigDigest lib tx.zip244
    (input.map TransparentInput.txIn)
  intro h
  apply hashSapling_nil_ne doc hne
  cases input with
  | none => exact ((doc.tree_eq_iff rfl ht' hd rfl).mp h).2
  | some input => exact ((doc.tree_eq_iff rfl ht' hd rfl).mp h).2

theorem completed_of_shielding_build {b b' : ShieldingTxBuilder} {outSighashes outCount : Option Unit}
    {sighashes sigData pkData : Bytes} {count : UInt32} {sig : SignLib Rng} {rng : Rng}
    {tx : ShieldingTx} (h : b.build lib outSighashes outCount = .ok (b', sighashes, count))
    (htx : b'.completedTx sig sigData pkData rng = .ok tx) :
    tx.saplingOutputs ≠ [] ∧ tx.inputs = b.inputs ∧
      sighashes = (tx.inputs.map fun input => tx.sighash lib (some input)).flatten ∧
      ∀ st, b'.finished = some st → st.txidSighash = tx.sighash lib none := by
  unfold ShieldingTxBuilder.build at h
  obtain ⟨_, -, h⟩ := bind_eq_ok.mp h
  obtain ⟨_, -, h⟩ := bind_eq_ok.mp h
  obtain ⟨_, hne, h⟩ := bind_eq_ok.mp h
  obtain ⟨_, -, h⟩ := bind_eq_ok.mp h
  obtain ⟨_, -, h⟩ := bind_eq_ok.mp h
  obtain ⟨hb', hout⟩ := Prod.mk.inj (Except.ok.inj h)
  obtain ⟨hsighashes, -⟩ := Prod.mk.inj hout
  subst hb' hsighashes
  unfold ShieldingTxBuilder.completedTx at htx
  obtain ⟨st, hst, htx⟩ := bind_eq_ok.mp htx
  obtain ⟨_, -, htx⟩ := bind_eq_ok.mp htx
  obtain ⟨sigs, -, htx⟩ := bind_eq_ok.mp htx
  obtain rfl := Except.ok.inj htx
  obtain rfl := Option.some.inj (okOr_eq_ok.mp hst)
  rw [failIf_eq_ok] at hne
  refine ⟨?_, rfl, rfl, ?_⟩
  · intro hnil
    exact hne (by simp [show b.saplingOutputs = [] from hnil])
  · rintro st ⟨⟩
    rfl

/-! ## Both builders -/

/-- The Sapling builder signs the digest of its transaction just if there is an output and all
spends have one anchor. The shielding builder never does, for an input or for its binding
signature. -/
theorem sighash_zip244_iff (doc : lib.Digests) {fvk : FullViewingKey} {nsk : Bytes}
    {targetHeight : UInt32} {calls : List (TxBuilder.Call Rng)} {b b' : TxBuilder}
    (hrun : Runs.run (TxBuilder.step lib) (TxBuilder.new fvk nsk targetHeight) calls = some b)
    {outSighash : Option Unit} {sighash : Bytes}
    (hbuild : b.build lib outSighash = .ok (b', sighash))
    {sig : SignLib Rng} {sigData : Bytes} {rng : Rng} {tx : SaplingTx}
    (htx : b'.completedTx sig sigData rng = .ok tx)
    {s s' : ShieldingTxBuilder} {outSighashes outCount : Option Unit} {sighashes : Bytes}
    {count : UInt32} (hbuild' : s.build lib outSighashes outCount = .ok (s', sighashes, count))
    {sigData' pkData : Bytes} {tx' : ShieldingTx}
    (htx' : s'.completedTx sig sigData' pkData rng = .ok tx') :
    (sighash = Zip244.signatureDigest lib.blake2b tx.zip244 none ↔
      OneAnchor b.spends ∧ b.outputs ≠ []) ∧
    sighashes = (tx'.inputs.map fun input => tx'.sighash lib (some input)).flatten ∧
    (∀ st, s'.finished = some st → st.txidSighash = tx'.sighash lib none) ∧
    ∀ input : Option TransparentInput, tx'.sighash lib input ≠
      Zip244.signatureDigest lib.blake2b tx'.zip244 (input.map TransparentInput.txIn) := by
  obtain ⟨hne, hspends, houtputs, hsighash⟩ := completed_of_build hbuild htx
  obtain ⟨hne', -, hsighashes, hbinding⟩ := completed_of_shielding_build hbuild' htx'
  have hlen : ∀ s ∈ tx.spends, s.anchor.length = 32 := by
    rw [hspends]
    exact anchorsFit_run doc rfl hrun
  refine ⟨?_, hsighashes, hbinding, shielding_sighash_ne doc hne'⟩
  rw [hsighash, ← hspends, ← houtputs]
  exact computeV5Sighash_eq_iff doc (hspends ▸ hne) hlen

end Sapling

/-! ## A hash that ends by itself -/

namespace Reference

open Sapling

/-- Every byte behind a one, and a zero at the end. -/
def delimited : Bytes → Bytes
  | [] => [0]
  | b :: rest => 1 :: b :: delimited rest

theorem delimited_append {a b x y : Bytes} (h : delimited a ++ x = delimited b ++ y) :
    a = b ∧ x = y := by
  induction a generalizing b with
  | nil =>
    cases b with
    | nil => exact ⟨rfl, (List.cons.inj h).2⟩
    | cons c rest => exact absurd (List.cons.inj h).1 (by decide)
  | cons c a ih =>
    cases b with
    | nil => exact absurd (List.cons.inj h).1 (by decide)
    | cons d b =>
      obtain ⟨hcd, hrest⟩ := List.cons.inj (List.cons.inj h).2
      obtain ⟨hab, hxy⟩ := ih hrest
      exact ⟨by rw [hcd, hab], hxy⟩

/-- A witness is its root. -/
def digests : SaplingLib Unit Bytes :=
  { sapling with
    blake2b := fun p d => delimited p ++ delimited d
    baseFromRepr := fun b => if b.length = 32 then some b else none
    deserializeWitness := fun b => .ok b
    path := fun root => some ⟨0, [root]⟩
    merkleRoot := fun path _ => path.authPath.flatten }

theorem digests_documented : digests.Digests where
  blake2b_append p d q e x y h := by
    change delimited p ++ delimited d ++ x = delimited q ++ delimited e ++ y at h
    rw [List.append_assoc, List.append_assoc] at h
    obtain ⟨hpq, hrest⟩ := delimited_append h
    exact ⟨hpq, delimited_append hrest⟩
  length_baseFromRepr b a h := by
    obtain ⟨hlen, h⟩ := Option.ite_none_right_eq_some.mp h
    exact Option.some.inj h ▸ hlen

end Reference

namespace Sapling

section Samples

open Reference

def digestSig : SignLib Unit where
  computeBsk _ _ := []
  sign _ _ _ := []

/-- The call that spends a note of 1000 in the tree with this root. -/
def spendUnder (root : Bytes) : TxBuilder.Call Unit :=
  .addSpend (some (List.replicate 11 0 ++ u64ToLeBytes 1000 ++ List.replicate 32 0)) (some root)
    (some ()) ⟨[], [], ()⟩

def zeroRoot : Bytes := List.replicate 32 0

def digestBuilder : TxBuilder := TxBuilder.new ⟨[], [], []⟩ [] 2000000

/-- A shielding builder with one input and one output. -/
def readyToShield : ShieldingTxBuilder :=
  ⟨[], 2000000, .on, [⟨zeroRoot, 0, 10000, []⟩], [], [⟨[], [], [], [], [], [], []⟩], 10000, 9000, 0, none⟩

/-- One spend and one output. -/
def spendAndPay : List (TxBuilder.Call Unit) :=
  [spendUnder zeroRoot, .addOutput (some []) 500 ⟨[], [], ()⟩]

theorem sighash_zip244_sample :
    ∃ b b' sighash tx,
      Runs.run (TxBuilder.step digests) digestBuilder spendAndPay = some b ∧
      b.build digests (some ()) = .ok (b', sighash) ∧
      b'.completedTx digestSig (List.replicate 64 0) () = .ok tx ∧
      sighash = Zip244.signatureDigest digests.blake2b tx.zip244 none := by
  obtain ⟨b, hrun, hanchor, hout, b', sighash, hbuild, tx, htx⟩ : ∃ b : TxBuilder,
      Runs.run (TxBuilder.step digests) digestBuilder spendAndPay = some b ∧
      OneAnchor b.spends ∧ b.outputs ≠ [] ∧
      ∃ b' sighash, b.build digests (some ()) = .ok (b', sighash) ∧
      ∃ tx, b'.completedTx digestSig (List.replicate 64 0) () = .ok tx := by
    refine ⟨_, rfl, ?_, List.cons_ne_nil _ _, _, _, rfl, _, rfl⟩
    intro s hs
    obtain rfl := List.mem_singleton.mp hs
    rfl
  obtain ⟨s', sighashes, count, hbuild', tx', htx'⟩ : ∃ s' sighashes count,
      readyToShield.build digests (some ()) (some ()) = .ok (s', sighashes, count) ∧
      ∃ tx', s'.completedTx digestSig [0, 0] (List.replicate 33 0) () = .ok tx' :=
    ⟨_, _, _, rfl, _, rfl⟩
  have hiff := sighash_zip244_iff digests_documented hrun hbuild htx hbuild' htx'
  exact ⟨b, b', sighash, tx, hrun, hbuild, htx, hiff.1.mpr ⟨hanchor, hout⟩⟩

/-- A spend without an output, and a shielding build: neither digest is the one of ZIP 244. -/
theorem sighash_not_zip244 :
    (∃ b b' sighash tx,
      Runs.run (TxBuilder.step digests) digestBuilder [spendUnder zeroRoot] = some b ∧
      b.build digests (some ()) = .ok (b', sighash) ∧
      b'.completedTx digestSig (List.replicate 64 0) () = .ok tx ∧
      sighash ≠ Zip244.signatureDigest digests.blake2b tx.zip244 none) ∧
    ∃ s' sighashes count tx,
      readyToShield.build digests (some ()) (some ()) = .ok (s', sighashes, count) ∧
      s'.completedTx digestSig [0, 0] (List.replicate 33 0) () = .ok tx ∧
      tx.sighash digests none ≠ Zip244.signatureDigest digests.blake2b tx.zip244 none := by
  constructor
  · obtain ⟨b, hrun, hout, b', sighash, hbuild, tx, htx⟩ : ∃ b : TxBuilder,
        Runs.run (TxBuilder.step digests) digestBuilder [spendUnder zeroRoot] = some b ∧
        b.outputs = [] ∧ ∃ b' sighash, b.build digests (some ()) = .ok (b', sighash) ∧
        ∃ tx, b'.completedTx digestSig (List.replicate 64 0) () = .ok tx :=
      ⟨_, rfl, rfl, _, _, rfl, _, rfl⟩
    obtain ⟨hne, hspends, houtputs, hsighash⟩ := completed_of_build hbuild htx
    refine ⟨b, b', sighash, tx, hrun, hbuild, htx, ?_⟩
    intro h
    rw [hsighash] at h
    have hlen : ∀ s ∈ tx.spends, s.anchor.length = 32 := by
      rw [hspends]
      exact anchorsFit_run digests_documented rfl hrun
    exact ((computeV5Sighash_eq_iff digests_documented (hspends ▸ hne) hlen).mp h).2
      (houtputs.trans hout)
  · refine ⟨_, _, _, _, rfl, rfl, ?_⟩
    exact shielding_sighash_ne digests_documented (List.cons_ne_nil _ _) none

end Samples

end Sapling
