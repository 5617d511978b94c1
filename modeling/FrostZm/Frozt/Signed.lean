import FrostZm.Frozt.ShieldingBalance
import FrostZm.Frozt.WasmTx
import FrostZm.Lib.Handover

/-!
# What is signed is what is completed

The four builders as machines: a build hands out digests over a content, and a complete returns
a transaction.
-/

namespace Sapling

variable {Rng Witness : Type} (lib : SaplingLib Rng Witness) (sig : SignLib Rng)

/-! ## Contents and transactions -/

/-- The digest over a content. -/
def TxBuildState.digest (st : TxBuildState) : Bytes :=
  computeV5Sighash lib st.spends st.outputs st.valueBalance st.consensusBranchId st.expiryHeight

/-- The digests for the inputs of a content, one behind the other. -/
def ShieldingBuildState.digests (st : ShieldingBuildState) : Bytes :=
  (st.inputs.map fun input => computeShieldingSighash lib st.inputs st.transparentOutputs
    st.saplingOutputs st.valueBalance st.consensusBranchId st.expiryHeight (some input)).flatten

/-- The transaction has the content that the digest was computed over, and a signature for
every spend. -/
structure SignedTx (handed : TxBuildState × Bytes) (tx : SaplingTx) : Prop where
  digest : handed.2 = handed.1.digest lib
  spends : tx.spends = handed.1.spends
  outputs : tx.outputs = handed.1.outputs
  valueBalance : tx.valueBalance = handed.1.valueBalance
  expiryHeight : tx.expiryHeight = handed.1.expiryHeight
  sigs : tx.spendAuthSigs.length = tx.spends.length

structure SignedShieldingTx (handed : ShieldingBuildState × Bytes) (tx : ShieldingTx) : Prop where
  digests : handed.2 = handed.1.digests lib
  inputs : tx.inputs = handed.1.inputs
  transparentOutputs : tx.transparentOutputs = handed.1.transparentOutputs
  saplingOutputs : tx.saplingOutputs = handed.1.saplingOutputs
  valueBalance : tx.valueBalance = handed.1.valueBalance
  expiryHeight : tx.expiryHeight = handed.1.expiryHeight
  sigs : tx.scriptSigs.length = tx.inputs.length

/-! ## The native Sapling builder -/

namespace TxBuilder

inductive Act (Rng : Type) where
  | call (c : Call Rng)
  | complete (spendAuthSigs : Option Bytes) (outRawTx : Option Unit) (rng : Rng)

def stepAct : Option TxBuilder → Act Rng → Option TxBuilder
  | none, _ => none
  | some b, .call c => b.step lib c
  | some b, .complete spendAuthSigs outRawTx rng => (b.complete sig spendAuthSigs outRawTx rng).1

/-- A call that adds a spend or an output. -/
def adds : Option TxBuilder → Act Rng → Bool
  | some _, .call (.build _) => false
  | some b, .call c => (b.perform lib c).toBool
  | _, _ => false

/-- The state that a build leaves, and the digest that it hands out. -/
def handsOut : Option TxBuilder → Act Rng → Option (TxBuildState × Bytes)
  | some b, .call (.build outSighash) => do
    let (b', sighash) ← (b.build lib outSighash).toOption
    let state ← b'.finished
    return (state, sighash)
  | _, _ => none

/-- The transaction that a complete returns. -/
def returns : Option TxBuilder → Act Rng → Option SaplingTx
  | some b, .complete (some sigData) (some ()) rng => do
    let tx ← (b.completedTx sig sigData rng).toOption
    let _ ← (serializeV5Tx tx).toOption
    return tx
  | _, _ => none

def machine : Machine (Option TxBuilder) (Act Rng) (TxBuildState × Bytes) SaplingTx where
  step := stepAct lib sig
  adds := adds lib
  handsOut := handsOut lib
  returns := returns sig

end TxBuilder

/-! ## The native shielding builder -/

namespace ShieldingTxBuilder

inductive Act (Rng : Type) where
  | call (c : Call Rng)
  | complete (ecdsaSigs pubkeys : Option Bytes) (outRawTx : Option Unit) (rng : Rng)

def stepAct : Option ShieldingTxBuilder → Act Rng → Option ShieldingTxBuilder
  | none, _ => none
  | some b, .call c => b.step lib c
  | some b, .complete ecdsaSigs pubkeys outRawTx rng =>
    (b.complete sig ecdsaSigs pubkeys outRawTx rng).1

def adds : Option ShieldingTxBuilder → Act Rng → Bool
  | some _, .call (.build _ _) => false
  | some b, .call c => (b.perform lib c).toBool
  | _, _ => false

def handsOut : Option ShieldingTxBuilder → Act Rng → Option (ShieldingBuildState × Bytes)
  | some b, .call (.build outSighashes outCount) => do
    let (b', sighashes, _) ← (b.build lib outSighashes outCount).toOption
    let state ← b'.finished
    return (state, sighashes)
  | _, _ => none

def returns : Option ShieldingTxBuilder → Act Rng → Option ShieldingTx
  | some b, .complete (some sigData) (some pkData) (some ()) rng =>
    (b.completedTx sig sigData pkData rng).toOption
  | _, _ => none

def machine : Machine (Option ShieldingTxBuilder) (Act Rng) (ShieldingBuildState × Bytes)
    ShieldingTx where
  step := stepAct lib sig
  adds := adds lib
  handsOut := handsOut lib
  returns := returns sig

end ShieldingTxBuilder

/-! ## The WASM builders -/

namespace WasmTxBuilder

inductive Act (Rng : Type) where
  | addSpend (noteData witnessData : Bytes) (draw : SpendDraw Rng)
  | addOutput (address : Bytes) (amount : UInt64) (draw : OutputDraw Rng)
  | build
  | complete (spendAuthSigs : Bytes) (rng : Rng)

/-- The builder after an add or a build that succeeds. -/
def perform (b : WasmTxBuilder) : Act Rng → Option WasmTxBuilder
  | .addSpend noteData witnessData draw =>
    (Prod.fst <$> b.addSpend lib noteData witnessData draw).toOption
  | .addOutput address amount draw => (b.addOutput lib address amount draw).toOption
  | .build => (b.build lib).toOption
  | .complete _ _ => none

def stepAct (b : WasmTxBuilder) : Act Rng → WasmTxBuilder
  | .complete spendAuthSigs rng => (b.complete sig spendAuthSigs rng).1
  | a => (b.perform lib a).getD b

def adds (b : WasmTxBuilder) : Act Rng → Bool
  | .build => false
  | a => (b.perform lib a).isSome

def handsOut (b : WasmTxBuilder) : Act Rng → Option (TxBuildState × Bytes)
  | .build => do
    let b' ← (b.build lib).toOption
    let state ← b'.finished
    return (state, b'.sighash)
  | _ => none

def returns (b : WasmTxBuilder) : Act Rng → Option SaplingTx
  | .complete spendAuthSigs rng => do
    let tx ← (b.completedTx sig spendAuthSigs rng).toOption
    let _ ← (serializeV5Tx tx).toOption
    return tx
  | _ => none

def machine : Machine WasmTxBuilder (Act Rng) (TxBuildState × Bytes) SaplingTx where
  step := stepAct lib sig
  adds := adds lib
  handsOut := handsOut lib
  returns := returns sig

end WasmTxBuilder

namespace WasmShieldingTxBuilder

inductive Act (Rng : Type) where
  | addInput (prevTxid : Bytes) (vout : UInt32) (value : UInt64) (scriptPubkey : Bytes)
  | addOutput (address : Bytes) (amount : UInt64) (draw : OutputDraw Rng)
  | addTransparentOutput (address : Bytes) (amount : UInt64)
  | build
  | complete (ecdsaSigs pubkeys : Bytes) (rng : Rng)

def perform (b : WasmShieldingTxBuilder) : Act Rng → Option WasmShieldingTxBuilder
  | .addInput prevTxid vout value scriptPubkey =>
    (b.addInput prevTxid vout value scriptPubkey).toOption
  | .addOutput address amount draw => (b.addOutput lib address amount draw).toOption
  | .addTransparentOutput address amount => (b.addTransparentOutput lib address amount).toOption
  | .build => (b.build lib).toOption
  | .complete _ _ _ => none

def stepAct (b : WasmShieldingTxBuilder) (a : Act Rng) : WasmShieldingTxBuilder :=
  (b.perform lib a).getD b

def adds (b : WasmShieldingTxBuilder) : Act Rng → Bool
  | .build => false
  | a => (b.perform lib a).isSome

/-- The lists of the builder at a build, and the digests that it hands out. -/
def handsOut (b : WasmShieldingTxBuilder) : Act Rng → Option (ShieldingBuildState × Bytes)
  | .build => do
    let b' ← (b.build lib).toOption
    let sighashes ← b'.sighashes
    let txidSighash ← b'.txidSighash
    return ({
      inputs := b.inputs
      transparentOutputs := b.transparentOutputs
      saplingOutputs := b.saplingOutputs
      valueBalance := -b.totalSaplingOutput.toInt64
      consensusBranchId := branchIdForHeight b.targetHeight
      expiryHeight := b.targetHeight + 40
      txidSighash }, sighashes.flatten)
  | _ => none

def returns (b : WasmShieldingTxBuilder) : Act Rng → Option ShieldingTx
  | .complete ecdsaSigs pubkeys rng => (b.completedTx sig ecdsaSigs pubkeys rng).toOption
  | _ => none

def machine : Machine WasmShieldingTxBuilder (Act Rng) (ShieldingBuildState × Bytes) ShieldingTx where
  step := stepAct lib
  adds := adds lib
  handsOut := handsOut lib
  returns := returns sig

end WasmShieldingTxBuilder

/-! ## Builders that freeze -/

variable {lib sig}

namespace TxBuilder

variable {b b' : TxBuilder}

/-- The content that the builder keeps, and the digest over it. -/
def frozen (lib : SaplingLib Rng Witness) (s : Option TxBuilder) : Option (TxBuildState × Bytes) :=
  (s.bind finished).map fun st => (st, st.digest lib)

theorem build_finished {outSighash : Option Unit} {sighash : Bytes}
    (h : b.build lib outSighash = .ok (b', sighash)) :
    ∃ st, b'.finished = some st ∧ sighash = st.digest lib := by
  unfold build at h
  obtain ⟨_, -, h⟩ := bind_eq_ok.mp h
  obtain ⟨_, -, h⟩ := bind_eq_ok.mp h
  obtain ⟨_, -, h⟩ := bind_eq_ok.mp h
  obtain ⟨_, -, h⟩ := bind_eq_ok.mp h
  obtain ⟨rfl, rfl⟩ := Prod.mk.inj (Except.ok.inj h)
  exact ⟨_, rfl, rfl⟩

theorem handsOut_eq_some {s : Option TxBuilder} {a : Act Rng} {st : TxBuildState} {sighash : Bytes}
    (h : handsOut lib s a = some (st, sighash)) :
    ∃ b outSighash b', s = some b ∧ a = .call (.build outSighash) ∧
      b.build lib outSighash = .ok (b', sighash) ∧ b'.finished = some st := by
  unfold handsOut at h
  split at h
  · next b outSighash =>
    obtain ⟨⟨b', digest⟩, hb, h⟩ := Option.bind_eq_some_iff.mp h
    obtain ⟨st', hst, h⟩ := Option.bind_eq_some_iff.mp h
    obtain ⟨rfl, rfl⟩ := Prod.mk.inj (Option.some.inj h)
    exact ⟨b, outSighash, b', rfl, rfl, toOption_eq_some.mp hb, hst⟩
  · cases h

theorem step_finished {c : Call Rng} (h : b.step lib c = some b')
    (hout : handsOut lib (some b) (.call c) = none) : b'.finished = b.finished := by
  unfold step at h
  split at h
  · next b₁ hb₁ =>
    obtain rfl := Option.some.inj h
    cases c with
    | addSpend noteData witnessData outAlpha draw =>
      obtain ⟨⟨b₂, alpha⟩, hcall, rfl⟩ := map_eq_ok.mp hb₁
      obtain ⟨_, _, -, -, rfl⟩ := addSpend_ok hcall
      rfl
    | addOutput address amount draw =>
      obtain ⟨_, -, rfl⟩ := addOutput_ok hb₁
      rfl
    | build outSighash =>
      obtain ⟨⟨b₂, sighash⟩, hcall, rfl⟩ := map_eq_ok.mp hb₁
      obtain ⟨st, hst, -⟩ := build_finished hcall
      simp [handsOut, hcall, hst, Except.toOption] at hout
  · obtain rfl := Option.some.inj h
    rfl

theorem completedTx_ok {sigData : Bytes} {rng : Rng} {tx : SaplingTx}
    (h : b.completedTx sig sigData rng = .ok tx) :
    ∃ st, b.finished = some st ∧ SignedTx lib (st, st.digest lib) tx := by
  unfold completedTx at h
  obtain ⟨st, hst, h⟩ := bind_eq_ok.mp h
  obtain ⟨_, -, h⟩ := bind_eq_ok.mp h
  obtain rfl := Except.ok.inj h
  exact ⟨st, okOr_eq_ok.mp hst, rfl, rfl, rfl, rfl, rfl, length_chunks _ _ _⟩

variable (sig) in
theorem complete_fst (b : TxBuilder) (sigs : Option Bytes) (out : Option Unit) (rng : Rng) :
    (b.complete sig sigs out rng).1 = none ∨ (b.complete sig sigs out rng).1 = some b := by
  unfold complete
  split
  · exact Or.inl rfl
  · exact Or.inr rfl

theorem frozen_of_handsOut {s : Option TxBuilder} {a : Act Rng} {c c' : TxBuildState × Bytes}
    (h : handsOut lib s a = some c) (hc' : frozen lib (stepAct lib sig s a) = some c') : c' = c := by
  obtain ⟨b, outSighash, b', rfl, rfl, hb, hst⟩ := handsOut_eq_some h
  have hstep : stepAct lib sig (some b) (.call (.build outSighash)) = some b' := by
    simp [stepAct, step, perform, hb]
  obtain ⟨st', hst', hdigest⟩ := build_finished hb
  rw [hstep] at hc'
  simp only [frozen, Option.bind_some, hst, Option.map_some, Option.some.injEq] at hc'
  obtain rfl := Option.some.inj (hst.symm.trans hst')
  rw [← hc', ← hdigest]

theorem frozen_of_not_handsOut {s : Option TxBuilder} {a : Act Rng} {c : TxBuildState × Bytes}
    (h : handsOut lib s a = none) (hc : frozen lib (stepAct lib sig s a) = some c) :
    frozen lib s = some c := by
  cases s with
  | none => exact hc
  | some b =>
    cases a with
    | call call =>
      cases hstep : b.step lib call with
      | none => simp [frozen, stepAct, hstep] at hc
      | some b' =>
        rw [stepAct, hstep] at hc
        simpa only [frozen, Option.bind_some, step_finished hstep h] using hc
    | complete sigs out rng =>
      rcases complete_fst sig b sigs out rng with hgone | hkept
      · simp [frozen, stepAct, hgone] at hc
      · rwa [stepAct, hkept] at hc

theorem frozen_of_returns {s : Option TxBuilder} {a : Act Rng} {tx : SaplingTx}
    (h : returns sig s a = some tx) : ∃ c, frozen lib s = some c ∧ SignedTx lib c tx := by
  unfold returns at h
  split at h
  · next b sigData rng =>
    obtain ⟨tx', htx', h⟩ := Option.bind_eq_some_iff.mp h
    obtain ⟨_, -, h⟩ := Option.bind_eq_some_iff.mp h
    obtain rfl := Option.some.inj h
    obtain ⟨st, hst, hsigned⟩ := completedTx_ok (toOption_eq_some.mp htx')
    refine ⟨_, ?_, hsigned⟩
    simp only [frozen, Option.bind_some, hst, Option.map_some]
  · cases h

theorem faithful (fvk : FullViewingKey) (nsk : Bytes) (targetHeight : UInt32)
    (acts : List (Act Rng)) :
    (machine lib sig).Faithful (SignedTx lib) (some (new fvk nsk targetHeight)) acts :=
  Machine.faithful_of_frozen (frozen lib) rfl (fun _ _ _ h _ => frozen_of_handsOut h)
    (fun _ _ h _ => frozen_of_not_handsOut h) fun _ _ _ => frozen_of_returns

end TxBuilder

namespace ShieldingTxBuilder

variable {b b' : ShieldingTxBuilder}

def frozen (lib : SaplingLib Rng Witness) (s : Option ShieldingTxBuilder) :
    Option (ShieldingBuildState × Bytes) :=
  (s.bind finished).map fun st => (st, st.digests lib)

theorem build_finished {outSighashes outCount : Option Unit} {sighashes : Bytes} {count : UInt32}
    (h : b.build lib outSighashes outCount = .ok (b', sighashes, count)) :
    ∃ st, b'.finished = some st ∧ sighashes = st.digests lib := by
  unfold build at h
  obtain ⟨_, -, h⟩ := bind_eq_ok.mp h
  obtain ⟨_, -, h⟩ := bind_eq_ok.mp h
  obtain ⟨_, -, h⟩ := bind_eq_ok.mp h
  obtain ⟨_, -, h⟩ := bind_eq_ok.mp h
  obtain ⟨_, -, h⟩ := bind_eq_ok.mp h
  obtain ⟨hb', hout⟩ := Prod.mk.inj (Except.ok.inj h)
  obtain ⟨hsighashes, -⟩ := Prod.mk.inj hout
  subst hb' hsighashes
  exact ⟨_, rfl, rfl⟩

theorem handsOut_eq_some {s : Option ShieldingTxBuilder} {a : Act Rng} {st : ShieldingBuildState}
    {sighashes : Bytes} (h : handsOut lib s a = some (st, sighashes)) :
    ∃ b outSighashes outCount b' count, s = some b ∧ a = .call (.build outSighashes outCount) ∧
      b.build lib outSighashes outCount = .ok (b', sighashes, count) ∧ b'.finished = some st := by
  unfold handsOut at h
  split at h
  · next b outSighashes outCount =>
    obtain ⟨⟨b', digests, count⟩, hb, h⟩ := Option.bind_eq_some_iff.mp h
    obtain ⟨st', hst, h⟩ := Option.bind_eq_some_iff.mp h
    obtain ⟨rfl, rfl⟩ := Prod.mk.inj (Option.some.inj h)
    exact ⟨b, outSighashes, outCount, b', count, rfl, rfl, toOption_eq_some.mp hb, hst⟩
  · cases h

theorem step_finished {c : Call Rng} (h : b.step lib c = some b')
    (hout : handsOut lib (some b) (.call c) = none) : b'.finished = b.finished := by
  unfold step at h
  split at h
  · next b₁ hb₁ =>
    obtain rfl := Option.some.inj h
    cases c with
    | addInput inputData =>
      obtain ⟨_, _, -, rfl⟩ := addInput_ok hb₁
      rfl
    | addOutput address amount draw =>
      obtain ⟨_, _, -, -, rfl⟩ := addOutput_ok hb₁
      rfl
    | addTransparentOutput address amount =>
      obtain ⟨_, _, -, rfl⟩ := addTransparentOutput_ok hb₁
      rfl
    | build outSighashes outCount =>
      obtain ⟨⟨b₂, sighashes, count⟩, hcall, rfl⟩ := map_eq_ok.mp hb₁
      obtain ⟨st, hst, -⟩ := build_finished hcall
      simp [handsOut, hcall, hst, Except.toOption] at hout
  · obtain rfl := Option.some.inj h
    rfl

theorem length_scriptSigs {ε : Type} {tooShort truncated : ε} {sigData pkData : Bytes} {n : Nat}
    {sigs : List Bytes} (h : takeSigs tooShort truncated sigData n 0 = .ok sigs) :
    (List.zipWith buildP2pkhScriptSig sigs (chunks pkData 33 n)).length = n := by
  rw [List.length_zipWith, length_takeSigs h, length_chunks, Nat.min_self]

theorem completedTx_ok {sigData pkData : Bytes} {rng : Rng} {tx : ShieldingTx}
    (h : b.completedTx sig sigData pkData rng = .ok tx) :
    ∃ st, b.finished = some st ∧ SignedShieldingTx lib (st, st.digests lib) tx := by
  unfold completedTx at h
  obtain ⟨st, hst, h⟩ := bind_eq_ok.mp h
  obtain ⟨_, -, h⟩ := bind_eq_ok.mp h
  obtain ⟨sigs, hsigs, h⟩ := bind_eq_ok.mp h
  obtain rfl := Except.ok.inj h
  exact ⟨st, okOr_eq_ok.mp hst, rfl, rfl, rfl, rfl, rfl, rfl, length_scriptSigs hsigs⟩

variable (sig) in
theorem complete_fst (b : ShieldingTxBuilder) (sigs pubkeys : Option Bytes) (out : Option Unit)
    (rng : Rng) : (b.complete sig sigs pubkeys out rng).1 = none ∨
      (b.complete sig sigs pubkeys out rng).1 = some b := by
  unfold complete
  split
  · exact Or.inl rfl
  · exact Or.inr rfl

theorem frozen_of_handsOut {s : Option ShieldingTxBuilder} {a : Act Rng}
    {c c' : ShieldingBuildState × Bytes} (h : handsOut lib s a = some c)
    (hc' : frozen lib (stepAct lib sig s a) = some c') : c' = c := by
  obtain ⟨b, outSighashes, outCount, b', count, rfl, rfl, hb, hst⟩ := handsOut_eq_some h
  have hstep : stepAct lib sig (some b) (.call (.build outSighashes outCount)) = some b' := by
    simp [stepAct, step, perform, hb]
  obtain ⟨st', hst', hdigests⟩ := build_finished hb
  rw [hstep] at hc'
  simp only [frozen, Option.bind_some, hst, Option.map_some, Option.some.injEq] at hc'
  obtain rfl := Option.some.inj (hst.symm.trans hst')
  rw [← hc', ← hdigests]

theorem frozen_of_not_handsOut {s : Option ShieldingTxBuilder} {a : Act Rng}
    {c : ShieldingBuildState × Bytes} (h : handsOut lib s a = none)
    (hc : frozen lib (stepAct lib sig s a) = some c) : frozen lib s = some c := by
  cases s with
  | none => exact hc
  | some b =>
    cases a with
    | call call =>
      cases hstep : b.step lib call with
      | none => simp [frozen, stepAct, hstep] at hc
      | some b' =>
        rw [stepAct, hstep] at hc
        simpa only [frozen, Option.bind_some, step_finished hstep h] using hc
    | complete sigs pubkeys out rng =>
      rcases complete_fst sig b sigs pubkeys out rng with hgone | hkept
      · simp [frozen, stepAct, hgone] at hc
      · rwa [stepAct, hkept] at hc

theorem frozen_of_returns {s : Option ShieldingTxBuilder} {a : Act Rng} {tx : ShieldingTx}
    (h : returns sig s a = some tx) : ∃ c, frozen lib s = some c ∧ SignedShieldingTx lib c tx := by
  unfold returns at h
  split at h
  · next b sigData pkData rng =>
    obtain ⟨st, hst, hsigned⟩ := completedTx_ok (toOption_eq_some.mp h)
    refine ⟨_, ?_, hsigned⟩
    simp only [frozen, Option.bind_some, hst, Option.map_some]
  · cases h

theorem new_finished {pkp extras : Option Bytes} {targetHeight : UInt32}
    (h : new pkp extras targetHeight = .ok b) : b.finished = none := by
  unfold new at h
  obtain ⟨_, -, h⟩ := bind_eq_ok.mp h
  obtain ⟨_, -, h⟩ := bind_eq_ok.mp h
  obtain ⟨_, -, h⟩ := bind_eq_ok.mp h
  obtain rfl := Except.ok.inj h
  rfl

theorem faithful (hb : b.finished = none) (acts : List (Act Rng)) :
    (machine lib sig).Faithful (SignedShieldingTx lib) (some b) acts := by
  refine Machine.faithful_of_frozen (frozen lib) ?_ (fun _ _ _ h _ => frozen_of_handsOut h)
    (fun _ _ h _ => frozen_of_not_handsOut h) fun _ _ _ => frozen_of_returns
  simp only [frozen, Option.bind_some, hb, Option.map_none]

end ShieldingTxBuilder

namespace WasmTxBuilder

variable {b b' : WasmTxBuilder}

def frozen (lib : SaplingLib Rng Witness) (b : WasmTxBuilder) : Option (TxBuildState × Bytes) :=
  b.finished.map fun st => (st, st.digest lib)

theorem build_finished (h : b.build lib = .ok b') :
    ∃ st, b'.finished = some st ∧ b'.sighash = st.digest lib := by
  unfold build at h
  obtain ⟨_, -, h⟩ := bind_eq_ok.mp h
  obtain ⟨_, -, h⟩ := bind_eq_ok.mp h
  obtain ⟨_, -, h⟩ := bind_eq_ok.mp h
  obtain rfl := Except.ok.inj h
  exact ⟨_, rfl, rfl⟩

theorem addSpend_finished {noteData witnessData alpha : Bytes} {draw : SpendDraw Rng}
    (h : b.addSpend lib noteData witnessData draw = .ok (b', alpha)) : b'.finished = b.finished := by
  unfold addSpend at h
  obtain ⟨_, -, h⟩ := bind_eq_ok.mp h
  obtain ⟨_, -, h⟩ := bind_eq_ok.mp h
  obtain ⟨_, -, h⟩ := bind_eq_ok.mp h
  obtain ⟨_, -, h⟩ := bind_eq_ok.mp h
  obtain ⟨_, -, h⟩ := bind_eq_ok.mp h
  obtain ⟨_, -, h⟩ := bind_eq_ok.mp h
  obtain ⟨rfl, -⟩ := Prod.mk.inj (Except.ok.inj h)
  rfl

theorem addOutput_finished {address : Bytes} {amount : UInt64} {draw : OutputDraw Rng}
    (h : b.addOutput lib address amount draw = .ok b') : b'.finished = b.finished := by
  unfold addOutput at h
  obtain ⟨_, -, h⟩ := bind_eq_ok.mp h
  obtain ⟨_, -, h⟩ := bind_eq_ok.mp h
  obtain rfl := Except.ok.inj h
  rfl

theorem completedTx_ok {spendAuthSigs : Bytes} {rng : Rng} {tx : SaplingTx}
    (h : b.completedTx sig spendAuthSigs rng = .ok tx) :
    ∃ st, b.finished = some st ∧ SignedTx lib (st, st.digest lib) tx := by
  unfold completedTx at h
  obtain ⟨st, hst, h⟩ := bind_eq_ok.mp h
  obtain ⟨_, -, h⟩ := bind_eq_ok.mp h
  obtain rfl := Except.ok.inj h
  exact ⟨st, okOrMessage_eq_ok.mp hst, rfl, rfl, rfl, rfl, rfl, length_chunks _ _ _⟩

theorem frozen_of_handsOut {a : Act Rng} {c c' : TxBuildState × Bytes}
    (h : handsOut lib b a = some c) (hc' : frozen lib (stepAct lib sig b a) = some c') : c' = c := by
  unfold handsOut at h
  split at h
  · obtain ⟨b', hb, h⟩ := Option.bind_eq_some_iff.mp h
    obtain ⟨st, hst, h⟩ := Option.bind_eq_some_iff.mp h
    obtain ⟨st', hst', hdigest⟩ := build_finished (toOption_eq_some.mp hb)
    obtain rfl := Option.some.inj (hst.symm.trans hst')
    simp only [frozen, stepAct, perform, hb, Option.getD_some, hst, Option.map_some,
      Option.some.injEq] at hc'
    rw [← hc', ← Option.some.inj h, hdigest]
  · cases h

variable (sig) in
theorem stepAct_finished {a : Act Rng} (h : handsOut lib b a = none) :
    (stepAct lib sig b a).finished = b.finished ∨ (stepAct lib sig b a).finished = none := by
  cases a with
  | addSpend noteData witnessData draw =>
    refine Or.inl ?_
    change ((Prod.fst <$> b.addSpend lib noteData witnessData draw).toOption.getD b).finished = _
    cases hcall : b.addSpend lib noteData witnessData draw with
    | error => rfl
    | ok out => exact addSpend_finished hcall
  | addOutput address amount draw =>
    refine Or.inl ?_
    change ((b.addOutput lib address amount draw).toOption.getD b).finished = _
    cases hcall : b.addOutput lib address amount draw with
    | error => rfl
    | ok b' => exact addOutput_finished hcall
  | build =>
    refine Or.inl ?_
    change ((b.build lib).toOption.getD b).finished = _
    cases hcall : b.build lib with
    | error => rfl
    | ok b' =>
      obtain ⟨st, hst, -⟩ := build_finished hcall
      simp [handsOut, hcall, hst, Except.toOption] at h
  | complete spendAuthSigs rng => exact Or.inr rfl

theorem frozen_of_returns {a : Act Rng} {tx : SaplingTx} (h : returns sig b a = some tx) :
    ∃ c, frozen lib b = some c ∧ SignedTx lib c tx := by
  unfold returns at h
  split at h
  · obtain ⟨tx', htx', h⟩ := Option.bind_eq_some_iff.mp h
    obtain ⟨_, -, h⟩ := Option.bind_eq_some_iff.mp h
    obtain rfl := Option.some.inj h
    obtain ⟨st, hst, hsigned⟩ := completedTx_ok (toOption_eq_some.mp htx')
    refine ⟨_, ?_, hsigned⟩
    simp only [frozen, hst, Option.map_some]
  · cases h

theorem faithful (fvk : FullViewingKey) (nsk : Bytes) (targetHeight : UInt32)
    (acts : List (Act Rng)) :
    (machine lib sig).Faithful (SignedTx lib) (new fvk nsk targetHeight) acts := by
  refine Machine.faithful_of_frozen (frozen lib) rfl (fun _ _ _ h _ => frozen_of_handsOut h) ?_
    fun _ _ _ => frozen_of_returns
  intro b a h c hc
  change (stepAct lib sig b a).finished.map _ = some c at hc
  rcases stepAct_finished sig h with hkept | hgone
  · rwa [hkept] at hc
  · rw [hgone] at hc
    cases hc

end WasmTxBuilder

/-! ## The builder that does not -/

namespace WasmShieldingTxBuilder

variable {b b' : WasmShieldingTxBuilder}

def size (b : WasmShieldingTxBuilder) : Nat :=
  b.inputs.length + b.transparentOutputs.length + b.saplingOutputs.length

variable (lib) in
/-- The digests belong to the last content, the builder still has that content as long as nothing
was added, and has more in its lists from then on. -/
structure Kept (w : Watched WasmShieldingTxBuilder (ShieldingBuildState × Bytes)) : Prop where
  unbuilt : w.handed = none → w.state.sighashes = none
  built : ∀ c, w.handed = some c → c.2 = c.1.digests lib ∧
    c.1.expiryHeight = w.state.targetHeight + 40 ∧
    ∃ l, w.state.sighashes = some l ∧ l.length = c.1.inputs.length
  same : ∀ c, w.handed = some c → w.added = false → w.state.inputs = c.1.inputs ∧
    w.state.transparentOutputs = c.1.transparentOutputs ∧
    w.state.saplingOutputs = c.1.saplingOutputs ∧
    -w.state.totalSaplingOutput.toInt64 = c.1.valueBalance
  more : ∀ c, w.handed = some c → w.added = true →
    c.1.inputs.length + c.1.transparentOutputs.length + c.1.saplingOutputs.length < w.state.size

theorem build_ok (h : b.build lib = .ok b') :
    ∃ st : ShieldingBuildState, st.inputs = b.inputs ∧
      st.transparentOutputs = b.transparentOutputs ∧ st.saplingOutputs = b.saplingOutputs ∧
      st.valueBalance = -b.totalSaplingOutput.toInt64 ∧ st.expiryHeight = b.targetHeight + 40 ∧
      handsOut lib b .build = some (st, st.digests lib) ∧
      ∃ l txidSighash, l.length = b.inputs.length ∧
        b' = { b with sighashes := some l, txidSighash := some txidSighash } := by
  have hbuild := h
  unfold build at h
  obtain ⟨_, -, h⟩ := bind_eq_ok.mp h
  obtain ⟨_, -, h⟩ := bind_eq_ok.mp h
  obtain ⟨_, -, h⟩ := bind_eq_ok.mp h
  obtain ⟨_, -, h⟩ := bind_eq_ok.mp h
  obtain rfl := Except.ok.inj h
  refine ⟨⟨b.inputs, b.transparentOutputs, b.saplingOutputs, -b.totalSaplingOutput.toInt64,
    branchIdForHeight b.targetHeight, b.targetHeight + 40, computeShieldingSighash lib b.inputs
      b.transparentOutputs b.saplingOutputs (-b.totalSaplingOutput.toInt64)
      (branchIdForHeight b.targetHeight) (b.targetHeight + 40) none⟩,
    rfl, rfl, rfl, rfl, rfl, ?_, _, _, List.length_map _, rfl⟩
  simp only [handsOut, hbuild]
  rfl

theorem handsOut_eq_some {a : Act Rng} {c : ShieldingBuildState × Bytes}
    (h : handsOut lib b a = some c) : a = .build ∧ ∃ b', b.build lib = .ok b' := by
  unfold handsOut at h
  split at h
  · obtain ⟨b', hb, -⟩ := Option.bind_eq_some_iff.mp h
    exact ⟨rfl, b', toOption_eq_some.mp hb⟩
  · cases h

theorem adds_eq_true {a : Act Rng} (h : adds lib b a = true) :
    ∃ b', b.perform lib a = some b' ∧ b'.sighashes = b.sighashes ∧
      b'.targetHeight = b.targetHeight ∧ b'.size = b.size + 1 := by
  cases a with
  | addInput prevTxid vout value scriptPubkey =>
    obtain ⟨b', hb⟩ := Option.isSome_iff_exists.mp h
    refine ⟨b', hb, ?_⟩
    replace hb := toOption_eq_some.mp hb
    unfold addInput at hb
    obtain ⟨_, -, hb⟩ := bind_eq_ok.mp hb
    obtain ⟨_, -, hb⟩ := bind_eq_ok.mp hb
    obtain rfl := Except.ok.inj hb
    refine ⟨rfl, rfl, ?_⟩
    simp only [size, List.length_append, List.length_singleton]
    omega
  | addOutput address amount draw =>
    obtain ⟨b', hb⟩ := Option.isSome_iff_exists.mp h
    refine ⟨b', hb, ?_⟩
    replace hb := toOption_eq_some.mp hb
    unfold addOutput at hb
    obtain ⟨_, -, hb⟩ := bind_eq_ok.mp hb
    obtain ⟨_, -, hb⟩ := bind_eq_ok.mp hb
    obtain ⟨_, -, hb⟩ := bind_eq_ok.mp hb
    obtain rfl := Except.ok.inj hb
    refine ⟨rfl, rfl, ?_⟩
    simp only [size, List.length_append, List.length_singleton]
    omega
  | addTransparentOutput address amount =>
    obtain ⟨b', hb⟩ := Option.isSome_iff_exists.mp h
    refine ⟨b', hb, ?_⟩
    replace hb := toOption_eq_some.mp hb
    unfold addTransparentOutput at hb
    obtain ⟨_, -, hb⟩ := bind_eq_ok.mp hb
    obtain ⟨_, -, hb⟩ := bind_eq_ok.mp hb
    obtain rfl := Except.ok.inj hb
    refine ⟨rfl, rfl, ?_⟩
    simp only [size, List.length_append, List.length_singleton]
    omega
  | build => cases h
  | complete ecdsaSigs pubkeys rng => cases h

theorem stepAct_eq {a : Act Rng} (hadds : adds lib b a = false) (hout : handsOut lib b a = none) :
    stepAct lib b a = b := by
  unfold stepAct
  cases hperform : b.perform lib a with
  | none => rfl
  | some b' =>
    cases a with
    | build =>
      obtain ⟨st, -, -, -, -, -, hsome, -⟩ := build_ok (toOption_eq_some.mp hperform)
      rw [hsome] at hout
      cases hout
    | complete => cases hperform
    | _ =>
      simp only [adds, hperform] at hadds
      cases hadds

theorem Kept.watch {w : Watched WasmShieldingTxBuilder (ShieldingBuildState × Bytes)} {a : Act Rng}
    (hw : Kept lib w) : Kept lib ((machine lib sig).watch w a) := by
  cases hout : (machine lib sig).handsOut w.state a with
  | some c =>
    obtain ⟨hhanded, hadded⟩ := Machine.watch_handed_some hout
    obtain ⟨rfl, b', hb⟩ := handsOut_eq_some hout
    obtain ⟨st, hin, htout, hsout, hvb, hexp, hst, l, txidSighash, hlen, rfl⟩ := build_ok hb
    obtain rfl := Option.some.inj (hout.symm.trans hst)
    have hstate : ((machine lib sig).watch w .build).state =
        { w.state with sighashes := some l, txidSighash := some txidSighash } := by
      change (w.state.perform lib .build).getD w.state = _
      rw [show w.state.perform lib .build = some _ from toOption_eq_some.mpr hb]
      rfl
    refine ⟨?_, ?_, ?_, ?_⟩
    · intro hnone
      rw [hhanded] at hnone
      cases hnone
    · intro c hc
      obtain rfl := Option.some.inj (hhanded.symm.trans hc)
      rw [hstate]
      exact ⟨rfl, hexp, l, rfl, by rw [hlen, hin]⟩
    · intro c hc _
      obtain rfl := Option.some.inj (hhanded.symm.trans hc)
      rw [hstate]
      exact ⟨hin.symm, htout.symm, hsout.symm, hvb.symm⟩
    · intro c _ htrue
      rw [hadded] at htrue
      cases htrue
  | none =>
    have hhanded := Machine.watch_handed_none hout
    have hadded := Machine.watch_added hout
    cases hadds : adds lib w.state a with
    | true =>
      obtain ⟨b', hb', hsig, hheight, hsize⟩ := adds_eq_true hadds
      have hstate : ((machine lib sig).watch w a).state = b' := by
        change (w.state.perform lib a).getD w.state = b'
        rw [hb']
        rfl
      have htrue : ((machine lib sig).watch w a).added = true := by
        rw [hadded, show (machine lib sig).adds w.state a = true from hadds]
        rfl
      refine ⟨?_, ?_, ?_, ?_⟩
      · rw [hhanded, hstate, hsig]
        exact hw.unbuilt
      · rw [hhanded, hstate, hsig, hheight]
        exact hw.built
      · intro c _ hfalse
        rw [htrue] at hfalse
        cases hfalse
      · intro c hc _
        rw [hhanded] at hc
        rw [hstate, hsize]
        cases hbefore : w.added with
        | true =>
          have := hw.more c hc hbefore
          omega
        | false =>
          obtain ⟨hin, htout, hsout, -⟩ := hw.same c hc hbefore
          rw [← hin, ← htout, ← hsout]
          exact Nat.lt_succ_self _
    | false =>
      have hstate : ((machine lib sig).watch w a).state = w.state := stepAct_eq hadds hout
      have hsame : ((machine lib sig).watch w a).added = w.added := by
        rw [hadded, show (machine lib sig).adds w.state a = false from hadds]
        rfl
      refine ⟨?_, ?_, ?_, ?_⟩
      · rw [hhanded, hstate]
        exact hw.unbuilt
      · rw [hhanded, hstate]
        exact hw.built
      · rw [hhanded, hstate, hsame]
        exact hw.same
      · rw [hhanded, hstate, hsame]
        exact hw.more

theorem completedTx_ok {ecdsaSigs pubkeys : Bytes} {rng : Rng} {tx : ShieldingTx}
    (h : b.completedTx sig ecdsaSigs pubkeys rng = .ok tx) :
    ∃ l, b.sighashes = some l ∧ tx.inputs = b.inputs ∧ tx.scriptSigs.length = l.length ∧
      tx.transparentOutputs = b.transparentOutputs ∧ tx.saplingOutputs = b.saplingOutputs ∧
      tx.valueBalance = -b.totalSaplingOutput.toInt64 ∧ tx.expiryHeight = b.targetHeight + 40 := by
  unfold completedTx at h
  obtain ⟨l, hl, h⟩ := bind_eq_ok.mp h
  obtain ⟨_, -, h⟩ := bind_eq_ok.mp h
  obtain ⟨_, -, h⟩ := bind_eq_ok.mp h
  obtain ⟨sigs, hsigs, h⟩ := bind_eq_ok.mp h
  obtain rfl := Except.ok.inj h
  exact ⟨l, okOrMessage_eq_ok.mp hl, rfl, ShieldingTxBuilder.length_scriptSigs hsigs, rfl, rfl, rfl,
    rfl⟩

theorem Kept.signed_iff {w : Watched WasmShieldingTxBuilder (ShieldingBuildState × Bytes)}
    {a : Act Rng} {tx : ShieldingTx} (hw : Kept lib w) (htx : returns sig w.state a = some tx) :
    (∃ c, w.handed = some c ∧ SignedShieldingTx lib c tx) ↔ w.added = false := by
  obtain ⟨ecdsaSigs, pubkeys, rng, hcompleted⟩ : ∃ ecdsaSigs pubkeys rng,
      w.state.completedTx sig ecdsaSigs pubkeys rng = .ok tx := by
    unfold returns at htx
    split at htx
    · exact ⟨_, _, _, toOption_eq_some.mp htx⟩
    · cases htx
  obtain ⟨l, hl, hin, hsigs, htout, hsout, hvb, hexp⟩ := completedTx_ok hcompleted
  constructor
  · rintro ⟨c, hc, hsigned⟩
    rw [← Bool.not_eq_true]
    intro hadded
    have hmore := hw.more c hc hadded
    rw [← hsigned.inputs, ← hsigned.transparentOutputs, ← hsigned.saplingOutputs, hin, htout,
      hsout] at hmore
    exact Nat.lt_irrefl _ hmore
  · intro hadded
    cases hc : w.handed with
    | none =>
      rw [hw.unbuilt hc] at hl
      cases hl
    | some c =>
      obtain ⟨hdigests, hexpiry, l', hl', hlen⟩ := hw.built c hc
      obtain ⟨hin', htout', hsout', hvb'⟩ := hw.same c hc hadded
      obtain rfl := Option.some.inj (hl.symm.trans hl')
      exact ⟨c, rfl, hdigests, hin.trans hin', htout.trans htout', hsout.trans hsout',
        hvb.trans hvb', hexp.trans hexpiry.symm, by rw [hsigs, hlen, hin, hin']⟩

theorem faithful_iff (hb : b.sighashes = none) (acts : List (Act Rng)) :
    (machine lib sig).Faithful (SignedShieldingTx lib) b acts ↔
      (machine lib sig).Undisturbed b acts := by
  refine Machine.faithful_iff_undisturbed (Kept lib) ⟨fun _ => hb, ?_, ?_, ?_⟩
    (fun _ _ => Kept.watch) fun _ _ _ hw htx => hw.signed_iff htx
  all_goals
    rintro c ⟨⟩

end WasmShieldingTxBuilder

/-! ## The four builders -/

theorem wasmShielding_new {extras : Bytes} {targetHeight : UInt32} {b : WasmShieldingTxBuilder}
    (h : WasmShieldingTxBuilder.new extras targetHeight = .ok b) : b.sighashes = none := by
  unfold WasmShieldingTxBuilder.new at h
  obtain ⟨_, -, h⟩ := bind_eq_ok.mp h
  obtain rfl := Except.ok.inj h
  rfl

/-- Three builders complete the transaction that was signed, in any run. The shielding builder of
the WASM library does so just in the runs that add nothing between a build and a complete. -/
theorem completed_signed_iff (fvk : FullViewingKey) (nsk : Bytes) (targetHeight : UInt32)
    {pkp extras : Option Bytes} {shielding : ShieldingTxBuilder}
    (hshielding : ShieldingTxBuilder.new pkp extras targetHeight = .ok shielding)
    {wasmExtras : Bytes} {wasmShielding : WasmShieldingTxBuilder}
    (hwasm : WasmShieldingTxBuilder.new wasmExtras targetHeight = .ok wasmShielding)
    (nativeActs : List (TxBuilder.Act Rng)) (shieldingActs : List (ShieldingTxBuilder.Act Rng))
    (wasmActs : List (WasmTxBuilder.Act Rng))
    (wasmShieldingActs : List (WasmShieldingTxBuilder.Act Rng)) :
    (TxBuilder.machine lib sig).Faithful (SignedTx lib)
      (some (TxBuilder.new fvk nsk targetHeight)) nativeActs ∧
    (ShieldingTxBuilder.machine lib sig).Faithful (SignedShieldingTx lib) (some shielding)
      shieldingActs ∧
    (WasmTxBuilder.machine lib sig).Faithful (SignedTx lib)
      (WasmTxBuilder.new fvk nsk targetHeight) wasmActs ∧
    ((WasmShieldingTxBuilder.machine lib sig).Faithful (SignedShieldingTx lib) wasmShielding
      wasmShieldingActs ↔
      (WasmShieldingTxBuilder.machine lib sig).Undisturbed wasmShielding wasmShieldingActs) := by
  refine ⟨?_, ?_, ?_, ?_⟩
  · exact TxBuilder.faithful fvk nsk targetHeight nativeActs
  · exact ShieldingTxBuilder.faithful (ShieldingTxBuilder.new_finished hshielding) shieldingActs
  · exact WasmTxBuilder.faithful fvk nsk targetHeight wasmActs
  · exact WasmShieldingTxBuilder.faithful_iff (wasmShielding_new hwasm) wasmShieldingActs

section Samples

open Reference WasmShieldingTxBuilder

def sampleSig : SignLib Unit where
  computeBsk _ _ := []
  sign _ _ _ := []

/-- A new shielding builder of the WASM library. -/
def sampleShielding : WasmShieldingTxBuilder :=
  ⟨List.replicate 32 0, 2000000, .on, [], [], [], 0, 0, 0, none, none⟩

/-- The call that adds an input of this value. -/
def inputOf (value : UInt64) : Act Unit := .addInput (List.replicate 32 0) 0 value []

/-- The builder shields 9000 out of an input of 10000. -/
def shieldOnce : List (Act Unit) := [inputOf 10000, .addOutput [] 9000 ⟨[], [], ()⟩, .build]

def completeOnce : Act Unit := .complete [0, 0] (List.replicate 33 0) ()

theorem completed_signed_sample :
    (machine sapling sampleSig).Faithful (SignedShieldingTx sapling) sampleShielding
      (shieldOnce ++ [completeOnce]) := by
  have hb : ShieldingTxBuilder.new (some []) (some (List.replicate 96 0)) 2000000 =
      .ok ⟨List.replicate 32 0, 2000000, .on, [], [], [], 0, 0, 0, none⟩ := rfl
  have hwb : WasmShieldingTxBuilder.new (List.replicate 96 0) 2000000 = .ok sampleShielding := rfl
  refine (completed_signed_iff ⟨[], [], []⟩ [] 2000000 hb hwb [] [] [] _).2.2.2.mpr ?_
  unfold Machine.Undisturbed shieldOnce
  refine Runs.guarded_cons.mpr ⟨?_, ?_⟩
  · rintro _ ⟨⟩
  rintro _ ⟨⟩
  refine Runs.guarded_cons.mpr ⟨?_, ?_⟩
  · rintro _ ⟨⟩
  rintro _ ⟨⟩
  refine Runs.guarded_cons.mpr ⟨?_, ?_⟩
  · rintro _ ⟨⟩
  rintro _ ⟨⟩
  exact Runs.guarded_cons.mpr ⟨fun _ _ => rfl, fun _ _ => Runs.guarded_nil⟩

/-- An input that is added after the build is in the transaction, without a signature. -/
theorem input_added_unsigned :
    ¬ (machine sapling sampleSig).Faithful (SignedShieldingTx sapling) sampleShielding
      (shieldOnce ++ [inputOf 500, completeOnce]) := by
  intro h
  obtain ⟨w, tx, c, hrun, htx, hhanded, hlen⟩ : ∃ w tx c,
      Runs.run (fun w a => some ((machine sapling sampleSig).watch w a))
        (Machine.start sampleShielding) (shieldOnce ++ [inputOf 500]) = some w ∧
      (machine sapling sampleSig).returns w.state completeOnce = some tx ∧
      w.handed = some c ∧ tx.inputs.length = c.1.inputs.length + 1 :=
    ⟨_, _, _, rfl, rfl, rfl, rfl⟩
  obtain ⟨c', hc', hsigned⟩ := h _ _ (List.prefix_refl _) w hrun tx htx
  obtain rfl := Option.some.inj (hhanded.symm.trans hc')
  rw [hsigned.inputs] at hlen
  omega

end Samples

end Sapling
