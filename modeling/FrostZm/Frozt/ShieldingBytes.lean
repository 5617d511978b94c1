import FrostZm.Frozt.ShieldingBalance
import FrostZm.Frozt.TxBytes
import FrostZm.Lib.Runs
import FrostZm.Lib.Scripts

/-!
# The bytes of a shielding transaction

A verifier reads the whole of a version 5 transaction, and each script signature as two pushes of
data. The builder writes the lengths in front of the pushes in one byte each.
-/

open Reader

/-! ## The grammar -/

namespace Zip225

open Zip244

structure TxIn where
  prevTxid : Bytes
  vout : UInt32
  scriptSig : Bytes
  sequence : UInt32

structure TxOut where
  value : Int64
  scriptPubkey : Bytes

/-- A transaction without Orchard actions. -/
structure Tx where
  consensusBranchId : UInt32
  lockTime : UInt32
  expiryHeight : UInt32
  txIns : List TxIn
  txOuts : List TxOut
  spends : List SpendDescription
  outputs : List OutputDescription
  valueBalance : Int64
  anchor : Bytes
  spendProofs : List Bytes
  spendAuthSigs : List Bytes
  outputProofs : List Bytes
  bindingSig : Bytes

def readScript : Reader Bytes := do
  let len ← readCompactSize
  bytes len

def readTxIn : Reader TxIn := do
  let prevTxid ← bytes 32
  let vout ← readU32
  let scriptSig ← readScript
  let sequence ← readU32
  return { prevTxid, vout, scriptSig, sequence }

def readTxOut : Reader TxOut := do
  let value ← readU64
  let scriptPubkey ← readScript
  return { value := value.toInt64, scriptPubkey }

/-- Only a transaction with spends or outputs is signed as a bundle. -/
def readBindingSig (nSpends nOutputs : Nat) : Reader Bytes :=
  if nSpends = 0 ∧ nOutputs = 0 then pure [] else bytes 64

def readTx : Reader Tx := do
  expect (u32ToLeBytes 0x80000005)
  expect (u32ToLeBytes 0x26A7270A)
  let consensusBranchId ← readU32
  let lockTime ← readU32
  let expiryHeight ← readU32
  let nTxIns ← readCompactSize
  let txIns ← many readTxIn nTxIns
  let nTxOuts ← readCompactSize
  let txOuts ← many readTxOut nTxOuts
  let nSpends ← readCompactSize
  let spends ← many readSpend nSpends
  let nOutputs ← readCompactSize
  let outputs ← many readOutput nOutputs
  let valueBalance ← readValueBalance nSpends nOutputs
  let anchor ← readAnchor nSpends
  let spendProofs ← many (bytes 192) nSpends
  let spendAuthSigs ← many (bytes 64) nSpends
  let outputProofs ← many (bytes 192) nOutputs
  let bindingSig ← readBindingSig nSpends nOutputs
  expect [0]
  return { consensusBranchId, lockTime, expiryHeight, txIns, txOuts, spends, outputs, valueBalance,
           anchor, spendProofs, spendAuthSigs, outputProofs, bindingSig }

end Zip225

namespace Sapling

variable {Rng Witness : Type} {lib : SaplingLib Rng Witness} {sig : SignLib Rng}

/-! ## What a reader should find -/

/-- An input with its signature and its public key. -/
abbrev SignedInput := TransparentInput × Bytes × Bytes

def signedInputs (st : ShieldingBuildState) (sigs pubkeys : List Bytes) : List SignedInput :=
  st.inputs.zip (sigs.zip pubkeys)

structure InputShows (signed : SignedInput) (txIn : Zip225.TxIn) : Prop where
  prevTxid : txIn.prevTxid = signed.1.prevTxid
  vout : txIn.vout = signed.1.vout
  script : Script.ops txIn.scriptSig = some [.push (signed.2.1 ++ [0x01]), .push signed.2.2]

structure OutputShows (output : TransparentOutput) (txOut : Zip225.TxOut) : Prop where
  value : txOut.value.toInt = output.value.toNat
  scriptPubkey : txOut.scriptPubkey = output.scriptPubkey

/-- The transaction has the state's lists, each input with its signature. -/
structure Shows (st : ShieldingBuildState) (sigs pubkeys : List Bytes) (tx : Zip225.Tx) : Prop where
  count : tx.txIns.length = st.inputs.length
  inputs : List.Forall₂ InputShows (signedInputs st sigs pubkeys) tx.txIns
  transparentOutputs : List.Forall₂ OutputShows st.transparentOutputs tx.txOuts
  saplingOutputs : tx.outputs = st.saplingOutputs.map OutputParts.description
  proofs : tx.outputProofs = st.saplingOutputs.map OutputParts.zkproof

/-- A reader finds that, and no byte is left. -/
def ParsesBack (st : ShieldingBuildState) (sigs pubkeys : List Bytes) (raw : Bytes) : Prop :=
  ∃ tx, Zip225.readTx raw = some (tx, []) ∧ Shows st sigs pubkeys tx

/-- A signature and its hash type go into a direct push, and the values are signed numbers. -/
structure FitsGrammar (st : ShieldingBuildState) (sigs : List Bytes) : Prop where
  signatures : ∀ signature ∈ sigs, signature.length ≤ 74
  values : ∀ output ∈ st.transparentOutputs, output.value.toNat < 2 ^ 63

/-! ## Sizes -/

/-- The sizes of the proofs and signatures that the library gives. -/
structure ShieldingSizes (lib : SaplingLib Rng Witness) (sig : SignLib Rng) : Prop extends
    lib.Sizes where
  proveOutput : ∀ esk note rcv rng, (lib.proveOutput esk note rcv rng).length = 192
  sign : ∀ bsk sighash rng, (sig.sign bsk sighash rng).length = 64

structure PartsSized (inputs : List TransparentInput) (transparentOutputs : List TransparentOutput)
    (saplingOutputs : List OutputParts) : Prop where
  inputs : ∀ i ∈ inputs, i.prevTxid.length = 32
  transparentOutputs : ∀ o ∈ transparentOutputs, o.scriptPubkey.length = 25
  saplingOutputs : ∀ o ∈ saplingOutputs, o.Sized ∧ o.zkproof.length = 192

/-- What a builder has and what it has built have the sizes of the fields, and only a transaction
with Sapling outputs is built. -/
structure ShieldingTxBuilder.Sized (b : ShieldingTxBuilder) : Prop where
  parts : PartsSized b.inputs b.transparentOutputs b.saplingOutputs
  built : ∀ st, b.finished = some st →
    PartsSized st.inputs st.transparentOutputs st.saplingOutputs ∧ st.saplingOutputs ≠ []

/-- The lists of a state are in memory. -/
structure ShieldingBuildState.CountsFit (st : ShieldingBuildState) : Prop where
  inputs : st.inputs.length < 2 ^ 64
  transparentOutputs : st.transparentOutputs.length < 2 ^ 64
  saplingOutputs : st.saplingOutputs.length < 2 ^ 64

section Sized

variable {b b' b₀ : ShieldingTxBuilder}

theorem parseTransparentInput_sized {data : Bytes} {input : TransparentInput}
    (h : parseTransparentInput data = .ok input) : input.prevTxid.length = 32 := by
  unfold parseTransparentInput at h
  obtain ⟨_, hshort, h⟩ := bind_eq_ok.mp h
  obtain ⟨_, -, h⟩ := bind_eq_ok.mp h
  obtain rfl := Except.ok.inj h
  rw [failIf_eq_ok] at hshort
  rw [slice, List.length_take, List.length_drop]
  omega

theorem parseTransparentAddress_sized {addr hash : Bytes}
    (h : parseTransparentAddress lib addr = .ok hash) : hash.length = 20 := by
  unfold parseTransparentAddress at h
  obtain ⟨decoded, -, h⟩ := bind_eq_ok.mp h
  obtain ⟨_, hlen, h⟩ := bind_eq_ok.mp h
  obtain ⟨_, -, h⟩ := bind_eq_ok.mp h
  obtain rfl := Except.ok.inj h
  rw [failIf_eq_ok, not_not] at hlen
  rw [slice, List.length_take, List.length_drop, hlen]
  rfl

theorem forall_mem_concat {α : Type} {P : α → Prop} {l : List α} {a : α} (h : ∀ x ∈ l, P x)
    (ha : P a) : ∀ x ∈ l ++ [a], P x := by
  intro x hx
  rcases List.mem_append.mp hx with hx | hx
  · exact h x hx
  · exact List.mem_singleton.mp hx ▸ ha

theorem sized_new {pkp extras : Option Bytes} {targetHeight : UInt32}
    (h : ShieldingTxBuilder.new pkp extras targetHeight = .ok b) : b.Sized := by
  unfold ShieldingTxBuilder.new at h
  obtain ⟨_, -, h⟩ := bind_eq_ok.mp h
  obtain ⟨_, -, h⟩ := bind_eq_ok.mp h
  obtain ⟨_, -, h⟩ := bind_eq_ok.mp h
  obtain rfl := Except.ok.inj h
  exact ⟨⟨List.forall_mem_nil _, List.forall_mem_nil _, List.forall_mem_nil _⟩, nofun⟩

theorem ShieldingTxBuilder.Sized.perform (sizes : ShieldingSizes lib sig) (hb : b.Sized)
    {c : ShieldingTxBuilder.Call Rng} (h : b.perform lib c = .ok b') : b'.Sized := by
  cases c with
  | addInput inputData =>
    unfold ShieldingTxBuilder.perform ShieldingTxBuilder.addInput at h
    obtain ⟨data, -, h⟩ := bind_eq_ok.mp h
    obtain ⟨input, hinput, h⟩ := bind_eq_ok.mp h
    obtain ⟨_, -, h⟩ := bind_eq_ok.mp h
    obtain rfl := Except.ok.inj h
    exact ⟨⟨forall_mem_concat hb.parts.inputs (parseTransparentInput_sized hinput),
      hb.parts.transparentOutputs, hb.parts.saplingOutputs⟩, hb.built⟩
  | addOutput address amount draw =>
    unfold ShieldingTxBuilder.perform ShieldingTxBuilder.addOutput at h
    obtain ⟨addr, -, h⟩ := bind_eq_ok.mp h
    obtain ⟨_, -, h⟩ := bind_eq_ok.mp h
    obtain ⟨recipient, -, h⟩ := bind_eq_ok.mp h
    obtain ⟨_, -, h⟩ := bind_eq_ok.mp h
    obtain ⟨output, houtput, h⟩ := bind_eq_ok.mp h
    obtain ⟨_, -, h⟩ := bind_eq_ok.mp h
    obtain rfl := Except.ok.inj h
    have hproof : output.zkproof.length = 192 := by
      unfold makeOutput at houtput
      obtain rfl := Except.ok.inj houtput
      exact sizes.proveOutput _ _ _ _
    have hsized := sized_makeOutput sizes.toSizes houtput
    exact ⟨⟨hb.parts.inputs, hb.parts.transparentOutputs,
      forall_mem_concat hb.parts.saplingOutputs ⟨hsized, hproof⟩⟩, hb.built⟩
  | addTransparentOutput address amount =>
    unfold ShieldingTxBuilder.perform ShieldingTxBuilder.addTransparentOutput at h
    obtain ⟨addr, -, h⟩ := bind_eq_ok.mp h
    obtain ⟨_, -, h⟩ := bind_eq_ok.mp h
    obtain ⟨hash, hhash, h⟩ := bind_eq_ok.mp h
    obtain ⟨_, -, h⟩ := bind_eq_ok.mp h
    obtain rfl := Except.ok.inj h
    have hscript : (buildP2pkhScriptPubkey hash).length = 25 := by
      unfold buildP2pkhScriptPubkey
      rw [List.length_append, List.length_append, parseTransparentAddress_sized hhash]
      rfl
    exact ⟨⟨hb.parts.inputs, forall_mem_concat hb.parts.transparentOutputs hscript,
      hb.parts.saplingOutputs⟩, hb.built⟩
  | build outSighashes outCount =>
    obtain ⟨⟨b₁, out⟩, hbuild, rfl⟩ := map_eq_ok.mp h
    have hne : b.saplingOutputs ≠ [] := by
      unfold ShieldingTxBuilder.build at hbuild
      obtain ⟨_, -, hbuild⟩ := bind_eq_ok.mp hbuild
      obtain ⟨_, -, hbuild⟩ := bind_eq_ok.mp hbuild
      obtain ⟨_, hempty, -⟩ := bind_eq_ok.mp hbuild
      rw [failIf_eq_ok] at hempty
      intro hnil
      rw [hnil, List.isEmpty_nil, Bool.or_true] at hempty
      exact hempty rfl
    obtain ⟨-, st, hinputs, htransparent, hsapling, -, rfl⟩ := ShieldingTxBuilder.build_ok hbuild
    refine ⟨⟨List.forall_mem_nil _, List.forall_mem_nil _, List.forall_mem_nil _⟩, fun st' hst' => ?_⟩
    obtain rfl := Option.some.inj hst'
    rw [hinputs, htransparent, hsapling]
    exact ⟨hb.parts, hne⟩

theorem ShieldingTxBuilder.Sized.of_run (sizes : ShieldingSizes lib sig) (hb : b₀.Sized)
    {calls : List (ShieldingTxBuilder.Call Rng)}
    (h : Runs.run (ShieldingTxBuilder.step lib) b₀ calls = some b) : b.Sized := by
  refine Runs.inv_of_run ShieldingTxBuilder.Sized hb (fun u c v hu hstep => ?_) h
  unfold ShieldingTxBuilder.step at hstep
  split at hstep
  · next b₁ hperform =>
    obtain rfl := Option.some.inj hstep
    exact hu.perform sizes hperform
  · obtain rfl := Option.some.inj hstep
    exact hu

end Sized

/-! ## Script signatures -/

/-- Two pushes are read exactly if the signature and its hash type fit in a direct one: a longer
push would need more room than the script has. -/
theorem ops_scriptSig_iff {signature pubkey : Bytes} (hkey : pubkey.length = 33) :
    Script.ops (buildP2pkhScriptSig signature pubkey) =
      some [.push (signature ++ [0x01]), .push pubkey] ↔ signature.length ≤ 74 := by
  have hsig : (signature ++ [0x01]).length = signature.length + 1 := List.length_append
  have hscript : buildP2pkhScriptSig signature pubkey =
      .ofNat (signature ++ [0x01]).length :: (signature ++ [0x01]) ++
        .ofNat pubkey.length :: pubkey := by
    rw [hsig]
    rfl
  rw [hscript]
  constructor
  · intro h
    have hroom := (Script.length_of_pushes h).2
    simp only [List.length_append, List.length_cons, List.length_nil] at hroom
    omega
  · intro h
    exact Script.ops_direct (by omega) (by omega)

theorem takeSigs_short {ε : Type} {tooShort truncated : ε} {sigData : Bytes} {n offset : Nat}
    {sigs : List Bytes} (h : takeSigs tooShort truncated sigData n offset = .ok sigs) :
    ∀ signature ∈ sigs, signature.length < 2 ^ 16 := by
  induction n generalizing offset sigs with
  | zero =>
    obtain rfl := Except.ok.inj h
    exact List.forall_mem_nil _
  | succ n ih =>
    rw [takeSigs] at h
    split at h
    · cases h
    simp only at h
    split at h
    · cases h
    obtain ⟨rest, hrest, rfl⟩ := map_eq_ok.mp h
    refine List.forall_mem_cons.mpr ⟨?_, ih hrest⟩
    rw [slice, List.length_take]
    exact (Nat.min_le_left _ _).trans_lt (UInt16.toNat_lt _)

theorem length_of_mem_chunks {data : Bytes} {size n : Nat} (hdata : data.length = n * size)
    {b : Bytes} (hb : b ∈ chunks data size n) : b.length = size := by
  obtain ⟨i, hi, rfl⟩ := List.mem_map.mp hb
  have hend : (i + 1) * size ≤ n * size := Nat.mul_le_mul_right size (List.mem_range.mp hi)
  rw [Nat.succ_mul] at hend
  rw [slice, List.length_take, List.length_drop]
  omega

/-! ## Reading what was written -/

theorem reads_script {script : Bytes} (h : script.length < 2 ^ 64) :
    Reads Zip225.readScript (writeCompactsize script.length ++ script) script :=
  (Zip244.reads_compactSize h).bind (reads_bytes rfl)

def txInOf (signed : SignedInput) : Zip225.TxIn where
  prevTxid := signed.1.prevTxid
  vout := signed.1.vout
  scriptSig := buildP2pkhScriptSig signed.2.1 signed.2.2
  sequence := sequence

def writeSigned (signed : SignedInput) : Bytes :=
  signed.1.write (buildP2pkhScriptSig signed.2.1 signed.2.2)

theorem reads_txIn {signed : SignedInput} (htxid : signed.1.prevTxid.length = 32)
    (hsig : signed.2.1.length < 2 ^ 16) (hkey : signed.2.2.length = 33) :
    Reads Zip225.readTxIn (writeSigned signed) (txInOf signed) := by
  have hscript : (buildP2pkhScriptSig signed.2.1 signed.2.2).length < 2 ^ 64 := by
    unfold buildP2pkhScriptSig
    simp only [List.length_append, List.length_cons, List.length_nil, hkey]
    omega
  unfold writeSigned TransparentInput.write
  simp only [List.append_assoc]
  refine (reads_bytes htxid).bind ((Zip244.reads_u32 _).bind ?_)
  rw [← List.append_assoc (writeCompactsize _)]
  exact (reads_script hscript).bind (Zip244.reads_u32 _).bind_pure

def txOutOf (output : TransparentOutput) : Zip225.TxOut where
  value := output.value.toInt64
  scriptPubkey := output.scriptPubkey

theorem reads_txOut {output : TransparentOutput} (h : output.scriptPubkey.length = 25) :
    Reads Zip225.readTxOut output.write (txOutOf output) := by
  unfold TransparentOutput.write
  rw [List.append_assoc]
  exact (Zip244.reads_u64 _).bind (reads_script (by omega)).bind_pure

theorem writeSigned_flatMap (inputs : List TransparentInput) (sigs pubkeys : List Bytes) :
    (List.zipWith TransparentInput.write inputs
      (List.zipWith buildP2pkhScriptSig sigs pubkeys)).flatten =
        (inputs.zip (sigs.zip pubkeys)).flatMap writeSigned := by
  rw [List.flatMap_def, ← List.map_uncurry_zip_eq_zipWith (f := buildP2pkhScriptSig),
    List.zipWith_map_right, ← List.map_uncurry_zip_eq_zipWith]
  rfl

/-- What a reader makes of a completed transaction. -/
def readBack (st : ShieldingBuildState) (sigs pubkeys : List Bytes) (bindingSig : Bytes) :
    Zip225.Tx where
  consensusBranchId := st.consensusBranchId
  lockTime := 0
  expiryHeight := st.expiryHeight
  txIns := (signedInputs st sigs pubkeys).map txInOf
  txOuts := st.transparentOutputs.map txOutOf
  spends := []
  outputs := st.saplingOutputs.map OutputParts.description
  valueBalance := st.valueBalance
  anchor := []
  spendProofs := []
  spendAuthSigs := []
  outputProofs := st.saplingOutputs.map OutputParts.zkproof
  bindingSig := bindingSig

theorem reads_completed {st : ShieldingBuildState} {sigs pubkeys : List Bytes} {bindingSig : Bytes}
    (hparts : PartsSized st.inputs st.transparentOutputs st.saplingOutputs)
    (hne : st.saplingOutputs ≠ []) (hcount : st.CountsFit)
    (hlen : (signedInputs st sigs pubkeys).length = st.inputs.length)
    (hsigs : ∀ signature ∈ sigs, signature.length < 2 ^ 16)
    (hkeys : ∀ pubkey ∈ pubkeys, pubkey.length = 33) (hbinding : bindingSig.length = 64) :
    Reads Zip225.readTx
      (serializeShieldingV5Tx {
        inputs := st.inputs
        scriptSigs := List.zipWith buildP2pkhScriptSig sigs pubkeys
        transparentOutputs := st.transparentOutputs
        saplingOutputs := st.saplingOutputs
        valueBalance := st.valueBalance
        bindingSig
        consensusBranchId := st.consensusBranchId
        expiryHeight := st.expiryHeight })
      (readBack st sigs pubkeys bindingSig) := by
  have houtputs : st.saplingOutputs.length ≠ 0 := fun h => hne (List.length_eq_zero_iff.mp h)
  have hins : Reads (many Zip225.readTxIn st.inputs.length)
      ((signedInputs st sigs pubkeys).flatMap writeSigned)
      ((signedInputs st sigs pubkeys).map txInOf) := by
    rw [← hlen]
    refine Reads.many fun signed hmem => ?_
    have hzip := List.of_mem_zip hmem
    have hpair := List.of_mem_zip hzip.2
    exact reads_txIn (hparts.inputs _ hzip.1) (hsigs _ hpair.1) (hkeys _ hpair.2)
  have houts : Reads (many Zip225.readTxOut st.transparentOutputs.length)
      (st.transparentOutputs.flatMap TransparentOutput.write)
      (st.transparentOutputs.map txOutOf) :=
    Reads.many fun o ho => reads_txOut (hparts.transparentOutputs o ho)
  have hsapling : Reads (many Zip244.readOutput st.saplingOutputs.length)
      (st.saplingOutputs.flatMap OutputParts.write)
      (st.saplingOutputs.map OutputParts.description) :=
    Reads.many fun o ho => reads_output (hparts.saplingOutputs o ho).1
  have hproofs : Reads (many (bytes 192) st.saplingOutputs.length)
      (st.saplingOutputs.flatMap OutputParts.zkproof)
      (st.saplingOutputs.map OutputParts.zkproof) :=
    Reads.many fun o ho => reads_bytes (hparts.saplingOutputs o ho).2
  have hvalue : Reads (Zip244.readValueBalance 0 st.saplingOutputs.length)
      (i64ToLeBytes st.valueBalance) st.valueBalance := by
    unfold Zip244.readValueBalance
    rw [if_neg fun h => houtputs h.2]
    exact (Zip244.reads_u64 st.valueBalance.toUInt64).bind_pure (g := UInt64.toInt64)
  have hsigned : Reads (Zip225.readBindingSig 0 st.saplingOutputs.length) bindingSig bindingSig := by
    unfold Zip225.readBindingSig
    rw [if_neg fun h => houtputs h.2]
    exact reads_bytes hbinding
  unfold serializeShieldingV5Tx writeHeader
  simp only [writeSigned_flatMap, List.append_assoc]
  refine reads_expect.bind (reads_expect.bind ((Zip244.reads_u32 _).bind ((Zip244.reads_u32 _).bind
    ((Zip244.reads_u32 _).bind ((Zip244.reads_compactSize hcount.inputs).bind (hins.bind
    ((Zip244.reads_compactSize hcount.transparentOutputs).bind (houts.bind
    ((Zip244.reads_compactSize (by decide)).bind ?_)))))))))
  -- without spends nothing stands where they, their anchor, proofs and signatures would
  refine reads_pure.nil_bind ((Zip244.reads_compactSize hcount.saplingOutputs).bind (hsapling.bind
    (hvalue.bind (reads_pure.nil_bind (reads_pure.nil_bind (reads_pure.nil_bind (hproofs.bind
    (hsigned.bind (Reads.bind_nil reads_expect reads_pure)))))))))

/-! ## Which transactions parse back -/

/-- The signatures that `complete` takes out of its argument. -/
def takenSigs (sigData : Bytes) (n : Nat) : Result (List Bytes) :=
  takeSigs (LibError.invalidBufferSize : Fault) LibError.invalidBufferSize sigData n 0

theorem inputShows_iff {signed : SignedInput} (hkey : signed.2.2.length = 33) :
    InputShows signed (txInOf signed) ↔ signed.2.1.length ≤ 74 := by
  rw [← ops_scriptSig_iff hkey]
  exact ⟨InputShows.script, fun h => ⟨rfl, rfl, h⟩⟩

theorem outputShows_iff (output : TransparentOutput) :
    OutputShows output (txOutOf output) ↔ output.value.toNat < 2 ^ 63 := by
  have hvalue := toInt_toInt64 output.value
  have hlt := output.value.toNat_lt
  constructor
  · intro h
    have heq := h.value
    unfold txOutOf at heq
    dsimp only at heq
    rw [hvalue] at heq
    split at heq
    · assumption
    · omega
  · intro h
    rw [if_pos h] at hvalue
    exact ⟨hvalue, rfl⟩

section ParsesBack

variable {st : ShieldingBuildState} {sigs pubkeys : List Bytes}

theorem forall_signedInputs {P : Bytes → Prop} (hsigs : sigs.length = st.inputs.length)
    (hkeys : pubkeys.length = st.inputs.length) :
    (∀ signed ∈ signedInputs st sigs pubkeys, P signed.2.1) ↔ ∀ signature ∈ sigs, P signature := by
  have hmap : (signedInputs st sigs pubkeys).map (fun signed => signed.2.1) = sigs := by
    have hpairs : (sigs.zip pubkeys).length = st.inputs.length := by
      rw [List.length_zip, hsigs, hkeys, Nat.min_self]
    have hsnd : (signedInputs st sigs pubkeys).map Prod.snd = sigs.zip pubkeys :=
      List.map_snd_zip hpairs.le
    have hfst : (sigs.zip pubkeys).map Prod.fst = sigs := List.map_fst_zip (hsigs.trans hkeys.symm).le
    calc (signedInputs st sigs pubkeys).map (fun signed => signed.2.1)
        = ((signedInputs st sigs pubkeys).map Prod.snd).map Prod.fst := by rw [List.map_map]; rfl
      _ = sigs := by rw [hsnd, hfst]
  nth_rewrite 2 [← hmap]
  rw [List.forall_mem_map]

theorem shows_iff {bindingSig : Bytes} (hsigs : sigs.length = st.inputs.length)
    (hkeys : pubkeys.length = st.inputs.length) (hsize : ∀ pubkey ∈ pubkeys, pubkey.length = 33) :
    Shows st sigs pubkeys (readBack st sigs pubkeys bindingSig) ↔ FitsGrammar st sigs := by
  have hcount : (signedInputs st sigs pubkeys).length = st.inputs.length := by
    rw [signedInputs, List.length_zip, List.length_zip, hsigs, hkeys, Nat.min_self, Nat.min_self]
  have hinputs : List.Forall₂ InputShows (signedInputs st sigs pubkeys)
      ((signedInputs st sigs pubkeys).map txInOf) ↔ ∀ signature ∈ sigs, signature.length ≤ 74 := by
    rw [List.forall₂_map_right_iff, List.forall₂_same, ← forall_signedInputs hsigs hkeys]
    refine forall₂_congr fun signed hmem => inputShows_iff (hsize _ ?_)
    exact (List.of_mem_zip (List.of_mem_zip hmem).2).2
  have houtputs : List.Forall₂ OutputShows st.transparentOutputs
      (st.transparentOutputs.map txOutOf) ↔
        ∀ output ∈ st.transparentOutputs, output.value.toNat < 2 ^ 63 := by
    rw [List.forall₂_map_right_iff, List.forall₂_same]
    exact forall₂_congr fun output _ => outputShows_iff output
  constructor
  · intro h
    exact ⟨hinputs.mp h.inputs, houtputs.mp h.transparentOutputs⟩
  · intro h
    refine ⟨?_, hinputs.mpr h.signatures, houtputs.mpr h.values, rfl, rfl⟩
    rw [← hcount]
    exact List.length_map _

variable {b b₀ : ShieldingTxBuilder} {sigData pkData raw : Bytes} {rng : Rng}

theorem complete_ok (hst : b.finished = some st) (hsigs : takenSigs sigData st.inputs.length = .ok sigs)
    (h : (b.complete sig (some sigData) (some pkData) (some ()) rng).2 = .ok raw) :
    pkData.length = st.inputs.length * 33 ∧ ∃ bsk, raw = serializeShieldingV5Tx {
      inputs := st.inputs
      scriptSigs := List.zipWith buildP2pkhScriptSig sigs (chunks pkData 33 st.inputs.length)
      transparentOutputs := st.transparentOutputs
      saplingOutputs := st.saplingOutputs
      valueBalance := st.valueBalance
      bindingSig := sig.sign bsk st.txidSighash rng
      consensusBranchId := st.consensusBranchId
      expiryHeight := st.expiryHeight } := by
  unfold ShieldingTxBuilder.complete at h
  obtain ⟨tx, htx, rfl⟩ := map_eq_ok.mp h
  unfold ShieldingTxBuilder.completedTx at htx
  rw [hst] at htx
  obtain ⟨_, hstate, htx⟩ := bind_eq_ok.mp htx
  obtain rfl := Except.ok.inj hstate
  obtain ⟨_, hkeys, htx⟩ := bind_eq_ok.mp htx
  obtain ⟨sigs', hsigs', htx⟩ := bind_eq_ok.mp htx
  obtain rfl : sigs = sigs' := Except.ok.inj (hsigs.symm.trans hsigs')
  obtain rfl := Except.ok.inj htx
  rw [failIf_eq_ok, not_not] at hkeys
  exact ⟨hkeys, _, rfl⟩

variable (sig) in
theorem exists_complete (hst : b.finished = some st) (hkeys : pkData.length = st.inputs.length * 33)
    (hsigs : takenSigs sigData st.inputs.length = .ok sigs) (rng : Rng) :
    ∃ raw, (b.complete sig (some sigData) (some pkData) (some ()) rng).2 = .ok raw := by
  have hlen : failIf (pkData.length ≠ st.inputs.length * 33) .invalidBufferSize = .ok () :=
    failIf_eq_ok.mpr (not_not.mpr hkeys)
  obtain ⟨tx, htx⟩ : ∃ tx, b.completedTx sig sigData pkData rng = .ok tx :=
    ⟨_, bind_eq_ok.mpr ⟨st, okOr_eq_ok.mpr hst, bind_eq_ok.mpr ⟨(), hlen,
      bind_eq_ok.mpr ⟨sigs, hsigs, rfl⟩⟩⟩⟩
  exact ⟨_, map_eq_ok.mpr ⟨tx, htx, rfl⟩⟩

theorem parsesBack_iff (sizes : ShieldingSizes lib sig) (hb : b.Sized) (hst : b.finished = some st)
    (hcount : st.CountsFit) (hsigs : takenSigs sigData st.inputs.length = .ok sigs)
    (h : (b.complete sig (some sigData) (some pkData) (some ()) rng).2 = .ok raw) :
    ParsesBack st sigs (chunks pkData 33 st.inputs.length) raw ↔ FitsGrammar st sigs := by
  obtain ⟨hkeys, bsk, rfl⟩ := complete_ok hst hsigs h
  obtain ⟨hparts, hne⟩ := hb.built st hst
  have hsigsLen : sigs.length = st.inputs.length := length_takeSigs hsigs
  have hkeysLen : (chunks pkData 33 st.inputs.length).length = st.inputs.length := length_chunks _ _ _
  have hsize : ∀ pubkey ∈ chunks pkData 33 st.inputs.length, pubkey.length = 33 :=
    fun _ hmem => length_of_mem_chunks hkeys hmem
  have hsigned : (signedInputs st sigs (chunks pkData 33 st.inputs.length)).length =
      st.inputs.length := by
    rw [signedInputs, List.length_zip, List.length_zip, hsigsLen, hkeysLen, Nat.min_self,
      Nat.min_self]
  have hread := (reads_completed hparts hne hcount hsigned (takeSigs_short hsigs) hsize
    (sizes.sign bsk st.txidSighash rng)).run []
  rw [List.append_nil] at hread
  rw [← shows_iff hsigsLen hkeysLen hsize]
  constructor
  · rintro ⟨tx, htx, hshows⟩
    obtain rfl := congrArg Prod.fst (Option.some.inj (hread.symm.trans htx))
    exact hshows
  · intro hshows
    exact ⟨_, hread, hshows⟩

/-- In every state that a builder reaches: its completed transaction is read as the state's lists,
and each script signature as two pushes, exactly if each signature with its hash type fits in a
direct push and the values in signed numbers. -/
theorem completed_parsesBack_iff (sizes : ShieldingSizes lib sig) {pkp extras : Option Bytes}
    {targetHeight : UInt32} (hnew : ShieldingTxBuilder.new pkp extras targetHeight = .ok b₀)
    {calls : List (ShieldingTxBuilder.Call Rng)}
    (hrun : Runs.run (ShieldingTxBuilder.step lib) b₀ calls = some b) (hst : b.finished = some st)
    (hcount : st.CountsFit) (hsigs : takenSigs sigData st.inputs.length = .ok sigs)
    (h : (b.complete sig (some sigData) (some pkData) (some ()) rng).2 = .ok raw) :
    ParsesBack st sigs (chunks pkData 33 st.inputs.length) raw ↔ FitsGrammar st sigs :=
  parsesBack_iff sizes ((sized_new hnew).of_run sizes hrun) hst hcount hsigs h

end ParsesBack

/-! ## One input -/

section Samples

open Reference ShieldingTxBuilder

/-- The library with the sizes of the real one, proofs included. -/
def wholeSapling : SaplingLib Unit Bytes :=
  { sized with proveOutput := fun _ _ _ _ => List.replicate 192 0 }

def wholeSig : SignLib Unit where
  computeBsk _ _ := []
  sign _ _ _ := List.replicate 64 0

theorem wholeSapling_sizes : ShieldingSizes wholeSapling wholeSig where
  baseFromRepr_eq := sized_sizes.baseFromRepr_eq
  valueCommitment := sized_sizes.valueCommitment
  nf := sized_sizes.nf
  randomize := sized_sizes.randomize
  cmu := sized_sizes.cmu
  ephemeralKey := sized_sizes.ephemeralKey
  encCiphertext := sized_sizes.encCiphertext
  outCiphertext := sized_sizes.outCiphertext
  proveOutput _ _ _ _ := List.length_replicate
  sign _ _ _ := List.length_replicate

def shieldOneInput : List (Call Unit) :=
  [inputOf 5000, outputOf 1000, .build (some ()) (some ())]

/-- A signature of so many bytes, behind its length. -/
def sigOf (n : UInt8) : Bytes := [n, 0] ++ List.replicate n.toNat 0x30

def oneKey : Bytes := List.replicate 33 0x02

/-- The run that shields one input, and the bytes that `complete` gives for these signatures. -/
structure ShieldsOne (sigData : Bytes) (b : ShieldingTxBuilder) (st : ShieldingBuildState)
    (raw : Bytes) : Prop where
  run : Runs.run (step wholeSapling) sampleBuilder shieldOneInput = some b
  finished : b.finished = some st
  complete : (b.complete wholeSig (some sigData) (some oneKey) (some ()) ()).2 = .ok raw
  inputs : st.inputs.length = 1
  transparentOutputs : st.transparentOutputs = []
  saplingOutputs : st.saplingOutputs.length = 1

theorem exists_shieldsOne {sigData : Bytes} {sigs : List Bytes}
    (h : takenSigs sigData 1 = .ok sigs) : ∃ b st raw, ShieldsOne sigData b st raw := by
  obtain ⟨b, st, hrun, hst, hinputs, htransparent, hsapling⟩ : ∃ b st,
      Runs.run (step wholeSapling) sampleBuilder shieldOneInput = some b ∧ b.finished = some st ∧
      st.inputs.length = 1 ∧ st.transparentOutputs = [] ∧ st.saplingOutputs.length = 1 :=
    ⟨_, _, rfl, rfl, rfl, rfl, rfl⟩
  have hkeys : oneKey.length = st.inputs.length * 33 := by
    rw [hinputs]
    rfl
  obtain ⟨raw, hraw⟩ := exists_complete wholeSig hst hkeys (hinputs ▸ h) ()
  exact ⟨b, st, raw, hrun, hst, hraw, hinputs, htransparent, hsapling⟩

theorem ShieldsOne.countsFit {sigData : Bytes} {b : ShieldingTxBuilder} {st : ShieldingBuildState}
    {raw : Bytes} (h : ShieldsOne sigData b st raw) : st.CountsFit := by
  refine ⟨?_, ?_, ?_⟩
  · rw [h.inputs]
    decide
  · rw [h.transparentOutputs]
    decide
  · rw [h.saplingOutputs]
    decide

theorem completed_parsesBack_sample : ∃ b st raw, ShieldsOne (sigOf 4) b st raw ∧
    ParsesBack st [List.replicate 4 0x30] (chunks oneKey 33 st.inputs.length) raw := by
  have hsigs : takenSigs (sigOf 4) 1 = .ok [List.replicate 4 0x30] := rfl
  obtain ⟨b, st, raw, h⟩ := exists_shieldsOne hsigs
  refine ⟨b, st, raw, h, ?_⟩
  refine (completed_parsesBack_iff wholeSapling_sizes new_sampleBuilder h.run h.finished h.countsFit
    (h.inputs ▸ hsigs) h.complete).mpr ⟨by decide, ?_⟩
  rw [h.transparentOutputs]
  exact List.forall_mem_nil _

/-- The length of a signature of 75 bytes and its hash type is the opcode of another push. -/
theorem not_completed_parsesBack : ∃ b st raw, ShieldsOne (sigOf 75) b st raw ∧
    ¬ ParsesBack st [List.replicate 75 0x30] (chunks oneKey 33 st.inputs.length) raw := by
  have hsigs : takenSigs (sigOf 75) 1 = .ok [List.replicate 75 0x30] := rfl
  obtain ⟨b, st, raw, h⟩ := exists_shieldsOne hsigs
  refine ⟨b, st, raw, h, fun hparses => ?_⟩
  have hsized := (sized_new new_sampleBuilder).of_run wholeSapling_sizes h.run
  have hfits := (parsesBack_iff wholeSapling_sizes hsized h.finished h.countsFit
    (h.inputs ▸ hsigs) h.complete).mp hparses
  exact absurd (hfits.signatures _ List.mem_cons_self) (by decide)

end Samples

end Sapling
