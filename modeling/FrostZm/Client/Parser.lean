import FrostZm.Client.RawTx
import FrostZm.Frozt.ShieldingBytes
import FrostZm.Frozt.Signed

/-!
# The Go parser on what the libraries write, and on any bytes

A completed transaction is read back to its outputs. On other bytes the parser panics where it
looks for a length that is not there.
-/

namespace Go

/-! ## Where a length is looked for -/

/-- What the compact size at the start of the bytes announces, and how many bytes it takes.
There may be no bytes at all. -/
def announced : Bytes → Nat × Nat
  | [] => (0, 0)
  | first :: rest =>
    if first < 253 then (first.toNat, 1)
    else if first = 253 then (LittleEndian.value (rest.take 2), 3)
    else if first = 254 then (LittleEndian.value (rest.take 4), 5)
    else (LittleEndian.value (rest.take 8), 9)

def announcedAt (rawTx : Bytes) (place : Int) : Nat × Nat := announced (rawTx.drop place.toNat)

/-- The place is not outside, and the compact size there is not cut short. -/
def InPlace (rawTx : Bytes) (place : Int) : Prop :=
  0 ≤ place ∧ place + (announcedAt rawTx place).2 ≤ rawTx.length

instance (rawTx : Bytes) (place : Int) : Decidable (InPlace rawTx place) :=
  inferInstanceAs (Decidable (_ ∧ _))

/-- Behind a compact size. -/
def behindSize (rawTx : Bytes) (place : Int) : Int := place + (announcedAt rawTx place).2

/-- The announced number as the parser counts with it. -/
def sizeAt (rawTx : Bytes) (place : Int) : Int := int (.ofNat (announcedAt rawTx place).1)

/-- Behind a script whose length stands `before` bytes further, and `behind` more bytes. -/
def nextItem (rawTx : Bytes) (before behind offset : Int) : Int :=
  wrap (behindSize rawTx (wrap (offset + before)) + sizeAt rawTx (wrap (offset + before)) + behind)

/-- The places of the script lengths of so many items. -/
def scriptPlaces (rawTx : Bytes) (before behind : Int) : Nat → Int → List Int
  | 0, _ => []
  | n + 1, offset =>
    wrap (offset + before) :: scriptPlaces rawTx before behind n (nextItem rawTx before behind offset)

def behindScripts (rawTx : Bytes) (before behind : Int) : Nat → Int → Int
  | 0, offset => offset
  | n + 1, offset => behindScripts rawTx before behind n (nextItem rawTx before behind offset)

/-- The inputs, and behind them the place of the number of outputs. -/
def txOutPlace (rawTx : Bytes) : Int :=
  behindScripts rawTx 36 4 (sizeAt rawTx 20).toNat (behindSize rawTx 20)

def spendPlace (rawTx : Bytes) : Int :=
  behindScripts rawTx 8 0 (sizeAt rawTx (txOutPlace rawTx)).toNat (behindSize rawTx (txOutPlace rawTx))

def outputPlace (rawTx : Bytes) : Int :=
  wrap (behindSize rawTx (spendPlace rawTx) + sizeAt rawTx (spendPlace rawTx) * 96)

/-- All places at which the layout has a compact size before the Sapling outputs. -/
def sizePlaces (rawTx : Bytes) : List Int :=
  20 :: scriptPlaces rawTx 36 4 (sizeAt rawTx 20).toNat (behindSize rawTx 20) ++
    txOutPlace rawTx :: scriptPlaces rawTx 8 0 (sizeAt rawTx (txOutPlace rawTx)).toNat
      (behindSize rawTx (txOutPlace rawTx)) ++
    [spendPlace rawTx, outputPlace rawTx]

/-! ## What each step of the parser needs -/

variable {rawTx : Bytes}

theorem readCompactSize_eq (data : Bytes) :
    readCompactSize data =
      if (announced data).2 ≤ data.length then
        some (.ofNat (announced data).1, ((announced data).2 : Int)) else none := by
  cases data with
  | nil => rfl
  | cons first rest =>
    simp only [readCompactSize, announced, uintBehind, slice, List.drop_succ_cons, List.drop_zero]
    split
    · simp
    · split
      · rfl
      · split <;> rfl

theorem compactSizeAt_eq (place : Int) :
    compactSizeAt rawTx place = if InPlace rawTx place then
      some (.ofNat (announcedAt rawTx place).1, behindSize rawTx place) else none := by
  by_cases hplace : InPlace rawTx place
  · rw [if_pos hplace]
    obtain ⟨hpos, hfit⟩ := hplace
    unfold announcedAt at hfit
    unfold compactSizeAt sliceFrom
    rw [if_pos (by omega)]
    simp only [Option.bind_eq_bind, Option.bind_some]
    rw [readCompactSize_eq, List.length_drop, if_pos (by omega)]
    rfl
  · rw [if_neg hplace]
    unfold compactSizeAt sliceFrom
    by_cases hin : 0 ≤ place ∧ place ≤ rawTx.length
    · have hcut : ¬ (announced (rawTx.drop place.toNat)).2 ≤ rawTx.length - place.toNat := by
        intro hfit
        apply hplace
        unfold InPlace announcedAt
        omega
      rw [if_pos hin]
      simp only [Option.bind_eq_bind, Option.bind_some]
      rw [readCompactSize_eq, List.length_drop, if_neg hcut]
      rfl
    · rw [if_neg hin]
      rfl

theorem skipScripts_eq (before behind : Int) (n : Nat) (offset : Int) :
    skipScripts rawTx before behind n offset =
      if ∀ p ∈ scriptPlaces rawTx before behind n offset, InPlace rawTx p then
        some (behindScripts rawTx before behind n offset) else none := by
  induction n generalizing offset with
  | zero => simp [skipScripts, scriptPlaces, behindScripts]
  | succ n ih =>
    simp only [skipScripts, scriptPlaces, behindScripts, List.forall_mem_cons, compactSizeAt_eq]
    by_cases hplace : InPlace rawTx (wrap (offset + before))
    · simp only [hplace, true_and]
      exact ih _
    · simp only [hplace, false_and, if_false]
      rfl

theorem outputsFrom_isSome (n : Nat) {offset : Int} (h : 0 ≤ offset) :
    (outputsFrom rawTx n offset).isSome := by
  induction n generalizing offset with
  | zero => rfl
  | succ n ih =>
    unfold outputsFrom
    split
    · rfl
    · have hnext : 0 ≤ offset + 756 := by omega
      obtain ⟨rest, hrest⟩ := Option.isSome_iff_exists.mp (ih hnext)
      unfold sliceFrom
      rw [if_pos (by omega), hrest]
      rfl

theorem isSome_guard_bind {α β : Type} {c : Prop} [Decidable c] {a : α} {f : α → Option β} :
    ((if c then some a else none) >>= f).isSome ↔ c ∧ (f a).isSome := by
  split <;> simp [*]

theorem parse_isSome_iff : (parseSaplingOutputsFromRawTx rawTx).isSome ↔
    rawTx.length < 20 ∨ LittleEndian.value (slice rawTx 0 4) ≠ 0x80000005 ∨
      ∀ p ∈ sizePlaces rawTx, InPlace rawTx p := by
  unfold parseSaplingOutputsFromRawTx
  by_cases hshort : rawTx.length < 20
  · simp [hshort]
  by_cases hheader : LittleEndian.value (slice rawTx 0 4) ≠ 0x80000005
  · simp [hshort, hheader]
  simp only [hshort, hheader, if_false, false_or, sizePlaces, List.forall_mem_cons, List.forall_mem_append,
    List.cons_append, skipScripts_eq, compactSizeAt_eq, isSome_guard_bind]
  constructor
  · rintro ⟨hIn, hIns, hOut, hOuts, hSpend, hOutput, -⟩
    exact ⟨hIn, ⟨hIns, hOut, hOuts⟩, hSpend, hOutput, by simp⟩
  · rintro ⟨hIn, ⟨hIns, hOut, hOuts⟩, hSpend, hOutput, -⟩
    refine ⟨hIn, hIns, hOut, hOuts, hSpend, hOutput, outputsFrom_isSome _ ?_⟩
    exact Int.add_nonneg hOutput.1 (Int.natCast_nonneg _)

end Go

/-! ## What the libraries write is a transaction of version 5 -/

namespace Sapling

theorem writeCompactsize_eq {n : Nat} (hn : n < 2 ^ 64) : writeCompactsize n = Zip244.compactSize n := by
  have hval : (UInt64.ofNat n).toNat = n := UInt64.toNat_ofNat_of_lt' hn
  unfold writeCompactsize compactsizeRaw Zip244.compactSize
  simp only [UInt64.lt_iff_toNat_lt, UInt64.le_iff_toNat_le, hval]
  simp

theorem length_le_of_mem {α : Type} (write : α → Bytes) {l : List α} {x : α} (h : x ∈ l) :
    (write x).length ≤ (l.flatMap write).length := by
  rw [List.flatMap_def]
  exact (List.sublist_flatten_of_mem (List.mem_map_of_mem h)).length_le

def SpendParts.raw (s : SpendParts) : RawTx.SpendDescription where
  cv := s.cv
  anchor := s.anchor
  nullifier := s.nullifier
  rk := s.rk
  zkproof := s.zkproof
  spendAuthSig := []

def OutputParts.raw (o : OutputParts) : RawTx.OutputDescription where
  cv := o.cv
  cmu := o.cmu
  ephemeralKey := o.ephemeralKey
  encCiphertext := o.encCiphertext
  outCiphertext := o.outCiphertext
  zkproof := o.zkproof

theorem SpendParts.writeV5_raw (s : SpendParts) : s.raw.writeV5 = s.write := by
  simp only [RawTx.SpendDescription.writeV5, raw, write, List.append_assoc]

theorem OutputParts.writeV5_raw (o : OutputParts) : o.raw.writeV5 = o.write := by
  simp only [RawTx.OutputDescription.writeV5, raw, write, List.append_assoc]

/-- The sizes of the arrays that the libraries keep the parts in. -/
structure SaplingTx.Sized (tx : SaplingTx) : Prop where
  spends : ∀ s ∈ tx.spends, s.Sized
  outputs : ∀ o ∈ tx.outputs, o.Sized

structure ShieldingTx.Sized (tx : ShieldingTx) : Prop where
  inputs : ∀ i ∈ tx.inputs, i.prevTxid.length = 32
  saplingOutputs : ∀ o ∈ tx.saplingOutputs, o.Sized

/-- What follows the outputs. -/
def SaplingTx.tail (tx : SaplingTx) : Bytes :=
  let bundle := !tx.spends.isEmpty || !tx.outputs.isEmpty
  (if bundle then i64ToLeBytes tx.valueBalance else []) ++ anchorOf tx.spends ++
    tx.spends.flatMap (·.zkproof) ++ tx.spendAuthSigs.flatten ++ tx.outputs.flatMap (·.zkproof) ++
    (if bundle then tx.bindingSig else []) ++ writeCompactsize 0

def ShieldingTx.tail (tx : ShieldingTx) : Bytes :=
  i64ToLeBytes tx.valueBalance ++ tx.saplingOutputs.flatMap (·.zkproof) ++ tx.bindingSig ++
    writeCompactsize 0

def SaplingTx.raw (tx : SaplingTx) : RawTx where
  hash := []
  version := .v5
  versionGroupId := u32ToLeBytes 0x26A7270A
  consensusBranchId := u32ToLeBytes tx.consensusBranchId
  lockTime := u32ToLeBytes 0
  expiryHeight := u32ToLeBytes tx.expiryHeight
  valueBalance := i64ToLeBytes tx.valueBalance
  txIns := []
  txOuts := []
  spends := tx.spends.map SpendParts.raw
  outputs := tx.outputs.map OutputParts.raw
  tail := tx.tail

def TransparentInput.raw (i : TransparentInput) (scriptSig : Bytes) : RawTx.TxIn where
  prevout := i.prevTxid ++ u32ToLeBytes i.vout
  scriptSig := scriptSig
  sequence := u32ToLeBytes sequence

def TransparentOutput.raw (o : TransparentOutput) : RawTx.TxOut where
  value := i64ToLeBytes o.value.toInt64
  scriptPubkey := o.scriptPubkey

def ShieldingTx.raw (tx : ShieldingTx) : RawTx where
  hash := []
  version := .v5
  versionGroupId := u32ToLeBytes 0x26A7270A
  consensusBranchId := u32ToLeBytes tx.consensusBranchId
  lockTime := u32ToLeBytes 0
  expiryHeight := u32ToLeBytes tx.expiryHeight
  valueBalance := i64ToLeBytes tx.valueBalance
  txIns := (tx.inputs.zip tx.scriptSigs).map fun p => p.1.raw p.2
  txOuts := tx.transparentOutputs.map TransparentOutput.raw
  spends := []
  outputs := tx.saplingOutputs.map OutputParts.raw
  tail := tx.tail

theorem SaplingTx.Sized.raw {tx : SaplingTx} (h : tx.Sized) : tx.raw.Sized where
  versionGroupId := length_u32ToLeBytes _
  consensusBranchId := length_u32ToLeBytes _
  lockTime := length_u32ToLeBytes _
  expiryHeight := length_u32ToLeBytes _
  txIns := by simp [SaplingTx.raw]
  txOuts := by simp [SaplingTx.raw]
  spends := by
    simp only [SaplingTx.raw, List.forall_mem_map]
    exact fun s hs => ⟨(h.spends s hs).cv, (h.spends s hs).nullifier, (h.spends s hs).rk⟩
  outputs := by
    simp only [SaplingTx.raw, List.forall_mem_map]
    exact fun o ho => ⟨(h.outputs o ho).cv, (h.outputs o ho).cmu, (h.outputs o ho).ephemeralKey,
      (h.outputs o ho).encCiphertext, (h.outputs o ho).outCiphertext⟩

theorem ShieldingTx.Sized.raw {tx : ShieldingTx} (h : tx.Sized) : tx.raw.Sized where
  versionGroupId := length_u32ToLeBytes _
  consensusBranchId := length_u32ToLeBytes _
  lockTime := length_u32ToLeBytes _
  expiryHeight := length_u32ToLeBytes _
  txIns := by
    simp only [ShieldingTx.raw, List.forall_mem_map]
    intro p hp
    simp only [TransparentInput.raw, List.length_append, length_u32ToLeBytes,
      h.inputs p.1 (List.of_mem_zip hp).1, and_self]
  txOuts := by
    simp only [ShieldingTx.raw, List.forall_mem_map]
    exact fun o _ => LittleEndian.length_bytesOf 8 _
  spends := by simp [ShieldingTx.raw]
  outputs := by
    simp only [ShieldingTx.raw, List.forall_mem_map]
    exact fun o ho => ⟨(h.saplingOutputs o ho).cv, (h.saplingOutputs o ho).cmu,
      (h.saplingOutputs o ho).ephemeralKey, (h.saplingOutputs o ho).encCiphertext,
      (h.saplingOutputs o ho).outCiphertext⟩

theorem length_outputs_le {outputs : List OutputParts} (h : ∀ o ∈ outputs, o.Sized) :
    outputs.length ≤ (outputs.flatMap OutputParts.write).length := by
  apply RawTx.length_le_flatMap
  intro o ho
  simp only [OutputParts.write, List.length_append, (h o ho).cv]
  omega

theorem serializeV5Tx_eq {tx : SaplingTx} {raw : Bytes} (hsized : tx.Sized)
    (h : serializeV5Tx tx = .ok raw) (hlen : raw.length < 2 ^ 63) : raw = tx.raw.writeV5 := by
  simp only [serializeV5Tx, bind_eq_ok] at h
  obtain ⟨_, -, h⟩ := h
  obtain rfl := Except.ok.inj h
  simp only [List.append_assoc, List.length_append] at hlen
  have hspends : tx.spends.length ≤ (tx.spends.flatMap SpendParts.write).length := by
    apply RawTx.length_le_flatMap
    intro s hs
    simp only [SpendParts.write, List.length_append, (hsized.spends s hs).cv]
    omega
  have houtputs := length_outputs_le hsized.outputs
  rw [RawTx.writeV5]
  simp only [SaplingTx.raw, RawTx.vector, List.length_map, List.flatMap_map, SpendParts.writeV5_raw,
    OutputParts.writeV5_raw, List.length_nil, List.flatMap_nil, List.append_nil, writeHeader,
    SaplingTx.tail, anchorOf, List.append_assoc]
  rewrite [writeCompactsize_eq (n := 0) (by omega), writeCompactsize_eq (n := tx.spends.length) (by omega),
    writeCompactsize_eq (n := tx.outputs.length) (by omega)]
  rfl

theorem TransparentInput.write_raw {i : TransparentInput} {s : Bytes} (hs : s.length < 2 ^ 64) :
    (i.raw s).write = i.write s := by
  simp only [RawTx.TxIn.write, TransparentInput.raw, Zip244.script, TransparentInput.write,
    writeCompactsize_eq hs, List.append_assoc]

theorem TransparentOutput.write_raw {o : TransparentOutput} (hs : o.scriptPubkey.length < 2 ^ 64) :
    o.raw.write = o.write := by
  simp only [RawTx.TxOut.write, TransparentOutput.raw, Zip244.script, TransparentOutput.write,
    writeCompactsize_eq hs, List.append_assoc]

theorem serializeShieldingV5Tx_eq {tx : ShieldingTx} (hsized : tx.Sized)
    (hsigs : tx.scriptSigs.length = tx.inputs.length)
    (hlen : (serializeShieldingV5Tx tx).length < 2 ^ 63) :
    serializeShieldingV5Tx tx = tx.raw.writeV5 := by
  unfold serializeShieldingV5Tx at hlen ⊢
  have hzip : (List.zipWith TransparentInput.write tx.inputs tx.scriptSigs).flatten =
      (tx.inputs.zip tx.scriptSigs).flatMap fun p => p.1.write p.2 := by
    rw [← List.map_uncurry_zip_eq_zipWith, List.flatMap_def]
    rfl
  have hcount : (tx.inputs.zip tx.scriptSigs).length = tx.inputs.length := by
    rw [List.length_zip, hsigs, Nat.min_self]
  rw [hzip] at hlen ⊢
  simp only [List.append_assoc, List.length_append] at hlen
  have hinputs : (tx.inputs.zip tx.scriptSigs).length ≤
      ((tx.inputs.zip tx.scriptSigs).flatMap fun p => p.1.write p.2).length := by
    apply RawTx.length_le_flatMap
    intro p hp
    simp only [TransparentInput.write, List.length_append, length_u32ToLeBytes]
    omega
  have hcountOuts : tx.transparentOutputs.length ≤
      (tx.transparentOutputs.flatMap TransparentOutput.write).length := by
    apply RawTx.length_le_flatMap
    intro o ho
    simp only [TransparentOutput.write, i64ToLeBytes, List.length_append, length_u64ToLeBytes]
    omega
  have houtputs := length_outputs_le hsized.saplingOutputs
  have hins : ((tx.inputs.zip tx.scriptSigs).flatMap fun p => (p.1.raw p.2).write) =
      (tx.inputs.zip tx.scriptSigs).flatMap fun p => p.1.write p.2 := by
    apply List.flatMap_congr
    intro p hp
    apply TransparentInput.write_raw
    have hle := length_le_of_mem (fun p : TransparentInput × Bytes => p.1.write p.2) hp
    have hsig : p.2.length ≤ (p.1.write p.2).length := by
      simp only [TransparentInput.write, List.length_append]
      omega
    omega
  have houts : (tx.transparentOutputs.flatMap fun o => o.raw.write) =
      tx.transparentOutputs.flatMap TransparentOutput.write := by
    apply List.flatMap_congr
    intro o ho
    apply TransparentOutput.write_raw
    have hle := length_le_of_mem TransparentOutput.write ho
    have hscript : o.scriptPubkey.length ≤ o.write.length := by
      simp only [TransparentOutput.write, List.length_append]
      omega
    omega
  rw [RawTx.writeV5]
  simp only [ShieldingTx.raw, RawTx.vector, List.length_map, List.flatMap_map, OutputParts.writeV5_raw,
    List.length_nil, List.flatMap_nil, List.append_nil, writeHeader, ShieldingTx.tail, hins, houts, hcount,
    List.append_assoc]
  rw [writeCompactsize_eq (n := 0) (by omega), writeCompactsize_eq (n := tx.inputs.length) (by omega),
    writeCompactsize_eq (n := tx.transparentOutputs.length) (by omega),
    writeCompactsize_eq (n := tx.saplingOutputs.length) (by omega)]

/-! ## The parser -/

variable {Rng : Type} (sig : SignLib Rng)

def OutputParts.found (o : OutputParts) : Go.SaplingOutput := ⟨o.cmu, o.ephemeralKey, o.encCiphertext⟩

/-- If a builder completed to these bytes, they are read as its outputs. -/
structure Undoes (rawTx : Bytes) : Prop where
  sapling : ∀ (b : TxBuilder) (sigData : Bytes) (rng : Rng) (tx : SaplingTx),
    b.completedTx sig sigData rng = .ok tx → tx.Sized → serializeV5Tx tx = .ok rawTx →
    Go.parseSaplingOutputsFromRawTx rawTx = some (tx.outputs.map OutputParts.found)
  shielding : ∀ (b : ShieldingTxBuilder) (sigData pkData : Bytes) (rng : Rng) (tx : ShieldingTx),
    b.completedTx sig sigData pkData rng = .ok tx → tx.Sized → serializeShieldingV5Tx tx = rawTx →
    Go.parseSaplingOutputsFromRawTx rawTx = some (tx.saplingOutputs.map OutputParts.found)

theorem ShieldingTxBuilder.length_scriptSigs_completed {b : ShieldingTxBuilder} {sigData pkData : Bytes}
    {rng : Rng} {tx : ShieldingTx} (h : b.completedTx sig sigData pkData rng = .ok tx) :
    tx.scriptSigs.length = tx.inputs.length := by
  simp only [completedTx, bind_eq_ok] at h
  obtain ⟨st, -, _, -, sigs, hsigs, h⟩ := h
  obtain rfl := Except.ok.inj h
  exact length_scriptSigs hsigs

theorem undoes {rawTx : Bytes} (hlen : rawTx.length < 2 ^ 63) : Undoes sig rawTx := by
  refine ⟨fun b sigData rng tx _ hsized h => ?_, fun b sigData pkData rng tx hb hsized h => ?_⟩
  · have heq := serializeV5Tx_eq hsized h hlen
    rw [heq] at hlen ⊢
    rw [Go.parse_writeV5 hsized.raw hlen]
    simp only [SaplingTx.raw, List.map_map]
    rfl
  · rw [← h] at hlen ⊢
    have hsigs := ShieldingTxBuilder.length_scriptSigs_completed sig hb
    have heq := serializeShieldingV5Tx_eq hsized hsigs hlen
    rw [heq] at hlen ⊢
    rw [Go.parse_writeV5 hsized.raw hlen]
    simp only [ShieldingTx.raw, List.map_map]
    rfl

/-- The parser undoes the serializers. On any bytes of a length that fits in memory it returns
if and only if they are too short, or no transaction of version 5, or each compact size before
the outputs is in place. -/
theorem parser_undoes_returns_iff (rawTx : Bytes) (hlen : rawTx.length < 2 ^ 63) :
    Undoes sig rawTx ∧ ((Go.parseSaplingOutputsFromRawTx rawTx).isSome ↔
      rawTx.length < 20 ∨ LittleEndian.value (slice rawTx 0 4) ≠ 0x80000005 ∨
        ∀ p ∈ Go.sizePlaces rawTx, Go.InPlace rawTx p) :=
  ⟨undoes sig hlen, Go.parse_isSome_iff⟩

section Samples

def sampleHeader : Bytes := [5, 0, 0, 128] ++ List.replicate 16 0

open ShieldingTxBuilder in
/-- The transaction that shields one input has one output, and the parser finds it. -/
theorem parser_undoes_returns_sample : ∃ b st raw output, ShieldsOne (sigOf 4) b st raw ∧
    st.saplingOutputs = [output] ∧
    Go.parseSaplingOutputsFromRawTx raw = some [output.found] ∧
    ∀ p ∈ Go.sizePlaces raw, Go.InPlace raw p := by
  have hsigs : takenSigs (sigOf 4) 1 = .ok [List.replicate 4 0x30] := rfl
  obtain ⟨b, st, raw, h⟩ := exists_shieldsOne hsigs
  obtain ⟨output, houtput⟩ := List.length_eq_one_iff.mp h.saplingOutputs
  have hraw : 20 ≤ raw.length ∧ raw.length < 2 ^ 63 ∧
      LittleEndian.value (slice raw 0 4) = 0x80000005 := by
    have hcheck : ((Runs.run (step wholeSapling) sampleBuilder shieldOneInput).bind fun b =>
        (b.complete wholeSig (some (sigOf 4)) (some oneKey) (some ()) ()).2.toOption).all
          (fun raw => decide (20 ≤ raw.length ∧ raw.length < 2 ^ 63 ∧
            LittleEndian.value (slice raw 0 4) = 0x80000005)) = true := by
      decide +kernel
    simpa only [h.run, h.complete, Option.bind_some, Except.toOption, Option.all_some,
      decide_eq_true_eq] using hcheck
  have hparser := parser_undoes_returns_iff wholeSig raw hraw.2.1
  obtain ⟨tx, htx, hbytes⟩ := map_eq_ok.mp h.complete
  have hsized := ((sized_new new_sampleBuilder).of_run wholeSapling_sizes h.run).built st h.finished
  have hparts : tx.inputs = st.inputs ∧ tx.saplingOutputs = st.saplingOutputs := by
    simp only [ShieldingTxBuilder.completedTx, bind_eq_ok] at htx
    obtain ⟨st', hst', _, -, sigs, -, htx⟩ := htx
    obtain rfl := Option.some.inj ((okOr_eq_ok.mp hst').symm.trans h.finished)
    obtain rfl := Except.ok.inj htx
    exact ⟨rfl, rfl⟩
  have hparse := hparser.1.shielding b _ _ () tx htx
    ⟨hparts.1 ▸ hsized.1.inputs, fun o ho => (hsized.1.saplingOutputs o (hparts.2 ▸ ho)).1⟩ hbytes
  rw [hparts.2, houtput] at hparse
  refine ⟨b, st, raw, output, h, houtput, hparse, ?_⟩
  rcases hparser.2.mp (by rw [hparse]; rfl) with hshort | hversion | hplaces
  · exact absurd hraw.1 (Nat.not_le.mpr hshort)
  · exact absurd hraw.2.2 hversion
  · exact hplaces

/-- The number of inputs is one, and there is none. -/
theorem parser_panics : Go.parseSaplingOutputsFromRawTx (sampleHeader ++ [1]) = none := by
  decide +kernel

end Samples

end Sapling
