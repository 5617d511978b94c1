import FrostZm.Frozt.Zip244

/-!
# Sapling outputs of raw transactions

A client fetches the transaction of a note to find the note's full ciphertext in it. TypeScript
takes any transaction with the overwinter bit for one of version 5. Go takes version 5 alone.
-/

/-! ## Transactions on the chain -/

namespace RawTx

structure TxIn where
  prevout : Bytes
  scriptSig : Bytes
  sequence : Bytes

structure TxOut where
  value : Bytes
  scriptPubkey : Bytes

structure SpendDescription where
  cv : Bytes
  anchor : Bytes
  nullifier : Bytes
  rk : Bytes
  zkproof : Bytes
  spendAuthSig : Bytes

structure OutputDescription where
  cv : Bytes
  cmu : Bytes
  ephemeralKey : Bytes
  encCiphertext : Bytes
  outCiphertext : Bytes
  zkproof : Bytes

inductive Version where
  | v4
  | v5
deriving DecidableEq

end RawTx

/-- A transaction, with what follows its Sapling outputs as bytes. -/
structure RawTx where
  hash : Bytes
  version : RawTx.Version
  versionGroupId : Bytes
  consensusBranchId : Bytes
  lockTime : Bytes
  expiryHeight : Bytes
  valueBalance : Bytes
  txIns : List RawTx.TxIn
  txOuts : List RawTx.TxOut
  spends : List RawTx.SpendDescription
  outputs : List RawTx.OutputDescription
  tail : Bytes

namespace RawTx

open Zip244 (compactSize script)

structure OutputDescription.Sized (o : OutputDescription) : Prop where
  cv : o.cv.length = 32
  cmu : o.cmu.length = 32
  ephemeralKey : o.ephemeralKey.length = 32
  encCiphertext : o.encCiphertext.length = 580
  outCiphertext : o.outCiphertext.length = 80

structure SpendDescription.Sized (s : SpendDescription) : Prop where
  cv : s.cv.length = 32
  nullifier : s.nullifier.length = 32
  rk : s.rk.length = 32

structure Sized (tx : RawTx) : Prop where
  versionGroupId : tx.versionGroupId.length = 4
  consensusBranchId : tx.consensusBranchId.length = 4
  lockTime : tx.lockTime.length = 4
  expiryHeight : tx.expiryHeight.length = 4
  txIns : ∀ i ∈ tx.txIns, i.prevout.length = 36 ∧ i.sequence.length = 4
  txOuts : ∀ o ∈ tx.txOuts, o.value.length = 8
  spends : ∀ s ∈ tx.spends, s.Sized
  outputs : ∀ o ∈ tx.outputs, o.Sized

def TxIn.write (i : TxIn) : Bytes := i.prevout ++ (script i.scriptSig ++ i.sequence)

def TxOut.write (o : TxOut) : Bytes := o.value ++ script o.scriptPubkey

/-- A list behind its length. -/
def vector {α : Type} (write : α → Bytes) (l : List α) : Bytes :=
  compactSize l.length ++ l.flatMap write

/-- In version 5 what the spends share and what signs them comes later. -/
def SpendDescription.writeV5 (s : SpendDescription) : Bytes := s.cv ++ (s.nullifier ++ s.rk)

def SpendDescription.writeV4 (s : SpendDescription) : Bytes :=
  s.cv ++ (s.anchor ++ (s.nullifier ++ (s.rk ++ (s.zkproof ++ s.spendAuthSig))))

def OutputDescription.writeV5 (o : OutputDescription) : Bytes :=
  o.cv ++ (o.cmu ++ (o.ephemeralKey ++ (o.encCiphertext ++ o.outCiphertext)))

def OutputDescription.writeV4 (o : OutputDescription) : Bytes := o.writeV5 ++ o.zkproof

def writeV5 (tx : RawTx) : Bytes :=
  u32ToLeBytes 0x80000005 ++ (tx.versionGroupId ++ (tx.consensusBranchId ++ (tx.lockTime ++
    (tx.expiryHeight ++ (vector TxIn.write tx.txIns ++ (vector TxOut.write tx.txOuts ++
      (vector SpendDescription.writeV5 tx.spends ++ (vector OutputDescription.writeV5 tx.outputs ++
        tx.tail))))))))

def writeV4 (tx : RawTx) : Bytes :=
  u32ToLeBytes 0x80000004 ++ (tx.versionGroupId ++ (vector TxIn.write tx.txIns ++
    (vector TxOut.write tx.txOuts ++ (tx.lockTime ++ (tx.expiryHeight ++ (tx.valueBalance ++
      (vector SpendDescription.writeV4 tx.spends ++ (vector OutputDescription.writeV4 tx.outputs ++
        tx.tail))))))))

def write (tx : RawTx) : Bytes :=
  match tx.version with
  | .v4 => tx.writeV4
  | .v5 => tx.writeV5

end RawTx

/-! ## TypeScript -/

namespace Ts

/-- A `DataView` read of so many bytes. -/
def getUint (rawTx : Bytes) (offset len : Nat) : Option Nat :=
  if offset + len ≤ rawTx.length then some (LittleEndian.value (slice rawTx offset len)) else none

/-- The value, and the offset behind it. Eight bytes are not read, and neither is what is not
there. -/
def readCompactSize (data : Bytes) (offset : Nat) : Option (Nat × Nat) :=
  match data[offset]? with
  | none => some (0, offset + 9)
  | some first =>
    if first < 253 then some (first.toNat, offset + 1)
    else if first = 253 then (getUint data (offset + 1) 2).map fun v => (v, offset + 3)
    else if first = 254 then (getUint data (offset + 1) 4).map fun v => (v, offset + 5)
    else some (0, offset + 9)

/-- The loops over the transparent lists, with the bytes before and behind each script. -/
def skipScripts (rawTx : Bytes) (before behind : Nat) : Nat → Nat → Option Nat
  | 0, offset => some offset
  | n + 1, offset => do
    let (scriptLen, next) ← readCompactSize rawTx (offset + before)
    skipScripts rawTx before behind n (next + scriptLen + behind)

/-- The loop over the outputs, of which so many are left. -/
def outputAt (rawTx : Bytes) (outputIndex : Nat) : Nat → Nat → Nat → Option Bytes
  | 0, _, _ => none
  | n + 1, i, offset =>
    if i = outputIndex then
      let encStart := offset + 32 + 32 + 32
      if encStart + 580 > rawTx.length then none else some (slice rawTx encStart 580)
    else outputAt rawTx outputIndex n (i + 1) (offset + 756)

/-- The ciphertext, unless the answer is `null` or something throws. -/
def extractSaplingEncCiphertext (rawTx : Bytes) (outputIndex : Nat) : Option Bytes := do
  let header ← getUint rawTx 0 4
  if header < 0x80000000 then none
  else
    let (nTxIn, offset) ← readCompactSize rawTx (4 + 4 + 4 + 4 + 4)
    let offset ← skipScripts rawTx 36 4 nTxIn offset
    let (nTxOut, offset) ← readCompactSize rawTx offset
    let offset ← skipScripts rawTx 8 0 nTxOut offset
    let (nSpendsSapling, offset) ← readCompactSize rawTx offset
    let (nOutputsSapling, offset) ← readCompactSize rawTx (offset + 96 * nSpendsSapling)
    outputAt rawTx outputIndex nOutputsSapling 0 offset

end Ts

/-! ## Go -/

namespace Go

/-- `int(n)` of a `uint64`. -/
def int (n : UInt64) : Int := n.toInt64.toInt

/-- What an `int` of 64 bits keeps of a sum or a product. -/
def wrap (n : Int) : Int := n.bmod (2 ^ 64)

/-- `rawTx[offset:]`, which panics outside. -/
def sliceFrom (rawTx : Bytes) (offset : Int) : Option Bytes :=
  if 0 ≤ offset ∧ offset ≤ rawTx.length then some (rawTx.drop offset.toNat) else none

/-- The value of so many bytes behind the first. The slice has no capacity beyond its length. -/
def uintBehind (data : Bytes) (len : Nat) : Option (UInt64 × Int) :=
  if len + 1 ≤ data.length then
    some (.ofNat (LittleEndian.value (slice data 1 len)), len + 1)
  else none

/-- The value, and how many bytes it has. -/
def readCompactSize (data : Bytes) : Option (UInt64 × Int) :=
  match data with
  | [] => some (0, 0)
  | first :: _ =>
    if first < 253 then some (.ofNat first.toNat, 1)
    else if first = 253 then uintBehind data 2
    else if first = 254 then uintBehind data 4
    else uintBehind data 8

/-- A compact size in place, and the offset behind it. -/
def compactSizeAt (rawTx : Bytes) (offset : Int) : Option (UInt64 × Int) := do
  let data ← sliceFrom rawTx offset
  let (n, bytesRead) ← readCompactSize data
  return (n, offset + bytesRead)

def skipScripts (rawTx : Bytes) (before behind : Int) : Nat → Int → Option Int
  | 0, offset => some offset
  | n + 1, offset => do
    let (scriptLen, next) ← compactSizeAt rawTx (wrap (offset + before))
    skipScripts rawTx before behind n (wrap (next + int scriptLen + behind))

structure SaplingOutput where
  cmu : Bytes
  ephemeralKey : Bytes
  encCiphertext : Bytes
deriving DecidableEq

def outputsFrom (rawTx : Bytes) : Nat → Int → Option (List SaplingOutput)
  | 0, _ => some []
  | n + 1, offset =>
    if offset + 756 > rawTx.length then some []
    else do
      let data ← sliceFrom rawTx (offset + 32)
      let rest ← outputsFrom rawTx n (offset + 756)
      return ⟨data.take 32, slice data 32 32, slice data 64 580⟩ :: rest

/-- `ParseSaplingOutputsFromRawTx`, unless it panics. -/
def parseSaplingOutputsFromRawTx (rawTx : Bytes) : Option (List SaplingOutput) :=
  if rawTx.length < 20 then some []
  else if LittleEndian.value (slice rawTx 0 4) ≠ 0x80000005 then some []
  else do
    let (txInCount, offset) ← compactSizeAt rawTx (4 + 4 + 4 + 4 + 4)
    let offset ← skipScripts rawTx (32 + 4) 4 (int txInCount).toNat offset
    let (txOutCount, offset) ← compactSizeAt rawTx offset
    let offset ← skipScripts rawTx 8 0 (int txOutCount).toNat offset
    let (nSpendsSapling, offset) ← compactSizeAt rawTx offset
    let (nOutputsSapling, offset) ← compactSizeAt rawTx (wrap (offset + int nSpendsSapling * 96))
    outputsFrom rawTx (int nOutputsSapling).toNat offset

end Go

/-! ## Places in a byte string -/

/-- What stands behind an offset. -/
def At (data : Bytes) (offset : Nat) (rest : Bytes) : Prop :=
  ∃ before, data = before ++ rest ∧ before.length = offset

namespace At

variable {data a rest : Bytes} {offset : Nat}

theorem start (data : Bytes) : At data 0 data := ⟨[], rfl, rfl⟩

theorem advance (h : At data offset (a ++ rest)) : At data (offset + a.length) rest := by
  obtain ⟨before, rfl, rfl⟩ := h
  exact ⟨before ++ a, (List.append_assoc _ _ _).symm, List.length_append⟩

theorem skip (h : At data offset (a ++ rest)) {n : Nat} (hn : a.length = n) :
    At data (offset + n) rest := hn ▸ h.advance

theorem drop (h : At data offset rest) : data.drop offset = rest := by
  obtain ⟨before, rfl, rfl⟩ := h
  exact List.drop_left

theorem length_le (h : At data offset rest) : offset + rest.length = data.length := by
  obtain ⟨before, rfl, rfl⟩ := h
  exact List.length_append.symm

theorem slice_eq (h : At data offset (a ++ rest)) {n : Nat} (hn : a.length = n) :
    slice data offset n = a := by
  unfold slice
  rw [h.drop, List.take_left' hn]

theorem getElem_eq {b : UInt8} (h : At data offset (b :: rest)) : data[offset]? = some b := by
  obtain ⟨before, rfl, rfl⟩ := h
  rw [List.getElem?_append_right (le_refl _), Nat.sub_self, List.getElem?_cons_zero]

end At

theorem length_compactSize_pos (n : Nat) : 0 < (Zip244.compactSize n).length := by
  unfold Zip244.compactSize
  split
  · exact Nat.one_pos
  · split
    · exact Nat.succ_pos _
    · split <;> exact Nat.succ_pos _

theorem compactSize_forms {n : Nat} (hn : n < 2 ^ 32) :
    (n < 253 ∧ Zip244.compactSize n = [.ofNat n]) ∨
    (∃ b, Zip244.compactSize n = 253 :: b ∧ b.length = 2 ∧ LittleEndian.value b = n) ∨
    (∃ b, Zip244.compactSize n = 254 :: b ∧ b.length = 4 ∧ LittleEndian.value b = n) := by
  unfold Zip244.compactSize
  split
  · next h => exact .inl ⟨h, rfl⟩
  · split
    · next h =>
      refine .inr (.inl ⟨_, rfl, length_u16ToLeBytes _, ?_⟩)
      unfold u16ToLeBytes
      rw [UInt16.toNat_ofNat_of_lt' (show n < 65536 by omega)]
      exact LittleEndian.value_bytesOf_of_lt (by omega)
    · rw [if_pos (by omega)]
      refine .inr (.inr ⟨_, rfl, length_u32ToLeBytes _, ?_⟩)
      unfold u32ToLeBytes
      rw [UInt32.toNat_ofNat_of_lt' (show n < 4294967296 by omega)]
      exact LittleEndian.value_bytesOf_of_lt (by omega)

namespace RawTx

open Zip244 (compactSize script)

theorem OutputDescription.Sized.length_writeV5 {o : OutputDescription} (ho : o.Sized) :
    o.writeV5.length = 756 := by
  unfold writeV5
  simp only [List.length_append, ho.cv, ho.cmu, ho.ephemeralKey, ho.encCiphertext, ho.outCiphertext]

theorem SpendDescription.Sized.length_writeV5 {s : SpendDescription} (hs : s.Sized) :
    s.writeV5.length = 96 := by
  unfold writeV5
  simp only [List.length_append, hs.cv, hs.nullifier, hs.rk]

theorem length_spends {spends : List SpendDescription} (h : ∀ s ∈ spends, s.Sized) :
    (spends.flatMap SpendDescription.writeV5).length = 96 * spends.length := by
  induction spends with
  | nil => rfl
  | cons s rest ih =>
    rw [List.forall_mem_cons] at h
    rw [List.flatMap_cons, List.length_append, h.1.length_writeV5, ih h.2, List.length_cons]
    omega

theorem length_le_flatMap {α : Type} {write : α → Bytes} {l : List α}
    (h : ∀ x ∈ l, 1 ≤ (write x).length) : l.length ≤ (l.flatMap write).length := by
  induction l with
  | nil => exact Nat.zero_le _
  | cons x l ih =>
    rw [List.forall_mem_cons] at h
    have hrest := ih h.2
    rw [List.flatMap_cons, List.length_append, List.length_cons]
    omega

/-- Bytes with a script between so many before it and so many behind it. -/
def Around (before behind : Nat) (b : Bytes) : Prop :=
  ∃ pre s post, b = pre ++ (script s ++ post) ∧ pre.length = before ∧ post.length = behind

theorem Around.pos {before behind : Nat} {b : Bytes} (h : Around before behind b) :
    1 ≤ b.length := by
  obtain ⟨pre, s, post, rfl, -, -⟩ := h
  have hpos := length_compactSize_pos s.length
  unfold script
  simp only [List.length_append]
  omega

variable {tx : RawTx}

theorem Sized.around_txIns (h : tx.Sized) : ∀ i ∈ tx.txIns, Around 36 4 i.write := by
  intro i hi
  exact ⟨i.prevout, i.scriptSig, i.sequence, rfl, h.txIns i hi⟩

theorem Sized.around_txOuts (h : tx.Sized) : ∀ o ∈ tx.txOuts, Around 8 0 o.write := by
  intro o ho
  refine ⟨o.value, o.scriptPubkey, [], ?_, h.txOuts o ho, rfl⟩
  rw [List.append_nil]
  rfl

theorem Sized.at_lists (h : tx.Sized) :
    At tx.writeV5 20 (compactSize tx.txIns.length ++ (tx.txIns.flatMap TxIn.write ++
      (compactSize tx.txOuts.length ++ (tx.txOuts.flatMap TxOut.write ++
        (compactSize tx.spends.length ++ (tx.spends.flatMap SpendDescription.writeV5 ++
          (compactSize tx.outputs.length ++ (tx.outputs.flatMap OutputDescription.writeV5 ++
            tx.tail)))))))) := by
  have hstart := At.start tx.writeV5
  unfold writeV5 vector at hstart
  simp only [List.append_assoc] at hstart
  unfold writeV5 vector
  simp only [List.append_assoc]
  exact ((((hstart.skip (length_u32ToLeBytes _)).skip h.versionGroupId).skip
    h.consensusBranchId).skip h.lockTime).skip h.expiryHeight

theorem Sized.counts (h : tx.Sized) {n : Nat} (hlen : tx.writeV5.length < n) :
    tx.txIns.length < n ∧ tx.txOuts.length < n ∧ tx.spends.length < n ∧ tx.outputs.length < n := by
  have hIns := length_le_flatMap fun i hi => (h.around_txIns i hi).pos
  have hOuts := length_le_flatMap fun o ho => (h.around_txOuts o ho).pos
  have hSpends := length_spends h.spends
  have hOutputs : tx.outputs.length ≤ (tx.outputs.flatMap OutputDescription.writeV5).length :=
    length_le_flatMap fun o ho => by rw [(h.outputs o ho).length_writeV5]; decide
  have hle := h.at_lists.length_le
  simp only [List.length_append] at hle
  exact ⟨by omega, by omega, by omega, by omega⟩

end RawTx

/-! ## Reading in TypeScript -/

namespace Ts

variable {data rest : Bytes} {offset : Nat}

theorem getUint_at {b : Bytes} (h : At data offset (b ++ rest)) {len : Nat} (hlen : b.length = len) :
    getUint data offset len = some (LittleEndian.value b) := by
  have hle := h.length_le
  rw [List.length_append] at hle
  unfold getUint
  rw [if_pos (by omega), h.slice_eq hlen]

theorem readCompactSize_at {n : Nat} (h : At data offset (Zip244.compactSize n ++ rest))
    (hn : n < 2 ^ 32) :
    readCompactSize data offset = some (n, offset + (Zip244.compactSize n).length) := by
  unfold readCompactSize
  rcases compactSize_forms hn with ⟨hlt, hform⟩ | ⟨b, hform, hlen, hvalue⟩ | ⟨b, hform, hlen, hvalue⟩
  · have hbyte : (UInt8.ofNat n).toNat = n :=
      UInt8.toNat_ofNat_of_lt' (show n < 256 by omega)
    rw [hform, List.singleton_append] at h
    rw [h.getElem_eq, hform]
    simp only
    rw [if_pos (UInt8.lt_iff_toNat_lt.mpr (by rw [hbyte]; exact hlt)), hbyte]
    rfl
  · rw [hform, List.cons_append] at h
    have hnext : At data (offset + 1) (b ++ rest) := h.skip (a := [253]) rfl
    rw [h.getElem_eq, hform]
    simp only
    rw [if_neg (by decide), if_pos trivial, getUint_at hnext hlen, hvalue, Option.map_some,
      List.length_cons, hlen]
  · rw [hform, List.cons_append] at h
    have hnext : At data (offset + 1) (b ++ rest) := h.skip (a := [254]) rfl
    rw [h.getElem_eq, hform]
    simp only
    rw [if_neg (by decide), if_neg (by decide), if_pos trivial, getUint_at hnext hlen, hvalue,
      Option.map_some, List.length_cons, hlen]

theorem skipScripts_at {α : Type} {write : α → Bytes} {before behind : Nat} {l : List α}
    (hwrite : ∀ x ∈ l, RawTx.Around before behind (write x))
    (h : At data offset (l.flatMap write ++ rest)) (hlen : data.length < 2 ^ 32) :
    skipScripts data before behind l.length offset = some (offset + (l.flatMap write).length) := by
  induction l generalizing offset with
  | nil => rfl
  | cons x l ih =>
    rw [List.forall_mem_cons] at hwrite
    obtain ⟨⟨pre, s, post, hx, hpre, hpost⟩, hrest⟩ := hwrite
    rw [List.flatMap_cons, hx] at h
    unfold Zip244.script at h
    simp only [List.append_assoc] at h
    have hsize := h.skip hpre
    have hscript := hsize.advance
    have hbehind := hscript.advance
    have hnext := hbehind.skip hpost
    have hs : s.length < 2 ^ 32 := by
      have hle := hscript.length_le
      rw [List.length_append] at hle
      omega
    rw [List.length_cons, skipScripts, readCompactSize_at hsize hs]
    simp only [Option.bind_eq_bind, Option.bind_some]
    rw [ih hrest hnext, List.flatMap_cons, hx]
    unfold Zip244.script
    simp only [List.length_append]
    congr 1
    omega

theorem outputAt_at {outputs : List RawTx.OutputDescription} (hsized : ∀ o ∈ outputs, o.Sized)
    (h : At data offset (outputs.flatMap RawTx.OutputDescription.writeV5 ++ rest))
    {outputIndex i : Nat} (hi : i ≤ outputIndex) :
    outputAt data outputIndex outputs.length i offset =
      outputs[outputIndex - i]?.map RawTx.OutputDescription.encCiphertext := by
  induction outputs generalizing offset i with
  | nil => rfl
  | cons o outputs ih =>
    rw [List.forall_mem_cons] at hsized
    obtain ⟨ho, hrest⟩ := hsized
    rw [List.flatMap_cons, List.append_assoc] at h
    rw [List.length_cons, outputAt]
    split
    · next heq =>
      unfold RawTx.OutputDescription.writeV5 at h
      simp only [List.append_assoc] at h
      have henc := ((h.skip ho.cv).skip ho.cmu).skip ho.ephemeralKey
      have hle := henc.length_le
      rw [List.length_append, ho.encCiphertext] at hle
      dsimp only
      rw [if_neg (by omega), henc.slice_eq ho.encCiphertext, heq, Nat.sub_self]
      rfl
    · next hne =>
      have hsub : outputIndex - i = outputIndex - (i + 1) + 1 := by omega
      rw [ih hrest (h.skip ho.length_writeV5) (by omega), hsub, List.getElem?_cons_succ]

theorem extract_writeV5 {tx : RawTx} (hsized : tx.Sized) (hlen : tx.writeV5.length < 2 ^ 32)
    (outputIndex : Nat) :
    extractSaplingEncCiphertext tx.writeV5 outputIndex =
      tx.outputs[outputIndex]?.map RawTx.OutputDescription.encCiphertext := by
  have hheader : getUint tx.writeV5 0 4 = some 0x80000005 :=
    getUint_at (At.start tx.writeV5) (length_u32ToLeBytes _)
  have hIn := hsized.at_lists
  have hIns := hIn.advance
  have hOut := hIns.advance
  have hOuts := hOut.advance
  have hSpend := hOuts.advance
  have hSpends := hSpend.advance
  have hOutput := hSpends.skip (RawTx.length_spends hsized.spends)
  have hOutputs := hOutput.advance
  obtain ⟨hnIns, hnOuts, hnSpends, hnOutputs⟩ := hsized.counts hlen
  unfold extractSaplingEncCiphertext
  rw [hheader]
  simp only [Option.bind_eq_bind, Option.bind_some]
  rw [if_neg (by decide), readCompactSize_at hIn hnIns]
  simp only [Option.bind_some]
  rw [skipScripts_at hsized.around_txIns hIns hlen, Option.bind_some,
    readCompactSize_at hOut hnOuts]
  simp only [Option.bind_some]
  rw [skipScripts_at hsized.around_txOuts hOuts hlen, Option.bind_some,
    readCompactSize_at hSpend hnSpends]
  simp only [Option.bind_some]
  rw [readCompactSize_at hOutput hnOutputs]
  simp only [Option.bind_some]
  exact outputAt_at hsized.outputs hOutputs (Nat.zero_le _)

end Ts

/-! ## Reading in Go -/

namespace Go

variable {data rest : Bytes} {offset : Nat}

theorem int_ofNat {n : Nat} (h : n < 2 ^ 63) : int (.ofNat n) = n := by
  unfold int
  rw [UInt64.toInt64_ofNat', Int64.toInt_ofNat_of_lt h]

theorem wrap_natCast {n : Nat} (h : n < 2 ^ 63) : wrap n = n := by
  unfold wrap
  apply Int.bmod_eq_of_le <;> omega

theorem sliceFrom_at (h : At data offset rest) : sliceFrom data offset = some rest := by
  have hle := h.length_le
  unfold sliceFrom
  rw [if_pos (by omega), Int.toNat_natCast, h.drop]

theorem uintBehind_eq {first : UInt8} {b : Bytes} {len : Nat} (hlen : b.length = len) :
    uintBehind (first :: (b ++ rest)) len =
      some (.ofNat (LittleEndian.value b), ((len + 1 : Nat) : Int)) := by
  unfold uintBehind slice
  rw [if_pos (by simp [← hlen]), List.drop_succ_cons, List.drop_zero, List.take_left' hlen]
  rfl

theorem compactSizeAt_at {n : Nat} (h : At data offset (Zip244.compactSize n ++ rest))
    (hn : n < 2 ^ 63) :
    compactSizeAt data offset = some (.ofNat n, ((offset + (Zip244.compactSize n).length : Nat) : Int)) := by
  unfold compactSizeAt
  rw [sliceFrom_at h]
  simp only [Option.bind_eq_bind, Option.bind_some]
  by_cases hshort : n < 2 ^ 32
  · rcases compactSize_forms hshort with ⟨hlt, hform⟩ | ⟨b, hform, hlen, hvalue⟩ |
      ⟨b, hform, hlen, hvalue⟩
    · have hbyte : (UInt8.ofNat n).toNat = n :=
        UInt8.toNat_ofNat_of_lt' (show n < 256 by omega)
      rw [hform, List.singleton_append, readCompactSize]
      rw [if_pos (UInt8.lt_iff_toNat_lt.mpr (by rw [hbyte]; exact hlt)), hbyte]
      rfl
    · rw [hform, List.cons_append, readCompactSize, if_neg (by decide), if_pos rfl,
        uintBehind_eq hlen, hvalue, List.length_cons, hlen]
      rfl
    · rw [hform, List.cons_append, readCompactSize, if_neg (by decide), if_neg (by decide),
        if_pos rfl, uintBehind_eq hlen, hvalue, List.length_cons, hlen]
      rfl
  · have hform : Zip244.compactSize n = 255 :: u64ToLeBytes (.ofNat n) := by
      unfold Zip244.compactSize
      rw [if_neg (by omega), if_neg (by omega), if_neg (by omega)]
    have hvalue : LittleEndian.value (u64ToLeBytes (.ofNat n)) = n := by
      unfold u64ToLeBytes
      rw [UInt64.toNat_ofNat_of_lt' (show n < 18446744073709551616 by omega)]
      exact LittleEndian.value_bytesOf_of_lt (by omega)
    rw [hform, List.cons_append, readCompactSize, if_neg (by decide), if_neg (by decide),
      if_neg (by decide), uintBehind_eq (length_u64ToLeBytes _), hvalue, List.length_cons,
      length_u64ToLeBytes]
    rfl

theorem skipScripts_at {α : Type} {write : α → Bytes} {before behind : Nat} {l : List α}
    (hwrite : ∀ x ∈ l, RawTx.Around before behind (write x))
    (h : At data offset (l.flatMap write ++ rest)) (hlen : data.length < 2 ^ 63) :
    skipScripts data before behind l.length offset =
      some ((offset + (l.flatMap write).length : Nat) : Int) := by
  induction l generalizing offset with
  | nil => rfl
  | cons x l ih =>
    rw [List.forall_mem_cons] at hwrite
    obtain ⟨⟨pre, s, post, hx, hpre, hpost⟩, hrest⟩ := hwrite
    rw [List.flatMap_cons, hx] at h
    unfold Zip244.script at h
    simp only [List.append_assoc] at h
    have hsize := h.skip hpre
    have hscript := hsize.advance
    have hbehind := hscript.advance
    have hnext := hbehind.skip hpost
    have hle := hnext.length_le
    have hs : s.length < 2 ^ 63 := by omega
    rw [List.length_cons, skipScripts, ← Int.natCast_add, wrap_natCast (by omega),
      compactSizeAt_at hsize hs]
    simp only [Option.bind_eq_bind, Option.bind_some]
    rw [int_ofNat hs, ← Int.natCast_add, ← Int.natCast_add, wrap_natCast (by omega), ih hrest hnext,
      List.flatMap_cons, hx]
    unfold Zip244.script
    simp only [List.length_append]
    congr 1
    omega

theorem outputsFrom_at {outputs : List RawTx.OutputDescription} (hsized : ∀ o ∈ outputs, o.Sized)
    (h : At data offset (outputs.flatMap RawTx.OutputDescription.writeV5 ++ rest)) :
    outputsFrom data outputs.length offset =
      some (outputs.map fun o => ⟨o.cmu, o.ephemeralKey, o.encCiphertext⟩) := by
  induction outputs generalizing offset with
  | nil => rfl
  | cons o outputs ih =>
    rw [List.forall_mem_cons] at hsized
    obtain ⟨ho, hrest⟩ := hsized
    rw [List.flatMap_cons, List.append_assoc] at h
    have hnext := h.skip ho.length_writeV5
    have hle := hnext.length_le
    have hrec := ih hrest hnext
    unfold RawTx.OutputDescription.writeV5 at h
    simp only [List.append_assoc] at h
    have hcmu := h.skip ho.cv
    have hsliced := sliceFrom_at hcmu
    have hfirst := hcmu.skip ho.cmu
    have hcmu' := hcmu.slice_eq ho.cmu
    simp only [Int.natCast_add] at hrec hsliced
    rw [List.length_cons, outputsFrom, if_neg (by omega)]
    simp only [Option.bind_eq_bind]
    rw [show ((offset : Int) + 32) = (offset : Int) + ((32 : Nat) : Int) from rfl, hsliced,
      Option.bind_some, show ((offset : Int) + 756) = (offset : Int) + ((756 : Nat) : Int) from rfl,
      hrec, Option.bind_some, List.map_cons]
    have hkey (r : Bytes) : slice (o.cmu ++ (o.ephemeralKey ++ (o.encCiphertext ++ r))) 32 32 =
        o.ephemeralKey := ((At.start _).skip ho.cmu).slice_eq ho.ephemeralKey
    have henc (r : Bytes) : slice (o.cmu ++ (o.ephemeralKey ++ (o.encCiphertext ++ r))) 64 580 =
        o.encCiphertext := (((At.start _).skip ho.cmu).skip ho.ephemeralKey).slice_eq ho.encCiphertext
    rw [List.take_left' ho.cmu, hkey, henc]
    rfl

theorem parse_writeV5 {tx : RawTx} (hsized : tx.Sized) (hlen : tx.writeV5.length < 2 ^ 63) :
    parseSaplingOutputsFromRawTx tx.writeV5 =
      some (tx.outputs.map fun o => ⟨o.cmu, o.ephemeralKey, o.encCiphertext⟩) := by
  have hheader : slice tx.writeV5 0 4 = u32ToLeBytes 0x80000005 :=
    (At.start tx.writeV5).slice_eq (length_u32ToLeBytes _)
  have hIn := hsized.at_lists
  have hIns := hIn.advance
  have hOut := hIns.advance
  have hOuts := hOut.advance
  have hSpend := hOuts.advance
  have hSpends := hSpend.advance
  have hOutput := hSpends.skip (RawTx.length_spends hsized.spends)
  have hOutputs := hOutput.advance
  obtain ⟨hnIns, hnOuts, hnSpends, hnOutputs⟩ := hsized.counts hlen
  unfold parseSaplingOutputsFromRawTx
  have hlong : ¬ tx.writeV5.length < 20 := by
    have hle := hIn.length_le
    omega
  rw [if_neg hlong, hheader, if_neg (by decide),
    show (4 + 4 + 4 + 4 + 4 : Int) = ((20 : Nat) : Int) from rfl, compactSizeAt_at hIn hnIns]
  simp only [Option.bind_eq_bind, Option.bind_some]
  rw [int_ofNat hnIns, Int.toNat_natCast,
    show (32 + 4 : Int) = ((36 : Nat) : Int) from rfl, show (4 : Int) = ((4 : Nat) : Int) from rfl,
    skipScripts_at hsized.around_txIns hIns hlen, Option.bind_some, compactSizeAt_at hOut hnOuts]
  simp only [Option.bind_some]
  rw [int_ofNat hnOuts, Int.toNat_natCast, show (8 : Int) = ((8 : Nat) : Int) from rfl,
    show (0 : Int) = ((0 : Nat) : Int) from rfl, skipScripts_at hsized.around_txOuts hOuts hlen,
    Option.bind_some, compactSizeAt_at hSpend hnSpends]
  simp only [Option.bind_some]
  have hread := compactSizeAt_at hOutput hnOutputs
  have hle := hOutputs.length_le
  rw [Nat.mul_comm, ← wrap_natCast (by omega), Int.natCast_add, Int.natCast_mul] at hread
  rw [int_ofNat hnSpends, show (96 : Int) = ((96 : Nat) : Int) from rfl, hread]
  simp only [Option.bind_some]
  have hfound := outputsFrom_at hsized.outputs hOutputs
  rw [Nat.mul_comm] at hfound
  rw [int_ofNat hnOutputs, Int.toNat_natCast]
  exact hfound

theorem parse_writeV4 (tx : RawTx) : parseSaplingOutputsFromRawTx tx.writeV4 = some [] := by
  have hheader : slice tx.writeV4 0 4 = u32ToLeBytes 0x80000004 :=
    (At.start tx.writeV4).slice_eq (length_u32ToLeBytes _)
  unfold parseSaplingOutputsFromRawTx
  split
  · rfl
  · rw [hheader, if_pos (by decide)]

end Go
